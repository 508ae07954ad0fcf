import NocapCrypt.Worker.Ranges

/-! What one step of a range may touch, and the invariant that every interleaving keeps: each range
has put a prefix of its slice of the reference result into its own window and nothing elsewhere. -/

namespace NocapCrypt.Worker

open NocapCrypt.Library.Image NocapCrypt.Library.Runs NocapCrypt.Core NocapCrypt.BlockIo

/-- Everything one step of a range can do. -/
inductive RangeStep (job : RangeJob) (r : SectorRange) (s : Shared) : Phase → Move → Shared → Phase → Prop
  | startReading (h : 0 < r.available job.dataLen) :
      RangeStep job r s .waiting .compute s (.reading 0 (List.replicate r.byteLen 0))
  | startPadding (h : r.available job.dataLen = 0) :
      RangeStep job r s .waiting .compute s (.transforming (List.replicate r.byteLen 0))
  | readFault {filled buf answer e}
      (h : readPass job.input.directIoActive (s.disk job.input.file) (r.byteOffset + filled)
        (r.available job.dataLen - filled) answer = .error e) :
      RangeStep job r s (.reading filled buf) (.kernel answer) s (.failed 0 e)
  | readSome {filled buf answer bytes}
      (h : readPass job.input.directIoActive (s.disk job.input.file) (r.byteOffset + filled)
        (r.available job.dataLen - filled) answer = .ok bytes)
      (hlt : filled + bytes.length < r.available job.dataLen) :
      RangeStep job r s (.reading filled buf) (.kernel answer) s
        (.reading (filled + bytes.length) (overwrite buf filled bytes))
  | readLast {filled buf answer bytes}
      (h : readPass job.input.directIoActive (s.disk job.input.file) (r.byteOffset + filled)
        (r.available job.dataLen - filled) answer = .ok bytes)
      (hle : r.available job.dataLen ≤ filled + bytes.length) :
      RangeStep job r s (.reading filled buf) (.kernel answer) s (.transforming (overwrite buf filled bytes))
  | transform {buf out} (h : job.engine.cryptRange job.encrypt r.firstSector buf = .ok out) (hne : out ≠ []) :
      RangeStep job r s (.transforming buf) .compute
        { s with ciphered := s.ciphered ++ sectorUses job.engine r buf.length } (.writing 0 out)
  | transformEmpty {buf} (h : job.engine.cryptRange job.encrypt r.firstSector buf = .ok []) :
      RangeStep job r s (.transforming buf) .compute
        { s with ciphered := s.ciphered ++ sectorUses job.engine r buf.length } .counting
  | transformPanic {buf p} (h : job.engine.cryptRange job.encrypt r.firstSector buf = .error p) :
      RangeStep job r s (.transforming buf) .compute s (.panicked p)
  | writeFault {written buf answer e}
      (h : writePass job.output.directIoActive (s.disk job.output.file) (r.byteOffset + written)
        (buf.drop written) answer = .error e) :
      RangeStep job r s (.writing written buf) (.kernel answer) s (.failed written e)
  | writeSome {written buf answer n file}
      (h : writePass job.output.directIoActive (s.disk job.output.file) (r.byteOffset + written)
        (buf.drop written) answer = .ok (n, file))
      (hlt : written + n < buf.length) :
      RangeStep job r s (.writing written buf) (.kernel answer)
        { s with disk := Function.update s.disk job.output.file file } (.writing (written + n) buf)
  | writeLast {written buf answer n file}
      (h : writePass job.output.directIoActive (s.disk job.output.file) (r.byteOffset + written)
        (buf.drop written) answer = .ok (n, file))
      (hle : buf.length ≤ written + n) :
      RangeStep job r s (.writing written buf) (.kernel answer)
        { s with disk := Function.update s.disk job.output.file file } .counting
  | count : RangeStep job r s .counting .compute
      (if job.progress then { s with counter := (s.counter + r.byteLen) % u64Size } else s) .finished

lemma processOneRange_some {job : RangeJob} {i : ℕ} {s s' : Shared} {t t' : Phase} {m : Move}
    (h : processOneRange job i s t m = some (s', t')) :
    ∃ r, job.ranges[i]? = some r ∧ RangeStep job r s t m s' t' := by
  rw [processOneRange] at h
  cases hr : job.ranges[i]? with
  | none => simp [hr] at h
  | some r =>
    refine ⟨r, rfl, ?_⟩
    simp only [hr] at h
    split at h
    · cases h
      by_cases ha : 0 < r.available job.dataLen
      · rw [if_pos ha]
        exact .startReading ha
      · rw [if_neg ha]
        exact .startPadding (by omega)
    · split at h
      · rename_i he
        cases h
        exact .readFault he
      · rename_i he
        cases h
        split
        · exact .readSome he ‹_›
        · exact .readLast he (by omega)
    · split at h
      · rename_i he
        cases h
        exact .transformPanic he
      · rename_i he
        cases h
        split
        · rename_i hnil
          exact .transformEmpty (hnil ▸ he)
        · exact .transform he ‹_›
    · split at h
      · rename_i he
        cases h
        exact .writeFault he
      · rename_i he
        cases h
        split
        · exact .writeSome he ‹_›
        · exact .writeLast he (by omega)
    · cases h
      exact .count
    · cases h

/-- A range inside the covered bytes, with its byte window computed without wrapping. -/
structure Placed (r : SectorRange) (total : ℕ) : Prop where
  offset : r.byteOffset = r.firstSector * sectorSize
  len : r.byteLen = r.sectorCount * sectorSize
  pos : 0 < r.byteLen
  fits : r.byteOffset + r.byteLen ≤ total * sectorSize

lemma Placed.ne_nil {r : SectorRange} {total : ℕ} (hr : Placed r total) {buf : Bytes}
    (h : buf.length = r.byteLen) : buf ≠ [] := by
  apply List.length_pos_iff.mp
  rw [h]
  exact hr.pos

/-- The ranges of a job cover `total` sectors, in `u64` byte offsets and allocatable buffers. -/
structure Covers (job : RangeJob) (total : ℕ) : Prop where
  partition : Partition job.ranges total
  fits : total * sectorSize ≤ u64Size
  alloc : Allocatable job.ranges

lemma covers_of_chunkRanges {job : RangeJob} {len chunk : ℕ} (h : chunkRanges len chunk = .ok job.ranges)
    (hlen : len < u64Size) (ha : Allocatable job.ranges) : Covers job (divCeil len sectorSize) :=
  ⟨chunkRanges_partition h, coverage_le_u64Size hlen, ha⟩

lemma Covers.placed {job : RangeJob} {total i : ℕ} {r : SectorRange} (hc : Covers job total)
    (hr : job.ranges[i]? = some r) : Placed r total := by
  have ho := hc.partition.byteOffset_eq hr hc.fits
  have hl : r.byteLen = r.sectorCount * sectorSize :=
    Nat.mod_eq_of_lt (hc.alloc r (List.mem_of_getElem? hr))
  refine ⟨ho, hl, ?_, ?_⟩
  · rw [hl]
    exact Nat.mul_pos (hc.partition.nonempty i r hr) sectorSize_pos
  · rw [ho, hl, ← Nat.add_mul]
    exact Nat.mul_le_mul_right _ (hc.partition.bounded i r hr)

lemma Covers.separated {job : RangeJob} {total i j : ℕ} {r r' : SectorRange} (hc : Covers job total) (hij : i ≠ j)
    (hr : job.ranges[i]? = some r) (hr' : job.ranges[j]? = some r') :
    r.byteOffset + r.byteLen ≤ r'.byteOffset ∨ r'.byteOffset + r'.byteLen ≤ r.byteOffset := by
  have h := hc.partition.separated hij hr hr'
  rwa [Nat.add_mul, Nat.add_mul, ← (hc.placed hr).offset, ← (hc.placed hr).len, ← (hc.placed hr').offset,
    ← (hc.placed hr').len] at h

lemma Covers.owner {job : RangeJob} {total b : ℕ} (hc : Covers job total) (hb : b < total * sectorSize) :
    ∃ (i : ℕ) (r : SectorRange), job.ranges[i]? = some r ∧ r.byteOffset ≤ b ∧ b < r.byteOffset + r.byteLen := by
  obtain ⟨i, r, hr, hlo, hhi⟩ := hc.partition.owner hb
  refine ⟨i, r, hr, ?_⟩
  rw [(hc.placed hr).offset, (hc.placed hr).len]
  exact ⟨hlo, hhi⟩

section Invariant

variable (job : RangeJob) (total : ℕ) (d₀ : ℕ → Bytes)

/-- The input as the dispatcher sees it: `dataLen` bytes, then zeros up to the end of the last sector. -/
def padded : Bytes := resize (window (d₀ job.input.file) 0 job.dataLen) (total * sectorSize)

/-- The result of one `encrypt_range(0, ..)` or `decrypt_range(0, ..)` over the whole padded input. -/
def reference : Bytes := job.engine.cryptSectors job.encrypt 0 (padded job total d₀)

@[simp] lemma padded_length : (padded job total d₀).length = total * sectorSize := resize_length _ _

@[simp] lemma reference_length : (reference job total d₀).length = total * sectorSize := by simp [reference]

lemma cryptRange_padded :
    job.engine.cryptRange job.encrypt 0 (padded job total d₀) = .ok (reference job total d₀) :=
  SectorEngine.cryptRange_eq _ _ _ (by rw [padded_length]; exact Dvd.intro_left _ rfl)

/-- The first `k` bytes of the window of `r` are those of the reference, the others are untouched. -/
def Landed (d : ℕ → Bytes) (r : SectorRange) (k : ℕ) : Prop :=
  ∀ j < r.byteLen, cell (d job.output.file) (r.byteOffset + j) =
    if j < k then cell (reference job total d₀) (r.byteOffset + j)
    else cell (d₀ job.output.file) (r.byteOffset + j)

def PhaseInv (r : SectorRange) (d : ℕ → Bytes) : Phase → Prop
  | .waiting => Landed job total d₀ d r 0
  | .reading filled buf => Landed job total d₀ d r 0 ∧ filled < r.available job.dataLen ∧
      buf.length = r.byteLen ∧
      ∀ j < r.byteLen, cell buf j = if j < filled then cell (padded job total d₀) (r.byteOffset + j) else 0
  | .transforming buf => Landed job total d₀ d r 0 ∧
      buf = window (padded job total d₀) r.byteOffset r.byteLen
  | .writing written buf => Landed job total d₀ d r written ∧ written < r.byteLen ∧
      buf = window (reference job total d₀) r.byteOffset r.byteLen
  | .counting | .finished => Landed job total d₀ d r r.byteLen
  | .failed written _ => Landed job total d₀ d r written ∧ written < r.byteLen
  | .panicked _ => False

/-- Only the output file changes, only inside the covered bytes, and it never gets shorter. -/
structure Frame (d : ℕ → Bytes) : Prop where
  others : ∀ f, f ≠ job.output.file → d f = d₀ f
  beyond : ∀ b, total * sectorSize ≤ b → cell (d job.output.file) b = cell (d₀ job.output.file) b
  grows : (d₀ job.output.file).length ≤ (d job.output.file).length

variable {job total d₀} {r : SectorRange}

lemma Landed.congr {d d' : ℕ → Bytes} {k : ℕ} (h : Landed job total d₀ d r k)
    (hd : ∀ b, r.byteOffset ≤ b → b < r.byteOffset + r.byteLen →
      cell (d' job.output.file) b = cell (d job.output.file) b) : Landed job total d₀ d' r k := by
  intro j hj
  rw [hd _ (Nat.le_add_right _ _) (by omega)]
  exact h j hj

lemma PhaseInv.congr {d d' : ℕ → Bytes} {t : Phase} (h : PhaseInv job total d₀ r d t)
    (hd : ∀ b, r.byteOffset ≤ b → b < r.byteOffset + r.byteLen →
      cell (d' job.output.file) b = cell (d job.output.file) b) : PhaseInv job total d₀ r d' t := by
  cases t with
  | waiting => exact Landed.congr h hd
  | reading filled buf => exact ⟨h.1.congr hd, h.2⟩
  | transforming buf => exact ⟨h.1.congr hd, h.2⟩
  | writing written buf => exact ⟨h.1.congr hd, h.2⟩
  | counting => exact Landed.congr h hd
  | finished => exact Landed.congr h hd
  | failed written e => exact ⟨h.1.congr hd, h.2⟩
  | panicked p => exact h

lemma cell_padded (b : ℕ) :
    cell (padded job total d₀) b =
      if b < total * sectorSize ∧ b < job.dataLen then cell (d₀ job.input.file) b else 0 := by
  rw [padded, cell_resize, cell_window, Nat.zero_add]
  split_ifs <;> first | rfl | omega

/-- Before its own write a range reads the original bytes, also when it reads the file it writes to. -/
lemma cell_input {d : ℕ → Bytes} (hf : Frame job total d₀ d) (hl : Landed job total d₀ d r 0) {j : ℕ}
    (hj : j < r.byteLen) :
    cell (d job.input.file) (r.byteOffset + j) = cell (d₀ job.input.file) (r.byteOffset + j) := by
  by_cases hio : job.input.file = job.output.file
  · rw [hio]
    simpa using hl j hj
  · rw [hf.others _ hio]

lemma available_eq (r : SectorRange) (dataLen : ℕ) :
    r.available dataLen = min (dataLen - r.byteOffset) r.byteLen := rfl

lemma available_le (r : SectorRange) (dataLen : ℕ) : r.available dataLen ≤ r.byteLen := min_le_right _ _

lemma readPass_cells {d : ℕ → Bytes} {filled : ℕ} {answer : Answer} {bytes : Bytes} (hr : Placed r total)
    (hf : Frame job total d₀ d) (hl : Landed job total d₀ d r 0) (hlt : filled < r.available job.dataLen)
    (h : readPass job.input.directIoActive (d job.input.file) (r.byteOffset + filled)
      (r.available job.dataLen - filled) answer = .ok bytes) :
    0 < bytes.length ∧ filled + bytes.length ≤ r.available job.dataLen ∧
      ∀ j < bytes.length, cell bytes j = cell (padded job total d₀) (r.byteOffset + (filled + j)) := by
  obtain ⟨n, -, hb, hpos⟩ := readPass_ok h
  have hlen := congrArg List.length hb
  rw [window_length] at hlen
  have hle := available_le r job.dataLen
  refine ⟨hpos, by omega, ?_⟩
  intro j hj
  have hav := available_eq r job.dataLen
  have hfits := hr.fits
  rw [hb, cell_window, if_pos (by omega), cell_padded, if_pos (by omega), Nat.add_assoc,
    cell_input hf hl (by omega)]

lemma cell_fill {buf bytes : Bytes} {filled j : ℕ}
    (hbuf : ∀ j < r.byteLen, cell buf j = if j < filled then cell (padded job total d₀) (r.byteOffset + j) else 0)
    (hbytes : ∀ j < bytes.length, cell bytes j = cell (padded job total d₀) (r.byteOffset + (filled + j)))
    (hj : j < r.byteLen) :
    cell (overwrite buf filled bytes) j =
      if j < filled + bytes.length then cell (padded job total d₀) (r.byteOffset + j) else 0 := by
  rw [cell_overwrite]
  by_cases hin : filled ≤ j ∧ j < filled + bytes.length
  · rw [if_pos hin, if_pos hin.2, hbytes _ (by omega)]
    congr 2
    omega
  · rw [if_neg hin, hbuf j hj]
    split_ifs <;> first | rfl | omega

lemma window_padded_length (hr : Placed r total) :
    (window (padded job total d₀) r.byteOffset r.byteLen).length = r.byteLen :=
  window_length_of_le (by rw [padded_length]; exact hr.fits)

lemma eq_window_padded (hr : Placed r total) {buf : Bytes} (hlen : buf.length = r.byteLen)
    (h : ∀ j < r.byteLen, cell buf j =
      if j < r.available job.dataLen then cell (padded job total d₀) (r.byteOffset + j) else 0) :
    buf = window (padded job total d₀) r.byteOffset r.byteLen := by
  have hfits := hr.fits
  apply ext_cell
  · rw [hlen, window_padded_length hr]
  · intro j hj
    rw [hlen] at hj
    rw [h j hj, cell_window, if_pos hj]
    split
    · rfl
    · rename_i hav
      have hge : ¬ r.byteOffset + j < job.dataLen := by
        intro hlt
        exact hav (by rw [SectorRange.available]; omega)
      rw [cell_padded, if_neg (by tauto)]

lemma cryptRange_window (hr : Placed r total) :
    job.engine.cryptRange job.encrypt r.firstSector (window (padded job total d₀) r.byteOffset r.byteLen) =
      .ok (window (reference job total d₀) r.byteOffset r.byteLen) := by
  have hd : sectorSize ∣ r.byteLen := by rw [hr.len]; exact Nat.dvd_mul_left _ _
  have ho : sectorSize ∣ r.byteOffset := by rw [hr.offset]; exact Nat.dvd_mul_left _ _
  have hdw : sectorSize ∣ (window (padded job total d₀) r.byteOffset r.byteLen).length :=
    hd.trans (dvd_of_eq (window_padded_length hr).symm)
  rw [SectorEngine.cryptRange_eq _ _ _ hdw, reference,
    SectorEngine.cryptSectors_window _ _ _ _ _ _ ho hd (by rw [padded_length]; exact hr.fits), Nat.zero_add,
    hr.offset, Nat.mul_div_cancel _ sectorSize_pos]

lemma window_reference_length (hr : Placed r total) :
    (window (reference job total d₀) r.byteOffset r.byteLen).length = r.byteLen :=
  window_length_of_le (by rw [reference_length]; exact hr.fits)

lemma cryptRange_window_ne (hr : Placed r total) :
    job.engine.cryptRange job.encrypt r.firstSector (window (padded job total d₀) r.byteOffset r.byteLen) ≠
      .ok [] := by
  rw [cryptRange_window hr]
  intro h
  exact hr.ne_nil (window_reference_length hr) (Except.ok.inj h)

lemma writePass_cells {d : ℕ → Bytes} {written n : ℕ} {answer : Answer} {file : Bytes} (hr : Placed r total)
    (hl : Landed job total d₀ d r written)
    (h : writePass job.output.directIoActive (d job.output.file) (r.byteOffset + written)
      ((window (reference job total d₀) r.byteOffset r.byteLen).drop written) answer = .ok (n, file)) :
    0 < n ∧ written + n ≤ r.byteLen ∧
      Landed job total d₀ (Function.update d job.output.file file) r (written + n) ∧
      (∀ b, b < r.byteOffset ∨ r.byteOffset + r.byteLen ≤ b → cell file b = cell (d job.output.file) b) ∧
      (d job.output.file).length ≤ file.length ∧
      file.length = max (d job.output.file).length (r.byteOffset + (written + n)) := by
  obtain ⟨hn, hle, hfile⟩ := writePass_ok h
  have hw : (window (reference job total d₀) r.byteOffset r.byteLen).length = r.byteLen :=
    window_reference_length hr
  rw [List.length_drop, hw] at hle
  have htake : (((window (reference job total d₀) r.byteOffset r.byteLen).drop written).take n).length = n := by
    rw [List.length_take, List.length_drop, hw]
    omega
  have hcell : ∀ b, cell file b =
      if r.byteOffset + written ≤ b ∧ b < r.byteOffset + written + n then cell (reference job total d₀) b
      else cell (d job.output.file) b := by
    intro b
    rw [hfile, cell_overwrite, htake]
    split
    · rename_i hb
      rw [cell_take, if_pos (by omega), cell_drop, cell_window, if_pos (by omega)]
      congr 1
      omega
    · rfl
  have hlen : file.length = max (d job.output.file).length (r.byteOffset + (written + n)) := by
    rw [hfile, overwrite_length _ _ (by omega), htake, Nat.add_assoc]
  refine ⟨hn, by omega, ?_, ?_, by omega, hlen⟩
  · intro j hj
    rw [Function.update_self, hcell]
    by_cases hin : r.byteOffset + written ≤ r.byteOffset + j ∧ r.byteOffset + j < r.byteOffset + written + n
    · rw [if_pos hin, if_pos (by omega)]
    · rw [if_neg hin, hl j hj]
      split_ifs <;> first | rfl | omega
  · intro b hb
    rw [hcell, if_neg (by omega)]

def Outside (r : SectorRange) (b : ℕ) : Prop := b < r.byteOffset ∨ r.byteOffset + r.byteLen ≤ b

/-- One step of a range: it keeps its own invariant and touches the output only inside its window. -/
theorem rangeStep_inv {s s' : Shared} {t t' : Phase} {m : Move} (hr : Placed r total)
    (hf : Frame job total d₀ s.disk) (hi : PhaseInv job total d₀ r s.disk t)
    (h : RangeStep job r s t m s' t') :
    Frame job total d₀ s'.disk ∧ PhaseInv job total d₀ r s'.disk t' ∧
      ∀ b, Outside r b → cell (s'.disk job.output.file) b = cell (s.disk job.output.file) b := by
  have hframe : ∀ {written n : ℕ} {file : Bytes} {answer : Answer},
      Landed job total d₀ s.disk r written →
      writePass job.output.directIoActive (s.disk job.output.file) (r.byteOffset + written)
        ((window (reference job total d₀) r.byteOffset r.byteLen).drop written) answer = .ok (n, file) →
      Frame job total d₀ (Function.update s.disk job.output.file file) ∧
      ∀ b, Outside r b → cell (Function.update s.disk job.output.file file job.output.file) b =
        cell (s.disk job.output.file) b := by
    intro written n file answer hl hw
    obtain ⟨-, -, -, hout, hgrow, -⟩ := writePass_cells hr hl hw
    refine ⟨⟨?_, ?_, ?_⟩, ?_⟩
    · intro f hne
      rw [Function.update_of_ne hne, hf.others f hne]
    · intro b hb
      rw [Function.update_self, hout b (Or.inr (hr.fits.trans hb)), hf.beyond b hb]
    · rw [Function.update_self]
      exact hf.grows.trans hgrow
    · intro b hb
      rw [Function.update_self, hout b hb]
  cases h with
  | startReading ha =>
    refine ⟨hf, ⟨hi, ha, by simp, ?_⟩, fun _ _ => rfl⟩
    intro j _
    simp
  | startPadding ha =>
    refine ⟨hf, ⟨hi, eq_window_padded hr (by simp) ?_⟩, fun _ _ => rfl⟩
    intro j _
    rw [if_neg (by omega), cell_replicate]
  | readFault _ =>
    have hlt := hi.2.1
    exact ⟨hf, ⟨hi.1, hlt.trans_le' (Nat.zero_le _) |>.trans_le (available_le r _)⟩, fun _ _ => rfl⟩
  | readSome hread hlt =>
    obtain ⟨hl, hfill, hlen, hbuf⟩ := hi
    obtain ⟨-, -, hbytes⟩ := readPass_cells hr hf hl hfill hread
    refine ⟨hf, ⟨hl, hlt, ?_, fun j hj => cell_fill hbuf hbytes hj⟩, fun _ _ => rfl⟩
    have hle := available_le r job.dataLen
    rw [overwrite_length_of_le (by omega), hlen]
  | readLast hread hge =>
    obtain ⟨hl, hfill, hlen, hbuf⟩ := hi
    obtain ⟨-, hle, hbytes⟩ := readPass_cells hr hf hl hfill hread
    refine ⟨hf, ⟨hl, eq_window_padded hr ?_ ?_⟩, fun _ _ => rfl⟩
    · have hav := available_le r job.dataLen
      rw [overwrite_length_of_le (by omega), hlen]
    · intro j hj
      rw [cell_fill hbuf hbytes hj, le_antisymm hle hge]
  | transform hcrypt hne =>
    obtain ⟨hl, rfl⟩ := hi
    rw [cryptRange_window hr] at hcrypt
    cases hcrypt
    exact ⟨hf, ⟨hl, hr.pos, rfl⟩, fun _ _ => rfl⟩
  | transformEmpty hcrypt =>
    obtain ⟨-, rfl⟩ := hi
    exact (cryptRange_window_ne hr hcrypt).elim
  | transformPanic hcrypt =>
    obtain ⟨-, rfl⟩ := hi
    rw [cryptRange_window hr] at hcrypt
    cases hcrypt
  | writeFault _ => exact ⟨hf, ⟨hi.1, hi.2.1⟩, fun _ _ => rfl⟩
  | writeSome hwrite hlt =>
    obtain ⟨hl, -, rfl⟩ := hi
    obtain ⟨-, -, hland, -⟩ := writePass_cells hr hl hwrite
    rw [window_reference_length hr] at hlt
    exact ⟨(hframe hl hwrite).1, ⟨hland, hlt, rfl⟩, (hframe hl hwrite).2⟩
  | writeLast hwrite hge =>
    obtain ⟨hl, -, rfl⟩ := hi
    obtain ⟨-, hle, hland, -⟩ := writePass_cells hr hl hwrite
    rw [window_reference_length hr] at hge
    rw [le_antisymm hle hge] at hland
    exact ⟨(hframe hl hwrite).1, hland, (hframe hl hwrite).2⟩
  | count => split <;> exact ⟨hf, hi, fun _ _ => rfl⟩

end Invariant

end NocapCrypt.Worker
