import NocapCrypt.Worker.Counting

/-! The dispatcher as a build with overflow checks runs it, and that no check fails. -/

namespace NocapCrypt.Worker

open NocapCrypt.Library.Image NocapCrypt.Library.Runs NocapCrypt.Core NocapCrypt.BlockIo

inductive Overflow where
  | overflow
  deriving DecidableEq, Repr

/-- The result of an operation on integers below `bound`, if it is one of them. -/
def inRange (bound n : ℕ) : Except Overflow ℕ := if n < bound then .ok n else .error .overflow

lemma inRange_of_lt {bound n : ℕ} (h : n < bound) : inRange bound n = .ok n := if_pos h

def u128Size : ℕ := 2 ^ 128

def checkedChunkLoop (chunkSectors totalSectors : ℕ) : ℕ → ℕ → Except Overflow (List SectorRange)
  | 0, _ => pure []
  | passes + 1, start =>
    if start < totalSectors then do
      let count := min chunkSectors (totalSectors - start)
      let next ← inRange u64Size (start + count)
      let rest ← checkedChunkLoop chunkSectors totalSectors passes next
      pure (⟨start, count⟩ :: rest)
    else pure []

def checkedChunkRanges (dataLen chunkSectors : ℕ) : Except Overflow (Except Panic (List SectorRange)) :=
  if chunkSectors = 0 then pure (.error (.assertion "chunk_sectors > 0"))
  else do
    let totalSectors ← inRange u64Size (divCeil dataLen sectorSize)
    let ranges ← checkedChunkLoop chunkSectors totalSectors totalSectors 0
    pure (.ok ranges)

/-- `xts-mode` counts sectors in `u128` and the tweak takes the `u64`; CBC counts in `u64`. -/
def sectorIndex (engine : SectorEngine) (firstSector s : ℕ) : Except Overflow ℕ :=
  match engine with
  | .xts _ => do
    let index ← inRange u128Size (firstSector + s)
    inRange u64Size index
  | .cbcEssiv _ => inRange u64Size (firstSector + s)

def sectorIndices (engine : SectorEngine) (firstSector : ℕ) : ℕ → Except Overflow (List ℕ)
  | 0 => pure []
  | sectors + 1 => do
    let indices ← sectorIndices engine firstSector sectors
    let index ← sectorIndex engine firstSector sectors
    pure (indices ++ [index])

def checkedCryptRange (engine : SectorEngine) (encrypt : Bool) (firstSector : ℕ) (buf : Bytes) :
    Except Overflow (Except Panic Bytes) := do
  let _ ← sectorIndices engine firstSector (buf.length / sectorSize)
  pure (engine.cryptRange encrypt firstSector buf)

def checkedReadLen (directIoActive : Bool) (len : ℕ) : Except Overflow ℕ :=
  if directIoActive = true ∧ len ≠ 0 then inRange u64Size (nextMultipleOf len directIoAlignment) else pure len

def checkedProcessOneRange (job : RangeJob) (i : ℕ) (s : Shared) (phase : Phase) (move : Move) :
    Except Overflow (Option (Shared × Phase)) :=
  match job.ranges[i]? with
  | none => pure none
  | some range => do
    let byteOffset ← inRange u64Size (range.firstSector * sectorSize)
    let byteLen ← inRange u64Size (range.sectorCount * sectorSize)
    let available ← inRange u64Size (min (job.dataLen - byteOffset) byteLen)
    match phase, move with
    | .waiting, .compute =>
      let buf := List.replicate byteLen 0
      pure (some (s, if 0 < available then .reading 0 buf else .transforming buf))
    | .reading filled buf, .kernel answer =>
      let offset ← inRange u64Size (byteOffset + filled)
      let _ ← checkedReadLen job.input.directIoActive (available - filled)
      match readPass job.input.directIoActive (s.disk job.input.file) offset (available - filled) answer with
      | .error e => pure (some (s, .failed 0 e))
      | .ok bytes =>
        let _ ← inRange u64Size (offset + bytes.length)
        let buf := overwrite buf filled bytes
        let filled := filled + bytes.length
        pure (some (s, if filled < available then .reading filled buf else .transforming buf))
    | .transforming buf, .compute =>
      match ← checkedCryptRange job.engine job.encrypt range.firstSector buf with
      | .error p => pure (some (s, .panicked p))
      | .ok out =>
        pure (some ({ s with ciphered := s.ciphered ++ sectorUses job.engine range buf.length },
          if out = [] then .counting else .writing 0 out))
    | .writing written buf, .kernel answer =>
      let offset ← inRange u64Size (byteOffset + written)
      match writePass job.output.directIoActive (s.disk job.output.file) offset (buf.drop written) answer with
      | .error e => pure (some (s, .failed written e))
      | .ok (n, file) =>
        let _ ← inRange u64Size (offset + n)
        pure (some ({ s with disk := Function.update s.disk job.output.file file },
          if written + n < buf.length then .writing (written + n) buf else .counting))
    | .counting, .compute =>
      if job.progress then
        let counter ← inRange u64Size (s.counter + byteLen)
        pure (some ({ s with counter := counter }, .finished))
      else pure (some (s, .finished))
    | _, _ => pure none

def checkedStep (job : RangeJob) (mode : Concurrency) (c : Tasks Shared Phase) (e : ℕ × Move) :
    Except Overflow (Option (Tasks Shared Phase)) :=
  if admits mode job.ranges.length c.task e.1 then do
    let r ← checkedProcessOneRange job e.1 c.shared (c.task e.1) e.2
    pure (r.map fun r => ⟨r.1, Function.update c.task e.1 r.2⟩)
  else pure none

section Ranges

lemma checkedChunkLoop_eq {chunk total : ℕ} (ht : total < u64Size) (passes begin : ℕ) :
    checkedChunkLoop chunk total passes begin = .ok (chunkLoop chunk total passes begin) := by
  induction passes generalizing begin with
  | zero => rfl
  | succ passes ih =>
    rw [checkedChunkLoop, chunkLoop]
    split
    · have hnext : begin + min chunk (total - begin) < u64Size := by omega
      simp only [inRange_of_lt hnext, ih, bind, Except.bind]
      rfl
    · rfl

lemma checkedChunkRanges_eq {len chunk : ℕ} (hlen : len < u64Size) :
    checkedChunkRanges len chunk = .ok (chunkRanges len chunk) := by
  have ht : divCeil len sectorSize < u64Size := by
    have hle : divCeil len sectorSize ≤ len :=
      (divCeil_le_iff sectorSize_pos).mpr (Nat.le_mul_of_pos_right len sectorSize_pos)
    omega
  rw [checkedChunkRanges, chunkRanges]
  split
  · rfl
  · simp only [inRange_of_lt ht, checkedChunkLoop_eq ht, bind, Except.bind]
    rfl

lemma chunkRanges_length {dataLen chunk : ℕ} {ranges : List SectorRange}
    (h : chunkRanges dataLen chunk = .ok ranges) :
    ranges.length = divCeil (divCeil dataLen sectorSize) chunk := by
  obtain ⟨hc, -⟩ := chunkRanges_ok h
  apply eq_of_forall_ge_iff
  intro i
  rw [divCeil_le_iff hc, ← List.getElem?_eq_none_iff, chunkRanges_getElem? h]
  simp

lemma chunkRanges_getElem {dataLen chunk : ℕ} {ranges : List SectorRange}
    (h : chunkRanges dataLen chunk = .ok ranges) {i : ℕ} (hi : i < ranges.length) :
    i * chunk < divCeil dataLen sectorSize ∧
      ranges[i] = ⟨i * chunk, min chunk (divCeil dataLen sectorSize - i * chunk)⟩ := by
  have hget := chunkRanges_getElem? h i
  rw [List.getElem?_eq_getElem hi] at hget
  split at hget
  · exact ⟨‹_›, Option.some.inj hget⟩
  · cases hget

/-- The ranges are the sectors below `total` in order, cut after every `chunk` of them. -/
structure OrderedChunks (ranges : List SectorRange) (total chunk : ℕ) : Prop where
  nonempty : ∀ r ∈ ranges, 0 < r.sectorCount
  first : ∀ r ∈ ranges.head?, r.firstSector = 0
  contiguous : ranges.IsChain fun r r' => r'.firstSector = r.firstSector + r.sectorCount
  sum : (ranges.map SectorRange.sectorCount).sum = total
  full : ∀ r ∈ ranges.dropLast, r.sectorCount = chunk
  last : ∀ r ∈ ranges.getLast?, 1 ≤ r.sectorCount ∧ r.sectorCount ≤ chunk
  count : ranges.length = ⌈(total : ℚ) / chunk⌉₊
  offsets : ∀ r ∈ ranges, r.firstSector * sectorSize < u64Size

lemma chunkRanges_ordered {dataLen chunk : ℕ} {ranges : List SectorRange}
    (h : chunkRanges dataLen chunk = .ok ranges) (hlen : dataLen < u64Size) :
    OrderedChunks ranges (divCeil dataLen sectorSize) chunk := by
  obtain ⟨hc, hranges⟩ := chunkRanges_ok h
  have hget := fun i => chunkRanges_getElem (i := i) h
  have hmem : ∀ r ∈ ranges, ∃ i, ∃ hi : i < ranges.length, ranges[i] = r := fun r hr => List.mem_iff_getElem.mp hr
  have hcount : ∀ r ∈ ranges, 0 < r.sectorCount ∧ r.sectorCount ≤ chunk ∧
      r.firstSector < divCeil dataLen sectorSize := by
    intro r hr
    obtain ⟨i, hi, rfl⟩ := hmem r hr
    obtain ⟨hlt, he⟩ := hget i hi
    rw [he]
    simp only
    omega
  refine ⟨fun r hr => (hcount r hr).1, ?_, ?_, ?_, ?_, ?_, ?_, ?_⟩
  · intro r hr
    rw [List.head?_eq_getElem?] at hr
    obtain ⟨hi, rfl⟩ := List.getElem?_eq_some_iff.mp hr
    rw [(hget 0 hi).2]
    simp
  · rw [List.isChain_iff_getElem]
    intro i hi
    rw [(hget i (by omega)).2, (hget (i + 1) hi).2]
    have hlt := (hget (i + 1) hi).1
    rw [Nat.succ_mul] at hlt ⊢
    simp only
    omega
  · rw [hranges, chunkLoop_sum _ hc _ _ (by omega), Nat.sub_zero]
  · intro r hr
    obtain ⟨i, hi, rfl⟩ := List.mem_iff_getElem.mp hr
    rw [List.length_dropLast] at hi
    have hlt := (hget (i + 1) (by omega)).1
    rw [Nat.succ_mul] at hlt
    rw [List.getElem_dropLast, (hget i (by omega)).2]
    simp only
    omega
  · intro r hr
    obtain ⟨hpos, hle, -⟩ := hcount r (List.mem_of_getLast? hr)
    exact ⟨hpos, hle⟩
  · rw [chunkRanges_length h, divCeil_eq_ceil _ hc.ne']
  · intro r hr
    have hoff := coverage_le_u64Size hlen
    have hfirst := Nat.mul_lt_mul_of_pos_right (hcount r hr).2.2 sectorSize_pos
    exact hfirst.trans_le hoff

theorem chunkRanges_exact (dataLen chunkSectors : UInt64) (hc : 1 ≤ chunkSectors) :
    ∃ ranges, checkedChunkRanges dataLen.toNat chunkSectors.toNat = .ok (.ok ranges) ∧
      chunkRanges dataLen.toNat chunkSectors.toNat = .ok ranges ∧
      OrderedChunks ranges ⌈(dataLen.toNat : ℚ) / 512⌉₊ chunkSectors.toNat := by
  have hlen : dataLen.toNat < u64Size := dataLen.toNat_lt
  have hpos : chunkSectors.toNat ≠ 0 := Nat.one_le_iff_ne_zero.mp (UInt64.le_iff_toNat_le.mp hc)
  obtain ⟨ranges, hranges⟩ : ∃ ranges, chunkRanges dataLen.toNat chunkSectors.toNat = .ok ranges := by
    rw [chunkRanges, if_neg hpos]
    exact ⟨_, rfl⟩
  refine ⟨ranges, ?_, hranges, ?_⟩
  · rw [checkedChunkRanges_eq hlen, hranges]
  · have hordered := chunkRanges_ordered hranges hlen
    rw [divCeil_eq_ceil _ sectorSize_pos.ne'] at hordered
    exact_mod_cast hordered

theorem chunkRanges_exact_three : ∃ ranges, chunkRanges 1025 2 = .ok ranges ∧ OrderedChunks ranges 3 2 := by
  obtain ⟨ranges, -, hranges, hordered⟩ := chunkRanges_exact 1025 2 (by decide)
  have htotal : ⌈(((1025 : UInt64).toNat : ℕ) : ℚ) / 512⌉₊ = 3 := by
    rw [show (512 : ℚ) = ((512 : ℕ) : ℚ) by norm_num, ← divCeil_eq_ceil _ (by decide)]
    rfl
  rw [htotal] at hordered
  exact ⟨ranges, hranges, hordered⟩

end Ranges

section Engine

variable (engine : SectorEngine)

lemma sectorIndex_eq {first s : ℕ} (h : first + s < u64Size) : sectorIndex engine first s = .ok (first + s) := by
  cases engine with
  | xts variant =>
    have h128 : first + s < u128Size := h.trans (by decide)
    simp only [sectorIndex, inRange_of_lt h128, bind, Except.bind, inRange_of_lt h]
  | cbcEssiv variant => exact inRange_of_lt h

lemma sectorIndices_eq {first sectors : ℕ} (h : first + sectors ≤ u64Size) :
    sectorIndices engine first sectors = .ok ((List.range sectors).map (first + ·)) := by
  induction sectors with
  | zero => rfl
  | succ sectors ih =>
    rw [sectorIndices, ih (by omega), List.range_succ, List.map_append]
    simp only [bind, Except.bind, sectorIndex_eq engine (show first + sectors < u64Size by omega)]
    rfl

lemma checkedCryptRange_eq (encrypt : Bool) {first : ℕ} {buf : Bytes}
    (h : first + buf.length / sectorSize ≤ u64Size) :
    checkedCryptRange engine encrypt first buf = .ok (engine.cryptRange encrypt first buf) := by
  rw [checkedCryptRange, sectorIndices_eq engine h]
  rfl

end Engine

lemma checkedReadLen_ok (direct : Bool) {len : ℕ} (h : len + directIoAlignment ≤ u64Size) :
    ∃ n, checkedReadLen direct len = .ok n := by
  rw [checkedReadLen]
  split
  · have hlt : nextMultipleOf len directIoAlignment < len + directIoAlignment := divCeil_mul_lt len (by decide)
    exact ⟨_, inRange_of_lt (by omega)⟩
  · exact ⟨_, rfl⟩

variable {job : RangeJob} {total : ℕ} {d₀ : ℕ → Bytes} {mode : Concurrency}

theorem checkedProcessOneRange_eq {i : ℕ} {r : SectorRange} {s : Shared} {t : Phase}
    (hr : job.ranges[i]? = some r) (hp : Placed r total) (hfit : total * sectorSize + directIoAlignment ≤ u64Size)
    (hi : PhaseInv job total d₀ r s.disk t)
    (hcount : t = .counting → job.progress = true → s.counter + r.byteLen < u64Size) (m : Move) :
    checkedProcessOneRange job i s t m = .ok (processOneRange job i s t m) := by
  have hav := (available_eq r job.dataLen).symm
  have hle := available_le r job.dataLen
  have hfits := hp.fits
  have hpage : 0 < directIoAlignment := by decide
  rw [checkedProcessOneRange, processOneRange, hr]
  simp only [← hp.offset, ← hp.len, inRange_of_lt (show r.byteOffset < u64Size by omega),
    inRange_of_lt (show r.byteLen < u64Size by omega), hav,
    inRange_of_lt (show r.available job.dataLen < u64Size by omega), bind, Except.bind]
  cases t with
  | waiting => cases m <;> rfl
  | reading filled buf =>
    have hlt : filled < r.available job.dataLen := hi.2.1
    obtain ⟨n, hn⟩ := checkedReadLen_ok job.input.directIoActive
      (show r.available job.dataLen - filled + directIoAlignment ≤ u64Size by omega)
    cases m with
    | compute => rfl
    | kernel answer =>
      simp only [inRange_of_lt (show r.byteOffset + filled < u64Size by omega), hn]
      cases hread : readPass job.input.directIoActive (s.disk job.input.file) (r.byteOffset + filled)
        (r.available job.dataLen - filled) answer with
      | error e => rfl
      | ok bytes =>
        obtain ⟨-, hlen, -⟩ := readPass_length hread
        simp only [inRange_of_lt (show r.byteOffset + filled + bytes.length < u64Size by omega)]
        rfl
  | transforming buf =>
    cases m with
    | kernel answer => rfl
    | compute =>
      obtain ⟨-, rfl⟩ := hi
      have hlen : (window (padded job total d₀) r.byteOffset r.byteLen).length = r.byteLen :=
        window_padded_length hp
      have hsectors : r.firstSector + r.byteLen / sectorSize ≤ u64Size := by
        rw [hp.len, Nat.mul_div_cancel _ sectorSize_pos]
        have hsum : (r.firstSector + r.sectorCount) * sectorSize ≤ total * sectorSize := by
          rw [Nat.add_mul, ← hp.offset, ← hp.len]
          exact hfits
        have hself : r.firstSector + r.sectorCount ≤ (r.firstSector + r.sectorCount) * sectorSize :=
          Nat.le_mul_of_pos_right _ sectorSize_pos
        omega
      simp only [checkedCryptRange_eq job.engine job.encrypt (hlen.symm ▸ hsectors), cryptRange_window hp]
      rfl
  | writing w buf =>
    obtain ⟨-, hlt, rfl⟩ := hi
    have hlen : (window (reference job total d₀) r.byteOffset r.byteLen).length = r.byteLen :=
      window_reference_length hp
    cases m with
    | compute => rfl
    | kernel answer =>
      simp only [inRange_of_lt (show r.byteOffset + w < u64Size by omega)]
      cases hwrite : writePass job.output.directIoActive (s.disk job.output.file) (r.byteOffset + w)
        ((window (reference job total d₀) r.byteOffset r.byteLen).drop w) answer with
      | error e => rfl
      | ok p =>
        obtain ⟨n, file⟩ := p
        obtain ⟨-, hn, -⟩ := writePass_ok hwrite
        rw [List.length_drop, hlen] at hn
        simp only [inRange_of_lt (show r.byteOffset + w + n < u64Size by omega)]
        rfl
  | counting =>
    cases m with
    | kernel answer => rfl
    | compute =>
      cases hprog : job.progress with
      | false => rfl
      | true =>
        have hlt := hcount rfl hprog
        simp only [if_true, inRange_of_lt hlt, Nat.mod_eq_of_lt hlt]
        rfl
  | _ => cases m <;> rfl

/-- In every reachable state of every interleaving the checked step is the step. -/
theorem checkedStep_eq {len chunk : ℕ} (h : chunkRanges len chunk = .ok job.ranges)
    (hfit : coverage len + directIoAlignment ≤ u64Size) {s : Shared} (hs : s.counter = 0)
    {c : Tasks Shared Phase} {moves : List (ℕ × Move)} (hrun : run (step job mode) (start s) moves = some c)
    (e : ℕ × Move) : checkedStep job mode c e = .ok (step job mode c e) := by
  have hpage : 0 < directIoAlignment := by decide
  have hcov : Covers job (divCeil len sectorSize) := covers_of_coverage job h (by omega)
  rw [checkedStep, step]
  split
  · cases hr : job.ranges[e.1]? with
    | none =>
      simp only [checkedProcessOneRange, processOneRange, Tasks.move, hr]
      rfl
    | some r =>
      have hi := (run_sound hcov hrun).2 e.1 r hr
      rw [checkedProcessOneRange_eq hr (hcov.placed hr) hfit hi]
      · rfl
      · intro ht hp
        have hle := counter_add_le h (by omega) hp hs hrun hr (by simp [ht])
        omega
  · rfl

end NocapCrypt.Worker
