import NocapCrypt.Worker.Interleaving

/-! Which calls reach the `O_DIRECT` handles when every transfer is answered in full, and where they fall. -/

namespace NocapCrypt.Worker

open NocapCrypt.Library.Image NocapCrypt.Library.Runs NocapCrypt.Core NocapCrypt.BlockIo

/-- The system call that range `i` is about to make in state `c`. -/
def platformCall (job : RangeJob) (c : Tasks Shared Phase) (i : ℕ) : Option PlatformCall :=
  match job.ranges[i]?, c.task i with
  | some r, .reading filled _ =>
    some (.ofRead job.input.directIoActive (r.byteOffset + filled) (r.available job.dataLen - filled))
  | some r, .writing written buf =>
    some (.ofWrite job.output.directIoActive (r.byteOffset + written) (buf.drop written))
  | _, _ => none

/-- The kernel fails the call or moves all of it; a read still stops at the end of the file. -/
def Complete (call : Option PlatformCall) : Move → Prop
  | .kernel (.count n) => ∀ k ∈ call, k.len ≤ n
  | _ => True

instance (call : Option PlatformCall) : DecidablePred (Complete call)
  | .compute => inferInstanceAs (Decidable True)
  | .kernel (.fault _) => inferInstanceAs (Decidable True)
  | .kernel (.count n) => inferInstanceAs (Decidable (∀ k ∈ call, k.len ≤ n))

def completeStep (job : RangeJob) (mode : Concurrency) (c : Tasks Shared Phase) (e : ℕ × Move) :
    Option (Tasks Shared Phase) :=
  if Complete (platformCall job c e.1) e.2 then step job mode c e else none

def PlatformAligned (k : PlatformCall) : Prop :=
  k.direct = true → directIoAlignment ∣ k.offset ∧ directIoAlignment ∣ k.len

/-- The input reaches to the end of the data or ends on a page; and the chunk is a number of pages, or one
range covers everything, or the ranges after the first hold only padding and the last of them is no
number of pages that starts off a page. -/
def AlignedSplit (dataLen len chunk inputLen : ℕ) : Prop :=
  (min dataLen (coverage len) ≤ inputLen ∨ directIoAlignment ∣ inputLen) ∧
    (directIoAlignment ∣ chunk * sectorSize ∨ divCeil len sectorSize ≤ chunk ∨
      dataLen ≤ chunk * sectorSize ∧ (directIoAlignment ∣ coverage len ∨
        ¬ directIoAlignment ∣ ((divCeil len sectorSize - 1) % chunk + 1) * sectorSize))

instance (dataLen len chunk inputLen : ℕ) : Decidable (AlignedSplit dataLen len chunk inputLen) :=
  inferInstanceAs (Decidable (_ ∧ (_ ∨ _ ∨ _ ∧ (_ ∨ ¬ _))))

lemma page_dvd_iff (n : ℕ) : directIoAlignment ∣ n * sectorSize ↔ 8 ∣ n := by
  change 4096 ∣ n * 512 ↔ 8 ∣ n
  omega

/-- The chunks of `total` sectors whose calls are all aligned: those that start on a page, and those that
read nothing and are written through the buffered handle. -/
lemma split_iff {total chunk dataLen : ℕ} (hchunk : 0 < chunk) :
    (∀ i, i * chunk < total → 8 ∣ i * chunk ∨
        dataLen ≤ i * chunk * sectorSize ∧ ¬ 8 ∣ min chunk (total - i * chunk)) ↔
      8 ∣ chunk ∨ total ≤ chunk ∨
        dataLen ≤ chunk * sectorSize ∧ (8 ∣ total ∨ ¬ 8 ∣ (total - 1) % chunk + 1) := by
  have hlast : (total - 1) / chunk * chunk + (total - 1) % chunk = total - 1 := Nat.div_add_mod' _ _
  have hmod := Nat.mod_lt (total - 1) hchunk
  constructor
  · intro h
    by_cases h8 : 8 ∣ chunk
    · exact Or.inl h8
    · by_cases htotal : total ≤ chunk
      · exact Or.inr (Or.inl htotal)
      · refine Or.inr (Or.inr ⟨?_, ?_⟩)
        · have hone := h 1 (by omega)
          rw [Nat.one_mul] at hone
          exact (hone.resolve_left h8).1
        · rcases h ((total - 1) / chunk) (by omega) with hq | ⟨-, hq⟩
          · by_cases hcount : 8 ∣ (total - 1) % chunk + 1
            · exact Or.inl (by omega)
            · exact Or.inr hcount
          · refine Or.inr ?_
            rwa [min_eq_right (by omega), show total - (total - 1) / chunk * chunk = (total - 1) % chunk + 1 by
              omega] at hq
  · intro h i hi
    rcases Nat.eq_zero_or_pos i with rfl | hpos
    · exact Or.inl (by simp)
    · have hge : chunk ≤ i * chunk := Nat.le_mul_of_pos_left chunk hpos
      rcases h with h8 | htotal | ⟨hdata, h⟩
      · exact Or.inl (h8.mul_left i)
      · omega
      · by_cases h8 : 8 ∣ i * chunk
        · exact Or.inl h8
        · refine Or.inr ⟨hdata.trans (Nat.mul_le_mul_right _ hge), ?_⟩
          rcases Nat.le_total chunk (total - i * chunk) with hle | hle
          · rw [min_eq_left hle]
            exact fun hc => h8 (hc.mul_left i)
          · rw [min_eq_right hle]
            -- the last range: its count is what the chunks before it leave
            have hidx : (total - 1) / chunk = i := by
              rw [Nat.div_eq_iff hchunk]
              have hs := Nat.succ_mul i chunk
              omega
            rw [hidx] at hlast
            rcases h with ht | hcount
            · omega
            · rwa [show total - i * chunk = (total - 1) % chunk + 1 by omega]

variable {job : RangeJob} {total : ℕ} {d₀ : ℕ → Bytes} {mode : Concurrency}

lemma completeStep_some {c c' : Tasks Shared Phase} {e : ℕ × Move} (h : completeStep job mode c e = some c') :
    Complete (platformCall job c e.1) e.2 ∧ step job mode c e = some c' := by
  rw [completeStep] at h
  split at h
  · exact ⟨‹_›, h⟩
  · cases h

lemma platformCall_reading {c : Tasks Shared Phase} {i filled : ℕ} {r : SectorRange} {buf : Bytes}
    (hr : job.ranges[i]? = some r) (ht : c.task i = .reading filled buf) :
    platformCall job c i =
      some (.ofRead job.input.directIoActive (r.byteOffset + filled) (r.available job.dataLen - filled)) := by
  simp only [platformCall, hr, ht]

lemma platformCall_writing {c : Tasks Shared Phase} {i written : ℕ} {r : SectorRange} {buf : Bytes}
    (hr : job.ranges[i]? = some r) (ht : c.task i = .writing written buf) :
    platformCall job c i =
      some (.ofWrite job.output.directIoActive (r.byteOffset + written) (buf.drop written)) := by
  simp only [platformCall, hr, ht]

section Whole

def Served (job : RangeJob) (r : SectorRange) (d : ℕ → Bytes) : Prop :=
  r.available job.dataLen = 0 ∨ r.byteOffset + r.available job.dataLen ≤ (d job.input.file).length

/-- Transfers that are answered in full leave a range between calls only before its first one, or
where a read met the end of the input. -/
def WholePhase (job : RangeJob) (inputLen : ℕ) (r : SectorRange) (d : ℕ → Bytes) : Phase → Prop
  | .reading filled _ => filled = 0 ∨ r.byteOffset + filled = inputLen
  | .transforming _ => Served job r d
  | .writing written _ => written = 0 ∧ Served job r d
  | _ => True

structure Whole (job : RangeJob) (total : ℕ) (d₀ : ℕ → Bytes) (c : Tasks Shared Phase) : Prop where
  sound : Sound job total d₀ c
  input : (c.shared.disk job.input.file).length = (d₀ job.input.file).length ∨
    min job.dataLen (total * sectorSize) ≤ (c.shared.disk job.input.file).length
  phase : ∀ i r, job.ranges[i]? = some r →
    WholePhase job (d₀ job.input.file).length r c.shared.disk (c.task i)

lemma WholePhase.grows {inputLen : ℕ} {r : SectorRange} {d d' : ℕ → Bytes} {t : Phase}
    (h : WholePhase job inputLen r d t) (hd : (d job.input.file).length ≤ (d' job.input.file).length) :
    WholePhase job inputLen r d' t := by
  have hserved : Served job r d → Served job r d' := fun hs => hs.imp_right fun hle => hle.trans hd
  cases t with
  | transforming buf => exact hserved h
  | writing written buf => exact ⟨h.1, hserved h.2⟩
  | _ => exact h

/-- A range that has been served lengthens the input, if at all, to the end of the data or past it. -/
lemma rangeStep_input {r : SectorRange} {s s' : Shared} {t t' : Phase} {m : Move} (hr : Placed r total)
    (hf : Frame job total d₀ s.disk) (hi : PhaseInv job total d₀ r s.disk t)
    (hw : WholePhase job (d₀ job.input.file).length r s.disk t) (h : RangeStep job r s t m s' t') :
    (s.disk job.input.file).length ≤ (s'.disk job.input.file).length ∧
      ((s'.disk job.input.file).length = (s.disk job.input.file).length ∨
        job.dataLen ≤ (s'.disk job.input.file).length) := by
  have hf' : Frame job total d₀ s'.disk := (rangeStep_inv hr hf hi h).1
  by_cases hio : job.input.file = job.output.file
  · rcases rangeStep_written hr hi h with ⟨hd, -⟩ | ⟨hlt, hlen⟩
    · rw [hd]
      exact ⟨le_refl _, Or.inl rfl⟩
    · rw [← hio] at hlen
      have hle := (rangeStep_inv hr hf hi h).2.1.written_le
      have hserved : Served job r s.disk := by
        cases h with
        | writeSome _ _ => exact hw.2
        | writeLast _ _ => exact hw.2
        | transformEmpty _ => exact hw
        | _ => exact (lt_irrefl _ hlt).elim
      have hav := available_eq r job.dataLen
      have hpos := hr.pos
      rw [hlen]
      refine ⟨le_max_left _ _, ?_⟩
      rcases hserved with h0 | hs <;> omega
  · rw [hf'.others _ hio, hf.others _ hio]
    exact ⟨le_refl _, Or.inl rfl⟩

lemma available_end_le (job : RangeJob) {r : SectorRange} (hr : Placed r total) (ha : 0 < r.available job.dataLen) :
    r.byteOffset + r.available job.dataLen ≤ min job.dataLen (total * sectorSize) := by
  have hav := available_eq r job.dataLen
  have hfits := hr.fits
  omega

lemma rangeStep_whole {c : Tasks Shared Phase} {i : ℕ} {r : SectorRange} {s' : Shared} {t' : Phase} {m : Move}
    (hc : Whole job total d₀ c) (hr : job.ranges[i]? = some r) (hp : Placed r total)
    (hm : Complete (platformCall job c i) m) (h : RangeStep job r c.shared (c.task i) m s' t') :
    WholePhase job (d₀ job.input.file).length r c.shared.disk t' := by
  have hi := hc.sound.2 i r hr
  have hw := hc.phase i r hr
  generalize ht : c.task i = t at h hi hw
  cases h with
  | startReading _ => exact Or.inl rfl
  | startPadding h0 => exact Or.inl h0
  | @readSome filled buf answer bytes hread hlt =>
    obtain ⟨n, rfl, -, hpos⟩ := readPass_ok hread
    rw [platformCall_reading hr ht] at hm
    obtain rfl := readPass_complete (hm _ rfl) hread
    rw [window_length] at hlt hpos ⊢
    have hend := available_end_le job hp (by omega)
    refine Or.inr ?_
    rcases hc.input with hin | hin <;> omega
  | @readLast filled buf answer bytes hread hge =>
    obtain ⟨-, -, hend⟩ := readPass_length hread
    exact Or.inr (by omega)
  | transform _ _ => exact ⟨rfl, hw⟩
  | @writeSome w buf answer n file hwrite hlt =>
    obtain ⟨rfl, -⟩ := hw
    obtain ⟨k, rfl⟩ : ∃ k, answer = .count k := by
      cases answer with
      | fault e => exact (writePass_answer_good hwrite).elim
      | count k => exact ⟨k, rfl⟩
    rw [platformCall_writing hr ht] at hm
    obtain rfl := writePass_complete (hm _ rfl) hwrite
    rw [List.length_drop] at hlt
    omega
  | _ => trivial

lemma whole_step (hcov : Covers job total) {c c' : Tasks Shared Phase} {e : ℕ × Move}
    (hc : Whole job total d₀ c) (h : completeStep job mode c e = some c') : Whole job total d₀ c' := by
  obtain ⟨hm, h⟩ := completeStep_some h
  have hsound := sound_step hcov hc.sound h
  obtain ⟨-, r, s, t, hr, hstep, rfl⟩ := step_some h
  have hp := hcov.placed hr
  obtain ⟨hgrow, hin⟩ := rangeStep_input hp hc.sound.1 (hc.sound.2 e.1 r hr) (hc.phase e.1 r hr) hstep
  refine ⟨hsound, ?_, ?_⟩
  · simp only
    rcases hin with hin | hin
    · rw [hin]
      exact hc.input
    · exact Or.inr ((min_le_left _ _).trans hin)
  · intro i r' hr'
    by_cases hie : i = e.1
    · subst hie
      rw [hr] at hr'
      cases hr'
      simp only [Function.update_self]
      exact (rangeStep_whole hc hr hp hm hstep).grows hgrow
    · simp only [Function.update_of_ne hie]
      exact (hc.phase i r' hr').grows hgrow

lemma whole_start (s : Shared) : Whole job total s.disk (start s) :=
  ⟨sound_start s, Or.inl rfl, fun _ _ _ => trivial⟩

theorem run_whole (hcov : Covers job total) {s : Shared} {c : Tasks Shared Phase} {moves : List (ℕ × Move)}
    (h : run (completeStep job mode) (start s) moves = some c) : Whole job total s.disk c :=
  run_invariant (fun _ _ _ => whole_step hcov) (whole_start s) h

end Whole

section Aligned

lemma Covers.page_offset {i : ℕ} {r : SectorRange} (hcov : Covers job total) (hr : job.ranges[i]? = some r) :
    directIoAlignment ∣ r.byteOffset ↔ 8 ∣ r.firstSector := by
  rw [(hcov.placed hr).offset, page_dvd_iff]

lemma Covers.page_len {i : ℕ} {r : SectorRange} (hcov : Covers job total) (hr : job.ranges[i]? = some r) :
    directIoAlignment ∣ r.byteLen ↔ 8 ∣ r.sectorCount := by
  rw [(hcov.placed hr).len, page_dvd_iff]

/-- The calls of range `r` are aligned: its reads and, where whole pages are written, its writes. -/
def RangeAligned (dataLen : ℕ) (r : SectorRange) : Prop :=
  8 ∣ r.firstSector ∨ dataLen ≤ r.firstSector * sectorSize ∧ ¬ 8 ∣ r.sectorCount

lemma Whole.aligned (hcov : Covers job total) {c : Tasks Shared Phase} (hc : Whole job total d₀ c)
    (hin : min job.dataLen (total * sectorSize) ≤ (d₀ job.input.file).length ∨
      directIoAlignment ∣ (d₀ job.input.file).length)
    (hranges : ∀ (i : ℕ) (r : SectorRange), job.ranges[i]? = some r → RangeAligned job.dataLen r)
    {i : ℕ} {k : PlatformCall} (h : platformCall job c i = some k) : PlatformAligned k := by
  rw [platformCall] at h
  split at h
  · rename_i r filled buf hr ht
    cases h
    have hi := hc.sound.2 i r hr
    have hw := hc.phase i r hr
    rw [ht] at hi hw
    have hlt : filled < r.available job.dataLen := hi.2.1
    have hend := available_end_le job (hcov.placed hr) (by omega)
    intro hdirect
    rw [PlatformCall.ofRead] at hdirect ⊢
    split
    · refine ⟨?_, Nat.dvd_mul_left _ _⟩
      rcases hw with rfl | hw
      · rcases hranges i r hr with h8 | ⟨hpad, -⟩
        · exact (hcov.page_offset hr).mpr h8
        · have hav := available_eq r job.dataLen
          rw [← (hcov.placed hr).offset] at hpad
          omega
      · simp only [hw]
        rcases hin with hin | hin
        · omega
        · exact hin
    · rename_i hnot
      rw [if_neg hnot] at hdirect
      exact (hnot ⟨hdirect, by omega⟩).elim
  · rename_i r w buf hr ht
    cases h
    have hi := hc.sound.2 i r hr
    have hw := hc.phase i r hr
    rw [ht] at hi hw
    obtain ⟨rfl, -⟩ := hw
    obtain ⟨-, -, rfl⟩ := hi
    have hlen : (window (reference job total d₀) r.byteOffset r.byteLen).length = r.byteLen :=
      window_reference_length (hcov.placed hr)
    have hne := (hcov.placed hr).ne_nil hlen
    intro hdirect
    rw [PlatformCall.ofWrite, List.drop_zero, hlen] at hdirect ⊢
    split at hdirect
    · split at hdirect
      · rename_i hpages
        have h8 : 8 ∣ r.sectorCount := (hcov.page_len hr).mp (Nat.dvd_of_mod_eq_zero hpages)
        rcases hranges i r hr with hfirst | ⟨-, hcount⟩
        · rw [if_pos ‹_›, if_pos hpages]
          exact ⟨(hcov.page_offset hr).mpr hfirst, Nat.dvd_of_mod_eq_zero hpages⟩
        · exact (hcount h8).elim
      · cases hdirect
    · rename_i hnot
      exact (hnot ⟨hdirect, hne⟩).elim
  · cases h

def alone (s : Shared) (i : ℕ) (t : Phase) : Tasks Shared Phase := ⟨s, Function.update (fun _ => .waiting) i t⟩

@[simp] lemma alone_task (s : Shared) (i : ℕ) (t : Phase) : (alone s i t).task i = t := by
  simp [alone]

/-- Range `i` can come to phase `t` before any other range starts. -/
def ReachesAlone (job : RangeJob) (s₀ : Shared) (i : ℕ) (s : Shared) (t : Phase) : Prop :=
  ∃ moves, run (completeStep job .globalPool) (start s₀) moves = some (alone s i t)

lemma reachesAlone_waiting (s : Shared) (i : ℕ) : ReachesAlone job s i s .waiting := by
  refine ⟨[], ?_⟩
  rw [run_nil, start, alone, Function.update_eq_self]

lemma ReachesAlone.step {s₀ s s' : Shared} {i : ℕ} {t t' : Phase} {m : Move} (h : ReachesAlone job s₀ i s t)
    (hm : Complete (platformCall job (alone s i t) i) m) (hstep : processOneRange job i s t m = some (s', t')) :
    ReachesAlone job s₀ i s' t' := by
  obtain ⟨moves, hrun⟩ := h
  rw [← alone_task s i t] at hstep
  refine ⟨moves ++ [(i, m)], ?_⟩
  rw [run_append, hrun, Option.bind_some, run_cons, completeStep, if_pos hm, Worker.step, admits, if_pos rfl,
    Tasks.move]
  change (Option.map _ (processOneRange job i s _ m)).bind _ = _
  rw [hstep, Option.map_some, Option.bind_some, run_nil, alone, alone, Function.update_idem]

lemma reachesAlone_reading (s : Shared) {i : ℕ} {r : SectorRange} (hr : job.ranges[i]? = some r)
    (ha : 0 < r.available job.dataLen) : ReachesAlone job s i s (.reading 0 (List.replicate r.byteLen 0)) := by
  apply (reachesAlone_waiting s i).step (m := .compute) trivial
  simp only [processOneRange, hr, if_pos ha]

lemma reachesAlone_writing (s : Shared) {i : ℕ} {r : SectorRange} (hr : job.ranges[i]? = some r)
    (hp : Placed r total) (h0 : r.available job.dataLen = 0) :
    ∃ s' out, ReachesAlone job s i s' (.writing 0 out) ∧ out.length = r.byteLen := by
  have hd : sectorSize ∣ (List.replicate r.byteLen (0 : UInt8)).length := by
    rw [List.length_replicate, hp.len]
    exact Nat.dvd_mul_left _ _
  have hcrypt := job.engine.cryptRange_eq job.encrypt r.firstSector hd
  generalize hout : job.engine.cryptSectors job.encrypt r.firstSector (List.replicate r.byteLen 0) = out at hcrypt
  have hlen : out.length = r.byteLen := by
    rw [← hout, SectorEngine.cryptSectors_length, List.length_replicate]
  have hne := hp.ne_nil hlen
  have hfirst : ReachesAlone job s i s (.transforming (List.replicate r.byteLen 0)) := by
    apply (reachesAlone_waiting s i).step (m := .compute) trivial
    simp only [processOneRange, hr, h0, lt_irrefl, if_false]
  refine ⟨{ s with ciphered := s.ciphered ++ sectorUses job.engine r r.byteLen }, out, ?_, hlen⟩
  apply hfirst.step (m := .compute) trivial
  simp only [processOneRange, hr, hcrypt, if_neg hne, List.length_replicate]

lemma reachesAlone_end (s : Shared) {i : ℕ} {r : SectorRange} (hr : job.ranges[i]? = some r)
    (hlo : r.byteOffset < (s.disk job.input.file).length)
    (hhi : (s.disk job.input.file).length < r.byteOffset + r.available job.dataLen) :
    ∃ buf, ReachesAlone job s i s (.reading ((s.disk job.input.file).length - r.byteOffset) buf) := by
  have ha : 0 < r.available job.dataLen := by omega
  generalize hn : (PlatformCall.ofRead job.input.directIoActive r.byteOffset (r.available job.dataLen)).len = n
  have hle := PlatformCall.le_ofRead_len job.input.directIoActive r.byteOffset (r.available job.dataLen)
  have hgood : (Answer.count n).Good := by
    change 0 < n
    omega
  obtain ⟨bytes, hread⟩ := readPass_good job.input.directIoActive (s.disk job.input.file) hgood ha hlo
  have hbytes := congrArg List.length (readPass_complete hn.le hread)
  rw [window_length, min_eq_right (by omega)] at hbytes
  refine ⟨overwrite (List.replicate r.byteLen 0) 0 bytes, ?_⟩
  apply (reachesAlone_reading s hr ha).step (m := .kernel (.count n))
  · rw [platformCall_reading hr (alone_task _ _ _), Nat.add_zero, Nat.sub_zero]
    intro k hk
    exact Option.some.inj hk ▸ hn.le
  · simp only [processOneRange, hr, Nat.add_zero, Nat.sub_zero, hread, Nat.zero_add, hbytes]
    rw [if_pos (by omega)]

/-- In every mode, every interleaving and every state it passes through, the calls on the `O_DIRECT`
handles have page-aligned offsets and lengths. -/
def CallsAligned (job : RangeJob) (s : Shared) : Prop :=
  ∀ mode moves c i k, run (completeStep job mode) (start s) moves = some c → platformCall job c i = some k →
    PlatformAligned k

lemma CallsAligned.alone {s s' : Shared} {i : ℕ} {t : Phase} {k : PlatformCall} (h : CallsAligned job s)
    (ht : ReachesAlone job s i s' t) (hk : platformCall job (alone s' i t) i = some k) : PlatformAligned k := by
  obtain ⟨moves, hrun⟩ := ht
  exact h .globalPool moves _ i k hrun hk

lemma CallsAligned.range {s : Shared} (hcov : Covers job total) (hin : job.input.directIoActive = true)
    (hout : job.output.directIoActive = true) (h : CallsAligned job s) {i : ℕ} {r : SectorRange}
    (hr : job.ranges[i]? = some r) : RangeAligned job.dataLen r := by
  have hp := hcov.placed hr
  have hav := available_eq r job.dataLen
  rcases Nat.eq_zero_or_pos (r.available job.dataLen) with h0 | ha
  · by_cases h8 : 8 ∣ r.sectorCount
    · obtain ⟨s', out, hreach, hlen⟩ := reachesAlone_writing s hr hp h0
      have hk := h.alone hreach (platformCall_writing hr (alone_task _ _ _))
      have hpages : out.length % directIoAlignment = 0 := by
        rw [hlen]
        exact Nat.mod_eq_zero_of_dvd ((hcov.page_len hr).mpr h8)
      have hne := hp.ne_nil hlen
      rw [Nat.add_zero, List.drop_zero, PlatformCall.ofWrite, if_pos ⟨hout, hne⟩, if_pos hpages] at hk
      exact Or.inl ((hcov.page_offset hr).mp (hk rfl).1)
    · refine Or.inr ⟨?_, h8⟩
      have hpos := hp.pos
      rw [← hp.offset]
      omega
  · have hk := h.alone (reachesAlone_reading s hr ha) (platformCall_reading hr (alone_task _ _ _))
    rw [Nat.add_zero, Nat.sub_zero, PlatformCall.ofRead, if_pos ⟨hin, ha.ne'⟩] at hk
    exact Or.inl ((hcov.page_offset hr).mp (hk rfl).1)

lemma CallsAligned.input_end {s : Shared} (hcov : Covers job total) (hin : job.input.directIoActive = true)
    (h : CallsAligned job s) : min job.dataLen (total * sectorSize) ≤ (s.disk job.input.file).length ∨
      directIoAlignment ∣ (s.disk job.input.file).length := by
  by_cases hle : min job.dataLen (total * sectorSize) ≤ (s.disk job.input.file).length
  · exact Or.inl hle
  · obtain ⟨i, r, hr, hlo, hhi⟩ := hcov.owner (show (s.disk job.input.file).length < total * sectorSize by omega)
    have hav := available_eq r job.dataLen
    -- the range in which the input ends makes a call right there
    have hk : ∃ len, PlatformAligned ⟨true, (s.disk job.input.file).length, len⟩ := by
      rcases hlo.eq_or_lt with heq | hlt
      · have hk := h.alone (reachesAlone_reading s hr (by omega)) (platformCall_reading hr (alone_task _ _ _))
        rw [Nat.add_zero, Nat.sub_zero, PlatformCall.ofRead, if_pos ⟨hin, by omega⟩, heq] at hk
        exact ⟨_, hk⟩
      · obtain ⟨buf, hreach⟩ := reachesAlone_end s hr hlt (by omega)
        have hk := h.alone hreach (platformCall_reading hr (alone_task _ _ _))
        rw [PlatformCall.ofRead, if_pos ⟨hin, by omega⟩, Nat.add_sub_cancel' hlo] at hk
        exact ⟨_, hk⟩
    obtain ⟨len, hk⟩ := hk
    exact Or.inr (hk rfl).1

lemma rangeAligned_iff {len chunk dataLen : ℕ} {ranges : List SectorRange}
    (h : chunkRanges len chunk = .ok ranges) :
    (∀ (i : ℕ) (r : SectorRange), ranges[i]? = some r → RangeAligned dataLen r) ↔
      directIoAlignment ∣ chunk * sectorSize ∨ divCeil len sectorSize ≤ chunk ∨
        dataLen ≤ chunk * sectorSize ∧ (directIoAlignment ∣ coverage len ∨
          ¬ directIoAlignment ∣ ((divCeil len sectorSize - 1) % chunk + 1) * sectorSize) := by
  rw [coverage, page_dvd_iff, page_dvd_iff, page_dvd_iff, ← split_iff (chunkRanges_ok h).1]
  constructor
  · intro hall i hi
    apply hall i ⟨i * chunk, min chunk (divCeil len sectorSize - i * chunk)⟩
    rw [chunkRanges_getElem? h, if_pos hi]
  · intro hall i r hr
    rw [chunkRanges_getElem? h] at hr
    split at hr
    · rename_i hi
      cases hr
      exact hall i hi
    · cases hr

end Aligned

theorem processRanges_callsAligned_iff (job : RangeJob) (len chunk : ℕ) (s : Shared)
    (hin : job.input.directIoActive = true) (hout : job.output.directIoActive = true) (hlen : len < u64Size)
    (hranges : chunkRanges len chunk = .ok job.ranges) (halloc : Allocatable job.ranges) :
    CallsAligned job s ↔ AlignedSplit job.dataLen len chunk (s.disk job.input.file).length := by
  have hcov : Covers job (divCeil len sectorSize) := covers_of_chunkRanges hranges hlen halloc
  rw [AlignedSplit, ← rangeAligned_iff hranges]
  constructor
  · intro h
    exact ⟨h.input_end hcov hin, fun i r hr => h.range hcov hin hout hr⟩
  · rintro ⟨hend, hall⟩ mode moves c i k hrun hk
    exact (run_whole hcov hrun).aligned hcov hend hall hk

theorem processRanges_callsAligned_image :
    CallsAligned
      { sampleJob with input := ⟨0, true⟩, output := ⟨1, true⟩, ranges := [⟨0, 8⟩, ⟨8, 1⟩], dataLen := 4500 }
      ⟨fun _ => List.replicate 4500 0, 0, []⟩ := by
  refine (processRanges_callsAligned_iff _ 4500 8 _ rfl rfl (by decide) (by decide) (by decide)).mpr ?_
  simp only [List.length_replicate]
  decide

/-- `bench --chunk-sectors 1`: two sectors in ranges of one sector each. -/
def benchJob : RangeJob :=
  { sampleJob with input := ⟨0, true⟩, output := ⟨1, true⟩, ranges := [⟨0, 1⟩, ⟨1, 1⟩], dataLen := 1024 }

def benchStart : Shared := ⟨fun _ => sampleSector ++ sampleSector, 0, []⟩

/-- The first range is done and the second has started. -/
def benchMoves : List (ℕ × Move) :=
  [(0, .compute), (0, .kernel (.count 4096)), (0, .compute), (0, .kernel (.count 512)), (0, .compute), (1, .compute)]

theorem processRanges_misaligned : chunkRanges 1024 1 = .ok benchJob.ranges ∧
    (run (completeStep benchJob (.fixed 1)) (start benchStart) benchMoves).bind (platformCall benchJob · 1) =
      some ⟨true, 512, 4096⟩ ∧ ¬ CallsAligned benchJob benchStart := by
  have hcall : (run (completeStep benchJob (.fixed 1)) (start benchStart) benchMoves).bind
      (platformCall benchJob · 1) = some ⟨true, 512, 4096⟩ := by decide +kernel
  refine ⟨by decide, hcall, ?_⟩
  intro h
  obtain ⟨c, hc, hk⟩ := Option.bind_eq_some_iff.mp hcall
  have hbad := (h _ _ c 1 _ hc hk rfl).1
  revert hbad
  decide

end NocapCrypt.Worker
