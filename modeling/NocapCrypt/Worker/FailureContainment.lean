import NocapCrypt.Worker.Interleaving

/-! Runs with failing reads and writes: what a failed call leaves in the output and in the counter. -/

namespace NocapCrypt.Worker

open NocapCrypt.Library.Image NocapCrypt.Library.Runs NocapCrypt.Core NocapCrypt.BlockIo

variable {job : RangeJob} {total : ℕ} {d₀ : ℕ → Bytes} {mode : Concurrency} {c : Tasks Shared Phase}

section Bytes

lemma getElem?_or {len : ℕ} (hc : Covers job (divCeil len sectorSize))
    (hs : Sound job (divCeil len sectorSize) d₀ c) (hx : Extent job d₀ c)
    (hlen : len ≤ (d₀ job.output.file).length) {b : ℕ} (hb : b < (c.shared.disk job.output.file).length) :
    (c.shared.disk job.output.file)[b]? = (d₀ job.output.file)[b]? ∨
      (c.shared.disk job.output.file)[b]? = (reference job (divCeil len sectorSize) d₀)[b]? := by
  have href : ∀ b < divCeil len sectorSize * sectorSize,
      (reference job (divCeil len sectorSize) d₀)[b]? = some (cell (reference job (divCeil len sectorSize) d₀) b) :=
    fun b hb => getElem?_eq_cell (by rwa [reference_length])
  rw [getElem?_eq_cell hb]
  by_cases hold : b < (d₀ job.output.file).length
  · rw [getElem?_eq_cell hold]
    rcases hs.cell_or hc b with h | ⟨hlt, h⟩
    · exact Or.inl (congrArg some h)
    · exact Or.inr (by rw [h, href b hlt])
  · -- only the range of the last sector can have made the file longer
    rcases hx.within b hb with h | ⟨i, r, hr, -, h⟩
    · exact (hold h).elim
    · have hp := hc.placed hr
      have hw := (hs.2 i r hr).written_le
      have hlast : r.byteOffset < len := by
        rw [hp.offset]
        by_contra hge
        have hle := (divCeil_le_iff sectorSize_pos).mpr (Nat.le_of_not_lt hge)
        have hbound := hc.partition.bounded i r hr
        have hpos := hc.partition.nonempty i r hr
        omega
      have hfits := hp.fits
      have hl := (hs.2 i r hr).landed (b - r.byteOffset) (by omega)
      rw [if_pos (by omega), Nat.add_sub_cancel' (by omega)] at hl
      exact Or.inr (by rw [hl, href b (by omega)])

lemma window_of_finished (hc : Covers job total) (hs : Sound job total d₀ c) (hx : Extent job d₀ c) {i : ℕ}
    {r : SectorRange} (hr : job.ranges[i]? = some r) (hfin : c.task i = .finished) :
    window (c.shared.disk job.output.file) r.byteOffset r.byteLen =
      window (reference job total d₀) r.byteOffset r.byteLen := by
  have hp := hc.placed hr
  have hw : written r (c.task i) = r.byteLen := by rw [hfin, written_finished]
  have hreach := hx.reached i r hr (hw ▸ hp.pos)
  rw [hw] at hreach
  apply ext_cell
  · rw [window_length_of_le hreach, window_reference_length hp]
  · intro j hj
    rw [window_length_of_le hreach] at hj
    have hl := (hs.2 i r hr).landed j hj
    rw [hw, if_pos hj] at hl
    rw [cell_window, cell_window, if_pos hj, if_pos hj, hl]

end Bytes

section Synchronous

/-- In `Synchronous` mode a range has only been started if all the ranges before it are done. -/
def InOrder (c : Tasks Shared Phase) : Prop :=
  ∀ i, c.task i ≠ .waiting → ∀ j < i, c.task j = .finished

lemma inOrder_step {c' : Tasks Shared Phase} {e : ℕ × Move} (hi : InOrder c)
    (h : step job .synchronous c e = some c') : InOrder c' := by
  obtain ⟨ha, r, s, t, hr, hstep, rfl⟩ := step_some h
  have hdone : ∀ j < e.1, c.task j = .finished := by simpa [admits] using ha
  have hnot := rangeStep_not_finished hstep
  intro i hne j hj
  by_cases hie : i = e.1
  · simpa only [Function.update_of_ne (hie ▸ hj : j < e.1).ne] using hdone j (hie ▸ hj)
  · simp only [Function.update_of_ne hie] at hne
    by_cases hje : j = e.1
    · exact (hnot (hje ▸ hi i hne j hj)).elim
    · simpa only [Function.update_of_ne hje] using hi i hne j hj

lemma run_inOrder {s : Shared} {moves : List (ℕ × Move)}
    (h : run (step job .synchronous) (start s) moves = some c) : InOrder c :=
  run_invariant (fun _ _ _ => inOrder_step) (fun _ hne => (hne rfl).elim) h

/-- Behind a failed range nothing has been started, so nothing has changed. -/
lemma window_after_failed (hc : Covers job total) (hs : Sound job total d₀ c) (hx : Extent job d₀ c)
    (ho : InOrder c) {f i : ℕ} {r : SectorRange} (hf : c.task f ≠ .finished) (hfi : f < i)
    (hr : job.ranges[i]? = some r) :
    window (c.shared.disk job.output.file) r.byteOffset r.byteLen =
      window (d₀ job.output.file) r.byteOffset r.byteLen := by
  have hwait : ∀ k, f < k → c.task k = .waiting := by
    intro k hk
    by_contra hne
    exact hf (ho k hne f hk)
  have hcell : ∀ j < r.byteLen, cell (c.shared.disk job.output.file) (r.byteOffset + j) =
      cell (d₀ job.output.file) (r.byteOffset + j) := by
    intro j hj
    have hl := (hs.2 i r hr).landed j hj
    rwa [hwait i hfi, written_waiting, if_neg (Nat.not_lt_zero j)] at hl
  have hgrow := hs.1.grows
  have hlong : (d₀ job.output.file).length < (c.shared.disk job.output.file).length →
      (c.shared.disk job.output.file).length ≤ r.byteOffset := by
    intro hlt
    by_contra hge
    rcases hx.within _ (Nat.sub_one_lt_of_lt hlt) with h | ⟨k, r', hr', hpos, h⟩
    · omega
    · -- the range that has written there is not behind the failed one
      have hkf : k ≤ f := by
        by_contra hlt
        rw [hwait k (Nat.lt_of_not_le hlt), written_waiting] at hpos
        omega
      have hle := (hs.2 k r' hr').written_le
      have hd := Nat.mul_le_mul_right sectorSize (hc.partition.disjoint k i r' r (hkf.trans_lt hfi) hr' hr)
      rw [Nat.add_mul, ← (hc.placed hr').offset, ← (hc.placed hr').len, ← (hc.placed hr).offset] at hd
      omega
  apply ext_cell
  · rw [window_length, window_length]
    rcases Nat.lt_or_ge (d₀ job.output.file).length (c.shared.disk job.output.file).length with hlt | hge
    · have := hlong hlt
      omega
    · omega
  · intro j hj
    rw [window_length] at hj
    rw [cell_window, cell_window, if_pos (by omega), if_pos (by omega), hcell j (by omega)]

end Synchronous

/-- What a call of `process_ranges` leaves behind, `done` being the ranges it completed. -/
structure Contained (job : RangeJob) (len : ℕ) (mode : Concurrency) (schedule : Schedule) (s s' : Shared)
    (done : Finset ℕ) : Prop where
  others : ∀ f, f ≠ job.output.file → s'.disk f = s.disk f
  cells : ∀ b, cell (s'.disk job.output.file) b = cell (s.disk job.output.file) b ∨
    b < coverage len ∧
      cell (s'.disk job.output.file) b = cell (reference job (divCeil len sectorSize) s.disk) b
  bytes : len ≤ (s.disk job.output.file).length → ∀ b < (s'.disk job.output.file).length,
    (s'.disk job.output.file)[b]? = (s.disk job.output.file)[b]? ∨
      (s'.disk job.output.file)[b]? = (reference job (divCeil len sectorSize) s.disk)[b]?
  unfailed : ∀ i ∈ done, i < job.ranges.length ∧ ¬ RangeFails job mode s schedule.moves i
  complete : ∀ i ∈ done, ∀ r, job.ranges[i]? = some r →
    window (s'.disk job.output.file) r.byteOffset r.byteLen =
      window (reference job (divCeil len sectorSize) s.disk) r.byteOffset r.byteLen
  counter : s'.counter % u64Size =
    (s.counter + if job.progress then ∑ i ∈ done, rangeBytes job i else 0) % u64Size

lemma contained_of_run {len : ℕ} {schedule : Schedule} {s : Shared} (hc : Covers job (divCeil len sectorSize))
    (hrun : run (step job mode) (start s) schedule.moves = some c) :
    Contained job len mode schedule s c.shared (completed job c.task) := by
  have hs := run_sound hc hrun
  have hx := run_extent hc hrun
  refine ⟨hs.1.others, hs.cell_or hc, fun hlen b hb => getElem?_or hc hs hx hlen hb, ?_, ?_, run_counter hrun⟩
  · intro i hi
    obtain ⟨hlt, hfin⟩ := mem_completed.mp hi
    refine ⟨hlt, ?_⟩
    rw [← isFailed_iff_rangeFails hrun i, hfin]
    exact Bool.false_ne_true
  · intro i hi r hr
    exact window_of_finished hc hs hx hr (mem_completed.mp hi).2

lemma contained_refl {len : ℕ} {schedule : Schedule} (s : Shared) :
    Contained job len mode schedule s s ∅ :=
  ⟨fun _ _ => rfl, fun _ => Or.inl rfl, fun _ _ _ => Or.inl rfl, by simp, by simp, by simp⟩

lemma midwayFault_fails {i : ℕ} (hi : i < 3)
    (hfail : RangeFails paddedJob .synchronous paddedStart midwayFaultSchedule.moves i) : i = 1 := by
  have hphases : (run (step paddedJob .synchronous) (start paddedStart) midwayFaultSchedule.moves).map
      (fun c => ((c.task 0).isFailed, (c.task 2).isFailed)) = some (false, false) := by decide +kernel
  obtain ⟨c, hrun, hphases⟩ := Option.map_eq_some_iff.mp hphases
  obtain ⟨hfirst, hlast⟩ := Prod.mk.inj hphases
  have hfailed := (isFailed_iff_rangeFails hrun i).mpr hfail
  interval_cases i
  · rw [hfirst] at hfailed
    cases hfailed
  · rfl
  · rw [hlast] at hfailed
    cases hfailed

/-- Under every schedule and every placement of faults `process_ranges` returns `Ok` exactly if no read or
write of any range has failed; and however it returns, the output holds original and reference bytes only
and the counter the bytes of completed ranges only. The sequential mode stops at the first failing range. -/
theorem processRanges_failure_contained (job : RangeJob) (len chunk : ℕ) (mode : Concurrency)
    (schedule : Schedule) (s s' : Shared) (r : Except Panic (Except IoError Unit))
    (hranges : chunkRanges len chunk = .ok job.ranges) (hlen : len < u64Size) (halloc : Allocatable job.ranges)
    (h : processRanges job mode schedule s = some (r, s')) :
    job.engine.cryptRange job.encrypt 0 (padded job (divCeil len sectorSize) s.disk) =
        .ok (reference job (divCeil len sectorSize) s.disk) ∧
      (r = .ok (.ok ()) ↔ PoolBuilt mode schedule ∧ ∀ i, ¬ RangeFails job mode s schedule.moves i) ∧
      ((∃ e, r = .ok (.error e)) ∨ r = .ok (.ok ())) ∧
      ∃ done, Contained job len mode schedule s s' done ∧
        (r = .ok (.ok ()) ↔ PoolBuilt mode schedule ∧ done = Finset.range job.ranges.length) ∧
        (mode = .synchronous → r ≠ .ok (.ok ()) →
          ∃ f < job.ranges.length, RangeFails job mode s schedule.moves f ∧ (∀ i < f, i ∈ done) ∧
            ∀ i, f < i → ∀ r, job.ranges[i]? = some r →
              window (s'.disk job.output.file) r.byteOffset r.byteLen =
                window (s.disk job.output.file) r.byteOffset r.byteLen) := by
  have hc := covers_of_chunkRanges hranges hlen halloc
  refine ⟨cryptRange_padded job _ s.disk, ?_⟩
  rcases processRanges_cases h with ⟨hpool, ⟨e, rfl⟩, rfl⟩ | ⟨hpool, c, hrun, ho, rfl⟩
  · refine ⟨⟨fun hr => by simp at hr, fun hr => (hpool hr.1).elim⟩, Or.inl ⟨e, rfl⟩, ∅, contained_refl s',
      ⟨fun hr => by simp at hr, fun hr => (hpool hr.1).elim⟩, ?_⟩
    rintro rfl
    exact (hpool trivial).elim
  · have hcases := outcome_cases hc hrun ho
    have hfailed := isFailed_iff_rangeFails hrun
    refine ⟨⟨?_, ?_⟩, ?_, completed job c.task, contained_of_run hc hrun, ⟨?_, ?_⟩, ?_⟩
    · rintro rfl
      refine ⟨hpool, ?_⟩
      intro i hi
      rcases hcases with ⟨-, hfin⟩ | ⟨w, e, he, -, -⟩
      · have hf := (hfailed i).mpr hi
        rcases Nat.lt_or_ge i job.ranges.length with hlt | hge
        · rw [hfin i hlt] at hf
          cases hf
        · rw [run_waiting hrun i hge] at hf
          cases hf
      · cases he
    · rintro ⟨-, hno⟩
      rcases hcases with ⟨hr, -⟩ | ⟨w, e, -, -, hf⟩
      · exact hr
      · exact (hno _ ((hfailed schedule.reported).mp (by rw [hf]; rfl))).elim
    · rcases hcases with ⟨hr, -⟩ | ⟨w, e, hr, -, -⟩
      · exact Or.inr hr
      · exact Or.inl ⟨e, hr⟩
    · rintro rfl
      rcases hcases with ⟨-, hfin⟩ | ⟨w, e, he, -, -⟩
      · refine ⟨hpool, ?_⟩
        ext i
        rw [mem_completed, Finset.mem_range]
        exact ⟨fun h => h.1, fun hi => ⟨hi, hfin i hi⟩⟩
      · cases he
    · rintro ⟨-, hall⟩
      rcases hcases with ⟨hr, -⟩ | ⟨w, e, -, hlt, hf⟩
      · exact hr
      · rw [← Finset.mem_range, ← hall, mem_completed, hf] at hlt
        simp at hlt
    · rintro rfl hne
      rcases hcases with ⟨hr, -⟩ | ⟨w, e, -, hlt, hf⟩
      · exact (hne hr).elim
      · have hord := run_inOrder hrun
        refine ⟨schedule.reported, hlt, (hfailed _).mp (by rw [hf]; rfl), ?_, ?_⟩
        · intro i hi
          exact mem_completed.mpr ⟨hi.trans hlt, hord _ (by simp [hf]) i hi⟩
        · intro i hi r hr
          exact window_after_failed hc (run_sound hc hrun) (run_extent hc hrun) hord (by simp [hf]) hi hr

/-- The range before the failed one is done and counted, and the one behind it is as it was. -/
theorem processRanges_failure_contained_midway :
    ∃ e s', processRanges paddedJob .synchronous midwayFaultSchedule paddedStart = some (.ok (.error e), s') ∧
      s'.counter % u64Size = 512 ∧ window (s'.disk 0) 0 512 = window paddedPlaintext 0 512 ∧
      window (s'.disk 0) 1024 512 = window (paddedStart.disk 0) 1024 512 ∧
      ∀ b < (s'.disk 0).length,
        (s'.disk 0)[b]? = (paddedStart.disk 0)[b]? ∨ (s'.disk 0)[b]? = paddedPlaintext[b]? := by
  let e : IoError := .os "No space left on device (os error 28)"
  obtain ⟨s', hret⟩ : ∃ s', processRanges paddedJob .synchronous midwayFaultSchedule paddedStart =
      some (.ok (.error e), s') := exists_shared (by decide +kernel)
  obtain ⟨href, -, -, done, hcontained, -, hsync⟩ := processRanges_failure_contained paddedJob 1536 1 .synchronous
    midwayFaultSchedule paddedStart s' _ rfl (by decide) (by decide) hret
  have hpadded : padded paddedJob (divCeil 1536 sectorSize) paddedStart.disk = paddedStart.disk 0 := by
    decide +kernel
  rw [hpadded] at href
  have hreference := Except.ok.inj (padded_deciphers.symm.trans href)
  obtain ⟨f, hf, hfail, hbefore, hafter⟩ := hsync rfl (by simp)
  obtain rfl := midwayFault_fails hf hfail
  have hfirst := hcontained.complete 0 (hbefore 0 (by decide)) ⟨0, 1⟩ rfl
  have hlast := hafter 2 (by decide) ⟨2, 1⟩ rfl
  rw [← hreference] at hfirst
  have hdone : done = {0} := by
    ext i
    rw [Finset.mem_singleton]
    refine ⟨fun hi => ?_, fun hi => hi ▸ hbefore 0 (by decide)⟩
    obtain ⟨hlt, hno⟩ := hcontained.unfailed i hi
    have hlt : i < 3 := hlt
    interval_cases i
    · rfl
    · exact (hno hfail).elim
    · have hcomplete := hcontained.complete 2 hi ⟨2, 1⟩ rfl
      rw [← hreference, hlast] at hcomplete
      exact absurd hcomplete (by decide +kernel)
  refine ⟨e, s', hret, ?_, hfirst, hlast, ?_⟩
  · rw [hcontained.counter, hdone, Finset.sum_singleton]
    decide
  · rw [hreference]
    exact hcontained.bytes (by decide +kernel)

section Faulty

variable (e : IoError)

/-- The first system call of the worker fails. -/
def faultyMoves (job : RangeJob) : List (ℕ × Move) :=
  match job.ranges with
  | [] => []
  | range :: _ =>
    if 0 < range.available job.dataLen then [(0, .compute), (0, .kernel (.fault e))]
    else [(0, .compute), (0, .compute), (0, .kernel (.fault e))]

lemma admits_zero {n : ℕ} {task : ℕ → Phase} (h : ∀ j, j ≠ 0 → task j = .waiting) : admits mode n task 0 = true := by
  cases mode with
  | synchronous => rfl
  | globalPool => rfl
  | fixed k =>
    rw [admits, Bool.or_eq_true]
    cases hactive : (task 0).active with
    | true => exact Or.inl rfl
    | false =>
      have hnone : (List.range n).filter (fun j => (task j).active) = [] := by
        rw [List.filter_eq_nil_iff]
        intro j _
        by_cases hj : j = 0
        · rw [hj, hactive]
          exact Bool.false_ne_true
        · rw [h j hj]
          exact Bool.false_ne_true
      right
      rw [hnone]
      exact decide_eq_true (lt_max_of_lt_right Nat.one_pos)

lemma step_zero {m : Move} {s s' : Shared} {t t' : Phase} {task : ℕ → Phase}
    (hmove : processOneRange job 0 s t m = some (s', t')) (htask : task = Function.update (fun _ => .waiting) 0 t) :
    step job mode ⟨s, task⟩ (0, m) = some ⟨s', Function.update (fun _ => .waiting) 0 t'⟩ := by
  subst htask
  have hadmits : admits mode job.ranges.length (Function.update (fun _ => .waiting) 0 t) 0 = true :=
    admits_zero fun j hj => Function.update_of_ne hj _ _
  rw [step, if_pos hadmits, Tasks.move]
  simp only [Function.update_self, hmove, Option.map_some, Function.update_idem]

lemma outcome_zero {range : SectorRange} {rest : List SectorRange} (hranges : job.ranges = range :: rest)
    (s : Shared) :
    outcome job ⟨s, Function.update (fun _ => .waiting) 0 (.failed 0 e)⟩ 0 = some (.ok (.error e)) := by
  have hlength : 0 < job.ranges.length := by rw [hranges]; exact Nat.succ_pos _
  have hnot : ¬ allFinished job ⟨s, Function.update (fun _ => .waiting) 0 (.failed 0 e)⟩ = true := by
    intro hall
    have hzero := allFinished_iff.mp hall 0 hlength
    simp at hzero
  have hnone : noneActive job ⟨s, Function.update (fun _ => .waiting) 0 (.failed 0 e)⟩ = true := by
    rw [noneActive, List.all_eq_true]
    intro j _
    by_cases hj : j = 0
    · simp only [hj, Function.update_self]
      rfl
    · simp only [Function.update_of_ne hj]
      rfl
  rw [outcome, if_neg hnot]
  simp only [Function.update_self, if_pos hnone]

lemma run_faulty (hc : Covers job total) {range : SectorRange} {rest : List SectorRange}
    (hranges : job.ranges = range :: rest) (s : Shared) :
    ∃ s', run (step job mode) (start s) (faultyMoves e job) =
      some ⟨s', Function.update (fun _ => .waiting) 0 (.failed 0 e)⟩ := by
  have hr : job.ranges[0]? = some range := by rw [hranges]; rfl
  have hstart : start s = ⟨s, Function.update (fun _ => .waiting) 0 .waiting⟩ := by rw [start, Function.update_eq_self]
  have hlen : (List.replicate range.byteLen (0 : UInt8)).length = range.sectorCount * sectorSize := by
    rw [List.length_replicate, (hc.placed hr).len]
  rw [hstart, faultyMoves, hranges]
  dsimp only
  split
  · rename_i havailable
    have hread : processOneRange job 0 s .waiting .compute =
        some (s, .reading 0 (List.replicate range.byteLen 0)) := by
      simp only [processOneRange, hr, if_pos havailable]
    have hfault : processOneRange job 0 s (.reading 0 (List.replicate range.byteLen 0)) (.kernel (.fault e)) =
        some (s, .failed 0 e) := by
      simp only [processOneRange, hr, readPass, readAt_eq, Platform.readAt]
      rfl
    refine ⟨s, ?_⟩
    rw [run_cons, step_zero hread rfl, Option.bind_some, run_cons, step_zero hfault rfl, Option.bind_some, run_nil]
  · rename_i havailable
    have hpad : processOneRange job 0 s .waiting .compute =
        some (s, .transforming (List.replicate range.byteLen 0)) := by
      simp only [processOneRange, hr, if_neg havailable]
    obtain ⟨out, hcrypt, hne⟩ : ∃ out, job.engine.cryptRange job.encrypt range.firstSector
        (List.replicate range.byteLen 0) = .ok out ∧ out ≠ [] := by
      refine ⟨_, job.engine.cryptRange_eq job.encrypt range.firstSector ⟨range.sectorCount, ?_⟩, ?_⟩
      · rw [hlen, Nat.mul_comm]
      · apply (hc.placed hr).ne_nil
        rw [SectorEngine.cryptSectors_length, List.length_replicate]
    let s' : Shared :=
      { s with ciphered := s.ciphered ++ sectorUses job.engine range (List.replicate range.byteLen (0 : UInt8)).length }
    have htransform : processOneRange job 0 s (.transforming (List.replicate range.byteLen 0)) .compute =
        some (s', .writing 0 out) := by
      simp only [processOneRange, hr, hcrypt, if_neg hne]
      rfl
    have hfault : processOneRange job 0 s' (.writing 0 out) (.kernel (.fault e)) = some (s', .failed 0 e) := by
      simp only [processOneRange, hr, writePass, writeAt_eq, Platform.writeAt]
      rfl
    refine ⟨s', ?_⟩
    rw [run_cons, step_zero hpad rfl, Option.bind_some, run_cons, step_zero htransform rfl, Option.bind_some, run_cons,
      step_zero hfault rfl, Option.bind_some, run_nil]

lemma processRanges_faulty (hc : Covers job total) (s : Shared) :
    (processRanges job mode ⟨faultyMoves e job, 0, none⟩ s).isSome = true := by
  have hreturn : processRanges job mode ⟨faultyMoves e job, 0, none⟩ s =
      (run (step job mode) (start s) (faultyMoves e job)).bind fun c =>
        (outcome job c 0).map fun r => (r, c.shared) := by
    cases mode <;> rfl
  rw [hreturn]
  cases hranges : job.ranges with
  | nil =>
    have hall : allFinished job (start s) = true := by simp [allFinished, hranges]
    rw [faultyMoves, hranges]
    dsimp only
    rw [run_nil, Option.bind_some, outcome, if_pos hall]
    rfl
  | cons range rest =>
    obtain ⟨s', hrun⟩ := run_faulty e hc hranges s
    rw [hrun, Option.bind_some, outcome_zero e hranges]
    rfl

end Faulty

end NocapCrypt.Worker
