import NocapCrypt.Worker.Interleaving

/-! Fault-free runs: every interleaving ends, and all of them end with the same bytes. -/

namespace NocapCrypt.Worker

open NocapCrypt.Library.Image NocapCrypt.Library.Runs NocapCrypt.Core NocapCrypt.BlockIo

def Move.Good : Move → Prop
  | .compute => True
  | .kernel answer => answer.Good

instance : DecidablePred Move.Good
  | .compute => inferInstanceAs (Decidable True)
  | .kernel answer => inferInstanceAs (Decidable answer.Good)

/-- No read or write fails, and a scoped pool can be built. -/
def FaultFree (mode : Concurrency) (schedule : Schedule) : Prop :=
  PoolBuilt mode schedule ∧ ∀ e ∈ schedule.moves, e.2.Good

variable {job : RangeJob} {total : ℕ} {d₀ : ℕ → Bytes} {mode : Concurrency}

section Termination

def remaining (job : RangeJob) (r : SectorRange) : Phase → ℕ
  | .waiting => r.available job.dataLen + r.byteLen + 3
  | .reading filled _ => r.available job.dataLen - filled + r.byteLen + 2
  | .transforming _ => r.byteLen + 2
  | .writing w _ => r.byteLen - w + 1
  | .counting => 1
  | .finished | .failed _ _ | .panicked _ => 0

def remainingAt (job : RangeJob) (i : ℕ) (t : Phase) : ℕ := (job.ranges[i]?.map (remaining job · t)).getD 0

def totalRemaining (job : RangeJob) (c : Tasks Shared Phase) : ℕ :=
  ∑ i ∈ Finset.range job.ranges.length, remainingAt job i (c.task i)

lemma remainingAt_eq {i : ℕ} {r : SectorRange} (hr : job.ranges[i]? = some r) (t : Phase) :
    remainingAt job i t = remaining job r t := by
  simp [remainingAt, hr]

lemma rangeStep_remaining {r : SectorRange} {s s' : Shared} {t t' : Phase} {m : Move}
    (hi : PhaseInv job total d₀ r s.disk t) (h : RangeStep job r s t m s' t') :
    remaining job r t' < remaining job r t := by
  cases h with
  | startReading _ => simp only [remaining]; omega
  | startPadding _ => simp only [remaining]; omega
  | readFault _ => simp only [remaining]; omega
  | readSome hread _ =>
    obtain ⟨-, -, -, hpos⟩ := readPass_ok hread
    have hlt := hi.2.1
    simp only [remaining]
    omega
  | readLast _ _ =>
    have hlt := hi.2.1
    simp only [remaining]
    omega
  | transform _ _ => simp only [remaining]; omega
  | transformEmpty _ => simp only [remaining]; omega
  | transformPanic _ => simp only [remaining]; omega
  | writeFault _ => simp only [remaining]; omega
  | writeSome hwrite _ =>
    obtain ⟨hn, -, -⟩ := writePass_ok hwrite
    have hlt := hi.2.1
    simp only [remaining]
    omega
  | writeLast _ _ =>
    have hlt := hi.2.1
    simp only [remaining]
    omega
  | count => simp only [remaining]; omega

lemma step_totalRemaining {c c' : Tasks Shared Phase} {e : ℕ × Move} (hs : Sound job total d₀ c)
    (h : step job mode c e = some c') : totalRemaining job c' < totalRemaining job c := by
  obtain ⟨-, r, s, t, hr, hstep, rfl⟩ := step_some h
  have hlt := rangeStep_remaining (hs.2 e.1 r hr) hstep
  refine Finset.sum_lt_sum ?_ ⟨e.1, ?_, ?_⟩
  · intro i _
    by_cases hie : i = e.1
    · subst hie
      simp only [Function.update_self, remainingAt_eq hr]
      exact hlt.le
    · simp only [Function.update_of_ne hie, le_refl]
  · exact Finset.mem_range.mpr (List.getElem?_eq_some_iff.mp hr).1
  · simpa only [Function.update_self, remainingAt_eq hr] using hlt

theorem run_length_le_totalRemaining (hc : Covers job total) {s : Shared} {c : Tasks Shared Phase}
    {moves : List (ℕ × Move)} (h : run (step job mode) (start s) moves = some c) :
    moves.length ≤ totalRemaining job (start s) := by
  have hle := run_length_le (I := Sound job total s.disk) (m := totalRemaining job)
    (fun _ _ _ => sound_step hc) (fun _ _ _ => step_totalRemaining) (sound_start s) h
  omega

end Termination

section FaultFree

lemma rangeStep_good {r : SectorRange} {s s' : Shared} {t t' : Phase} {m : Move} (hr : Placed r total)
    (hf : Frame job total d₀ s.disk) (hi : PhaseInv job total d₀ r s.disk t)
    (hin : job.dataLen ≤ (d₀ job.input.file).length) (hm : m.Good) (h : RangeStep job r s t m s' t') :
    t'.isFailed = false := by
  have hgrow : (d₀ job.input.file).length ≤ (s.disk job.input.file).length := by
    by_cases hio : job.input.file = job.output.file
    · rw [hio]
      exact hf.grows
    · rw [hf.others _ hio]
  cases h with
  | @readFault filled _ _ _ hread =>
    have hlt := hi.2.1
    have hav := available_eq r job.dataLen
    obtain ⟨bytes, hok⟩ := readPass_good job.input.directIoActive (s.disk job.input.file) hm
      (Nat.sub_pos_of_lt hlt) (show r.byteOffset + filled < (s.disk job.input.file).length by omega)
    rw [hread] at hok
    cases hok
  | writeFault hwrite =>
    obtain ⟨-, hlt, rfl⟩ := hi
    have hw : (window (reference job total d₀) r.byteOffset r.byteLen).length = r.byteLen :=
      window_reference_length hr
    obtain ⟨p, hok⟩ := writePass_good job.output.directIoActive (s.disk job.output.file) (r.byteOffset + _) hm
      (by rw [List.length_drop, hw]; exact Nat.sub_pos_of_lt hlt)
    rw [hwrite] at hok
    cases hok
  | _ => rfl

def Healthy (job : RangeJob) (total : ℕ) (d₀ : ℕ → Bytes) (c : Tasks Shared Phase) : Prop :=
  Sound job total d₀ c ∧ ∀ i, (c.task i).isFailed = false

lemma healthy_start (s : Shared) : Healthy job total s.disk (start s) := ⟨sound_start s, fun _ => rfl⟩

lemma healthy_step (hc : Covers job total) (hin : job.dataLen ≤ (d₀ job.input.file).length)
    {c c' : Tasks Shared Phase} {e : ℕ × Move} (hm : e.2.Good) (hi : Healthy job total d₀ c)
    (h : step job mode c e = some c') : Healthy job total d₀ c' := by
  refine ⟨sound_step hc hi.1 h, ?_⟩
  obtain ⟨-, r, s, t, hr, hstep, rfl⟩ := step_some h
  intro i
  by_cases hie : i = e.1
  · subst hie
    simpa only [Function.update_self] using
      rangeStep_good (hc.placed hr) hi.1.1 (hi.1.2 e.1 r hr) hin hm hstep
  · simpa only [Function.update_of_ne hie] using hi.2 i

lemma run_healthy (hc : Covers job total) {s : Shared} (hin : job.dataLen ≤ (s.disk job.input.file).length)
    {c : Tasks Shared Phase} {moves : List (ℕ × Move)} (hm : ∀ e ∈ moves, e.2.Good)
    (h : run (step job mode) (start s) moves = some c) : Healthy job total s.disk c :=
  run_invariant_of (C := fun e => e.2.Good) (fun _ _ _ => healthy_step hc hin) hm (healthy_start s) h

lemma exists_move {i : ℕ} {r : SectorRange} (hr : job.ranges[i]? = some r) (s : Shared) {t : Phase}
    (hfin : t ≠ .finished) (hfail : t.isFailed = false) (hp : ∀ p, t ≠ .panicked p) :
    ∃ m : Move, m.Good ∧ ∃ p, processOneRange job i s t m = some p := by
  cases t with
  | waiting => exact ⟨.compute, trivial, _, by simp only [processOneRange, hr]; rfl⟩
  | reading filled buf =>
    refine ⟨.kernel (.count 1), Nat.one_pos, ?_⟩
    simp only [processOneRange, hr]
    split <;> exact ⟨_, rfl⟩
  | transforming buf =>
    refine ⟨.compute, trivial, ?_⟩
    simp only [processOneRange, hr]
    split <;> exact ⟨_, rfl⟩
  | writing w buf =>
    refine ⟨.kernel (.count 1), Nat.one_pos, ?_⟩
    simp only [processOneRange, hr]
    split <;> exact ⟨_, rfl⟩
  | counting => exact ⟨.compute, trivial, _, by simp only [processOneRange, hr]; rfl⟩
  | finished => exact (hfin rfl).elim
  | failed w e => cases hfail
  | panicked p => exact (hp p rfl).elim

lemma exists_admitted (mode : Concurrency) {n : ℕ} {task : ℕ → Phase} (h : ∃ i < n, task i ≠ .finished) :
    ∃ i < n, task i ≠ .finished ∧ admits mode n task i = true := by
  classical
  cases mode with
  | synchronous =>
    refine ⟨Nat.find h, (Nat.find_spec h).1, (Nat.find_spec h).2, ?_⟩
    simp only [admits, List.all_eq_true, List.mem_range, decide_eq_true_eq]
    intro j hj
    by_contra hne
    exact Nat.find_min h hj ⟨hj.trans (Nat.find_spec h).1, hne⟩
  | globalPool =>
    obtain ⟨i, hi, hne⟩ := h
    exact ⟨i, hi, hne, rfl⟩
  | fixed k =>
    by_cases ha : ∃ i < n, (task i).active = true
    · obtain ⟨i, hi, hact⟩ := ha
      refine ⟨i, hi, ?_, by simp [admits, hact]⟩
      intro hfin
      rw [hfin] at hact
      cases hact
    · obtain ⟨i, hi, hne⟩ := h
      have hnone : (List.range n).filter (fun j => (task j).active) = [] := by
        rw [List.filter_eq_nil_iff]
        intro j hj hact
        exact ha ⟨j, List.mem_range.mp hj, hact⟩
      exact ⟨i, hi, hne, by simp [admits, hnone]⟩

lemma exists_step (mode : Concurrency) {c : Tasks Shared Phase} (hi : Healthy job total d₀ c)
    (h : ∃ i < job.ranges.length, c.task i ≠ .finished) :
    ∃ (e : ℕ × Move) (c' : Tasks Shared Phase), e.2.Good ∧ step job mode c e = some c' := by
  obtain ⟨i, hlt, hne, ha⟩ := exists_admitted mode h
  have hr : job.ranges[i]? = some job.ranges[i] := List.getElem?_eq_getElem hlt
  obtain ⟨m, hm, p, hp⟩ := exists_move hr c.shared hne (hi.2 i) (hi.1.not_panicked hr)
  refine ⟨(i, m), ⟨p.1, Function.update c.task i p.2⟩, hm, ?_⟩
  rw [step, if_pos ha, Tasks.move, hp]
  rfl

theorem exists_completion (mode : Concurrency) (hc : Covers job total) (hin : job.dataLen ≤ (d₀ job.input.file).length)
    {c : Tasks Shared Phase} (hi : Healthy job total d₀ c) :
    ∃ (more : List (ℕ × Move)) (c' : Tasks Shared Phase), (∀ e ∈ more, e.2.Good) ∧
      run (step job mode) c more = some c' ∧ ∀ i < job.ranges.length, c'.task i = .finished := by
  generalize hn : totalRemaining job c = n
  induction n using Nat.strong_induction_on generalizing c with
  | _ n ih =>
    by_cases h : ∃ i < job.ranges.length, c.task i ≠ .finished
    · obtain ⟨e, c', hm, hstep⟩ := exists_step mode hi h
      have hlt := step_totalRemaining hi.1 hstep
      obtain ⟨more, c'', hgood, hrun, hfin⟩ := ih _ (hn ▸ hlt) (healthy_step hc hin hm hi hstep) rfl
      refine ⟨e :: more, c'', ?_, ?_, hfin⟩
      · exact List.forall_mem_cons.mpr ⟨hm, hgood⟩
      · rw [run_cons, hstep]
        exact hrun
    · refine ⟨[], c, by simp, rfl, ?_⟩
      intro i hlt
      by_contra hne
      exact h ⟨i, hlt, hne⟩

end FaultFree

lemma rangeStep_move_good {r : SectorRange} {s s' : Shared} {t t' : Phase} {m : Move}
    (h : RangeStep job r s t m s' t') (hf : t'.isFailed = false) : m.Good := by
  cases h with
  | readFault _ => cases hf
  | writeFault _ => cases hf
  | readSome hread _ => exact readPass_answer_good hread
  | readLast hread _ => exact readPass_answer_good hread
  | writeSome hwrite _ => exact writePass_answer_good hwrite
  | writeLast hwrite _ => exact writePass_answer_good hwrite
  | _ => exact trivial

lemma run_moves_good {s : Shared} {c : Tasks Shared Phase} {moves : List (ℕ × Move)}
    (h : run (step job mode) (start s) moves = some c) (hf : ∀ i, (c.task i).isFailed = false) :
    ∀ e ∈ moves, e.2.Good := by
  induction moves using List.reverseRecOn generalizing c with
  | nil => simp
  | append_singleton moves e ih =>
    obtain ⟨u, hu, hstep⟩ := run_concat_some _ h
    obtain ⟨-, r, s', t, -, hrs, rfl⟩ := step_some hstep
    have hgood : e.2.Good := by
      apply rangeStep_move_good hrs
      simpa only [Function.update_self] using hf e.1
    have hold : ∀ i, (u.task i).isFailed = false := by
      intro i
      by_cases hie : i = e.1
      · exact hie ▸ rangeStep_not_failed hrs
      · simpa only [Function.update_of_ne hie] using hf i
    intro a ha
    rcases List.mem_append.mp ha with ha | ha
    · exact ih hu hold a ha
    · exact List.mem_singleton.mp ha ▸ hgood

/-- A call that has its data returns `Ok` exactly if the kernel answers well throughout. -/
theorem processRanges_ok_iff (hc : Covers job total) {schedule : Schedule} {s s' : Shared}
    (hin : job.dataLen ≤ (s.disk job.input.file).length) {r : Except Panic (Except IoError Unit)}
    (h : processRanges job mode schedule s = some (r, s')) : r = .ok (.ok ()) ↔ FaultFree mode schedule := by
  rcases processRanges_cases h with ⟨hpool, ⟨e, rfl⟩, -⟩ | ⟨hpool, c, hrun, ho, -⟩
  · exact ⟨fun hr => by simp at hr, fun hfree => (hpool hfree.1).elim⟩
  · rcases outcome_cases hc hrun ho with ⟨rfl, hfin⟩ | ⟨w, e, rfl, -, hf⟩
    · refine ⟨fun _ => ⟨hpool, run_moves_good hrun ?_⟩, fun _ => rfl⟩
      intro i
      rcases Nat.lt_or_ge i job.ranges.length with hlt | hge
      · rw [hfin i hlt]
        rfl
      · rw [run_waiting hrun i hge]
        rfl
    · refine ⟨fun hr => by simp at hr, fun hfree => ?_⟩
      have hno := (run_healthy hc hin hfree.2 hrun).2 schedule.reported
      rw [hf] at hno
      cases hno

lemma padded_eq_append {len : ℕ} (hdata : job.dataLen ≤ len) (hin : job.dataLen ≤ (d₀ job.input.file).length) :
    padded job (divCeil len sectorSize) d₀ =
      (d₀ job.input.file).take job.dataLen ++ List.replicate (coverage len - job.dataLen) 0 := by
  have hle := hdata.trans (le_coverage len)
  have hw : (window (d₀ job.input.file) 0 job.dataLen).length = job.dataLen :=
    window_length_of_le (by omega)
  rw [padded, resize, hw, List.take_of_length_le (by rw [hw]; exact hle)]
  rfl

/-- Every fault-free interleaving of the ranges that cover `len` bytes, under every chunking and mode, ends
and leaves the same output: the reference ciphertext (or plaintext) of the zero-padded data. The output
file may be the input file. -/
theorem processRanges_schedule_independent (job : RangeJob) (len : ℕ) (s : Shared) (hlen : len < u64Size)
    (hdata : job.dataLen ≤ len) (hin : job.dataLen ≤ (s.disk job.input.file).length) :
    ∃ ref, job.engine.cryptRange job.encrypt 0
        ((s.disk job.input.file).take job.dataLen ++ List.replicate (coverage len - job.dataLen) 0) = .ok ref ∧
      ((s.disk job.output.file).length ≤ coverage len → overwrite (s.disk job.output.file) 0 ref = ref) ∧
      ∀ chunk ranges mode, chunkRanges len chunk = .ok ranges → Allocatable ranges →
        (∀ schedule r s', FaultFree mode schedule →
          processRanges { job with ranges := ranges } mode schedule s = some (r, s') →
          r = .ok (.ok ()) ∧
            s'.disk = Function.update s.disk job.output.file (overwrite (s.disk job.output.file) 0 ref)) ∧
        ∃ bound, ∀ moves c, (∀ e ∈ moves, e.2.Good) →
          run (step { job with ranges := ranges } mode) (start s) moves = some c →
          moves.length ≤ bound ∧ ∃ more s', (∀ e ∈ more, e.2.Good) ∧
            processRanges { job with ranges := ranges } mode ⟨moves ++ more, 0, none⟩ s =
              some (.ok (.ok ()), s') := by
  refine ⟨reference job (divCeil len sectorSize) s.disk, ?_, ?_, ?_⟩
  · rw [← padded_eq_append hdata hin]
    exact cryptRange_padded job _ s.disk
  · intro hle
    exact overwrite_zero_of_length_le (by rw [reference_length]; exact hle)
  · intro chunk ranges mode hranges halloc
    have hc : Covers { job with ranges := ranges } (divCeil len sectorSize) :=
      covers_of_chunkRanges hranges hlen halloc
    refine ⟨?_, totalRemaining { job with ranges := ranges } (start s), ?_⟩
    · intro schedule r s' hfree h
      obtain rfl := (processRanges_ok_iff hc hin h).mpr hfree
      have hdisk := disk_of_processRanges hc h
      exact ⟨rfl, hdisk⟩
    · intro moves c hgood hrun
      obtain ⟨more, c', hmore, hrun', hfin⟩ :=
        exists_completion mode hc hin (run_healthy hc hin hgood hrun)
      refine ⟨run_length_le_totalRemaining hc hrun, more, c'.shared, hmore, ?_⟩
      refine processRanges_finished (by cases mode <;> trivial) ?_ hfin
      rw [run_append, hrun]
      exact hrun'

theorem processRanges_schedule_independent_inplace :
    ∃ s', processRanges paddedJob .globalPool interleavedSchedule paddedStart = some (.ok (.ok ()), s') ∧
      s'.disk 0 = paddedPlaintext := by
  obtain ⟨ref, href, hover, hall⟩ := processRanges_schedule_independent paddedJob 1536 paddedStart (by decide)
    (by decide) (by decide +kernel)
  obtain ⟨s', hret, -⟩ := interleaved_returns
  obtain ⟨hfree, -⟩ := hall 1 paddedJob.ranges .globalPool rfl (by decide)
  obtain ⟨-, hdisk⟩ := hfree interleavedSchedule _ s' ⟨trivial, by decide⟩ hret
  refine ⟨s', hret, ?_⟩
  have hpadded : (paddedStart.disk paddedJob.input.file).take paddedJob.dataLen ++
      List.replicate (coverage 1536 - paddedJob.dataLen) 0 = paddedStart.disk 0 := by decide +kernel
  rw [hpadded] at href
  obtain rfl : paddedPlaintext = ref := Except.ok.inj (padded_deciphers.symm.trans href)
  rw [hdisk, hover (by decide +kernel)]
  rfl

end NocapCrypt.Worker
