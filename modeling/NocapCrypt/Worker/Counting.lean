import NocapCrypt.Worker.Interleaving

/-! The progress counter as another thread sees it while the dispatcher runs. -/

namespace NocapCrypt.Worker

open NocapCrypt.Library.Image NocapCrypt.Library.Runs NocapCrypt.Core NocapCrypt.BlockIo

variable {job : RangeJob} {len chunk : ℕ} {mode : Concurrency} {schedule : Schedule} {s s' : Shared}

def movesMade (mode : Concurrency) (schedule : Schedule) : ℕ :=
  match mode, schedule.poolError with
  | .fixed _, some _ => 0
  | _, _ => schedule.moves.length

/-- The counter after the first `t` moves; it no longer changes once the worker has returned. -/
def counterAt (job : RangeJob) (mode : Concurrency) (schedule : Schedule) (s : Shared) (t : ℕ) : ℕ :=
  match run (step job mode) (start s) (schedule.moves.take (min t (movesMade mode schedule))) with
  | some c => c.shared.counter
  | none => s.counter

section Sum

lemma chunkLoop_sum {chunk : ℕ} (total : ℕ) (hc : 0 < chunk) (passes begin : ℕ) (hp : total ≤ begin + passes) :
    ((chunkLoop chunk total passes begin).map SectorRange.sectorCount).sum = total - begin := by
  induction passes generalizing begin with
  | zero =>
    rw [chunkLoop, List.map_nil, List.sum_nil]
    omega
  | succ passes ih =>
    rw [chunkLoop]
    split
    · rw [List.map_cons, List.sum_cons, ih _ (by omega)]
      simp only
      omega
    · rw [List.map_nil, List.sum_nil]
      omega

lemma allocatable_of_coverage (h : chunkRanges len chunk = .ok job.ranges) (hfit : coverage len < u64Size) :
    Allocatable job.ranges := by
  intro r hr
  obtain ⟨i, hi, rfl⟩ := List.mem_iff_getElem.mp hr
  have hb := (chunkRanges_partition h).bounded i _ (List.getElem?_eq_getElem hi)
  have hm := Nat.mul_le_mul_right sectorSize ((Nat.le_add_left _ _).trans hb)
  exact hm.trans_lt hfit

lemma covers_of_coverage (job : RangeJob) (h : chunkRanges len chunk = .ok job.ranges)
    (hfit : coverage len < u64Size) :
    Covers job (divCeil len sectorSize) :=
  ⟨chunkRanges_partition h, hfit.le, allocatable_of_coverage h hfit⟩

lemma sum_range_getElem? {α : Type} (f : α → ℕ) (xs : List α) :
    ∑ i ∈ Finset.range xs.length, (xs[i]?.map f).getD 0 = (xs.map f).sum := by
  induction xs with
  | nil => rfl
  | cons x xs ih =>
    rw [List.length_cons, Finset.sum_range_succ', List.map_cons, List.sum_cons, Nat.add_comm]
    simpa using ih

lemma sum_byteLen {ranges : List SectorRange} (h : chunkRanges len chunk = .ok ranges) :
    (ranges.map fun r => r.sectorCount * sectorSize).sum = coverage len := by
  obtain ⟨hpos, hr⟩ := chunkRanges_ok h
  have hsum := chunkLoop_sum (divCeil len sectorSize) hpos (divCeil len sectorSize) 0 (by omega)
  rw [← hr, Nat.sub_zero] at hsum
  rw [List.sum_map_mul_right, hsum]
  rfl

lemma sum_rangeBytes (h : chunkRanges len chunk = .ok job.ranges) (hfit : coverage len < u64Size) :
    ∑ i ∈ Finset.range job.ranges.length, rangeBytes job i = coverage len := by
  have hc := covers_of_coverage job h hfit
  have hlen : job.ranges.map SectorRange.byteLen = job.ranges.map fun r => r.sectorCount * sectorSize := by
    apply List.map_congr_left
    intro r hr
    obtain ⟨i, hi, rfl⟩ := List.mem_iff_getElem.mp hr
    exact (hc.placed (List.getElem?_eq_getElem hi)).len
  rw [show (∑ i ∈ Finset.range job.ranges.length, rangeBytes job i) = _ from sum_range_getElem? _ job.ranges,
    hlen, sum_byteLen h]

end Sum

section Counter

variable {c c' : Tasks Shared Phase}

lemma completed_subset (job : RangeJob) (task : ℕ → Phase) :
    completed job task ⊆ Finset.range job.ranges.length := Finset.filter_subset _ _

lemma counter_eq (h : chunkRanges len chunk = .ok job.ranges) (hfit : coverage len < u64Size)
    (hp : job.progress = true) (hs : s.counter = 0) {moves : List (ℕ × Move)}
    (hrun : run (step job mode) (start s) moves = some c) :
    c.shared.counter = ∑ i ∈ completed job c.task, rangeBytes job i := by
  have hle : ∑ i ∈ completed job c.task, rangeBytes job i ≤ coverage len := by
    rw [← sum_rangeBytes h hfit]
    exact Finset.sum_le_sum_of_subset (completed_subset job c.task)
  have hlt : c.shared.counter < u64Size := by
    refine run_invariant (I := fun c : Tasks Shared Phase => c.shared.counter < u64Size) ?_ ?_ hrun
    · intro c e c' hi hstep
      obtain ⟨-, r, s', t, -, hrs, rfl⟩ := step_some hstep
      rcases rangeStep_counter hrs with ⟨-, hcnt⟩ | ⟨-, hcnt⟩
      · rw [if_pos hp] at hcnt
        exact hcnt ▸ Nat.mod_lt _ (by decide)
      · exact hcnt ▸ hi
    · change s.counter < u64Size
      rw [hs]
      decide
  have hmod := run_counter hrun
  rw [counted, if_pos hp, hs, Nat.zero_add, Nat.mod_eq_of_lt hlt, Nat.mod_eq_of_lt (hle.trans_lt hfit)] at hmod
  exact hmod

lemma counter_add_le (h : chunkRanges len chunk = .ok job.ranges) (hfit : coverage len < u64Size)
    (hp : job.progress = true) (hs : s.counter = 0) {moves : List (ℕ × Move)}
    (hrun : run (step job mode) (start s) moves = some c) {i : ℕ} {r : SectorRange}
    (hr : job.ranges[i]? = some r) (hne : c.task i ≠ .finished) :
    c.shared.counter + r.byteLen ≤ coverage len := by
  have hi := (List.getElem?_eq_some_iff.mp hr).1
  have hnot : i ∉ completed job c.task := fun hm => hne (mem_completed.mp hm).2
  have hsub : insert i (completed job c.task) ⊆ Finset.range job.ranges.length :=
    Finset.insert_subset (Finset.mem_range.mpr hi) (completed_subset job c.task)
  have hle := Finset.sum_le_sum_of_subset (f := rangeBytes job) hsub
  rwa [Finset.sum_insert hnot, sum_rangeBytes h hfit, rangeBytes_eq hr, ← counter_eq h hfit hp hs hrun,
    Nat.add_comm] at hle

/-- One missing range keeps the counter below the total, although it counts whole sectors. -/
lemma counter_lt_of_unfinished (h : chunkRanges len chunk = .ok job.ranges) (hfit : coverage len < u64Size)
    (hp : job.progress = true) (hs : s.counter = 0) {moves : List (ℕ × Move)}
    (hrun : run (step job mode) (start s) moves = some c) {i : ℕ} (hi : i < job.ranges.length)
    (hne : c.task i ≠ .finished) : c.shared.counter < len := by
  have hc := covers_of_coverage job h hfit
  have hr := List.getElem?_eq_getElem hi
  have hle := counter_add_le h hfit hp hs hrun hr hne
  have hsector : sectorSize ≤ (job.ranges[i]).byteLen := by
    rw [(hc.placed hr).len]
    exact Nat.le_mul_of_pos_left _ (hc.partition.nonempty i _ hr)
  have hcov := coverage_lt len
  omega

lemma counter_of_finished (h : chunkRanges len chunk = .ok job.ranges) (hfit : coverage len < u64Size)
    (hp : job.progress = true) (hs : s.counter = 0) {moves : List (ℕ × Move)}
    (hrun : run (step job mode) (start s) moves = some c)
    (hfin : ∀ i < job.ranges.length, c.task i = .finished) : c.shared.counter = coverage len := by
  have hall : completed job c.task = Finset.range job.ranges.length := by
    ext i
    rw [mem_completed, Finset.mem_range]
    exact ⟨fun h => h.1, fun hi => ⟨hi, hfin i hi⟩⟩
  rw [counter_eq h hfit hp hs hrun, hall, sum_rangeBytes h hfit]

lemma completed_step {e : ℕ × Move} (h : step job mode c e = some c') :
    completed job c.task ⊆ completed job c'.task := by
  obtain ⟨-, r, s, t, -, hrs, rfl⟩ := step_some h
  intro i hi
  obtain ⟨hlt, hfin⟩ := mem_completed.mp hi
  have hne : i ≠ e.1 := by
    rintro rfl
    exact rangeStep_not_finished hrs hfin
  exact mem_completed.mpr ⟨hlt, by simpa only [Function.update_of_ne hne] using hfin⟩

lemma completed_run {moves : List (ℕ × Move)} (h : run (step job mode) c moves = some c') :
    completed job c.task ⊆ completed job c'.task :=
  run_relation (R := fun c c' : Tasks Shared Phase => completed job c.task ⊆ completed job c'.task)
    (fun _ => Finset.Subset.refl _) (fun _ _ _ => Finset.Subset.trans) (fun _ _ _ => completed_step) h

end Counter

section Observed

lemma counterAt_of_pool (h : ¬ PoolBuilt mode schedule) (t : ℕ) : counterAt job mode schedule s t = s.counter := by
  have hm : movesMade mode schedule = 0 := by
    cases mode with
    | synchronous => exact (h trivial).elim
    | globalPool => exact (h trivial).elim
    | fixed k =>
      cases he : schedule.poolError with
      | none => exact (h (by simp only [PoolBuilt, he])).elim
      | some e => simp only [movesMade, he]
  simp [counterAt, hm, start]

lemma movesMade_of_pool (h : PoolBuilt mode schedule) : movesMade mode schedule = schedule.moves.length := by
  cases mode with
  | synchronous => rfl
  | globalPool => rfl
  | fixed k =>
    cases he : schedule.poolError with
    | none => simp only [movesMade, he]
    | some e => simp only [PoolBuilt, he] at h

lemma exists_prefix_run {c : Tasks Shared Phase} (hrun : run (step job mode) (start s) schedule.moves = some c)
    (n : ℕ) : ∃ u, run (step job mode) (start s) (schedule.moves.take n) = some u ∧
      run (step job mode) u (schedule.moves.drop n) = some c :=
  run_append_some _ (by rwa [List.take_append_drop])

lemma counterAt_mono (job : RangeJob) (h : chunkRanges len chunk = .ok job.ranges) (hfit : coverage len < u64Size)
    (hp : job.progress = true) (hs : s.counter = 0) {r : Except Panic (Except IoError Unit)}
    (hret : processRanges job mode schedule s = some (r, s')) {t u : ℕ} (htu : t ≤ u) :
    counterAt job mode schedule s t ≤ counterAt job mode schedule s u := by
  rcases processRanges_cases hret with ⟨hpool, -, -⟩ | ⟨hpool, c, hrun, -, -⟩
  · rw [counterAt_of_pool hpool, counterAt_of_pool hpool]
  · have hmin : min t (movesMade mode schedule) ≤ min u (movesMade mode schedule) := by omega
    obtain ⟨b, hb, -⟩ := exists_prefix_run hrun (min u (movesMade mode schedule))
    have hsplit : schedule.moves.take (min u (movesMade mode schedule)) =
        schedule.moves.take (min t (movesMade mode schedule)) ++
          (schedule.moves.drop (min t (movesMade mode schedule))).take
            (min u (movesMade mode schedule) - min t (movesMade mode schedule)) := by
      rw [← List.take_add, Nat.add_sub_cancel' hmin]
    rw [hsplit] at hb
    obtain ⟨a, ha, hab⟩ := run_append_some _ hb
    rw [← hsplit] at hb
    simp only [counterAt, ha, hb]
    rw [counter_eq h hfit hp hs ha, counter_eq h hfit hp hs hb]
    exact Finset.sum_le_sum_of_subset (completed_run hab)

theorem le_counterAt_iff (job : RangeJob) (h : chunkRanges len chunk = .ok job.ranges) (hlen : 0 < len)
    (hfit : coverage len < u64Size) (hp : job.progress = true) (hs : s.counter = 0)
    {r : Except Panic (Except IoError Unit)} (hret : processRanges job mode schedule s = some (r, s')) {t : ℕ}
    (ht : movesMade mode schedule ≤ t) : len ≤ counterAt job mode schedule s t ↔ r = .ok (.ok ()) := by
  rcases processRanges_cases hret with ⟨hpool, ⟨e, rfl⟩, -⟩ | ⟨hpool, c, hrun, ho, -⟩
  · rw [counterAt_of_pool hpool, hs]
    simp
    omega
  · have hmoves := movesMade_of_pool hpool
    have hcount : counterAt job mode schedule s t = c.shared.counter := by
      rw [counterAt, min_eq_right ht, hmoves, List.take_length, hrun]
    rw [hcount]
    rcases outcome_cases (covers_of_coverage job h hfit) hrun ho with ⟨rfl, hfin⟩ | ⟨w, e, rfl, hlt, hf⟩
    · simp only [iff_true]
      rw [counter_of_finished h hfit hp hs hrun hfin]
      exact le_coverage len
    · have hlow := counter_lt_of_unfinished h hfit hp hs hrun hlt (by simp [hf])
      simp
      omega

end Observed

end NocapCrypt.Worker
