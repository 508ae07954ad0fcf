import Mathlib

/-! The progress lines of `--ci` mode: `crates/nocap-crypt-cli/src/ci_progress.rs`. -/

namespace NocapCrypt.Cli

/-- One iteration of the poll loop: when `is_finished()` is asked, when the counter is loaded, and whether
the idle fallback has elapsed. -/
structure CiPoll where
  check : ℕ
  load : ℕ
  idle : Bool
  deriving DecidableEq, Repr

structure CiStep where
  finished : Bool
  report : Option ℚ
  deriving DecidableEq

namespace CiProgress

def percent (done totalBytes : ℕ) : ℚ := done / totalBytes * 100

/-- `((percent / 25.0) as u64) * 25`. -/
def threshold (percent : ℚ) : ℕ := ⌊percent / 25⌋₊ * 25

/-- `none` while the worker has not been seen finished in any of the polls. -/
def loop (totalBytes : ℕ) (counter : ℕ → ℕ) (isFinished : ℕ → Bool) : ℕ → List CiPoll → Option (List CiStep)
  | _, [] => none
  | lastThreshold, poll :: polls =>
    let finished := isFinished poll.check
    let done := min (counter poll.load) totalBytes
    let percent := percent done totalBytes
    let threshold := threshold percent
    let reports := finished || decide (lastThreshold < threshold) || (poll.idle && decide (0 < done))
    let step : CiStep := ⟨finished, if reports then some percent else none⟩
    if finished then some [step]
    else (loop totalBytes counter isFinished (if reports then max lastThreshold threshold else lastThreshold)
      polls).map (step :: ·)

def run (totalBytes : ℕ) (counter : ℕ → ℕ) (isFinished : ℕ → Bool) (polls : List CiPoll) :
    Option (List CiStep) :=
  if totalBytes = 0 then some [] else loop totalBytes counter isFinished 0 polls

/-- Polls follow each other in time, and each loads the counter after it has asked for the worker. -/
def Ordered (polls : List CiPoll) : Prop :=
  (∀ p ∈ polls, p.check ≤ p.load) ∧ polls.Pairwise fun p q => p.load ≤ q.check

lemma Ordered.loads {polls : List CiPoll} (h : Ordered polls) : polls.Pairwise fun p q => p.load ≤ q.load :=
  h.2.imp_of_mem fun _ hq hpq => hpq.trans (h.1 _ hq)

section Loop

variable {totalBytes : ℕ} {counter : ℕ → ℕ} {isFinished : ℕ → Bool}

lemma percent_mono {a b : ℕ} (h : a ≤ b) :
    percent (min a totalBytes) totalBytes ≤ percent (min b totalBytes) totalBytes := by
  have hm : ((min a totalBytes : ℕ) : ℚ) ≤ (min b totalBytes : ℕ) := by exact_mod_cast min_le_min_right _ h
  unfold percent
  gcongr

lemma percent_eq_iff (ht : 0 < totalBytes) (c : ℕ) :
    percent (min c totalBytes) totalBytes = 100 ↔ totalBytes ≤ c := by
  have hpos : (0 : ℚ) < totalBytes := by exact_mod_cast ht
  rw [percent, mul_eq_right₀ (by norm_num), div_eq_one_iff_eq hpos.ne', Nat.cast_inj, min_eq_right_iff]

lemma loop_stops {last : ℕ} {polls : List CiPoll} {steps : List CiStep}
    (h : loop totalBytes counter isFinished last polls = some steps) :
    ∃ before poll, poll ∈ polls ∧ isFinished poll.check = true ∧ (∀ st ∈ before, st.finished = false) ∧
      steps = before ++ [⟨true, some (percent (min (counter poll.load) totalBytes) totalBytes)⟩] := by
  induction polls generalizing last steps with
  | nil => cases h
  | cons poll polls ih =>
    rw [loop] at h
    by_cases hf : isFinished poll.check = true
    · simp only [hf, Bool.true_or, if_true, Option.some.injEq] at h
      exact ⟨[], poll, List.mem_cons_self, hf, by simp, h.symm⟩
    · rw [Bool.not_eq_true] at hf
      simp only [hf, Bool.false_eq_true, if_false] at h
      obtain ⟨rest, hrest, rfl⟩ := Option.map_eq_some_iff.mp h
      obtain ⟨before, p, hp, hfin, hbefore, rfl⟩ := ih hrest
      refine ⟨_ :: before, p, List.mem_cons_of_mem _ hp, hfin, ?_, rfl⟩
      simpa using hbefore

lemma reports_sublist {last : ℕ} {polls : List CiPoll} {steps : List CiStep}
    (h : loop totalBytes counter isFinished last polls = some steps) :
    (steps.filterMap CiStep.report).Sublist
      (polls.map fun p => percent (min (counter p.load) totalBytes) totalBytes) := by
  induction polls generalizing last steps with
  | nil => cases h
  | cons poll polls ih =>
    rw [loop] at h
    by_cases hf : isFinished poll.check = true
    · simp only [hf, Bool.true_or, if_true, Option.some.injEq] at h
      subst h
      simp
    · rw [Bool.not_eq_true] at hf
      simp only [hf, Bool.false_eq_true, if_false] at h
      obtain ⟨rest, hrest, rfl⟩ := Option.map_eq_some_iff.mp h
      rw [List.map_cons, List.filterMap_cons]
      split
      · exact (ih hrest).cons _
      · rename_i b hb
        split at hb
        · cases hb
          exact (ih hrest).cons_cons _
        · cases hb

lemma reports_sorted (hmono : Monotone counter) {last : ℕ} {polls : List CiPoll} (hp : Ordered polls)
    {steps : List CiStep} (h : loop totalBytes counter isFinished last polls = some steps) :
    (steps.filterMap CiStep.report).Pairwise (· ≤ ·) := by
  refine List.Pairwise.sublist (reports_sublist h) (List.pairwise_map.mpr ?_)
  exact hp.loads.imp fun hpq => percent_mono (hmono hpq)

lemma loop_terminates (totalBytes : ℕ) (counter : ℕ → ℕ) (isFinished : ℕ → Bool) (last : ℕ)
    {polls : List CiPoll} (h : ∃ p ∈ polls, isFinished p.check = true) :
    ∃ steps, loop totalBytes counter isFinished last polls = some steps := by
  induction polls generalizing last with
  | nil =>
    obtain ⟨p, hp, -⟩ := h
    cases hp
  | cons poll polls ih =>
    rw [loop]
    by_cases hf : isFinished poll.check = true
    · exact ⟨_, by simp only [hf, if_true]; rfl⟩
    · have hrest : ∃ p ∈ polls, isFinished p.check = true := by
        obtain ⟨p, hp, hfin⟩ := h
        rcases List.mem_cons.mp hp with rfl | hp
        · exact (hf hfin).elim
        · exact ⟨p, hp, hfin⟩
      rw [Bool.not_eq_true] at hf
      simp only [hf, Bool.false_eq_true, if_false]
      obtain ⟨rest, hr⟩ := ih _ hrest
      rw [hr]
      exact ⟨_, rfl⟩

end Loop

end CiProgress

end NocapCrypt.Cli
