import Mathlib

/-! The interactive progress display: `crates/nocap-crypt-cli/src/progress/mod.rs`. -/

namespace NocapCrypt.Cli

inductive ProgressFlavor where
  | meme
  | sterile
  | didactic
  deriving DecidableEq, Repr

def paranoidPhaseTicks : ℕ := 3

def handsUpPhaseTicks : ℕ := 4

def liftCapPhaseTicks : ℕ := 3

def totalMinAnimationTicks : ℕ := paranoidPhaseTicks + handsUpPhaseTicks + liftCapPhaseTicks

namespace LiveProgress

/-- `start` spawns the display thread only when there is something to show. -/
def starts (totalBytes : ℕ) (enabled : Bool) : Bool := enabled && decide (totalBytes ≠ 0)

def exitsAt (totalBytes : ℕ) (flavor : ProgressFlavor) (tick counter : ℕ) : Bool :=
  let done := min counter totalBytes
  let minTicksSatisfied := decide (flavor ≠ .meme ∨ totalMinAnimationTicks ≤ tick)
  decide (totalBytes ≤ done) && minTicksSatisfied

/-- The polling loop for `fuel` iterations: the tick at which it breaks, if it does. -/
def pollLoop (totalBytes : ℕ) (flavor : ProgressFlavor) (load : ℕ → ℕ) : ℕ → ℕ → Option ℕ
  | 0, _ => none
  | fuel + 1, tick =>
    if exitsAt totalBytes flavor tick (load tick) then some tick
    else pollLoop totalBytes flavor load fuel (tick + 1)

def Exits (totalBytes : ℕ) (flavor : ProgressFlavor) (load : ℕ → ℕ) : Prop :=
  ∃ fuel tick, pollLoop totalBytes flavor load fuel 0 = some tick

variable {totalBytes : ℕ} {flavor : ProgressFlavor} {load : ℕ → ℕ}

lemma exitsAt_iff (tick counter : ℕ) : exitsAt totalBytes flavor tick counter = true ↔
    totalBytes ≤ counter ∧ (flavor ≠ .meme ∨ totalMinAnimationTicks ≤ tick) := by
  simp [exitsAt]

lemma pollLoop_isSome_iff (fuel tick : ℕ) : (pollLoop totalBytes flavor load fuel tick).isSome = true ↔
    ∃ k < fuel, exitsAt totalBytes flavor (tick + k) (load (tick + k)) = true := by
  induction fuel generalizing tick with
  | zero => simp [pollLoop]
  | succ fuel ih =>
    rw [pollLoop]
    split
    · rename_i he
      exact ⟨fun _ => ⟨0, Nat.succ_pos _, he⟩, fun _ => rfl⟩
    · rename_i he
      rw [ih]
      constructor
      · rintro ⟨k, hk, h⟩
        exact ⟨k + 1, Nat.succ_lt_succ hk, by rwa [← Nat.add_assoc, Nat.add_right_comm]⟩
      · rintro ⟨k, hk, h⟩
        cases k with
        | zero => exact (he h).elim
        | succ k => exact ⟨k, Nat.lt_of_succ_lt_succ hk, by rwa [Nat.add_right_comm, Nat.add_assoc]⟩

lemma exits_iff : Exits totalBytes flavor load ↔
    ∃ k, exitsAt totalBytes flavor k (load k) = true := by
  constructor
  · rintro ⟨fuel, tick, h⟩
    obtain ⟨k, -, hk⟩ := (pollLoop_isSome_iff fuel 0).mp (by rw [h]; rfl)
    exact ⟨k, by simpa using hk⟩
  · rintro ⟨k, hk⟩
    have h : (pollLoop totalBytes flavor load (k + 1) 0).isSome = true :=
      (pollLoop_isSome_iff (k + 1) 0).mpr ⟨k, Nat.lt_succ_self k, by simpa using hk⟩
    obtain ⟨tick, ht⟩ := Option.isSome_iff_exists.mp h
    exact ⟨_, tick, ht⟩

/-- If the counter settles at `final` and was never above it, only `final` decides whether the loop ends, and
it ends within `settled + totalMinAnimationTicks + 1` iterations or never. -/
theorem exits_iff_final (totalBytes : ℕ) (flavor : ProgressFlavor) {final settled : ℕ}
    (hle : ∀ k, load k ≤ final) (hfinal : ∀ k, settled ≤ k → load k = final) :
    (Exits totalBytes flavor load ↔ totalBytes ≤ final) ∧
      ((pollLoop totalBytes flavor load (settled + totalMinAnimationTicks + 1) 0).isSome = true ↔
        totalBytes ≤ final) := by
  have hend : totalBytes ≤ final → exitsAt totalBytes flavor (settled + totalMinAnimationTicks)
      (load (settled + totalMinAnimationTicks)) = true := by
    intro h
    rw [exitsAt_iff, hfinal _ (Nat.le_add_right _ _)]
    exact ⟨h, Or.inr (Nat.le_add_left _ _)⟩
  have hback : ∀ k, exitsAt totalBytes flavor k (load k) = true → totalBytes ≤ final :=
    fun k hk => ((exitsAt_iff k _).mp hk).1.trans (hle k)
  constructor
  · rw [exits_iff]
    exact ⟨fun ⟨k, hk⟩ => hback k hk, fun h => ⟨_, hend h⟩⟩
  · rw [pollLoop_isSome_iff]
    constructor
    · rintro ⟨k, -, hk⟩
      rw [Nat.zero_add] at hk
      exact hback k hk
    · intro h
      exact ⟨settled + totalMinAnimationTicks, Nat.lt_succ_self _, by rw [Nat.zero_add]; exact hend h⟩

end LiveProgress

end NocapCrypt.Cli
