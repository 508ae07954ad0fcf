import Mathlib

/-! A word xored with a shift of itself determines the word. -/

namespace NocapCrypt.Library.XorShift

variable {w k : ℕ}

theorem xor_shiftLeft_injective (hk : 0 < k) : Function.Injective fun x : BitVec w => x ^^^ (x <<< k) := by
  intro x y h
  have hbit : ∀ i, x.getLsbD i = y.getLsbD i := by
    intro i
    -- the bits below `i` determine what was shifted onto bit `i`
    induction i using Nat.strong_induction_on with
    | _ i ih =>
      have hi := congrArg (fun z => z.getLsbD i) h
      simp only [BitVec.getLsbD_xor, BitVec.getLsbD_shiftLeft] at hi
      by_cases hlt : i < k
      · simpa [hlt] using hi
      · rw [ih (i - k) (by omega)] at hi
        exact Bool.xor_left_inj.mp hi
  exact BitVec.eq_of_getLsbD_eq fun i _ => hbit i

theorem xor_ushiftRight_injective (hk : 0 < k) : Function.Injective fun x : BitVec w => x ^^^ (x >>> k) := by
  intro x y h
  -- `j` counts the bits from the top, where nothing is shifted in
  have hbit : ∀ j i, w ≤ i + j → x.getLsbD i = y.getLsbD i := by
    intro j
    induction j with
    | zero =>
      intro i hi
      rw [BitVec.getLsbD_of_ge x i hi, BitVec.getLsbD_of_ge y i hi]
    | succ j ih =>
      intro i hi
      have hx := congrArg (fun z => z.getLsbD i) h
      simp only [BitVec.getLsbD_xor, BitVec.getLsbD_ushiftRight] at hx
      rw [ih (k + i) (by omega)] at hx
      exact Bool.xor_left_inj.mp hx
  exact BitVec.eq_of_getLsbD_eq fun i _ => hbit w i (by omega)

end NocapCrypt.Library.XorShift
