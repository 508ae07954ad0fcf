import Mathlib

/-! Decimal numerals below a bound: the checked digit loop of a machine-integer parser, and the numbers it accepts. -/

namespace NocapCrypt.Library.Decimal

inductive IntErrorKind where
  | empty
  | invalidDigit
  | posOverflow
  deriving DecidableEq, Repr

def IntErrorKind.text : IntErrorKind → String
  | .empty => "cannot parse integer from empty string"
  | .invalidDigit => "invalid digit found in string"
  | .posOverflow => "number too large to fit in target type"

def toDigit (c : Char) : Option ℕ := if '0' ≤ c ∧ c ≤ '9' then some (c.toNat - 48) else none

def parseDigits (size : ℕ) : ℕ → List Char → Except IntErrorKind ℕ
  | result, [] => .ok result
  | result, c :: digits =>
    match toDigit c with
    | none => .error .invalidDigit
    | some x =>
      if size ≤ result * 10 then .error .posOverflow
      else if size ≤ result * 10 + x then .error .posOverflow
      else parseDigits size (result * 10 + x) digits

/-- `parse` for the unsigned integers below `size`. -/
def parseUnsigned (size : ℕ) (s : String) : Except IntErrorKind ℕ :=
  match s.toList with
  | [] => .error .empty
  | ['+'] | ['-'] => .error .invalidDigit
  | '+' :: digits => parseDigits size 0 digits
  | digits => parseDigits size 0 digits

/-- A decimal numeral, as `parse` documents it for unsigned integers. -/
def Numeral (s : String) (n : ℕ) : Prop :=
  ∃ digits, (s.toList = digits ∨ s.toList = '+' :: digits) ∧ digits ≠ [] ∧ (∀ c ∈ digits, '0' ≤ c ∧ c ≤ '9') ∧
    n = Nat.ofDigits 10 (digits.reverse.map fun c => c.toNat - 48)

lemma toDigit_eq_some {c : Char} {x : ℕ} : toDigit c = some x ↔ ('0' ≤ c ∧ c ≤ '9') ∧ c.toNat - 48 = x := by
  rw [toDigit, Option.ite_none_right_eq_some, Option.some.injEq]

lemma le_foldl_digits (acc : ℕ) (digits : List Char) :
    acc ≤ digits.foldl (fun a c => a * 10 + (c.toNat - 48)) acc := by
  induction digits generalizing acc with
  | nil => exact le_refl acc
  | cons c digits ih => exact le_trans (by omega) (ih (acc * 10 + (c.toNat - 48)))

lemma parseDigits_ok {size : ℕ} {digits : List Char} {acc n : ℕ} (hacc : acc < size) :
    parseDigits size acc digits = .ok n ↔
      (∀ c ∈ digits, '0' ≤ c ∧ c ≤ '9') ∧ digits.foldl (fun a c => a * 10 + (c.toNat - 48)) acc = n ∧ n < size := by
  induction digits generalizing acc with
  | nil =>
    rw [parseDigits, List.foldl_nil, Except.ok.injEq]
    constructor
    · rintro rfl
      exact ⟨by simp, rfl, hacc⟩
    · rintro ⟨-, rfl, -⟩
      rfl
  | cons c digits ih =>
    rw [parseDigits, List.foldl_cons, List.forall_mem_cons]
    cases hc : toDigit c with
    | none =>
      constructor
      · intro h
        cases h
      · rintro ⟨⟨hdigit, -⟩, -⟩
        rw [toDigit, if_pos hdigit] at hc
        cases hc
    | some x =>
      obtain ⟨hdigit, rfl⟩ := toDigit_eq_some.mp hc
      have hgrow := le_foldl_digits (acc * 10 + (c.toNat - 48)) digits
      dsimp only
      rw [and_assoc, and_iff_right hdigit]
      by_cases hsize : size ≤ acc * 10 + (c.toNat - 48)
      · -- The accumulator only grows, so a numeral that leaves the range stays out of it.
        have hover : ¬ ((∀ c ∈ digits, '0' ≤ c ∧ c ≤ '9') ∧
            digits.foldl (fun a c => a * 10 + (c.toNat - 48)) (acc * 10 + (c.toNat - 48)) = n ∧ n < size) := by
          rintro ⟨-, rfl, hn⟩
          omega
        rw [if_pos hsize, ite_self]
        exact iff_of_false (by simp) hover
      · rw [if_neg (by omega), if_neg hsize]
        exact ih (Nat.lt_of_not_le hsize)

lemma ofDigits_foldl (digits : List Char) :
    Nat.ofDigits 10 (digits.reverse.map fun c => c.toNat - 48) =
      digits.foldl (fun a c => a * 10 + (c.toNat - 48)) 0 := by
  rw [Nat.ofDigits_eq_foldr, List.map_reverse, List.foldr_reverse, List.foldl_map]
  congr 1
  funext a c
  rw [Nat.cast_id, Nat.add_comm, Nat.mul_comm]

lemma parseUnsigned_ok {size : ℕ} (hsize : 0 < size) {s : String} {n : ℕ} :
    parseUnsigned size s = .ok n ↔ n < size ∧ Numeral s n := by
  have hdigits : ∀ digits, parseDigits size 0 digits = .ok n ↔ n < size ∧ (∀ c ∈ digits, '0' ≤ c ∧ c ≤ '9') ∧
      n = Nat.ofDigits 10 (digits.reverse.map fun c => c.toNat - 48) := by
    intro digits
    rw [parseDigits_ok hsize, ofDigits_foldl]
    tauto
  have hplus : ∀ rest, ¬ ∀ c ∈ '+' :: rest, '0' ≤ c ∧ c ≤ '9' :=
    fun rest h => absurd (h '+' List.mem_cons_self).1 (by decide)
  rw [parseUnsigned, Numeral]
  generalize s.toList = cs
  split
  · simp
  · refine iff_of_false (by simp) ?_
    rintro ⟨-, digits, rfl | h, hne, hd, -⟩
    · exact hplus [] hd
    · exact hne (List.cons.inj h).2.symm
  · refine iff_of_false (by simp) ?_
    rintro ⟨-, digits, rfl | h, hne, hd, -⟩
    · exact absurd (hd '-' List.mem_cons_self).1 (by decide)
    · exact absurd (List.cons.inj h).1 (by decide)
  · rename_i rest hsome
    rw [hdigits]
    constructor
    · rintro ⟨hn, hd, hv⟩
      exact ⟨hn, rest, Or.inr rfl, hsome, hd, hv⟩
    · rintro ⟨hn, digits, rfl | h, hne, hd, hv⟩
      · exact absurd hd (hplus rest)
      · rw [(List.cons.inj h).2]
        exact ⟨hn, hd, hv⟩
  · rename_i hnil hplusOnly hminusOnly hsign
    rw [hdigits]
    constructor
    · rintro ⟨hn, hd, hv⟩
      exact ⟨hn, cs, Or.inl rfl, hnil, hd, hv⟩
    · rintro ⟨hn, digits, rfl | h, hne, hd, hv⟩
      · exact ⟨hn, hd, hv⟩
      · exact absurd h (hsign digits)

lemma numeral_repr (n : ℕ) : Numeral n.repr n := by
  refine ⟨Nat.toDigits 10 n, Or.inl Nat.toList_repr, Nat.toDigits_ne_nil, ?_, ?_⟩
  · intro c hc
    have hdigit : c.isDigit = true := Nat.isDigit_of_mem_toDigits (by decide) (by decide) hc
    rw [Char.isDigit, Bool.and_eq_true, decide_eq_true_iff, decide_eq_true_iff] at hdigit
    exact hdigit
  · rw [ofDigits_foldl]
    have hvalue : Nat.ofDigitChars 10 (Nat.toDigits 10 n) 0 = n := Nat.ofDigitChars_ten_toDigits
    rw [Nat.ofDigitChars_eq_foldl] at hvalue
    simp only [Nat.mul_comm 10] at hvalue
    exact hvalue.symm

end NocapCrypt.Library.Decimal
