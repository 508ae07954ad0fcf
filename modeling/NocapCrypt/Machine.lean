import Mathlib

/-! Bytes, machine-integer ranges and the ways a release build stops without an exit code. -/

namespace NocapCrypt

abbrev Bytes := List UInt8

/-- `u64` and (64-bit) `usize` arithmetic is modulo `u64Size` in a release build. -/
def u64Size : ℕ := 2 ^ 64

/-- `i64::MAX`, the largest file length and file offset. -/
def i64Max : ℕ := 2 ^ 63 - 1

inductive Panic where
  | assertion (message : String)
  | expect (message : String)
  | unreachable (message : String)
  | remainderByZero
  deriving DecidableEq, Repr

def checkedAdd (a b : ℕ) : Option ℕ := if a + b < u64Size then some (a + b) else none

def checkedMul (a b : ℕ) : Option ℕ := if a * b < u64Size then some (a * b) else none

def checkedRem (a b : ℕ) : Except Panic ℕ := if b = 0 then .error .remainderByZero else .ok (a % b)

def divCeil (a b : ℕ) : ℕ := a / b + if a % b = 0 then 0 else 1

lemma le_divCeil_mul (a : ℕ) {b : ℕ} (hb : 0 < b) : a ≤ divCeil a b * b := by
  have hm := Nat.div_add_mod a b
  have hlt := Nat.mod_lt a hb
  rw [divCeil, Nat.add_mul, Nat.mul_comm (a / b) b]
  split <;> omega

lemma divCeil_mul_lt (a : ℕ) {b : ℕ} (hb : 0 < b) : divCeil a b * b < a + b := by
  have hm := Nat.div_add_mod a b
  rw [divCeil, Nat.add_mul, Nat.mul_comm (a / b) b]
  split <;> omega

lemma divCeil_le_iff {a b k : ℕ} (hb : 0 < b) : divCeil a b ≤ k ↔ a ≤ k * b := by
  constructor
  · intro h
    exact (le_divCeil_mul a hb).trans (Nat.mul_le_mul_right b h)
  · intro h
    by_contra hk
    have hm := Nat.mul_le_mul_right b (Nat.succ_le_of_lt (Nat.lt_of_not_le hk))
    have hlt := divCeil_mul_lt a hb
    rw [Nat.succ_mul] at hm
    omega

lemma divCeil_eq {a b k : ℕ} (hlo : k * b < a + b) (hhi : a ≤ k * b) : divCeil a b = k := by
  have hb : 0 < b := by
    apply Nat.pos_of_ne_zero
    rintro rfl
    omega
  apply le_antisymm ((divCeil_le_iff hb).mpr hhi)
  apply Nat.le_of_lt_succ
  apply Nat.lt_of_mul_lt_mul_right
  calc
    k * b < a + b := hlo
    _ ≤ divCeil a b * b + b := Nat.add_le_add_right (le_divCeil_mul a hb) b
    _ = (divCeil a b + 1) * b := (Nat.succ_mul _ _).symm

lemma divCeil_eq_ceil (n : ℕ) {b : ℕ} (hb : b ≠ 0) : divCeil n b = ⌈(n : ℚ) / b⌉₊ := by
  have hpos : 0 < b := Nat.pos_of_ne_zero hb
  apply eq_of_forall_ge_iff
  intro k
  rw [divCeil_le_iff hpos, Nat.ceil_le, div_le_iff₀ (by exact_mod_cast hpos)]
  norm_cast

end NocapCrypt
