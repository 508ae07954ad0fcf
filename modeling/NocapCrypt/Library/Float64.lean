import NocapCrypt.Library.Decimal
import NocapCrypt.Library.Rounding

/-! The values of the 64-bit binary floating-point format, up to the sign of a zero, and the texts that denote them. -/

namespace NocapCrypt.Library

open Rounding Decimal

inductive F64 where
  | nan
  | infinity (negative : Bool)
  | finite (value : ℚ)
  deriving DecidableEq, Repr

namespace F64

/-- The distance of neighbours near `x`: below the normal numbers it does not shrink any more. -/
def spacing (x : ℚ) : ℚ := max (ulp 53 x) (2 ^ (-1074 : ℤ))

def ofMagnitude (negative : Bool) (x : ℚ) : F64 :=
  let rounded := roundEven (x / spacing x) * spacing x
  if 2 ^ 1024 ≤ rounded then .infinity negative else .finite (if negative then -rounded else rounded)

def ofRat (x : ℚ) : F64 := ofMagnitude (x < 0) |x|

def digits (text : List Char) : Option ℕ :=
  if text ≠ [] ∧ text.all Char.isDigit then some (Nat.ofDigitChars 10 text 0) else none

def exponent : List Char → Option ℤ
  | '-' :: text => (digits text).map fun e => -(e : ℤ)
  | '+' :: text => (digits text).map fun e => (e : ℤ)
  | text => (digits text).map fun e => (e : ℤ)

/-- Digits, which a point may part, and an exponent. -/
def number (text : List Char) : Option ℚ :=
  let whole := text.takeWhile Char.isDigit
  let behind := text.dropWhile Char.isDigit
  let fraction := if behind.head? = some '.' then behind.tail.takeWhile Char.isDigit else []
  let rest := if behind.head? = some '.' then behind.tail.dropWhile Char.isDigit else behind
  let mantissa : ℚ := Nat.ofDigitChars 10 (whole ++ fraction) 0 / 10 ^ fraction.length
  if whole = [] ∧ fraction = [] then none
  else match rest with
    | [] => some mantissa
    | mark :: rest => if mark = 'e' ∨ mark = 'E' then (exponent rest).map fun e => mantissa * 10 ^ e else none

def unsigned (negative : Bool) (text : List Char) : Option F64 :=
  match number text with
  | some x => some (ofRat (if negative then -x else x))
  | none =>
    match String.ofList (text.map Char.toLower) with
    | "nan" => some .nan
    | "inf" | "infinity" => some (.infinity negative)
    | _ => none

def parse (s : String) : Option F64 :=
  match s.toList with
  | '-' :: text => unsigned true text
  | '+' :: text => unsigned false text
  | text => unsigned false text

/-- `x <= 0.0`, false of no number. -/
def nonpositive : F64 → Bool
  | .nan => false
  | .infinity negative => negative
  | .finite x => x ≤ 0

/-- The quotient by a divisor that is not zero. -/
def div : F64 → F64 → F64
  | .nan, _ | _, .nan | .infinity _, .infinity _ => .nan
  | .infinity negative, .finite y => .infinity (negative != decide (y < 0))
  | .finite _, .infinity _ => .finite 0
  | .finite x, .finite y => ofRat (x / y)

def ceil : F64 → F64
  | .finite x => .finite ⌈x⌉
  | x => x

/-- The larger of two, and of a number and no number the number. -/
def max : F64 → F64 → F64
  | .nan, y => y
  | x, .nan => x
  | .infinity negative, y => if negative then y else .infinity false
  | x, .infinity negative => if negative then x else .infinity false
  | .finite x, .finite y => .finite (Max.max x y)

/-- The conversion to the integers below `size`, which saturates. -/
def toNat (size : ℕ) : F64 → ℕ
  | .nan => 0
  | .infinity negative => if negative then 0 else size - 1
  | .finite x => min ⌊x⌋₊ (size - 1)

example : ["0.5e+1", "+.25", "-2.", "1e-400", "1e400", "-Infinity", "e5", "0x10"].map parse =
    [some (.finite 5), some (.finite (1 / 4)), some (.finite (-2)), some (.finite 0), some (.infinity false),
      some (.infinity true), none, none] := by
  decide +kernel

section Exact

variable {x : ℚ} {n : ℕ}

lemma spacing_eq (h : 2 ^ (-1022 : ℤ) ≤ x) : spacing x = ulp 53 x := by
  have hpos : 0 < x := (zpow_pos two_pos _).trans_le h
  have hlog : -1022 ≤ Int.log 2 x := (Int.zpow_le_iff_le_log one_lt_two hpos).mp (by exact_mod_cast h)
  rw [spacing, max_eq_left]
  exact zpow_le_zpow_right₀ one_le_two (by push_cast; omega)

lemma ofRat_normal (h : 2 ^ (-1022 : ℤ) ≤ x) (hlt : nearest 53 x < 2 ^ 1024) : ofRat x = .finite (nearest 53 x) := by
  have hpos : 0 < x := (zpow_pos two_pos _).trans_le h
  have hsign : decide (x < 0) = false := decide_eq_false hpos.le.not_gt
  rw [ofRat, hsign, abs_of_pos hpos, ofMagnitude, spacing_eq h, ← nearest]
  exact if_neg hlt.not_ge

lemma ofRat_zero : ofRat 0 = .finite 0 := by decide +kernel

lemma ofRat_natCast (h : n < 2 ^ 53) : ofRat n = .finite n := by
  rcases Nat.eq_zero_or_pos n with rfl | hpos
  · exact ofRat_zero
  · have hnear : nearest 53 (n : ℚ) = n := nearest_of_fits (fits_natCast h)
    have hone : (1 : ℚ) ≤ n := by exact_mod_cast hpos
    have hlt : (n : ℚ) < 2 ^ 53 := by exact_mod_cast h
    rw [ofRat_normal ((zpow_le_one_of_nonpos₀ one_le_two (by decide)).trans hone), hnear]
    rw [hnear]
    exact hlt.trans (pow_lt_pow_right₀ one_lt_two (by decide))

/-- The quotient of two integers is a normal number, so its rounding is the plain one. -/
lemma div_natCast {a b : ℕ} (ha : 0 < a) (hfits : a < 2 ^ 53) (hb : 0 < b) (hbfits : b < 2 ^ 53) :
    (finite a).div (finite b) = .finite (nearest 53 (a / b)) := by
  have ha' : (1 : ℚ) ≤ a := by exact_mod_cast ha
  have hb' : (1 : ℚ) ≤ b := by exact_mod_cast hb
  have hbpos : (0 : ℚ) < b := by linarith
  have hale : (a : ℚ) ≤ 2 ^ 53 := by exact_mod_cast hfits.le
  have hble : (b : ℚ) ≤ 2 ^ 53 := by exact_mod_cast hbfits.le
  have hquotient : (a : ℚ) / b ≤ 2 ^ 53 := (div_le_self (by linarith) hb').trans hale
  have hlo : (2 : ℚ) ^ (-1022 : ℤ) ≤ a / b := by
    calc (2 : ℚ) ^ (-1022 : ℤ) ≤ 2 ^ (-53 : ℤ) := zpow_le_zpow_right₀ one_le_two (by decide)
      _ = 1 / 2 ^ 53 := by norm_num
      _ ≤ a / b := by gcongr
  have hfits53 : Fits 53 ((2 : ℚ) ^ 53) := ⟨1, by norm_num, 53, by norm_num⟩
  have hhi := nearest_le (by decide) hfits53 (div_nonneg (by linarith) hbpos.le) hquotient
  exact ofRat_normal hlo (hhi.trans_lt (pow_lt_pow_right₀ one_lt_two (by decide)))

lemma isDigit_iff {c : Char} : c.isDigit = true ↔ '0' ≤ c ∧ c ≤ '9' := by
  rw [Char.isDigit, Bool.and_eq_true, decide_eq_true_iff, decide_eq_true_iff]
  exact Iff.rfl

lemma number_digits {text : List Char} (hne : text ≠ []) (h : ∀ c ∈ text, c.isDigit = true) :
    number text = some (Nat.ofDigitChars 10 text 0 : ℚ) := by
  have hwhole : text.takeWhile Char.isDigit = text := List.takeWhile_eq_self_iff.mpr h
  have hrest : text.dropWhile Char.isDigit = [] := List.dropWhile_eq_nil_iff.mpr h
  rw [number, hwhole, hrest]
  simp [hne]

lemma unsigned_digits {text : List Char} (hne : text ≠ []) (h : ∀ c ∈ text, c.isDigit = true)
    (hfits : Nat.ofDigitChars 10 text 0 < 2 ^ 53) :
    unsigned false text = some (.finite (Nat.ofDigitChars 10 text 0)) := by
  rw [unsigned, number_digits hne h]
  exact congrArg some (ofRat_natCast hfits)

/-- The numerals of the integers that the format has are read as they are. -/
lemma parse_numeral {s : String} (h : Numeral s n) (hfits : n < 2 ^ 53) : parse s = some (.finite n) := by
  obtain ⟨text, hs, hne, hdigits, rfl⟩ := h
  have hdigit : ∀ c ∈ text, c.isDigit = true := fun c hc => isDigit_iff.mpr (hdigits c hc)
  have hvalue : Nat.ofDigitChars 10 text 0 = Nat.ofDigits 10 (text.reverse.map fun c => c.toNat - 48) := by
    rw [ofDigits_foldl, Nat.ofDigitChars_eq_foldl]
    simp only [Nat.mul_comm 10]
    rfl
  rw [← hvalue] at hfits ⊢
  rw [parse]
  rcases hs with hs | hs
  · rw [hs]
    split
    · exact absurd (hdigit _ List.mem_cons_self) (by decide)
    · exact absurd (hdigit _ List.mem_cons_self) (by decide)
    · exact unsigned_digits hne hdigit hfits
  · rw [hs]
    exact unsigned_digits hne hdigit hfits

end Exact

end F64

end NocapCrypt.Library
