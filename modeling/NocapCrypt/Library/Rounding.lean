import Mathlib

/-! Rounding to the nearest number of `p` binary digits, ties to even, with no bounds on the exponent. -/

namespace NocapCrypt.Library.Rounding

/-- The nearest integer, and the even one of two. -/
def roundEven (x : ℚ) : ℤ :=
  if x - ⌊x⌋ < 1 / 2 ∨ x - ⌊x⌋ = 1 / 2 ∧ ⌊x⌋ % 2 = 0 then ⌊x⌋ else ⌊x⌋ + 1

/-- The distance of neighbours among the numbers of `p` digits near `x`. -/
def ulp (p : ℕ) (x : ℚ) : ℚ := 2 ^ (Int.log 2 x + 1 - p)

def nearest (p : ℕ) (x : ℚ) : ℚ := roundEven (x / ulp p x) * ulp p x

/-- A number of `p` digits. -/
def Fits (p : ℕ) (x : ℚ) : Prop := ∃ m : ℕ, m < 2 ^ p ∧ ∃ e : ℤ, x = m * 2 ^ e

section Integers

variable {x y : ℚ}

lemma floor_le_roundEven (x : ℚ) : ⌊x⌋ ≤ roundEven x := by
  rw [roundEven]
  split <;> omega

lemma roundEven_le_floor (x : ℚ) : roundEven x ≤ ⌊x⌋ + 1 := by
  rw [roundEven]
  split <;> omega

@[simp] lemma roundEven_intCast (n : ℤ) : roundEven n = n := by
  rw [roundEven, Int.floor_intCast, if_pos (Or.inl (by norm_num))]

lemma roundEven_mono (h : x ≤ y) : roundEven x ≤ roundEven y := by
  have hfloor : ⌊x⌋ ≤ ⌊y⌋ := Int.floor_mono h
  rcases hfloor.lt_or_eq with hlt | heq
  · exact (roundEven_le_floor x).trans ((Int.add_one_le_of_lt hlt).trans (floor_le_roundEven y))
  · rw [roundEven, roundEven, heq]
    have hfract : x - ⌊y⌋ ≤ y - ⌊y⌋ := by linarith
    split
    · split <;> omega
    · rename_i hx
      have hy : ¬ (y - ⌊y⌋ < 1 / 2 ∨ y - ⌊y⌋ = 1 / 2 ∧ ⌊y⌋ % 2 = 0) := by
        rintro (hy | ⟨hy, heven⟩)
        · exact hx (Or.inl (hfract.trans_lt hy))
        · rcases (hfract.trans hy.le).lt_or_eq with hlt | hhalf
          · exact hx (Or.inl hlt)
          · exact hx (Or.inr ⟨hhalf, heven⟩)
      rw [if_neg hy]

lemma abs_roundEven_sub_le (x : ℚ) : |roundEven x - x| ≤ 1 / 2 := by
  have hlo := Int.floor_le x
  have hhi := Int.lt_floor_add_one x
  rw [roundEven, abs_le]
  split
  · rename_i h
    rcases h with h | ⟨h, -⟩
    · constructor <;> linarith
    · constructor <;> linarith
  · rename_i h
    have hhalf : 1 / 2 ≤ x - ⌊x⌋ := le_of_not_gt fun hlt => h (Or.inl hlt)
    push_cast
    constructor <;> linarith

end Integers

section Nearest

variable {p : ℕ} {x y : ℚ}

lemma ulp_pos (p : ℕ) (x : ℚ) : 0 < ulp p x := zpow_pos two_pos _

lemma ulp_eq (p : ℕ) (x : ℚ) : ulp p x = 2 ^ Int.log 2 x * (2 / 2 ^ p) := by
  rw [ulp, zpow_sub₀ two_ne_zero, zpow_add_one₀ two_ne_zero, zpow_natCast, mul_div_assoc]

lemma nearest_zero (p : ℕ) : nearest p 0 = 0 := by
  rw [nearest, zero_div, show (0 : ℚ) = ((0 : ℤ) : ℚ) from rfl, roundEven_intCast]
  norm_num

lemma pow_log_le (hx : 0 < x) : (2 : ℚ) ^ Int.log 2 x ≤ x := by
  exact_mod_cast Int.zpow_log_le_self one_lt_two hx

lemma lt_pow_log (x : ℚ) : x < (2 : ℚ) ^ (Int.log 2 x + 1) := by
  exact_mod_cast Int.lt_zpow_succ_log_self one_lt_two x

/-- The relative error is at most half a unit in the last digit. -/
lemma abs_nearest_sub_le (p : ℕ) (hx : 0 ≤ x) : |nearest p x - x| ≤ x / 2 ^ p := by
  rcases hx.eq_or_lt with rfl | hpos
  · rw [nearest_zero]
    simp
  · have hulp := ulp_pos p x
    have hround := abs_roundEven_sub_le (x / ulp p x)
    have heq : nearest p x - x = (roundEven (x / ulp p x) - x / ulp p x) * ulp p x := by
      rw [nearest, sub_mul, div_mul_cancel₀ _ hulp.ne']
    rw [heq, abs_mul, abs_of_pos hulp]
    calc |(roundEven (x / ulp p x) : ℚ) - x / ulp p x| * ulp p x
        ≤ 1 / 2 * ulp p x := by gcongr
      _ = 2 ^ Int.log 2 x / 2 ^ p := by
          rw [ulp_eq]
          ring
      _ ≤ x / 2 ^ p := by
          gcongr
          exact pow_log_le hpos

lemma nearest_of_fits (h : Fits p x) : nearest p x = x := by
  obtain ⟨m, hm, e, rfl⟩ := h
  rcases Nat.eq_zero_or_pos m with rfl | hpos
  · rw [Nat.cast_zero, zero_mul, nearest_zero]
  · have hpos' : (0 : ℚ) < m := by exact_mod_cast hpos
    have hx : (0 : ℚ) < m * 2 ^ e := mul_pos hpos' (zpow_pos two_pos e)
    have hlt : (m : ℚ) * 2 ^ e < ((2 : ℕ) : ℚ) ^ (p + e : ℤ) := by
      rw [Nat.cast_ofNat, zpow_add₀ two_ne_zero, zpow_natCast]
      gcongr
      exact_mod_cast hm
    have hlog : Int.log 2 ((m : ℚ) * 2 ^ e) < p + e := (Int.lt_zpow_iff_log_lt one_lt_two hx).mp hlt
    obtain ⟨k, hk⟩ := Int.le.dest (show Int.log 2 ((m : ℚ) * 2 ^ e) + 1 - p ≤ e by omega)
    have hquotient : (m : ℚ) * 2 ^ e / ulp p (m * 2 ^ e) = ((m * 2 ^ k : ℕ) : ℤ) := by
      rw [ulp, div_eq_iff (zpow_pos two_pos _).ne']
      push_cast
      rw [mul_assoc, ← zpow_natCast, ← zpow_add₀ two_ne_zero]
      congr 2
      omega
    rw [nearest, hquotient, roundEven_intCast, ← hquotient, div_mul_cancel₀ _ (ulp_pos _ _).ne']

lemma pow_log_le_nearest (hp : 0 < p) (hx : 0 < x) : (2 : ℚ) ^ Int.log 2 x ≤ nearest p x := by
  have hulp := ulp_pos p x
  obtain ⟨q, rfl⟩ := Nat.exists_eq_add_of_lt hp
  have hpow : (2 : ℚ) ^ Int.log 2 x = ((2 ^ q : ℕ) : ℤ) * ulp (0 + q + 1) x := by
    rw [ulp_eq]
    push_cast
    rw [Nat.zero_add, pow_succ]
    field_simp
  have hquotient : (((2 ^ q : ℕ) : ℤ) : ℚ) ≤ x / ulp (0 + q + 1) x := by
    rw [le_div_iff₀ hulp, ← hpow]
    exact pow_log_le hx
  rw [nearest, hpow]
  gcongr
  have h := roundEven_mono hquotient
  rwa [roundEven_intCast] at h

lemma nearest_le_pow_log (p : ℕ) (x : ℚ) : nearest p x ≤ 2 ^ (Int.log 2 x + 1) := by
  have hulp := ulp_pos p x
  have hpow : (2 : ℚ) ^ (Int.log 2 x + 1) = ((2 ^ p : ℕ) : ℤ) * ulp p x := by
    rw [ulp_eq, zpow_add_one₀ two_ne_zero]
    push_cast
    field_simp
  have hquotient : x / ulp p x ≤ (((2 ^ p : ℕ) : ℤ) : ℚ) := by
    rw [div_le_iff₀ hulp, ← hpow]
    exact (lt_pow_log x).le
  rw [nearest, hpow]
  gcongr
  have h := roundEven_mono hquotient
  rwa [roundEven_intCast] at h

lemma nearest_mono (hp : 0 < p) (hx : 0 < x) (h : x ≤ y) : nearest p x ≤ nearest p y := by
  have hlog : Int.log 2 x ≤ Int.log 2 y := Int.log_mono_right hx h
  rcases hlog.lt_or_eq with hlt | heq
  · -- A power of two lies between them.
    calc nearest p x ≤ 2 ^ (Int.log 2 x + 1) := nearest_le_pow_log p x
      _ ≤ 2 ^ Int.log 2 y := zpow_le_zpow_right₀ one_le_two hlt
      _ ≤ nearest p y := pow_log_le_nearest hp (hx.trans_le h)
  · have hulp : ulp p x = ulp p y := by rw [ulp, ulp, heq]
    rw [nearest, nearest, hulp]
    have hpos := ulp_pos p y
    gcongr
    exact roundEven_mono (by gcongr)

lemma nearest_nonneg (hp : 0 < p) (hx : 0 ≤ x) : 0 ≤ nearest p x := by
  rcases hx.eq_or_lt with rfl | hpos
  · rw [nearest_zero]
  · exact (zpow_pos two_pos _).le.trans (pow_log_le_nearest hp hpos)

lemma le_nearest (hp : 0 < p) (hy : Fits p y) (hpos : 0 < y) (h : y ≤ x) : y ≤ nearest p x := by
  have hmono := nearest_mono hp hpos h
  rwa [nearest_of_fits hy] at hmono

lemma nearest_le (hp : 0 < p) (hy : Fits p y) (hx : 0 ≤ x) (h : x ≤ y) : nearest p x ≤ y := by
  rcases hx.eq_or_lt with rfl | hpos
  · rwa [nearest_zero]
  · have hmono := nearest_mono hp hpos h
    rwa [nearest_of_fits hy] at hmono

lemma fits_natCast {n : ℕ} (h : n < 2 ^ p) : Fits p n := ⟨n, h, 0, by simp⟩

/-- A quotient is never rounded past the integer above or on to the one below. -/
theorem ceil_nearest_div {a b : ℕ} (ha : 0 < a) (hfits : a < 2 ^ p) (hb : 0 < b) :
    ⌈nearest p ((a : ℚ) / b)⌉ = ⌈(a : ℚ) / b⌉ := by
  have ha' : (0 : ℚ) < a := by exact_mod_cast ha
  have hb' : (0 : ℚ) < b := by exact_mod_cast hb
  have hquotient : (0 : ℚ) < a / b := div_pos ha' hb'
  have hp : 0 < p := by
    apply Nat.pos_of_ne_zero
    rintro rfl
    rw [pow_zero] at hfits
    omega
  obtain ⟨n, hn⟩ := Int.eq_ofNat_of_zero_le (Int.ceil_nonneg hquotient.le)
  have hceil := Int.ceil_eq_iff.mp hn
  rw [Int.cast_natCast] at hceil
  have hle : n ≤ a := by
    have hone : ⌈(a : ℚ) / b⌉ ≤ (a : ℤ) := by
      rw [Int.ceil_le, Int.cast_natCast]
      exact div_le_self ha'.le (by exact_mod_cast hb)
    rw [hn] at hone
    exact_mod_cast hone
  rw [hn, Int.ceil_eq_iff, Int.cast_natCast]
  refine ⟨?_, nearest_le hp (fits_natCast (hle.trans_lt hfits)) hquotient.le hceil.2⟩
  have herror := (abs_le.mp (abs_nearest_sub_le p hquotient.le)).1
  have hgap : (n : ℚ) - 1 + 1 / b ≤ a / b := by
    rw [le_div_iff₀ hb', add_mul, div_mul_cancel₀ _ hb'.ne']
    have hstrict := hceil.1
    rw [lt_div_iff₀ hb', sub_mul, one_mul, sub_lt_iff_lt_add] at hstrict
    have hnat : n * b + 1 ≤ a + b := by exact_mod_cast hstrict
    have hcast : (n : ℚ) * b + 1 ≤ a + b := by exact_mod_cast hnat
    linarith
  have hsmall : (a : ℚ) / b / 2 ^ p < 1 / b := by
    rw [div_div, mul_comm, ← div_div]
    gcongr
    rw [div_lt_one (by positivity)]
    exact_mod_cast hfits
  linarith

end Nearest

end NocapCrypt.Library.Rounding
