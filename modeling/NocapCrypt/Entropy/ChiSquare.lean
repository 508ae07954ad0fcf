import NocapCrypt.Core.CipherSpec
import NocapCrypt.Entropy.Shannon

/-! The chi-square verdict, `crates/nocap-crypt-entropy/src/chisquare.rs`, as a count of equal bytes. -/

namespace NocapCrypt.Entropy

/-- What the critical value and the comparison with it take besides. -/
structure OrderedArithmetic (S : Type) extends Arithmetic S where
  add : S → S → S
  sqrt : S → S
  le : S → S → Bool

section Verdict

variable {S : Type} (A : OrderedArithmetic S)

def chiSquareCriticalApprox (df z : S) : S :=
  let variance := A.div (A.ofNat 2) (A.mul (A.ofNat 9) df)
  let term := A.add (A.sub (A.ofNat 1) variance) (A.mul z (A.sqrt variance))
  A.mul (A.mul (A.mul df term) term) term

def degreesOfFreedom : S := A.ofNat 255

def isUniform (data : Bytes) (z : S) : Bool :=
  A.le (chiSquareStatistic A.toArithmetic data) (chiSquareCriticalApprox A (degreesOfFreedom A) z)

end Verdict

/-- The pairs of positions that hold one byte. -/
def collisions : Bytes → ℕ
  | [] => 0
  | b :: rest => rest.count b + collisions rest

section Tally

/-- What the bytes of `data` find in the bins that they are counted into. -/
def found (counts : Counts) (data : Bytes) : ℕ := (data.map fun b => counts.get ⟨b.toNat, b.toNat_lt⟩).sum

def squares (counts : Counts) : ℕ := (counts.toList.map (· ^ 2)).sum

lemma get_count (counts : Counts) (a b : UInt8) : (count counts b).get ⟨a.toNat, a.toNat_lt⟩ =
    counts.get ⟨a.toNat, a.toNat_lt⟩ + if a = b then 1 else 0 := by
  rw [count, Vector.get_eq_getElem, Vector.getElem_set]
  by_cases hab : a = b
  · subst hab
    rw [if_pos rfl, if_pos rfl]
  · rw [if_neg fun h => hab (UInt8.toNat_inj.mp h.symm), if_neg hab, Vector.get_eq_getElem, Nat.add_zero]

lemma found_count (counts : Counts) (b : UInt8) (data : Bytes) :
    found (count counts b) data = found counts data + data.count b := by
  induction data with
  | nil => rfl
  | cons a data ih =>
    rw [found] at ih ⊢
    rw [found] at ih ⊢
    rw [List.map_cons, List.map_cons, List.sum_cons, List.sum_cons, ih, get_count, List.count_cons]
    simp only [beq_iff_eq]
    omega

lemma squares_count (counts : Counts) (b : UInt8) :
    squares (count counts b) = squares counts + 2 * counts.get ⟨b.toNat, b.toNat_lt⟩ + 1 := by
  have hb : b.toNat < counts.toList.length := by
    rw [Vector.length_toList]
    exact b.toNat_lt
  have hget : counts.get ⟨b.toNat, b.toNat_lt⟩ = counts.toList[b.toNat] := by
    simp [Vector.get_eq_getElem]
  have hbefore : squares counts = ((counts.toList.take b.toNat).map (· ^ 2)).sum +
      (counts.toList[b.toNat] ^ 2 + ((counts.toList.drop (b.toNat + 1)).map (· ^ 2)).sum) := by
    conv_lhs => rw [squares, ← List.take_append_drop b.toNat counts.toList, List.drop_eq_getElem_cons hb]
    rw [List.map_append, List.sum_append, List.map_cons, List.sum_cons]
  have hafter : squares (count counts b) = ((counts.toList.take b.toNat).map (· ^ 2)).sum +
      ((counts.toList[b.toNat] + 1) ^ 2 + ((counts.toList.drop (b.toNat + 1)).map (· ^ 2)).sum) := by
    rw [squares, count, Vector.toList_set, List.set_eq_take_append_cons_drop, if_pos hb, List.map_append,
      List.sum_append, List.map_cons, List.sum_cons, hget]
  rw [hafter, hbefore, hget]
  ring

lemma squares_tally (counts : Counts) (data : Bytes) :
    squares (tally counts data) = squares counts + data.length + 2 * (collisions data + found counts data) := by
  induction data generalizing counts with
  | nil => rfl
  | cons b data ih =>
    have hfound : found counts (b :: data) = counts.get ⟨b.toNat, b.toNat_lt⟩ + found counts data := rfl
    rw [tally, List.foldl_cons, ← tally, ih, squares_count, found_count, hfound, collisions, List.length_cons]
    omega

end Tally

/-- The verdict without rounding. -/
noncomputable def exactVerdict : OrderedArithmetic ℝ where
  toArithmetic := exact
  add x y := x + y
  sqrt := Real.sqrt
  le x y := decide (x ≤ y)

lemma sum_deviations (counts : List ℕ) {expected : ℝ} (h : expected ≠ 0) :
    (counts.map fun c : ℕ => ((c : ℝ) - expected) * ((c : ℝ) - expected) / expected).sum =
      ((counts.map (· ^ 2)).sum : ℕ) / expected - 2 * (counts.sum : ℕ) + counts.length * expected := by
  induction counts with
  | nil => simp
  | cons c counts ih =>
    rw [List.map_cons, List.sum_cons, ih, List.map_cons, List.sum_cons, List.sum_cons, List.length_cons]
    push_cast
    field_simp
    ring

/-- In exact arithmetic, every pair of equal bytes in a sample of `n` bytes adds `512 / n` to a statistic of
`256 - n`. -/
theorem chiSquareStatistic_eq (data : Bytes) (h : data ≠ []) :
    chiSquareStatistic exact data = 256 - data.length + 512 * collisions data / data.length := by
  have hn : (data.length : ℝ) ≠ 0 := by exact_mod_cast mt List.length_eq_zero_iff.mp h
  have hsquares := squares_tally noCounts data
  have hnone : squares noCounts = 0 ∧ found noCounts data = 0 := by
    constructor
    · rw [squares, noCounts, Vector.toList_replicate, List.map_replicate, List.sum_replicate, zero_pow two_ne_zero,
        smul_zero]
    · rw [found, List.sum_eq_zero]
      intro c hc
      obtain ⟨b, -, rfl⟩ := List.mem_map.mp hc
      rw [noCounts, Vector.get_eq_getElem, Vector.getElem_replicate]
  rw [hnone.1, hnone.2, Nat.zero_add, Nat.add_zero] at hsquares
  have hsum := tally_sum noCounts data
  rw [noCounts, Vector.toList_replicate, List.sum_replicate, smul_zero, ← noCounts, Nat.zero_add] at hsum
  rw [chiSquareStatistic, if_neg h]
  change ((tally noCounts data).toList.map fun c : ℕ =>
    ((c : ℝ) - (data.length : ℝ) / (256 : ℕ)) * ((c : ℝ) - (data.length : ℝ) / (256 : ℕ)) /
      ((data.length : ℝ) / (256 : ℕ))).sum = _
  rw [sum_deviations _ (by positivity), ← squares, hsquares, hsum, Vector.length_toList]
  push_cast
  field_simp
  ring

theorem chiSquareStatistic_eq_three : chiSquareStatistic exact [7, 9, 7] = 256 - 3 + 512 / 3 := by
  rw [chiSquareStatistic_eq [7, 9, 7] (by decide), show collisions [7, 9, 7] = 1 by decide]
  norm_num

section Keys

open NocapCrypt.Core

/-- Far enough from both bounds that rounding cannot carry it past a value that a key can score. -/
lemma chiSquareCriticalApprox_bounds :
    288 ≤ chiSquareCriticalApprox exactVerdict (degreesOfFreedom exactVerdict) (1.645 : ℝ) ∧
      chiSquareCriticalApprox exactVerdict (degreesOfFreedom exactVerdict) (1.645 : ℝ) < 296 := by
  have hlow : (0.029 : ℝ) ≤ √(2 / (9 * 255)) := Real.le_sqrt_of_sq_le (by norm_num)
  have hhigh : √(2 / (9 * 255)) ≤ (0.03 : ℝ) := Real.sqrt_le_iff.mpr (by norm_num)
  have hcritical : chiSquareCriticalApprox exactVerdict (degreesOfFreedom exactVerdict) (1.645 : ℝ) =
      255 * (1 - 2 / (9 * 255) + 1.645 * √(2 / (9 * 255))) ^ 3 := by
    have hterm : ∀ df term : ℝ, df * term * term * term = df * term ^ 3 := fun df term => by ring
    refine (hterm _ _).trans ?_
    simp only [degreesOfFreedom, exactVerdict, exact, Nat.cast_ofNat, Nat.cast_one]
  have hterm : (1.046 : ℝ) ≤ 1 - 2 / (9 * 255) + 1.645 * √(2 / (9 * 255)) ∧
      1 - 2 / (9 * 255) + 1.645 * √(2 / (9 * 255)) ≤ (1.049 : ℝ) := by
    constructor
    · linarith
    · linarith
  rw [hcritical]
  constructor
  · have hcube := pow_le_pow_left₀ (by norm_num) hterm.1 3
    linarith
  · have hcube := pow_le_pow_left₀ (by linarith [hterm.1]) hterm.2 3
    linarith

/-- What the verdict on a key of either length comes to in exact arithmetic: at most four pairs of equal bytes in 32,
twelve in 64. -/
theorem isUniform_key_iff {spec : CipherSpec} (hspec : spec.Supported) {key : Bytes}
    (hlen : key.length = spec.requiredKeyBytes) :
    isUniform exactVerdict key (1.645 : ℝ) = true ↔
      collisions key ≤ if spec.requiredKeyBytes = 32 then 4 else 12 := by
  have hlength : key.length = 32 ∨ key.length = 64 := by
    obtain ⟨mode, bits⟩ := spec
    cases mode with
    | xtsPlain64 =>
      cases bits with
      | bits128 => exact Or.inl hlen
      | bits192 => exact (hspec rfl).elim
      | bits256 => exact Or.inr hlen
    | cbcEssivSha256 =>
      cases (show bits = .bits256 from hspec)
      exact Or.inl hlen
  have hne : key ≠ [] := by
    rintro rfl
    simp at hlength
  obtain ⟨hlow, hhigh⟩ := chiSquareCriticalApprox_bounds
  rw [← hlen]
  have hverdict : isUniform exactVerdict key (1.645 : ℝ) = true ↔
      256 - key.length + 512 * collisions key / key.length ≤
        chiSquareCriticalApprox exactVerdict (degreesOfFreedom exactVerdict) (1.645 : ℝ) := by
    rw [← chiSquareStatistic_eq key hne, isUniform]
    exact decide_eq_true_iff
  rw [hverdict]
  rcases hlength with h | h
  · rw [h, if_pos rfl]
    constructor
    · intro hle
      by_contra hmore
      have hmany : (5 : ℝ) ≤ collisions key := by exact_mod_cast Nat.lt_of_not_le hmore
      push_cast at hle
      linarith
    · intro hfew
      have hfew' : (collisions key : ℝ) ≤ 4 := by exact_mod_cast hfew
      push_cast
      linarith
  · rw [h, if_neg (by decide)]
    constructor
    · intro hle
      by_contra hmore
      have hmany : (13 : ℝ) ≤ collisions key := by exact_mod_cast Nat.lt_of_not_le hmore
      push_cast at hle
      linarith
    · intro hfew
      have hfew' : (collisions key : ℝ) ≤ 12 := by exact_mod_cast hfew
      push_cast
      linarith

theorem isUniform_key_iff_distinct :
    isUniform exactVerdict ((List.range 32).map UInt8.ofNat) (1.645 : ℝ) = true :=
  (@isUniform_key_iff ⟨.cbcEssivSha256, .bits256⟩ rfl _ (by decide)).mpr (by decide)

end Keys

end NocapCrypt.Entropy
