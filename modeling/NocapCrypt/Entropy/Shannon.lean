import NocapCrypt.Library.Entropy
import NocapCrypt.Machine

/-! Byte histograms and their scores: `crates/nocap-crypt-entropy/src/{shannon,chisquare}.rs`. -/

namespace NocapCrypt.Entropy

/-- The operations of `f64` that the scores are made of. -/
structure Arithmetic (S : Type) where
  ofNat : ℕ → S
  neg : S → S
  sub : S → S → S
  mul : S → S → S
  div : S → S → S
  log2 : S → S
  sum : List S → S

abbrev Counts := Vector ℕ 256

def noCounts : Counts := Vector.replicate 256 0

def count (counts : Counts) (b : UInt8) : Counts :=
  counts.set b.toNat (counts.get ⟨b.toNat, b.toNat_lt⟩ + 1) b.toNat_lt

def tally (counts : Counts) (data : Bytes) : Counts := data.foldl count counts

def occurring (counts : Counts) : List ℕ := counts.toList.filter (0 < ·)

section Scores

variable {S : Type} (A : Arithmetic S)

def bitsPerByte (counts : Counts) (len : ℕ) : S :=
  A.sum ((occurring counts).map fun c =>
    let p := A.div (A.ofNat c) (A.ofNat len)
    A.mul (A.neg p) (A.log2 p))

def shannonEntropy (data : Bytes) : S :=
  if data = [] then A.ofNat 0 else bitsPerByte A (tally noCounts data) data.length

def shannonEntropyCeiling (len : ℕ) : S := if len = 0 then A.ofNat 0 else A.log2 (A.ofNat (min len 256))

def chiSquareStatistic (data : Bytes) : S :=
  if data = [] then A.ofNat 0
  else
    let expected := A.div (A.ofNat data.length) (A.ofNat 256)
    A.sum ((tally noCounts data).toList.map fun c =>
      let diff := A.sub (A.ofNat c) expected
      A.div (A.mul diff diff) expected)

end Scores

section Tally

lemma tally_append (counts : Counts) (a b : Bytes) : tally counts (a ++ b) = tally (tally counts a) b :=
  List.foldl_append

lemma count_sum (counts : Counts) (b : UInt8) : (count counts b).toList.sum = counts.toList.sum + 1 := by
  have hb : b.toNat < counts.toList.length := by
    rw [Vector.length_toList]
    exact b.toNat_lt
  have hget : counts.get ⟨b.toNat, b.toNat_lt⟩ = counts.toList[b.toNat] := by
    simp [Vector.get_eq_getElem]
  have hsplit : counts.toList.sum =
      (counts.toList.take b.toNat).sum + (counts.toList[b.toNat] + (counts.toList.drop (b.toNat + 1)).sum) := by
    conv_lhs => rw [← List.take_append_drop b.toNat counts.toList, List.drop_eq_getElem_cons hb]
    rw [List.sum_append, List.sum_cons]
  rw [count, Vector.toList_set, List.sum_set, if_pos hb, hget, hsplit]
  omega

lemma tally_sum (counts : Counts) (data : Bytes) :
    (tally counts data).toList.sum = counts.toList.sum + data.length := by
  induction data generalizing counts with
  | nil => rfl
  | cons b data ih =>
    rw [tally, List.foldl_cons, ← tally, ih, count_sum, List.length_cons]
    omega

lemma sum_filter_pos (xs : List ℕ) : (xs.filter (0 < ·)).sum = xs.sum := by
  induction xs with
  | nil => rfl
  | cons x xs ih =>
    rw [List.filter_cons, List.sum_cons, ← ih]
    split
    · rw [List.sum_cons]
    · rename_i h
      rw [decide_eq_true_eq, Nat.not_lt, Nat.le_zero] at h
      rw [h, Nat.zero_add]

lemma occurring_sum (data : Bytes) : (occurring (tally noCounts data)).sum = data.length := by
  rw [occurring, sum_filter_pos, tally_sum, noCounts, Vector.toList_replicate, List.sum_replicate, smul_zero,
    Nat.zero_add]

lemma occurring_pos {counts : Counts} : ∀ c ∈ occurring counts, 0 < c := by
  intro c hc
  simpa using (List.mem_filter.mp hc).2

lemma occurring_length_le (data : Bytes) : (occurring (tally noCounts data)).length ≤ min data.length 256 := by
  have hbins : (occurring (tally noCounts data)).length ≤ (tally noCounts data).toList.length :=
    List.length_filter_le _ _
  rw [Vector.length_toList] at hbins
  have hdraws := List.length_le_sum_of_one_le (occurring (tally noCounts data)) occurring_pos
  rw [occurring_sum] at hdraws
  exact le_min hdraws hbins

lemma occurring_ne_nil {data : Bytes} (h : data ≠ []) : occurring (tally noCounts data) ≠ [] := by
  intro he
  have hsum := occurring_sum data
  rw [he] at hsum
  exact h (List.length_eq_zero_iff.mp hsum.symm)

end Tally

section Ceiling

open NocapCrypt.Library.Entropy

/-- The scores without rounding. -/
noncomputable def exact : Arithmetic ℝ where
  ofNat n := n
  neg x := -x
  sub x y := x - y
  mul x y := x * y
  div x y := x / y
  log2 := binaryLog
  sum := List.sum

lemma shannonEntropy_exact {data : Bytes} (h : data ≠ []) :
    shannonEntropy exact data = bits (occurring (tally noCounts data)) := by
  rw [shannonEntropy, if_neg h, bitsPerByte, bits, occurring_sum]
  rfl

/-- No sample scores above the ceiling for its length, and a sample that fills as many bins as it can evenly
reaches it. -/
theorem shannonEntropy_le_ceiling (data : Bytes) (h : data ≠ []) :
    shannonEntropyCeiling exact data.length = Real.logb 2 (min data.length 256 : ℕ) ∧
      shannonEntropy exact data ≤ shannonEntropyCeiling exact data.length ∧
      data.length ^ data.length ≤
        min data.length 256 ^ data.length * ((occurring (tally noCounts data)).map fun c => c ^ c).prod ∧
      ∀ m, (∀ c ∈ occurring (tally noCounts data), c = m) →
        (occurring (tally noCounts data)).length = min data.length 256 →
        shannonEntropy exact data = shannonEntropyCeiling exact data.length ∧
          data.length ^ data.length =
            min data.length 256 ^ data.length * ((occurring (tally noCounts data)).map fun c => c ^ c).prod := by
  have hne := occurring_ne_nil h
  have hle := occurring_length_le data
  have hk : 0 < (occurring (tally noCounts data)).length := List.length_pos_iff.mpr hne
  have hceiling : shannonEntropyCeiling exact data.length = Real.logb 2 (min data.length 256 : ℕ) := by
    rw [shannonEntropyCeiling, if_neg (mt List.length_eq_zero_iff.mp h)]
    rfl
  refine ⟨hceiling, ?_, ?_, ?_⟩
  · rw [hceiling, shannonEntropy_exact h]
    refine (bits_le occurring_pos hne).trans ?_
    exact Real.logb_le_logb_of_le one_lt_two (by exact_mod_cast hk) (by exact_mod_cast hle)
  · have hpow := sum_pow_sum_le occurring_pos hne
    rw [occurring_sum] at hpow
    exact hpow.trans (Nat.mul_le_mul_right _ (Nat.pow_le_pow_left hle _))
  · intro m hm hlen
    have hpos : 0 < m := by
      obtain ⟨c, hc⟩ := List.exists_mem_of_ne_nil _ hne
      exact hm c hc ▸ occurring_pos c hc
    refine ⟨?_, ?_⟩
    · rw [hceiling, shannonEntropy_exact h, bits_uniform hpos hm hne, hlen]
    · have hpow := sum_pow_sum_uniform hm
      rwa [occurring_sum, hlen] at hpow

theorem shannonEntropy_le_ceiling_two : occurring (tally noCounts [7, 9]) = [1, 1] ∧
    shannonEntropy exact [7, 9] = Real.logb 2 (min 2 256 : ℕ) := by
  have hcounts : occurring (tally noCounts [7, 9]) = [1, 1] := by decide +kernel
  obtain ⟨hceiling, -, -, heven⟩ := shannonEntropy_le_ceiling [7, 9] (by decide)
  refine ⟨hcounts, ?_⟩
  rw [(heven 1 (by rw [hcounts]; decide) (by rw [hcounts]; rfl)).1]
  exact hceiling

end Ceiling

end NocapCrypt.Entropy
