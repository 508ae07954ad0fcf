import Mathlib

/-! The entropy of a histogram and its maximum over the number of occupied bins. -/

namespace NocapCrypt.Library.Entropy

open Real

variable {counts : List ℕ}

noncomputable def binaryLog : ℝ → ℝ := logb 2

/-- The Shannon entropy, in bits, of a draw from the histogram. -/
noncomputable def bits (counts : List ℕ) : ℝ :=
  (counts.map fun c : ℕ => -((c : ℝ) / counts.sum) * binaryLog ((c : ℝ) / counts.sum)).sum

noncomputable def logWeight (counts : List ℕ) : ℝ := (counts.map fun c : ℕ => (c : ℝ) * log c).sum

lemma sum_mul_log_div_le (h : ∀ c ∈ counts, 0 < c) {x : ℝ} (hx : 0 < x) :
    counts.sum * log x - logWeight counts ≤ counts.length * x - counts.sum := by
  induction counts with
  | nil => simp [logWeight]
  | cons c counts ih =>
    have hc : (0 : ℝ) < c := by exact_mod_cast h c List.mem_cons_self
    have hrest := ih fun d hd => h d (List.mem_cons_of_mem c hd)
    -- the tangent of the logarithm at 1
    have htangent : c * log (x / c) ≤ x - c := by
      have hlog := mul_le_mul_of_nonneg_left (log_le_sub_one_of_pos (div_pos hx hc)) hc.le
      rwa [mul_sub, mul_div_cancel₀ x hc.ne', mul_one] at hlog
    rw [log_div hx.ne' hc.ne', mul_sub] at htangent
    rw [logWeight] at hrest ⊢
    rw [List.map_cons, List.sum_cons, List.sum_cons, List.length_cons, Nat.cast_add, Nat.cast_add, Nat.cast_one,
      add_mul, add_mul, one_mul]
    linarith

lemma sum_mul_log_le (h : ∀ c ∈ counts, 0 < c) (hne : counts ≠ []) :
    counts.sum * log counts.sum ≤ counts.sum * log counts.length + logWeight counts := by
  have hk : (0 : ℝ) < counts.length := by exact_mod_cast List.length_pos_iff.mpr hne
  have hn : (0 : ℝ) < counts.sum := by exact_mod_cast List.sum_pos counts h hne
  have hle := sum_mul_log_div_le h (div_pos hn hk)
  rw [mul_div_cancel₀ _ hk.ne', sub_self, log_div hn.ne' hk.ne', mul_sub] at hle
  linarith

lemma sum_mul_log_eq {m : ℕ} (hm : 0 < m) (h : ∀ c ∈ counts, c = m) (hne : counts ≠ []) :
    counts.sum * log counts.sum = counts.sum * log counts.length + logWeight counts := by
  have hcounts : counts = List.replicate counts.length m := List.eq_replicate_of_mem h
  have hk : (counts.length : ℝ) ≠ 0 := by exact_mod_cast (List.length_pos_iff.mpr hne).ne'
  have hm' : (m : ℝ) ≠ 0 := by exact_mod_cast hm.ne'
  have hsum : counts.sum = counts.length * m := by
    conv_lhs => rw [hcounts, List.sum_replicate, smul_eq_mul]
  have hweight : logWeight counts = counts.length * (m * log m) := by
    conv_lhs => rw [logWeight, hcounts, List.map_replicate, List.sum_replicate, nsmul_eq_mul]
  rw [hweight, hsum]
  push_cast
  rw [log_mul hk hm']
  ring

lemma sum_terms_eq {n : ℝ} (hn : 0 < n) (h : ∀ c ∈ counts, 0 < c) :
    (counts.map fun c : ℕ => -((c : ℝ) / n) * logb 2 ((c : ℝ) / n)).sum * (n * log 2) =
      counts.sum * log n - logWeight counts := by
  induction counts with
  | nil => simp [logWeight]
  | cons c counts ih =>
    have hc : (c : ℝ) ≠ 0 := by exact_mod_cast (h c List.mem_cons_self).ne'
    have hrest := ih fun d hd => h d (List.mem_cons_of_mem c hd)
    have hlog : log 2 ≠ 0 := (log_pos one_lt_two).ne'
    have hhead : -((c : ℝ) / n) * logb 2 ((c : ℝ) / n) * (n * log 2) = c * log n - c * log c := by
      rw [logb, log_div hc hn.ne']
      field_simp
      ring
    rw [List.map_cons, List.sum_cons, add_mul, hrest, hhead, List.sum_cons, logWeight, logWeight, List.map_cons,
      List.sum_cons]
    push_cast
    ring

lemma bits_eq (h : ∀ c ∈ counts, 0 < c) (hne : counts ≠ []) :
    bits counts * (counts.sum * log 2) = counts.sum * log counts.sum - logWeight counts :=
  sum_terms_eq (by exact_mod_cast List.sum_pos counts h hne) h

/-- A histogram with `k` occupied bins has an entropy of at most `log₂ k` bits. -/
theorem bits_le (h : ∀ c ∈ counts, 0 < c) (hne : counts ≠ []) : bits counts ≤ logb 2 counts.length := by
  have hn : (0 : ℝ) < counts.sum := by exact_mod_cast List.sum_pos counts h hne
  have hlog : 0 < log 2 := log_pos one_lt_two
  have hle := sum_mul_log_le h hne
  rw [← mul_le_mul_iff_left₀ (mul_pos hn hlog), bits_eq h hne, logb]
  calc counts.sum * log counts.sum - logWeight counts ≤ counts.sum * log counts.length := by linarith
    _ = log counts.length / log 2 * (counts.sum * log 2) := by field_simp

theorem bits_uniform {m : ℕ} (hm : 0 < m) (h : ∀ c ∈ counts, c = m) (hne : counts ≠ []) :
    bits counts = logb 2 counts.length := by
  have hpos : ∀ c ∈ counts, 0 < c := fun c hc => h c hc ▸ hm
  have hn : (0 : ℝ) < counts.sum := by exact_mod_cast List.sum_pos counts hpos hne
  have hlog : 0 < log 2 := log_pos one_lt_two
  apply mul_right_cancel₀ (mul_pos hn hlog).ne'
  rw [bits_eq hpos hne, sum_mul_log_eq hm h hne, logb]
  field_simp
  ring

lemma prod_pow_pos (h : ∀ c ∈ counts, 0 < c) : 0 < (counts.map fun c => c ^ c).prod := by
  apply List.prod_pos
  intro p hp
  obtain ⟨c, hc, rfl⟩ := List.mem_map.mp hp
  exact Nat.pow_pos (h c hc)

lemma log_prod_pow (h : ∀ c ∈ counts, 0 < c) :
    log (((counts.map fun c => c ^ c).prod : ℕ) : ℝ) = logWeight counts := by
  induction counts with
  | nil => simp [logWeight]
  | cons c counts ih =>
    have hc : (c : ℝ) ≠ 0 := by exact_mod_cast (h c List.mem_cons_self).ne'
    have hcs : ∀ d ∈ counts, 0 < d := fun d hd => h d (List.mem_cons_of_mem c hd)
    have hprod : (((counts.map fun c => c ^ c).prod : ℕ) : ℝ) ≠ 0 := by exact_mod_cast (prod_pow_pos hcs).ne'
    rw [List.map_cons, List.prod_cons, Nat.cast_mul, Nat.cast_pow, log_mul (pow_ne_zero c hc) hprod, log_pow, ih hcs,
      logWeight, logWeight, List.map_cons, List.sum_cons]

lemma log_pow_mul_prod (h : ∀ c ∈ counts, 0 < c) (hne : counts ≠ []) :
    log ((counts.length ^ counts.sum * (counts.map fun c => c ^ c).prod : ℕ) : ℝ) =
      counts.sum * log counts.length + logWeight counts := by
  have hk : (counts.length : ℝ) ≠ 0 := by exact_mod_cast (List.length_pos_iff.mpr hne).ne'
  rw [Nat.cast_mul, Nat.cast_pow, log_mul (pow_ne_zero _ hk) (by exact_mod_cast (prod_pow_pos h).ne'), log_pow,
    log_prod_pow h]

/-- The bound in integers: `n ^ n ≤ k ^ n * ∏ c ^ c` for a histogram of `n` draws in `k` bins. -/
theorem sum_pow_sum_le (h : ∀ c ∈ counts, 0 < c) (hne : counts ≠ []) :
    counts.sum ^ counts.sum ≤ counts.length ^ counts.sum * (counts.map fun c => c ^ c).prod := by
  have hn : 0 < counts.sum := List.sum_pos counts h hne
  have hright : 0 < counts.length ^ counts.sum * (counts.map fun c => c ^ c).prod :=
    Nat.mul_pos (Nat.pow_pos (List.length_pos_iff.mpr hne)) (prod_pow_pos h)
  rw [← Nat.cast_le (α := ℝ), ← log_le_log_iff (by exact_mod_cast Nat.pow_pos hn) (by exact_mod_cast hright),
    log_pow_mul_prod h hne, Nat.cast_pow, log_pow]
  exact sum_mul_log_le h hne

theorem sum_pow_sum_uniform {m : ℕ} (h : ∀ c ∈ counts, c = m) :
    counts.sum ^ counts.sum = counts.length ^ counts.sum * (counts.map fun c => c ^ c).prod := by
  have hcounts : counts = List.replicate counts.length m := List.eq_replicate_of_mem h
  have hsum : counts.sum = counts.length * m := by
    conv_lhs => rw [hcounts, List.sum_replicate, smul_eq_mul]
  have hprod : (counts.map fun c => c ^ c).prod = m ^ (counts.length * m) := by
    conv_lhs => rw [hcounts, List.map_replicate, List.prod_replicate]
    rw [← pow_mul, Nat.mul_comm]
  rw [hprod, hsum, Nat.mul_pow]

end NocapCrypt.Library.Entropy
