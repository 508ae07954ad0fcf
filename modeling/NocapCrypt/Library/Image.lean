import Mathlib

/-! Finite sequences read as zero-extended images: windows, in-place writes and resizing. -/

namespace NocapCrypt.Library.Image

variable {α : Type}

def window (xs : List α) (off len : ℕ) : List α := (xs.drop off).take len

@[simp] lemma window_length (xs : List α) (off len : ℕ) :
    (window xs off len).length = min len (xs.length - off) := by simp [window]

lemma window_length_of_le {xs : List α} {off len : ℕ} (h : off + len ≤ xs.length) :
    (window xs off len).length = len := by simp; omega

lemma window_window (xs : List α) (off len o l : ℕ) (h : o + l ≤ len) :
    window (window xs off len) o l = window xs (off + o) l := by
  simp only [window, List.drop_take, List.take_take, List.drop_drop]
  congr 1
  omega

@[simp] lemma window_all (xs : List α) : window xs 0 xs.length = xs := by simp [window]

lemma window_append_window (xs : List α) (off a b : ℕ) :
    window xs off a ++ window xs (off + a) b = window xs off (a + b) := by
  simp only [window, ← List.drop_drop]
  exact (List.take_add).symm

lemma window_append_left {xs : List α} {n : ℕ} (h : xs.length = n) (ys : List α) : window (xs ++ ys) 0 n = xs := by
  rw [window, List.drop_zero, List.take_left' h]

lemma window_append_right {xs : List α} {n : ℕ} (h : xs.length = n) (ys : List α) (off len : ℕ) :
    window (xs ++ ys) (n + off) len = window ys off len := by
  rw [window, window, ← List.drop_drop, List.drop_left' h]

lemma window_drop (xs : List α) (n off len : ℕ) : window (xs.drop n) off len = window xs (n + off) len := by
  rw [window, window, List.drop_drop]

/-- Consecutive windows of one width put together again. -/
lemma flatten_windows (xs : List α) (width k : ℕ) :
    ((List.range k).map fun i => window xs (i * width) width).flatten = xs.take (k * width) := by
  induction k with
  | zero => rw [Nat.zero_mul, List.take_zero, List.range_zero, List.map_nil, List.flatten_nil]
  | succ k ih =>
    rw [List.range_succ, List.map_append, List.flatten_append, ih, Nat.succ_mul, List.take_add]
    simp [window]

lemma window_flatten_replicate (block : List α) {n i : ℕ} (h : i < n) :
    window (List.replicate n block).flatten (i * block.length) block.length = block := by
  induction i generalizing n with
  | zero =>
    obtain ⟨m, rfl⟩ := Nat.exists_eq_succ_of_ne_zero h.ne'
    rw [List.replicate_succ, List.flatten_cons, Nat.zero_mul, window_append_left rfl]
  | succ i ih =>
    obtain ⟨m, rfl⟩ := Nat.exists_eq_succ_of_ne_zero (Nat.zero_lt_of_lt h).ne'
    rw [List.replicate_succ, List.flatten_cons, Nat.succ_mul, Nat.add_comm, window_append_right rfl]
    exact ih (Nat.lt_of_succ_lt_succ h)

variable [Zero α]

/-- The value at position `i`; positions past the end read as zero. -/
def cell (xs : List α) (i : ℕ) : α := xs.getD i 0

def resize (xs : List α) (len : ℕ) : List α := xs.take len ++ List.replicate (len - xs.length) 0

def overwrite (xs : List α) (off : ℕ) (ys : List α) : List α :=
  if ys = [] then xs else resize xs off ++ ys ++ xs.drop (off + ys.length)

lemma cell_eq_getElem (xs : List α) (i : ℕ) (h : i < xs.length) : cell xs i = xs[i] := by
  simp [cell, h]

lemma cell_of_le {xs : List α} {i : ℕ} (h : xs.length ≤ i) : cell xs i = 0 := by
  simp [cell, List.getElem?_eq_none h]

lemma getElem?_eq_cell {xs : List α} {i : ℕ} (h : i < xs.length) : xs[i]? = some (cell xs i) := by
  simp [cell, h]

@[simp] lemma cell_replicate (n i : ℕ) : cell (List.replicate n (0 : α)) i = 0 := by
  simp only [cell, List.getD_eq_getElem?_getD, List.getElem?_replicate]
  split <;> rfl

lemma cell_append (xs ys : List α) (i : ℕ) :
    cell (xs ++ ys) i = if i < xs.length then cell xs i else cell ys (i - xs.length) := by
  simp only [cell, List.getD_eq_getElem?_getD, List.getElem?_append]
  split <;> rfl

@[simp] lemma cell_take (xs : List α) (n i : ℕ) :
    cell (xs.take n) i = if i < n then cell xs i else 0 := by
  simp only [cell, List.getD_eq_getElem?_getD, List.getElem?_take]
  split <;> rfl

@[simp] lemma cell_drop (xs : List α) (n i : ℕ) : cell (xs.drop n) i = cell xs (n + i) := by
  simp [cell, List.getD_eq_getElem?_getD, List.getElem?_drop]

lemma ext_cell {xs ys : List α} (hl : xs.length = ys.length)
    (h : ∀ i < xs.length, cell xs i = cell ys i) : xs = ys := by
  apply List.ext_getElem hl
  intro i hi hj
  rw [← cell_eq_getElem xs i hi, ← cell_eq_getElem ys i hj]
  exact h i hi

lemma cell_window (xs : List α) (off len i : ℕ) :
    cell (window xs off len) i = if i < len then cell xs (off + i) else 0 := by
  simp [window]

@[simp] lemma resize_length (xs : List α) (len : ℕ) : (resize xs len).length = len := by
  simp [resize]; omega

lemma cell_resize (xs : List α) (len i : ℕ) :
    cell (resize xs len) i = if i < len then cell xs i else 0 := by
  simp only [resize, cell_append, cell_take, cell_replicate, List.length_take]
  by_cases hi : i < xs.length
  · split_ifs <;> first | rfl | omega
  · rw [cell_of_le (by omega : xs.length ≤ i)]
    split_ifs <;> rfl

@[simp] lemma resize_self (xs : List α) : resize xs xs.length = xs := by simp [resize]

lemma resize_of_le {xs : List α} {len : ℕ} (h : xs.length ≤ len) :
    resize xs len = xs ++ List.replicate (len - xs.length) 0 := by
  rw [resize, List.take_of_length_le h]

lemma take_resize (xs : List α) {a b : ℕ} (h : b ≤ a) : (resize xs a).take b = resize xs b := by
  apply ext_cell
  · simp [h]
  · intro i _
    simp only [cell_take, cell_resize]
    split_ifs <;> first | rfl | omega

@[simp] lemma resize_nil (len : ℕ) : resize ([] : List α) len = List.replicate len 0 := by simp [resize]

lemma window_resize {xs : List α} {len n : ℕ} (hl : n ≤ len) (hx : n ≤ xs.length) :
    window (resize xs len) 0 n = window xs 0 n := by
  simp only [window, resize, List.drop_zero]
  rw [List.take_append_of_le_length (by simp [hl, hx]), List.take_take, min_eq_left hl]

@[simp] lemma overwrite_nil (xs : List α) (off : ℕ) : overwrite xs off [] = xs := by simp [overwrite]

lemma overwrite_end {xs : List α} {off : ℕ} (h : xs.length = off) (ys : List α) :
    overwrite xs off ys = xs ++ ys := by
  by_cases hy : ys = []
  · rw [hy, overwrite_nil, List.append_nil]
  · have hdrop : xs.drop (off + ys.length) = [] := List.drop_eq_nil_of_le (by omega)
    rw [overwrite, if_neg hy, ← h, resize_self, h, hdrop, List.append_nil]

lemma overwrite_length (xs : List α) (off : ℕ) {ys : List α} (h : 0 < ys.length) :
    (overwrite xs off ys).length = max xs.length (off + ys.length) := by
  have hy : ys ≠ [] := List.length_pos_iff.mp h
  simp only [overwrite, if_neg hy, List.length_append, resize_length, List.length_drop]
  omega

lemma overwrite_length_of_le {xs : List α} {off : ℕ} {ys : List α} (h : off + ys.length ≤ xs.length) :
    (overwrite xs off ys).length = xs.length := by
  rcases Nat.eq_zero_or_pos ys.length with hy | hy
  · rw [List.length_eq_zero_iff.mp hy, overwrite_nil]
  · rw [overwrite_length xs off hy, max_eq_left h]

lemma cell_overwrite (xs : List α) (off : ℕ) (ys : List α) (i : ℕ) :
    cell (overwrite xs off ys) i =
      if off ≤ i ∧ i < off + ys.length then cell ys (i - off) else cell xs i := by
  by_cases hy : ys = []
  · subst hy
    rw [overwrite_nil, if_neg (by simp only [List.length_nil]; omega)]
  · simp only [overwrite, if_neg hy, cell_append, List.length_append, resize_length, cell_resize,
      cell_drop]
    by_cases hlo : i < off
    · rw [if_pos (by omega), if_pos hlo, if_pos hlo, if_neg (by omega)]
    · by_cases hhi : i < off + ys.length
      · rw [if_pos hhi, if_neg hlo, if_pos (by omega)]
      · rw [if_neg hhi, if_neg (by omega)]
        congr 1
        omega

lemma overwrite_append (xs : List α) (off : ℕ) (ys zs : List α) :
    overwrite (overwrite xs off ys) (off + ys.length) zs = overwrite xs off (ys ++ zs) := by
  apply ext_cell
  · rcases Nat.eq_zero_or_pos zs.length with hz | hz
    · rw [List.length_eq_zero_iff.mp hz, overwrite_nil, List.append_nil]
    · have hyz : 0 < (ys ++ zs).length := by rw [List.length_append]; omega
      rw [overwrite_length _ _ hz, overwrite_length xs off hyz, List.length_append]
      rcases Nat.eq_zero_or_pos ys.length with hy | hy
      · rw [List.length_eq_zero_iff.mp hy, overwrite_nil]
        simp
      · rw [overwrite_length xs off hy]
        omega
  · intro i _
    simp only [cell_overwrite, cell_append, List.length_append]
    by_cases hy : off ≤ i ∧ i < off + ys.length
    · rw [if_neg (by omega), if_pos hy, if_pos (by omega), if_pos (by omega)]
    · rw [if_neg hy]
      by_cases hz : off + ys.length ≤ i ∧ i < off + ys.length + zs.length
      · rw [if_pos hz, if_pos (by omega), if_neg (by omega), Nat.sub_sub]
      · rw [if_neg hz, if_neg (by omega)]

lemma overwrite_zero_of_length_le {xs ys : List α} (h : xs.length ≤ ys.length) :
    overwrite xs 0 ys = ys := by
  by_cases hy : ys = []
  · subst hy
    simpa using h
  · simp [overwrite, hy, resize, List.drop_eq_nil_of_le h]

lemma window_overwrite_zero (xs ys : List α) : window (overwrite xs 0 ys) 0 ys.length = ys := by
  by_cases hy : ys = []
  · simp [hy, window]
  · simp [overwrite, hy, resize, window]

end NocapCrypt.Library.Image
