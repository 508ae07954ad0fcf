import NocapCrypt.Library.Image

/-! Maps that act on a sequence block by block, each block with its own index. -/

namespace NocapCrypt.Library.Blockwise

open Image

variable {α : Type}

/-- Apply `f first`, `f (first + 1)`, ... to `count` consecutive `n`-blocks; what follows them is kept. -/
def mapCount (n : ℕ) (f : ℕ → List α → List α) : ℕ → ℕ → List α → List α
  | _, 0, xs => xs
  | first, count + 1, xs => f first (xs.take n) ++ mapCount n f (first + 1) count (xs.drop n)

def mapBlocks (n : ℕ) (f : ℕ → List α → List α) (first : ℕ) (xs : List α) : List α :=
  mapCount n f first (xs.length / n) xs

def KeepsLength (n : ℕ) (f : ℕ → List α → List α) : Prop :=
  ∀ k xs, xs.length = n → (f k xs).length = n

section Length

variable {n : ℕ} {f g : ℕ → List α → List α}

lemma mapCount_length (hf : KeepsLength n f) (first count : ℕ) (xs : List α) (h : count * n ≤ xs.length) :
    (mapCount n f first count xs).length = xs.length := by
  induction count generalizing first xs with
  | zero => rfl
  | succ count ih =>
    rw [Nat.succ_mul] at h
    have hd : count * n ≤ (xs.drop n).length := by simp; omega
    have ht : (xs.take n).length = n := by simp; omega
    rw [mapCount, List.length_append, hf _ _ ht, ih _ _ hd, List.length_drop]
    omega

lemma mapBlocks_length (hf : KeepsLength n f) (first : ℕ) (xs : List α) :
    (mapBlocks n f first xs).length = xs.length :=
  mapCount_length hf _ _ _ (Nat.div_mul_le_self _ _)

lemma mapCount_append (f : ℕ → List α → List α) (first a b : ℕ) (xs : List α) (h : a * n ≤ xs.length) :
    mapCount n f first (a + b) xs =
      mapCount n f first a (xs.take (a * n)) ++ mapCount n f (first + a) b (xs.drop (a * n)) := by
  induction a generalizing first xs with
  | zero => simp [mapCount]
  | succ a ih =>
    rw [Nat.succ_mul] at h
    have hd : a * n ≤ (xs.drop n).length := by simp; omega
    rw [Nat.succ_add, mapCount, mapCount, ih _ _ hd, List.append_assoc, Nat.succ_mul, List.take_take,
      min_eq_left (by omega : n ≤ a * n + n), List.drop_take, List.drop_drop, Nat.add_sub_cancel,
      Nat.add_comm n (a * n), Nat.add_right_comm first 1 a, Nat.add_assoc first a 1]

lemma mapBlocks_append (hn : 0 < n) (f : ℕ → List α → List α) (first : ℕ) (xs ys : List α)
    (h : n ∣ xs.length) :
    mapBlocks n f first (xs ++ ys) = mapBlocks n f first xs ++ mapBlocks n f (first + xs.length / n) ys := by
  obtain ⟨a, ha⟩ := h
  have hx : xs.length / n = a := by rw [ha, Nat.mul_div_cancel_left _ hn]
  have hy : (xs ++ ys).length / n = a + ys.length / n := by
    rw [List.length_append, ha, Nat.mul_add_div hn]
  rw [mapBlocks, hy, mapCount_append f _ _ _ _ (by rw [List.length_append, ha, Nat.mul_comm]; omega),
    mapBlocks, mapBlocks, hx, Nat.mul_comm a n, ← ha, List.take_left', List.drop_left'] <;> rfl

lemma mapBlocks_window (hn : 0 < n) (hf : KeepsLength n f) (first off len : ℕ) (xs : List α)
    (hoff : n ∣ off) (hlen : n ∣ len) (h : off + len ≤ xs.length) :
    window (mapBlocks n f first xs) off len = mapBlocks n f (first + off / n) (window xs off len) := by
  have hsplit : xs = xs.take off ++ (window xs off len ++ xs.drop (off + len)) := by
    rw [window, ← List.drop_drop, List.take_append_drop, List.take_append_drop]
  have ht : (xs.take off).length = off := by simp; omega
  have hw : (window xs off len).length = len := window_length_of_le h
  have hl : (mapBlocks n f first (xs.take off)).length = off := by rw [mapBlocks_length hf, ht]
  have hm : (mapBlocks n f (first + off / n) (window xs off len)).length = len := by
    rw [mapBlocks_length hf, hw]
  conv_lhs => rw [hsplit]
  rw [mapBlocks_append hn f _ _ _ (by rwa [ht]), mapBlocks_append hn f _ _ _ (by rwa [hw]), ht,
    window, List.drop_left' hl, List.take_left' hm]

lemma mapCount_inverse (hf : KeepsLength n f) (h : ∀ k xs, xs.length = n → g k (f k xs) = xs)
    (first count : ℕ) (xs : List α) (hc : count * n ≤ xs.length) :
    mapCount n g first count (mapCount n f first count xs) = xs := by
  induction count generalizing first xs with
  | zero => rfl
  | succ count ih =>
    rw [Nat.succ_mul] at hc
    have ht : (xs.take n).length = n := by simp; omega
    have hl := hf first _ ht
    rw [mapCount, mapCount, List.take_left' hl, List.drop_left' hl, h _ _ ht,
      ih _ _ (by simp; omega), List.take_append_drop]

lemma mapBlocks_inverse (hf : KeepsLength n f) (h : ∀ k xs, xs.length = n → g k (f k xs) = xs)
    (first : ℕ) (xs : List α) : mapBlocks n g first (mapBlocks n f first xs) = xs := by
  rw [mapBlocks, mapBlocks_length hf]
  exact mapCount_inverse hf h _ _ _ (Nat.div_mul_le_self _ _)

lemma mapBlocks_single (hn : 0 < n) (f : ℕ → List α → List α) (first : ℕ) (xs : List α)
    (h : xs.length = n) : mapBlocks n f first xs = f first xs := by
  rw [mapBlocks, h, Nat.div_self hn]
  simp [mapCount, ← h]

lemma mapCount_shift (f : ℕ → List α → List α) (first start count : ℕ) (xs : List α) :
    mapCount n (fun k => f (first + k)) start count xs = mapCount n f (first + start) count xs := by
  induction count generalizing start xs with
  | zero => rfl
  | succ count ih => rw [mapCount, mapCount, ih, Nat.add_assoc]

end Length

/-- A map on `n`-vectors as a map on lists; other lengths are left alone. -/
def onBlock {n : ℕ} (f : Vector α n → Vector α n) (xs : List α) : List α :=
  if h : xs.length = n then (f ⟨xs.toArray, by simpa using h⟩).toList else xs

section OnBlock

variable {n : ℕ}

@[simp] lemma onBlock_toList (f : Vector α n → Vector α n) (v : Vector α n) :
    onBlock f v.toList = (f v).toList := by
  have h : v.toList.length = n := by simp
  rw [onBlock, dif_pos h]
  congr 2

@[simp] lemma onBlock_length (f : Vector α n → Vector α n) (xs : List α) :
    (onBlock f xs).length = xs.length := by
  rw [onBlock]
  split
  · rename_i h
    simp [h]
  · rfl

lemma exists_vector {xs : List α} (h : xs.length = n) : ∃ v : Vector α n, v.toList = xs :=
  ⟨⟨xs.toArray, by simpa using h⟩, by simp⟩

lemma onBlock_inverse {f g : Vector α n → Vector α n} (h : ∀ v, g (f v) = v) {xs : List α}
    (hx : xs.length = n) : onBlock g (onBlock f xs) = xs := by
  obtain ⟨v, rfl⟩ := exists_vector hx
  rw [onBlock_toList, onBlock_toList, h]

lemma onBlock_injective {f : Equiv.Perm (Vector α n)} {xs ys : List α} (hx : xs.length = n) (hy : ys.length = n) :
    onBlock f xs = onBlock f ys ↔ xs = ys := by
  constructor
  · intro h
    rw [← onBlock_inverse f.symm_apply_apply hx, h, onBlock_inverse f.symm_apply_apply hy]
  · rintro rfl
    rfl

lemma onBlock_keepsLength (f : ℕ → Vector α n → Vector α n) : KeepsLength n fun k => onBlock (f k) :=
  fun k xs h => (onBlock_length (f k) xs).trans h

/-- Block `k` of a vector is permuted by `f k`. -/
def blocksPerm {m : ℕ} (f : ℕ → Equiv.Perm (Vector α n)) : Equiv.Perm (Vector α m) where
  toFun v := ⟨(mapBlocks n (fun k => onBlock (f k)) 0 v.toList).toArray, by
    simp [mapBlocks_length (onBlock_keepsLength _)]⟩
  invFun v := ⟨(mapBlocks n (fun k => onBlock (f k).symm) 0 v.toList).toArray, by
    simp [mapBlocks_length (onBlock_keepsLength _)]⟩
  left_inv v := by
    apply Vector.toList_inj.mp
    simpa using mapBlocks_inverse (onBlock_keepsLength _)
      (fun k _ h => onBlock_inverse (f k).symm_apply_apply h) 0 v.toList
  right_inv v := by
    apply Vector.toList_inj.mp
    simpa using mapBlocks_inverse (onBlock_keepsLength _)
      (fun k _ h => onBlock_inverse (f k).apply_symm_apply h) 0 v.toList

lemma blocksPerm_window {m : ℕ} (f : ℕ → Equiv.Perm (Vector α n)) (v : Vector α m) {j : ℕ} (hn : 0 < n)
    (h : j * n + n ≤ m) :
    window (blocksPerm f v).toList (j * n) n = onBlock (f j) (window v.toList (j * n) n) := by
  have hlen : j * n + n ≤ v.toList.length := by simpa using h
  have hlist : (blocksPerm f v).toList = mapBlocks n (fun k => onBlock (f k)) 0 v.toList := by simp [blocksPerm]
  rw [hlist, mapBlocks_window hn (onBlock_keepsLength _) _ _ _ _ (Nat.dvd_mul_left _ _) (dvd_refl n) hlen,
    mapBlocks_single hn _ _ _ (window_length_of_le hlen), Nat.zero_add, Nat.mul_div_cancel _ hn]

end OnBlock

section InPlace

variable [Zero α] {n : ℕ} {f : ℕ → List α → List α}

/-- The loop that rewrites block `0`, then block `1`, ... of one buffer in place. -/
def rewriteBlocks (n : ℕ) (f : ℕ → List α → List α) (count : ℕ) (xs : List α) : List α :=
  (List.range count).foldl (fun buf s => overwrite buf (s * n) (f s (window buf (s * n) n))) xs

lemma rewriteBlocks_succ (n : ℕ) (f : ℕ → List α → List α) (count : ℕ) (xs : List α) :
    rewriteBlocks n f (count + 1) xs =
      overwrite (rewriteBlocks n f count xs) (count * n)
        (f count (window (rewriteBlocks n f count xs) (count * n) n)) := by
  simp [rewriteBlocks, List.range_succ]

lemma rewriteBlocks_eq (hn : 0 < n) (hf : KeepsLength n f) (count : ℕ) (xs : List α)
    (h : count * n ≤ xs.length) : rewriteBlocks n f count xs = mapCount n f 0 count xs := by
  induction count with
  | zero => rfl
  | succ count ih =>
    have hc : count * n + n ≤ xs.length := by rwa [Nat.succ_mul] at h
    have hs : (xs.take (count * n)).length = count * n := by simp; omega
    have hl : (mapCount n f 0 count (xs.take (count * n))).length = count * n := by
      rw [mapCount_length hf _ _ _ (by rw [hs]), hs]
    have hb : (xs.drop (count * n)).length = xs.length - count * n := List.length_drop
    have ht : (window xs (count * n) n).length = n := window_length_of_le hc
    rw [rewriteBlocks_succ, ih (by omega)]
    conv_lhs => rw [← Nat.add_zero count, mapCount_append f 0 count 0 xs (by omega), Nat.add_zero]
    rw [mapCount_append f 0 count 1 xs (by omega), Nat.zero_add]
    simp only [mapCount]
    rw [window, List.drop_left' hl]
    change overwrite _ _ (f count (window xs (count * n) n)) = _
    have hfl := hf count _ ht
    have hne : f count (window xs (count * n) n) ≠ [] := by
      intro he
      rw [he] at hfl
      simp at hfl
      omega
    rw [overwrite, if_neg hne, hfl, ← List.drop_drop, List.drop_left' hl, resize, List.take_left' hl,
      List.length_append, hl, Nat.sub_eq_zero_of_le (by omega), List.replicate_zero, List.append_nil,
      List.append_assoc]
    rfl

end InPlace

end NocapCrypt.Library.Blockwise
