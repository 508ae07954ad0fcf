import NocapCrypt.BlockIo.FileSystem

/-! What a command may change: files that one of a set of paths names, and files that it makes itself. -/

namespace NocapCrypt.BlockIo

open NocapCrypt.Library.Image

/-- Between `fs` and `fs'` only `paths` have come to name other files, all of them new, and only files that `paths`
named have got other contents. -/
structure Framed (paths : Set Path) (fs fs' : Fs) : Prop where
  lookup_ne : ∀ path ∉ paths, fs'.lookup path = fs.lookup path
  lookup_mem : ∀ path ∈ paths, ∀ i, fs'.lookup path = some i → fs.lookup path = some i ∨ fs.next ≤ i
  next_le : fs.next ≤ fs'.next
  node_ne : ∀ i < fs.next, (∀ path ∈ paths, fs.lookup path ≠ some i) → fs'.node i = fs.node i

/-- A file that one of the `paths` names, or a new one. -/
def Within (paths : Set Path) (fs : Fs) (i : ℕ) : Prop :=
  (∃ path ∈ paths, fs.lookup path = some i) ∨ fs.next ≤ i

namespace Framed

variable {paths : Set Path} {fs fs₁ fs₂ : Fs} {path : Path} {i : ℕ}

lemma refl (paths : Set Path) (fs : Fs) : Framed paths fs fs :=
  ⟨fun _ _ => rfl, fun _ _ _ h => Or.inl h, le_refl _, fun _ _ _ => rfl⟩

lemma within (h : Framed paths fs fs₁) (hp : path ∈ paths) (hl : fs₁.lookup path = some i) : Within paths fs i := by
  rcases h.lookup_mem path hp i hl with hold | hnew
  · exact Or.inl ⟨path, hp, hold⟩
  · exact Or.inr hnew

lemma store (h : Framed paths fs fs₁) (hi : Within paths fs i) (bytes : Bytes) :
    Framed paths fs (fs₁.store i bytes) where
  lookup_ne := h.lookup_ne
  lookup_mem := h.lookup_mem
  next_le := h.next_le
  node_ne j hj hne := by
    have hji : j ≠ i := by
      rintro rfl
      rcases hi with ⟨path, hp, hl⟩ | hnew
      · exact hne path hp hl
      · exact hnew.not_gt hj
    rw [Fs.store_node_of_ne _ _ hji, h.node_ne j hj hne]

lemma create (h : Framed paths fs fs₁) (hp : path ∈ paths) : Framed paths fs (fs₁.create path) where
  lookup_ne q hq := by
    have hne : q ≠ path := by
      rintro rfl
      exact hq hp
    exact (Function.update_of_ne hne _ _).trans (h.lookup_ne q hq)
  lookup_mem q hq i hi := by
    by_cases hqp : q = path
    · subst hqp
      rw [show (fs₁.create q).lookup q = some fs₁.next from Function.update_self _ _ _] at hi
      cases hi
      exact Or.inr h.next_le
    · exact h.lookup_mem q hq i ((Function.update_of_ne hqp _ _).symm.trans hi)
  next_le := h.next_le.trans (Nat.le_succ _)
  node_ne j hj hne := (Function.update_of_ne (hj.trans_le h.next_le).ne _ _).trans (h.node_ne j hj hne)

lemma removeDirAll (h : Framed paths fs fs₁) {dir : Path} (hp : ∀ path, Under dir path → path ∈ paths)
    (removed : Path → Bool) : Framed paths fs (fs₁.removeDirAll dir removed) where
  lookup_ne q hq := by
    have hkept : ¬ (Under dir q ∧ removed q = true) := fun hu => hq (hp q hu.1)
    exact (if_neg hkept).trans (h.lookup_ne q hq)
  lookup_mem q hq i hi := by
    rw [Fs.removeDirAll] at hi
    dsimp only at hi
    split at hi
    · cases hi
    · exact h.lookup_mem q hq i hi
  next_le := h.next_le
  node_ne := h.node_ne

lemma openWrite (h : Framed paths fs fs₁) (hp : path ∈ paths) {make : Bool}
    (ho : fs₁.openWrite path make = .ok (i, fs₂)) : Framed paths fs fs₂ ∧ Within paths fs i := by
  rw [Fs.openWrite] at ho
  split at ho
  · rename_i hl
    cases ho
    exact ⟨h, h.within hp hl⟩
  · split at ho
    · cases ho
      exact ⟨h.create hp, Or.inr h.next_le⟩
    · cases ho

lemma setLen (h : Framed paths fs fs₁) (hi : Within paths fs i) {len : ℕ} (hs : fs₁.setLen i len = .ok fs₂) :
    Framed paths fs fs₂ := by
  obtain ⟨-, bytes, -, rfl⟩ := Fs.setLen_ok hs
  exact h.store hi _

lemma write (h : Framed paths fs fs₁) (hp : path ∈ paths) (bytes : Bytes) : Framed paths fs (fs₁.write path bytes) := by
  rw [Fs.write]
  split
  · rename_i i hl
    exact h.store (h.within hp hl) bytes
  · exact (h.create hp).store (Or.inr h.next_le) bytes

end Framed

end NocapCrypt.BlockIo
