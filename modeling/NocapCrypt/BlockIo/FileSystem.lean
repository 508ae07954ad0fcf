import NocapCrypt.BlockIo.SectorIo
import NocapCrypt.Core.Engine

/-! The files that the commands see: paths, regular files and block devices. -/

namespace NocapCrypt.BlockIo

open NocapCrypt.Library.Image NocapCrypt.Core

/-- Paths are UTF-8 here. -/
abbrev Path := String

/-- `path` lies under the directory `dir`. -/
def Under (dir path : Path) : Prop := (dir ++ "/").toList <+: path.toList

instance (dir path : Path) : Decidable (Under dir path) := inferInstanceAs (Decidable (_ <+: _))

lemma under_append (dir name : String) : Under dir (dir ++ "/" ++ name) := by
  simp [Under]

inductive Node where
  | regular (bytes : Bytes)
  | blockDevice (sectors : List Sector)

namespace Node

def contents : Node → Bytes
  | .regular bytes => bytes
  | .blockDevice sectors => sectors.flatMap Vector.toList

/-- `metadata().len()`: the kernel reports no size for a block device. -/
def metadataLen : Node → ℕ
  | .regular bytes => bytes.length
  | .blockDevice _ => 0

def IsRegular : Node → Prop
  | .regular _ => True
  | .blockDevice _ => False

lemma IsRegular.metadataLen {node : Node} (h : node.IsRegular) : node.metadataLen = node.contents.length := by
  cases node with
  | regular bytes => rfl
  | blockDevice sectors => exact h.elim

lemma not_isRegular {node : Node} (h : ¬ node.IsRegular) :
    node.metadataLen = 0 ∧ sectorSize ∣ node.contents.length := by
  cases node with
  | regular bytes => exact (h trivial).elim
  | blockDevice sectors =>
    refine ⟨rfl, sectors.length, ?_⟩
    simp [contents, List.length_flatMap, Nat.mul_comm]

end Node

/-- Paths name files; a path and a file can be any of several, and no path names a file not yet made. -/
structure Fs where
  lookup : Path → Option ℕ
  node : ℕ → Node
  next : ℕ
  lookup_lt : ∀ path i, lookup path = some i → i < next

namespace Fs

def disk (fs : Fs) (i : ℕ) : Bytes := (fs.node i).contents

def metadataLen (fs : Fs) (path : Path) : Except IoError ℕ :=
  match fs.lookup path with
  | none => .error .notFound
  | some i => .ok (fs.node i).metadataLen

def read (fs : Fs) (path : Path) : Except IoError Bytes :=
  match fs.lookup path with
  | none => .error .notFound
  | some i => .ok (fs.disk i)

def openRead (fs : Fs) (path : Path) : Except IoError ℕ :=
  match fs.lookup path with
  | none => .error .notFound
  | some i => .ok i

def store (fs : Fs) (i : ℕ) (bytes : Bytes) : Fs :=
  { fs with node := Function.update fs.node i (.regular bytes) }

def create (fs : Fs) (path : Path) : Fs where
  lookup := Function.update fs.lookup path (some fs.next)
  node := Function.update fs.node fs.next (.regular [])
  next := fs.next + 1
  lookup_lt := by
    intro q i h
    by_cases hq : q = path
    · subst hq
      rw [Function.update_self] at h
      exact Option.some.inj h ▸ Nat.lt_succ_self _
    · rw [Function.update_of_ne hq] at h
      exact (fs.lookup_lt q i h).trans (Nat.lt_succ_self _)

def openWrite (fs : Fs) (path : Path) (create : Bool) : Except IoError (ℕ × Fs) :=
  match fs.lookup path with
  | some i => .ok (i, fs)
  | none => if create then .ok (fs.next, fs.create path) else .error .notFound

/-- `File::set_len`: lengths are `i64`, and a block device cannot be resized. -/
def setLen (fs : Fs) (i len : ℕ) : Except IoError Fs :=
  if i64Max < len then .error (.invalidInput "out of range integral type conversion attempted")
  else match fs.node i with
    | .blockDevice _ => .error (.os "Invalid argument (os error 22)")
    | .regular bytes => .ok (fs.store i (resize bytes len))

/-- `std::fs::write` on a path that names no device. -/
def write (fs : Fs) (path : Path) (bytes : Bytes) : Fs :=
  match fs.lookup path with
  | some i => fs.store i bytes
  | none => (fs.create path).store fs.next bytes

/-- `remove_dir_all`, as far as it gets: of what lies under `dir` the paths that `removed` picks are gone. -/
def removeDirAll (fs : Fs) (dir : Path) (removed : Path → Bool) : Fs where
  lookup path := if Under dir path ∧ removed path = true then none else fs.lookup path
  node := fs.node
  next := fs.next
  lookup_lt := by
    intro path i h
    split at h
    · cases h
    · exact fs.lookup_lt path i h

@[simp] lemma store_lookup (fs : Fs) (i : ℕ) (bytes : Bytes) : (fs.store i bytes).lookup = fs.lookup := rfl

@[simp] lemma store_node_self (fs : Fs) (i : ℕ) (bytes : Bytes) :
    (fs.store i bytes).node i = .regular bytes := Function.update_self _ _ _

lemma store_node_of_ne (fs : Fs) {i j : ℕ} (bytes : Bytes) (h : j ≠ i) :
    (fs.store i bytes).node j = fs.node j := Function.update_of_ne h _ _

lemma store_self {fs : Fs} {i : ℕ} {bytes : Bytes} (h : fs.node i = .regular bytes) : fs.store i bytes = fs := by
  rw [store, ← h, Function.update_eq_self]

/-- `path` names a regular file with these bytes. -/
def Regular (fs : Fs) (path : Path) (bytes : Bytes) : Prop :=
  ∃ i, fs.lookup path = some i ∧ fs.node i = .regular bytes

lemma Regular.metadataLen {fs : Fs} {path : Path} {bytes : Bytes} (h : fs.Regular path bytes) :
    fs.metadataLen path = .ok bytes.length := by
  obtain ⟨i, hi, hn⟩ := h
  simp [Fs.metadataLen, hi, hn, Node.metadataLen]

lemma openRead_ok {fs : Fs} {path : Path} {i : ℕ} (h : fs.openRead path = .ok i) : fs.lookup path = some i := by
  rw [openRead] at h
  split at h
  · cases h
  · rename_i hl
    exact Except.ok.inj h ▸ hl

lemma setLen_ok {fs fs' : Fs} {i len : ℕ} (h : fs.setLen i len = .ok fs') :
    len ≤ i64Max ∧ ∃ bytes, fs.node i = .regular bytes ∧ fs' = fs.store i (resize bytes len) := by
  rw [setLen] at h
  split at h
  · cases h
  · rename_i hlen
    split at h
    · cases h
    · rename_i bytes hn
      exact ⟨Nat.le_of_not_lt hlen, bytes, hn, (Except.ok.inj h).symm⟩

lemma openWrite_setLen {fs fs₁ fs₂ : Fs} {path : Path} {len i : ℕ} (ho : fs.openWrite path true = .ok (i, fs₁))
    (hs : fs₁.setLen i len = .ok fs₂) :
    len ≤ i64Max ∧ fs₂.lookup path = some i ∧ fs₂.node i = .regular (resize (fs₁.disk i) len) ∧
      (∀ q j, fs.lookup q = some j → fs₂.lookup q = some j ∧ fs₁.disk j = fs.disk j ∧
        (j ≠ i → fs₂.node j = fs.node j)) ∧
      (∀ q, fs.lookup q = some i → ∃ bytes, fs.node i = .regular bytes) := by
  have hlook : fs₁.lookup path = some i ∧
      ∀ q j, fs.lookup q = some j → fs₁.lookup q = some j ∧ fs₁.node j = fs.node j := by
    rw [openWrite] at ho
    split at ho
    · rename_i hl
      cases ho
      exact ⟨hl, fun q j hq => ⟨hq, rfl⟩⟩
    · rename_i hl
      rw [if_pos rfl] at ho
      cases ho
      refine ⟨Function.update_self _ _ _, ?_⟩
      intro q j hq
      have hne : q ≠ path := by
        rintro rfl
        rw [hl] at hq
        cases hq
      exact ⟨(Function.update_of_ne hne _ _).trans hq,
        Function.update_of_ne (fs.lookup_lt q j hq).ne _ _⟩
  obtain ⟨hlen, bytes, hn, rfl⟩ := setLen_ok hs
  refine ⟨hlen, hlook.1, ?_, ?_, ?_⟩
  · rw [store_node_self, disk, hn]
    rfl
  · intro q j hq
    obtain ⟨hl, hnode⟩ := hlook.2 q j hq
    refine ⟨hl, by rw [disk, disk, hnode], ?_⟩
    intro hne
    rw [store_node_of_ne _ _ hne, hnode]
  · intro q hq
    exact ⟨bytes, by rw [← (hlook.2 q i hq).2, hn]⟩

end Fs

end NocapCrypt.BlockIo
