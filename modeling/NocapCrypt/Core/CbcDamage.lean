import NocapCrypt.Core.RangeCorrectness

/-! CBC-ESSIV by blocks: what the ciphertexts of two buffers show of them, and how far a damaged ciphertext block
reaches. -/

namespace NocapCrypt.Core

open NocapCrypt.Library.Image NocapCrypt.Library.Blockwise

variable {main essiv : Equiv.Perm Block} {first : ℕ} {plain plain' cipher cipher' : Bytes} {s j : ℕ}

lemma previousBlock_congr (iv : Bytes) (h : ∀ i, i + 1 = j → cipherBlock cipher s i = cipherBlock cipher' s i) :
    previousBlock iv cipher s j = previousBlock iv cipher' s j := by
  cases j with
  | zero => rfl
  | succ j => exact h j rfl

lemma essivOf_length (essiv : Equiv.Perm Block) (n : ℕ) : (essivOf essiv n).length = 16 := by
  rw [essivOf_eq, Vector.length_toList]

lemma previousBlock_length {iv : Bytes} (hiv : iv.length = 16) (hs : s < cipher.length / sectorSize) (hj : j < 32) :
    (previousBlock iv cipher s j).length = 16 := by
  cases j with
  | zero => exact hiv
  | succ j => exact cipherBlock_length hs (Nat.lt_of_succ_lt hj)

/-- The CBC equation the other way round: a plaintext block is made of its ciphertext block and the one before. -/
lemma CbcEssivOf.plain_eq (h : CbcEssivOf main essiv first plain cipher) (hlen : cipher.length = plain.length)
    (hs : s < plain.length / sectorSize) (hj : j < 32) :
    cipherBlock plain s j = xorBlock (onBlock main.symm (cipherBlock cipher s j))
      (previousBlock (essivOf essiv (first + s)) cipher s j) := by
  have hprev : (previousBlock (essivOf essiv (first + s)) cipher s j).length = 16 :=
    previousBlock_length (essivOf_length _ _) (hlen ▸ hs) hj
  have hplain := cipherBlock_length hs hj
  have hmixed : (xorBlock (cipherBlock plain s j)
      (previousBlock (essivOf essiv (first + s)) cipher s j)).length = 16 := by
    rw [xorBlock_length, hplain, hprev, min_self]
  rw [h s j hs hj, onBlock_inverse main.symm_apply_apply hmixed, xorBlock_cancel (hplain.trans hprev.symm)]

lemma xorBlock_xorBlock {a b d : Bytes} (ha : a.length = d.length) (hb : b.length = d.length) :
    xorBlock (xorBlock d a) (xorBlock a b) = xorBlock d b := by
  apply List.ext_getElem
  · simp [ha, hb]
  · intro i hi hj
    have hxor : ∀ x y z : UInt8, x ^^^ y ^^^ (y ^^^ z) = x ^^^ z := by
      intro x y z
      rw [UInt8.xor_assoc, ← UInt8.xor_assoc y, UInt8.xor_self, UInt8.zero_xor]
    simp only [xorBlock, List.getElem_zipWith, hxor]

lemma xorBlock_right_inj {a b d : Bytes} (ha : a.length = d.length) (hb : b.length = d.length)
    (h : xorBlock a d = xorBlock b d) : a = b := by
  rw [← xorBlock_cancel ha, ← xorBlock_cancel hb, h]

section Prefixes

variable (h : CbcEssivOf main essiv first plain cipher) (h' : CbcEssivOf main essiv first plain' cipher')
  (hlen : cipher.length = plain.length) (hlen' : cipher'.length = plain'.length)
  (hs : s < plain.length / sectorSize) (hs' : s < plain'.length / sectorSize)

include h h' hs hs'

lemma cipherBlock_congr {i : ℕ} (hi : i < 32) (hplain : ∀ k ≤ i, cipherBlock plain s k = cipherBlock plain' s k) :
    cipherBlock cipher s i = cipherBlock cipher' s i := by
  induction i with
  | zero => rw [h s 0 hs hi, h' s 0 hs' hi, hplain 0 (le_refl 0), previousBlock, previousBlock]
  | succ i ih =>
    have hprev := ih (Nat.lt_of_succ_lt hi) fun k hk => hplain k (Nat.le_succ_of_le hk)
    rw [h s _ hs hi, h' s _ hs' hi, hplain _ (le_refl _), previousBlock, previousBlock, hprev]

include hlen hlen'

lemma cipherBlock_prefix_iff (hj : j ≤ 32) : (∀ i < j, cipherBlock cipher s i = cipherBlock cipher' s i) ↔
    ∀ i < j, cipherBlock plain s i = cipherBlock plain' s i := by
  constructor
  · intro hcipher i hi
    have hi32 := hi.trans_le hj
    rw [h.plain_eq hlen hs hi32, h'.plain_eq hlen' hs' hi32, hcipher i hi,
      previousBlock_congr _ fun k hk => hcipher k (by omega)]
  · intro hplain i hi
    exact cipherBlock_congr h h' hs hs' (hi.trans_le hj) fun k hk => hplain k (hk.trans_lt hi)

end Prefixes

lemma cbcEssivOf_encryptRange {buf out : Bytes} (hwhole : sectorSize ∣ buf.length)
    (hfit : first + buf.length / sectorSize ≤ u64Size)
    (hout : (SectorEngine.cbcEssiv (.aes256 main essiv)).encryptRange first buf = .ok out) :
    out.length = buf.length ∧ CbcEssivOf main essiv first buf out := by
  have heq := SectorEngine.cryptRange_eq (.cbcEssiv (.aes256 main essiv)) true first hwhole
  obtain rfl := Except.ok.inj (hout.symm.trans heq)
  exact ⟨SectorEngine.cryptSectors_length _ _ _ _, SectorEngine.cryptSectors_cbcEssiv main essiv first hfit⟩

lemma cbcEssivOf_decryptRange {buf out : Bytes} (hwhole : sectorSize ∣ buf.length)
    (hfit : first + buf.length / sectorSize ≤ u64Size)
    (hout : (SectorEngine.cbcEssiv (.aes256 main essiv)).decryptRange first buf = .ok out) :
    out.length = buf.length ∧ CbcEssivOf main essiv first out buf := by
  have heq := SectorEngine.cryptRange_eq (.cbcEssiv (.aes256 main essiv)) false first hwhole
  obtain rfl := Except.ok.inj (hout.symm.trans heq)
  have hlen := SectorEngine.cryptSectors_length (.cbcEssiv (.aes256 main essiv)) false first buf
  have hcbc := SectorEngine.cryptSectors_cbcEssiv main essiv first (hlen.symm ▸ hfit)
  rw [show true = !false from rfl, SectorEngine.cryptSectors_inverse] at hcbc
  exact ⟨hlen, hcbc⟩

/-- Two ciphertexts of one sector agree on as many leading blocks as the plaintexts do. -/
theorem cbcEssiv_prefix_iff (main essiv : Equiv.Perm Block) {buf buf' out out' : Bytes}
    (hwhole : sectorSize ∣ buf.length) (hwhole' : sectorSize ∣ buf'.length)
    (hfit : first + buf.length / sectorSize ≤ u64Size) (hfit' : first + buf'.length / sectorSize ≤ u64Size)
    (hout : (SectorEngine.cbcEssiv (.aes256 main essiv)).encryptRange first buf = .ok out)
    (hout' : (SectorEngine.cbcEssiv (.aes256 main essiv)).encryptRange first buf' = .ok out')
    (hs : s < buf.length / sectorSize) (hs' : s < buf'.length / sectorSize) (hj : j ≤ 32) :
    (∀ i < j, cipherBlock out s i = cipherBlock out' s i) ↔ ∀ i < j, cipherBlock buf s i = cipherBlock buf' s i := by
  obtain ⟨hlen, h⟩ := cbcEssivOf_encryptRange hwhole hfit hout
  obtain ⟨hlen', h'⟩ := cbcEssivOf_encryptRange hwhole' hfit' hout'
  exact cipherBlock_prefix_iff h h' hlen hlen' hs hs' hj

def halfSector : Bytes := sampleSector.take 256 ++ List.replicate 256 0

theorem cbcEssiv_prefix_iff_half :
    ∃ out, sampleEngine.encryptRange 0 halfSector = .ok out ∧
      ∀ i < 16, cipherBlock sampleCiphertext 0 i = cipherBlock out 0 i := by
  have hlen : sampleSector.length = 512 := by decide +kernel
  have hlen' : halfSector.length = 512 := by decide +kernel
  have hwhole : sectorSize ∣ sampleSector.length := by rw [hlen]; exact dvd_refl _
  have hwhole' : sectorSize ∣ halfSector.length := by rw [hlen']; exact dvd_refl _
  have hout := sampleEngine.cryptRange_eq true 0 hwhole'
  rw [SectorEngine.cryptRange, if_pos rfl] at hout
  refine ⟨_, hout, ?_⟩
  apply (cbcEssiv_prefix_iff (s := 0) sampleMain sampleEssiv hwhole hwhole' (by rw [hlen]; decide)
    (by rw [hlen']; decide) (by decide +kernel) hout (by rw [hlen]; decide) (by rw [hlen']; decide) (by decide)).mpr
  decide +kernel

/-- One damaged ciphertext block garbles its own plaintext block and flips in the next one, if its sector has a next
one, exactly the bits in which it is damaged. Every other block is decrypted as before. -/
theorem cbcEssiv_damage (main essiv : Equiv.Perm Block) {buf buf' out out' : Bytes}
    (hwhole : sectorSize ∣ buf.length) (hsize : buf'.length = buf.length)
    (hfit : first + buf.length / sectorSize ≤ u64Size) (hs : s < buf.length / sectorSize) (hj : j < 32)
    (hother : ∀ t i, t < buf.length / sectorSize → i < 32 → (t, i) ≠ (s, j) →
      cipherBlock buf' t i = cipherBlock buf t i)
    (hdamaged : cipherBlock buf' s j ≠ cipherBlock buf s j)
    (hout : (SectorEngine.cbcEssiv (.aes256 main essiv)).decryptRange first buf = .ok out)
    (hout' : (SectorEngine.cbcEssiv (.aes256 main essiv)).decryptRange first buf' = .ok out') :
    cipherBlock out' s j ≠ cipherBlock out s j ∧
      (j + 1 < 32 → cipherBlock out' s (j + 1) =
        xorBlock (cipherBlock out s (j + 1)) (xorBlock (cipherBlock buf s j) (cipherBlock buf' s j))) ∧
      ∀ t i, t < buf.length / sectorSize → i < 32 → (t, i) ≠ (s, j) → (t, i) ≠ (s, j + 1) →
        cipherBlock out' t i = cipherBlock out t i := by
  obtain ⟨hlen, h⟩ := cbcEssivOf_decryptRange hwhole hfit hout
  obtain ⟨hlen', h'⟩ := cbcEssivOf_decryptRange (hsize ▸ hwhole) (hsize ▸ hfit) hout'
  have hprev : ∀ t i, t < buf.length / sectorSize → i < 32 → (t, i) ≠ (s, j + 1) →
      ∀ iv, previousBlock iv buf' t i = previousBlock iv buf t i := by
    intro t i ht hi hne iv
    apply previousBlock_congr
    rintro k rfl
    apply hother t k ht (Nat.lt_of_succ_lt hi)
    rintro hk
    obtain ⟨rfl, rfl⟩ := Prod.mk.inj hk
    exact hne rfl
  have hplain : ∀ t i, t < buf.length / sectorSize → i < 32 →
      cipherBlock out t i = xorBlock (onBlock main.symm (cipherBlock buf t i))
        (previousBlock (essivOf essiv (first + t)) buf t i) ∧
      cipherBlock out' t i = xorBlock (onBlock main.symm (cipherBlock buf' t i))
        (previousBlock (essivOf essiv (first + t)) buf' t i) := by
    intro t i ht hi
    exact ⟨h.plain_eq hlen.symm (hlen ▸ ht) hi, h'.plain_eq hlen'.symm (by rwa [hlen', hsize]) hi⟩
  have hs' : s < buf'.length / sectorSize := hsize ▸ hs
  have hblock := cipherBlock_length hs hj
  have hblock' := cipherBlock_length hs' hj
  refine ⟨?_, ?_, ?_⟩
  · intro heq
    obtain ⟨ho, ho'⟩ := hplain s j hs hj
    rw [ho, ho', hprev s j hs hj (by simp)] at heq
    have hiv : (previousBlock (essivOf essiv (first + s)) buf s j).length = 16 :=
      previousBlock_length (essivOf_length _ _) hs hj
    have hdec := xorBlock_right_inj (by rw [onBlock_length, hblock', hiv]) (by rw [onBlock_length, hblock, hiv]) heq
    have henc := congrArg (onBlock main) hdec
    rw [onBlock_inverse main.apply_symm_apply hblock', onBlock_inverse main.apply_symm_apply hblock] at henc
    exact hdamaged henc
  · intro hnext
    obtain ⟨ho, ho'⟩ := hplain s (j + 1) hs hnext
    have hlength : (onBlock main.symm (cipherBlock buf s (j + 1))).length = 16 := by
      rw [onBlock_length, cipherBlock_length hs hnext]
    rw [ho, ho', hother s (j + 1) hs hnext (by simp), previousBlock, previousBlock]
    exact (xorBlock_xorBlock (hblock.trans hlength.symm) (hblock'.trans hlength.symm)).symm
  · intro t i ht hi hne hne'
    obtain ⟨ho, ho'⟩ := hplain t i ht hi
    rw [ho, ho', hother t i ht hi hne, hprev t i ht hi hne']

/-- One flipped bit in the fourth of the blocks. -/
def damagedCiphertext : Bytes := sampleCiphertext.take 48 ++ 1 :: sampleCiphertext.drop 49

theorem cbcEssiv_damage_bit :
    ∃ out, sampleEngine.decryptRange 0 damagedCiphertext = .ok out ∧
      cipherBlock out 0 4 = xorBlock (cipherBlock sampleSector 0 4) (1 :: List.replicate 15 0) := by
  have hlen : sampleCiphertext.length = 512 := by decide +kernel
  have hlen' : damagedCiphertext.length = 512 := by decide +kernel
  have hwhole : sectorSize ∣ sampleCiphertext.length := by rw [hlen]; exact dvd_refl _
  have hwhole' : sectorSize ∣ damagedCiphertext.length := by rw [hlen']; exact dvd_refl _
  have hout := sampleEngine.cryptRange_eq false 0 hwhole'
  rw [SectorEngine.cryptRange, if_neg Bool.false_ne_true] at hout
  refine ⟨_, hout, ?_⟩
  have hother : ∀ t i, t < sampleCiphertext.length / sectorSize → i < 32 → (t, i) ≠ (0, 3) →
      cipherBlock damagedCiphertext t i = cipherBlock sampleCiphertext t i := by
    have hblocks : ∀ i < 32, i ≠ 3 → cipherBlock damagedCiphertext 0 i = cipherBlock sampleCiphertext 0 i := by
      decide +kernel
    intro t i ht hi hne
    rw [hlen] at ht
    obtain rfl : t = 0 := Nat.lt_one_iff.mp ht
    exact hblocks i hi fun h => hne (by rw [h])
  obtain ⟨-, hnext, -⟩ := @cbcEssiv_damage 0 0 3 sampleMain sampleEssiv _ _ _ _
    hwhole (hlen'.trans hlen.symm) (by rw [hlen]; decide) (by rw [hlen]; decide) (by decide)
    hother (by decide +kernel) (show sampleEngine.decryptRange 0 sampleCiphertext = .ok sampleSector by decide +kernel)
    hout
  rw [hnext (by decide)]
  decide +kernel

end NocapCrypt.Core
