import NocapCrypt.Core.RangeCorrectness
import NocapCrypt.Library.Commands

/-! XTS by blocks: under one key every block position of every sector has a permutation of its own, and nothing else
goes into a block. -/

namespace NocapCrypt.Core

open NocapCrypt.Library.Image NocapCrypt.Library.Blockwise NocapCrypt.Library.Commands

section Standard

def xorVector (a b : Block) : Block := Vector.zipWith (· ^^^ ·) a b

lemma xorVector_cancel (a t : Block) : xorVector (xorVector a t) t = a := by
  apply Vector.ext
  intro i hi
  rw [xorVector, Vector.getElem_zipWith, xorVector, Vector.getElem_zipWith, UInt8.xor_assoc, UInt8.xor_self,
    UInt8.xor_zero]

def xorPerm (t : Block) : Equiv.Perm Block where
  toFun a := xorVector a t
  invFun a := xorVector a t
  left_inv a := xorVector_cancel a t
  right_inv a := xorVector_cancel a t

/-- The product with `α`: one shift of the 128 bits, the first byte being the lowest, and `x ^ 128` is
`x ^ 7 + x ^ 2 + x + 1`. -/
def mulAlpha (t : Block) : Block :=
  Vector.ofFn fun i : Fin 16 =>
    if i.val = 0 then t[0] <<< 1 ^^^ (if t[15] < 0x80 then 0 else 0x87) else t[i.val] <<< 1 ^^^ t[i.val - 1] >>> 7

/-- What the standard does to block `j` of a sector: the tweak is added before and after the cipher. -/
def xtsBlock (main tweakCipher : Equiv.Perm Block) (iv : Block) (j : ℕ) : Equiv.Perm Block :=
  xorPerm (mulAlpha^[j] (tweakCipher iv)) * main * xorPerm (mulAlpha^[j] (tweakCipher iv))

def xtsSector (main tweakCipher : Equiv.Perm Block) (iv : Block) : Equiv.Perm Sector :=
  blocksPerm fun j => xtsBlock main tweakCipher iv j

/-- `xts-mode` follows IEEE 1619. -/
def Primitives.StandardXts (P : Primitives) : Prop :=
  ∀ main tweakCipher, (P.xts main tweakCipher).sector = xtsSector main tweakCipher

end Standard

section Engines

variable {P : Primitives} {spec : CipherSpec} {key : Bytes} {engine : SectorEngine}

/-- The instances of `Xts128` that `new` makes: two ciphers under the two halves of the key. -/
def XtsVariant.Over (P : Primitives) (main tweakCipher : Equiv.Perm Block) (variant : XtsVariant) : Prop :=
  variant = .aes128 (P.xts main tweakCipher) ∨ variant = .aes192 (P.xts main tweakCipher) ∨
    variant = .aes256 (P.xts main tweakCipher)

lemma new_xts (hmode : spec.mode = .xtsPlain64) (h : SectorEngine.new P spec key = .ok (.ok engine)) :
    ∃ variant main tweakCipher, engine = .xts variant ∧ variant.Over P main tweakCipher := by
  obtain ⟨mode, bits⟩ := spec
  obtain rfl : mode = .xtsPlain64 := hmode
  rw [SectorEngine.new] at h
  split at h
  · cases h
  · refine Yields.of_ok (E := fun _ => True) (Q := fun result => ∀ engine, result = .ok engine →
      ∃ variant main tweakCipher, engine = .xts variant ∧ variant.Over P main tweakCipher) ?_ h engine rfl
    cases bits with
    | bits128 =>
      refine (Yields.any _).bind fun main _ => (Yields.any _).bind fun tweakCipher _ => ?_
      rintro engine ⟨⟩
      exact ⟨_, _, _, rfl, Or.inl rfl⟩
    | bits192 =>
      refine (Yields.any _).bind fun main _ => (Yields.any _).bind fun tweakCipher _ => ?_
      rintro engine ⟨⟩
      exact ⟨_, _, _, rfl, Or.inr (Or.inl rfl)⟩
    | bits256 =>
      refine (Yields.any _).bind fun main _ => (Yields.any _).bind fun tweakCipher _ => ?_
      rintro engine ⟨⟩
      exact ⟨_, _, _, rfl, Or.inr (Or.inr rfl)⟩

/-- The permutation of block `j` of the sector with this number. -/
def enginePerm (main tweakCipher : Equiv.Perm Block) (encrypt : Bool) (sector j : ℕ) : Equiv.Perm Block :=
  if encrypt then xtsBlock main tweakCipher (SectorEngine.sectorIv sector) j
  else (xtsBlock main tweakCipher (SectorEngine.sectorIv sector) j).symm

variable {encrypt : Bool} {first s j : ℕ} {buf out : Bytes}

lemma cryptRange_whole (h : engine.cryptRange encrypt first buf = .ok out) : sectorSize ∣ buf.length := by
  by_contra hpart
  have hmod : buf.length % sectorSize ≠ 0 := fun h0 => hpart (Nat.dvd_of_mod_eq_zero h0)
  cases encrypt with
  | true =>
    rw [SectorEngine.cryptRange, if_pos rfl, SectorEngine.encryptRange.eq_def, if_pos hmod] at h
    cases h
  | false =>
    rw [SectorEngine.cryptRange, if_neg Bool.false_ne_true, SectorEngine.decryptRange.eq_def, if_pos hmod] at h
    cases h

/-- What becomes of block `j` of a sector, in each direction. -/
def ActsOnBlocks (engine : SectorEngine) (main tweakCipher : Equiv.Perm Block) : Prop :=
  ∀ (encrypt : Bool) (sector : ℕ) (buf : Bytes) (j : ℕ), buf.length = sectorSize → j < 32 →
    window (engine.sectorCipher encrypt (SectorEngine.sectorIv sector) buf) (j * 16) 16 =
      onBlock (enginePerm main tweakCipher encrypt sector j) (window buf (j * 16) 16)

lemma block_fits (hj : j < 32) : j * 16 + 16 ≤ sectorSize := by
  rw [show sectorSize = 512 from rfl]
  omega

lemma actsOnBlocks (hP : P.StandardXts) (hmode : spec.mode = .xtsPlain64)
    (h : SectorEngine.new P spec key = .ok (.ok engine)) :
    ∃ main tweakCipher, ActsOnBlocks engine main tweakCipher := by
  obtain ⟨variant, main, tweakCipher, rfl, hover⟩ := new_xts hmode h
  refine ⟨main, tweakCipher, ?_⟩
  intro encrypt sector buf j hbuf hj
  obtain ⟨v, rfl⟩ := exists_vector hbuf
  have hsector : SectorEngine.sectorCipher (.xts variant) encrypt (SectorEngine.sectorIv sector) v.toList =
      (blocksPerm (fun j => enginePerm main tweakCipher encrypt sector j) v).toList := by
    rcases hover with rfl | rfl | rfl <;>
      (rw [SectorEngine.sectorCipher, onBlock_toList, hP]; cases encrypt <;> rfl)
  rw [hsector, blocksPerm_window _ _ (by decide) (block_fits hj)]

lemma ActsOnBlocks.cryptRange {main tweakCipher : Equiv.Perm Block} (h : ActsOnBlocks engine main tweakCipher)
    (hout : engine.cryptRange encrypt first buf = .ok out) (hs : s < buf.length / sectorSize) (hj : j < 32) :
    cipherBlock out s j = onBlock (enginePerm main tweakCipher encrypt (first + s) j) (cipherBlock buf s j) := by
  rw [engine.cryptRange_eq encrypt first (cryptRange_whole hout), Except.ok.injEq] at hout
  have hsector : s * sectorSize + sectorSize ≤ buf.length := by
    rw [← Nat.succ_mul]
    exact (Nat.mul_le_mul_right _ hs).trans (Nat.div_mul_le_self _ _)
  rw [cipherBlock, cipherBlock, ← window_window _ _ sectorSize _ _ (block_fits hj), ← hout,
    engine.cryptSectors_sector encrypt first s hsector, h encrypt (first + s) _ _ (window_length_of_le hsector) hj,
    window_window _ _ _ _ _ (block_fits hj)]

end Engines

/-- Two buffers that one key has enciphered, or two that it has deciphered, agree in a block of a sector exactly where
the buffers they come from do, whatever stands in the other blocks. -/
theorem xts_block_iff (P : Primitives) (hP : P.StandardXts) {spec : CipherSpec} (hmode : spec.mode = .xtsPlain64)
    {key : Bytes} {engine : SectorEngine} (hnew : SectorEngine.new P spec key = .ok (.ok engine)) (encrypt : Bool)
    {first first' : ℕ} {buf buf' out out' : Bytes} (hout : engine.cryptRange encrypt first buf = .ok out)
    (hout' : engine.cryptRange encrypt first' buf' = .ok out') {s s' j : ℕ} (hs : s < buf.length / sectorSize)
    (hs' : s' < buf'.length / sectorSize) (hsector : first + s = first' + s') (hj : j < 32) :
    cipherBlock out s j = cipherBlock out' s' j ↔ cipherBlock buf s j = cipherBlock buf' s' j := by
  obtain ⟨main, tweakCipher, hacts⟩ := actsOnBlocks hP hmode hnew
  rw [hacts.cryptRange hout hs hj, hacts.cryptRange hout' hs' hj, hsector]
  exact onBlock_injective (cipherBlock_length hs hj) (cipherBlock_length hs' hj)

section Sample

def zeroBlock : Block := Vector.replicate 16 0

def oneBlock : Block := zeroBlock.set 15 1

/-- AES-128 of `zeroBlock` and of `oneBlock` under the zero key. -/
def zeroCiphertext : Block := #v[102, 233, 75, 212, 239, 138, 44, 59, 136, 76, 250, 89, 202, 52, 43, 46]

def oneCiphertext : Block := #v[88, 226, 252, 206, 250, 126, 48, 97, 54, 127, 29, 87, 164, 231, 69, 90]

def zeroKeyCipher : Equiv.Perm Block := Equiv.swap zeroBlock zeroCiphertext * Equiv.swap oneBlock oneCiphertext

def standardPrimitives : Primitives :=
  { samplePrimitives with
    aes128 := fun _ => zeroKeyCipher
    xts := fun main tweakCipher => Xts128.ofSector (xtsSector main tweakCipher) }

/-- The sector of which each block is its own tweak in sector 0. -/
def tweakSector : Bytes := (List.range 32).flatMap fun j => (mulAlpha^[j] zeroCiphertext).toList

def otherTweakSector : Bytes := tweakSector.set 15 (tweakSector[15]! ^^^ 1)

/-- Two plaintexts that differ in their first block. -/
theorem xts_block_iff_first :
    ∃ engine out out', SectorEngine.new standardPrimitives ⟨.xtsPlain64, .bits128⟩ (List.replicate 32 0) =
        .ok (.ok engine) ∧
      engine.cryptRange true 0 tweakSector = .ok out ∧ engine.cryptRange true 0 otherTweakSector = .ok out' ∧
      cipherBlock out 0 0 ≠ cipherBlock out' 0 0 ∧ ∀ j < 32, j ≠ 0 → cipherBlock out 0 j = cipherBlock out' 0 j := by
  have hsupported : (⟨.xtsPlain64, .bits128⟩ : CipherSpec).Supported := by
    rintro ⟨⟩
  obtain ⟨engine, hnew⟩ := SectorEngine.new_ok standardPrimitives hsupported
    (show (List.replicate 32 (0 : UInt8)).length = 32 by decide)
  have hlen : tweakSector.length = 512 := by decide +kernel
  have hlen' : otherTweakSector.length = 512 := by decide +kernel
  have hout := engine.cryptRange_eq true 0 (show sectorSize ∣ tweakSector.length by rw [hlen]; exact dvd_refl _)
  have hout' := engine.cryptRange_eq true 0 (show sectorSize ∣ otherTweakSector.length by rw [hlen']; exact dvd_refl _)
  have hiff : ∀ j < 32, cipherBlock (engine.cryptSectors true 0 tweakSector) 0 j =
      cipherBlock (engine.cryptSectors true 0 otherTweakSector) 0 j ↔
        cipherBlock tweakSector 0 j = cipherBlock otherTweakSector 0 j := fun j hj =>
    xts_block_iff standardPrimitives (fun _ _ => rfl) rfl hnew true hout hout' (by rw [hlen]; decide)
      (by rw [hlen']; decide) rfl hj
  refine ⟨engine, _, _, hnew, hout, hout', ?_, ?_⟩
  · rw [ne_eq, hiff 0 (by decide)]
    decide +kernel
  · have hblocks : ∀ j < 32, j ≠ 0 → cipherBlock tweakSector 0 j = cipherBlock otherTweakSector 0 j := by
      decide +kernel
    exact fun j hj hne => (hiff j hj).mpr (hblocks j hj hne)

end Sample

end NocapCrypt.Core
