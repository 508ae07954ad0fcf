import NocapCrypt.Core.EngineLaws

/-! What `encrypt_range` and `decrypt_range` compute on whole sectors, against the CBC-ESSIV equations. -/

namespace NocapCrypt.Core

open NocapCrypt.Library.Image NocapCrypt.Library.Blockwise

/-- The parts of a buffer, each processed from its own first sector, are the parts of the processed buffer. -/
def ActsSectorwise (crypt : ℕ → Bytes → Except Panic Bytes) (first : ℕ) (buf : Bytes) : Prop :=
  (∀ a b, buf = a ++ b → sectorSize ∣ a.length →
    ∃ x y, crypt first a = .ok x ∧ crypt (first + a.length / sectorSize) b = .ok y ∧
      crypt first buf = .ok (x ++ y)) ∧
  ∀ s k, (s + k) * sectorSize ≤ buf.length →
    ∃ out, crypt first buf = .ok out ∧
      crypt (first + s) (window buf (s * sectorSize) (k * sectorSize)) =
        .ok (window out (s * sectorSize) (k * sectorSize))

def cipherBlock (buf : Bytes) (s j : ℕ) : Bytes := window buf (s * sectorSize + j * 16) 16

lemma cipherBlock_length {buf : Bytes} {s j : ℕ} (hs : s < buf.length / sectorSize) (hj : j < 32) :
    (cipherBlock buf s j).length = 16 := by
  have hsector : (s + 1) * sectorSize ≤ buf.length :=
    (Nat.mul_le_mul_right _ hs).trans (Nat.div_mul_le_self _ _)
  apply window_length_of_le
  rw [Nat.succ_mul, show sectorSize = 512 from rfl] at hsector
  rw [show sectorSize = 512 from rfl]
  omega

def previousBlock (iv buf : Bytes) (s : ℕ) : ℕ → Bytes
  | 0 => iv
  | j + 1 => cipherBlock buf s j

def le64 (n : ℕ) : Bytes := (List.range 8).map fun i => UInt8.ofNat (n / 256 ^ i)

/-- The ESSIV of a sector: its number in little endian, padded to a block and enciphered. -/
def essivOf (essiv : Equiv.Perm Block) (n : ℕ) : Bytes := onBlock essiv (le64 n ++ List.replicate 8 0)

/-- CBC within each sector, from the ESSIV of the sector's absolute number on. -/
def CbcEssivOf (main essiv : Equiv.Perm Block) (first : ℕ) (plain cipher : Bytes) : Prop :=
  ∀ s j, s < plain.length / sectorSize → j < 32 →
    cipherBlock cipher s j =
      onBlock main (xorBlock (cipherBlock plain s j) (previousBlock (essivOf essiv (first + s)) cipher s j))

lemma plain64Iv_toList (n : ℕ) : (plain64Iv n).toList = le64 n ++ List.replicate 8 0 := by
  apply List.ext_getElem
  · simp [le64]
  · intro i hi hj
    have hb : ∀ m : ℕ, UInt8.ofNat (m % 256) = UInt8.ofNat m := by
      intro m
      apply UInt8.toNat_inj.mp
      simp
    simp only [Vector.getElem_toList, plain64Iv, Vector.getElem_ofFn, hb, le64, List.getElem_append,
      List.length_map, List.length_range, List.getElem_map, List.getElem_range, List.getElem_replicate]
    split <;> rfl

lemma essivOf_eq (essiv : Equiv.Perm Block) (n : ℕ) : essivOf essiv n = (essiv (plain64Iv n)).toList := by
  rw [essivOf, ← plain64Iv_toList, onBlock_toList]

section Chaining

variable (cipher : Equiv.Perm Block)

/-- Each output block enciphers its input block mixed with the output block before it. -/
lemma cbcEncryptLoop_block (blocks : ℕ) (prev buf : Bytes) (hp : prev.length = 16)
    (h : blocks * 16 ≤ buf.length) {j : ℕ} (hj : j < blocks) :
    window (cbcEncryptLoop cipher blocks prev buf) (j * 16) 16 =
      onBlock cipher (xorBlock (window buf (j * 16) 16)
        (window (prev ++ cbcEncryptLoop cipher blocks prev buf) (j * 16) 16)) := by
  induction blocks generalizing prev buf j with
  | zero => cases hj
  | succ blocks ih =>
    have ht : (buf.take 16).length = 16 := by simp; omega
    have hb : (onBlock cipher (xorBlock (buf.take 16) prev)).length = 16 := by simp [ht, hp]
    have hstep : cbcEncryptLoop cipher (blocks + 1) prev buf =
        onBlock cipher (xorBlock (buf.take 16) prev) ++
          cbcEncryptLoop cipher blocks (onBlock cipher (xorBlock (buf.take 16) prev)) (buf.drop 16) := rfl
    rw [hstep]
    cases j with
    | zero => rw [Nat.zero_mul, window_append_left hb, window_append_left hp, window, List.drop_zero]
    | succ j =>
      rw [Nat.add_mul, Nat.one_mul, Nat.add_comm, window_append_right hb, window_append_right hp, ← window_drop]
      exact ih _ _ hb (by simp; omega) (Nat.lt_of_succ_lt_succ hj)

lemma cbcEncryptBlocks_block (iv : Block) {sector : Bytes} {j : ℕ} (hj : j < sector.length / 16) :
    window (cbcEncryptBlocks cipher iv sector) (j * 16) 16 =
      onBlock cipher (xorBlock (window sector (j * 16) 16)
        (window (iv.toList ++ cbcEncryptBlocks cipher iv sector) (j * 16) 16)) :=
  cbcEncryptLoop_block cipher _ _ _ (by simp) (Nat.div_mul_le_self _ _) hj

end Chaining

namespace SectorEngine

variable (engine : SectorEngine)

lemma cryptSectors_append (encrypt : Bool) (first : ℕ) {a : Bytes} (b : Bytes) (ha : sectorSize ∣ a.length) :
    engine.cryptSectors encrypt first (a ++ b) =
      engine.cryptSectors encrypt first a ++ engine.cryptSectors encrypt (first + a.length / sectorSize) b :=
  mapBlocks_append sectorSize_pos _ _ _ _ ha

lemma cryptSectors_cbcEssiv (main essiv : Equiv.Perm Block) (first : ℕ) {buf : Bytes}
    (hfit : first + buf.length / sectorSize ≤ u64Size) :
    CbcEssivOf main essiv first buf (cryptSectors (.cbcEssiv (.aes256 main essiv)) true first buf) := by
  intro s j hs hj
  have hsector : s * sectorSize + sectorSize ≤ buf.length := by
    rw [← Nat.succ_mul]
    exact (Nat.mul_le_mul_right _ hs).trans (Nat.div_mul_le_self _ _)
  have hin : j * 16 + 16 ≤ sectorSize := by
    rw [show sectorSize = 512 from rfl]
    omega
  have hblock : ∀ xs : Bytes, cipherBlock xs s j = window (window xs (s * sectorSize) sectorSize) (j * 16) 16 := by
    intro xs
    rw [window_window _ _ _ _ _ hin, cipherBlock]
  have hlen : (window buf (s * sectorSize) sectorSize).length = sectorSize := window_length_of_le hsector
  have hout := cryptSectors_sector (.cbcEssiv (.aes256 main essiv)) true first s hsector
  rw [sectorIv_eq (by omega)] at hout
  change _ = cbcEncryptBlocks main (essiv (plain64Iv (first + s))) _ at hout
  have hiv : (essiv (plain64Iv (first + s))).toList.length = 16 := by simp
  have hchain := cbcEncryptBlocks_block main (essiv (plain64Iv (first + s))) 
    (show j < (window buf (s * sectorSize) sectorSize).length / 16 by rw [hlen]; exact hj)
  rw [← hout, ← hblock, ← hblock] at hchain
  rw [hchain]
  congr 2
  cases j with
  | zero => rw [Nat.zero_mul, window_append_left hiv, previousBlock, essivOf_eq]
  | succ j =>
    rw [Nat.add_mul, Nat.one_mul, Nat.add_comm (j * 16), window_append_right hiv, previousBlock, cipherBlock,
      window_window _ _ _ _ _ (by omega)]

lemma actsSectorwise (encrypt : Bool) (first : ℕ) {buf : Bytes} (h : sectorSize ∣ buf.length) :
    ActsSectorwise (engine.cryptRange encrypt) first buf := by
  constructor
  · rintro a b rfl ha
    rw [List.length_append] at h
    have hb : sectorSize ∣ b.length := (Nat.dvd_add_right ha).mp h
    refine ⟨_, _, engine.cryptRange_eq encrypt first ha, engine.cryptRange_eq encrypt _ hb, ?_⟩
    rw [engine.cryptRange_eq encrypt first (by rw [List.length_append]; exact h), engine.cryptSectors_append _ _ _ ha]
  · intro s k hsk
    rw [Nat.add_mul] at hsk
    have hk : sectorSize ∣ (window buf (s * sectorSize) (k * sectorSize)).length := by
      rw [window_length_of_le hsk]
      exact Nat.dvd_mul_left _ _
    refine ⟨_, engine.cryptRange_eq encrypt first h, ?_⟩
    rw [engine.cryptRange_eq encrypt _ hk, engine.cryptSectors_window encrypt first _ _ buf (Nat.dvd_mul_left _ _)
      (Nat.dvd_mul_left _ _) hsk, Nat.mul_div_cancel _ sectorSize_pos]

lemma cryptRange_inverse (encrypt : Bool) (first : ℕ) {buf : Bytes} (h : sectorSize ∣ buf.length) :
    (engine.cryptRange encrypt first buf >>= engine.cryptRange (!encrypt) first) = .ok buf := by
  rw [engine.cryptRange_eq encrypt first h]
  change engine.cryptRange (!encrypt) first _ = _
  rw [engine.cryptRange_eq _ first (by rwa [engine.cryptSectors_length]), engine.cryptSectors_inverse]

end SectorEngine

lemma tryInto_eq {n : ℕ} {message : String} {key : Bytes} {v : Vector UInt8 n} (h : tryInto n message key = .ok v) :
    v.toList = key := by
  rw [tryInto] at h
  split at h
  · cases h
    simp
  · cases h

lemma new_cbcEssiv {P : Primitives} {bits : AesKeyBits} {key : Bytes} {engine : SectorEngine}
    (h : SectorEngine.new P ⟨.cbcEssivSha256, bits⟩ key = .ok (.ok engine)) :
    ∃ k : Vector UInt8 32, k.toList = key ∧
      engine = .cbcEssiv (.aes256 (P.aes256 k) (P.aes256 (P.sha256 key))) := by
  rw [SectorEngine.new] at h
  split at h
  · cases h
  · cases bits with
    | bits128 => cases h
    | bits192 => cases h
    | bits256 =>
      obtain ⟨main, hmain⟩ := tryInto_ok "key length validated above" (not_not.mp ‹_›)
      obtain ⟨digest, hdigest⟩ := tryInto_ok "SHA-256 digest is always 32 bytes"
        (show (P.sha256 key).toList.length = 32 by simp)
      have hd : digest = P.sha256 key := Vector.toList_inj.mp (tryInto_eq hdigest)
      subst hd
      simp only [CipherSpec.requiredKeyBytes, AesKeyBits.bytes] at hmain
      simp only [hmain, hdigest] at h
      cases h
      exact ⟨main, tryInto_eq hmain, rfl⟩

theorem range_correct (P : Primitives) {spec : CipherSpec} {key : Bytes} {engine : SectorEngine}
    (hnew : SectorEngine.new P spec key = .ok (.ok engine)) (first : ℕ) {buf : Bytes}
    (hwhole : sectorSize ∣ buf.length) (hfit : first + buf.length / sectorSize ≤ u64Size) :
    ActsSectorwise engine.encryptRange first buf ∧ ActsSectorwise engine.decryptRange first buf ∧
      (engine.encryptRange first buf >>= engine.decryptRange first) = .ok buf ∧
      (engine.decryptRange first buf >>= engine.encryptRange first) = .ok buf ∧
      (spec.mode = .cbcEssivSha256 → ∃ (k : Vector UInt8 32) (out : Bytes), k.toList = key ∧
        engine.encryptRange first buf = .ok out ∧
        CbcEssivOf (P.aes256 k) (P.aes256 (P.sha256 key)) first buf out) := by
  refine ⟨engine.actsSectorwise true first hwhole, engine.actsSectorwise false first hwhole,
    engine.cryptRange_inverse true first hwhole, engine.cryptRange_inverse false first hwhole, ?_⟩
  obtain ⟨mode, bits⟩ := spec
  rintro rfl
  obtain ⟨k, hk, rfl⟩ := new_cbcEssiv hnew
  have hout := SectorEngine.cryptRange_eq (.cbcEssiv (.aes256 (P.aes256 k) (P.aes256 (P.sha256 key)))) true first hwhole
  exact ⟨k, _, hk, hout, SectorEngine.cryptSectors_cbcEssiv _ _ first hfit⟩

theorem range_correct_sample :
    ∃ engine k out, SectorEngine.new samplePrimitives ⟨.cbcEssivSha256, .bits256⟩ sampleKey = .ok (.ok engine) ∧
      k.toList = sampleKey ∧ engine.encryptRange 0 sampleSector = .ok out ∧
      CbcEssivOf (samplePrimitives.aes256 k) (samplePrimitives.aes256 (samplePrimitives.sha256 sampleKey)) 0
        sampleSector out := by
  obtain ⟨engine, hnew⟩ := SectorEngine.new_ok samplePrimitives
    (show (⟨.cbcEssivSha256, .bits256⟩ : CipherSpec).Supported from rfl) (show sampleKey.length = 32 by decide)
  have hlen : sampleSector.length = 512 := by decide +kernel
  have hwhole : sectorSize ∣ sampleSector.length := by rw [hlen]; exact dvd_refl _
  have hfit : 0 + sampleSector.length / sectorSize ≤ u64Size := by rw [hlen]; decide
  obtain ⟨-, -, -, -, hcbc⟩ := range_correct samplePrimitives hnew 0 hwhole hfit
  obtain ⟨k, out, hk, hout, hess⟩ := hcbc rfl
  exact ⟨engine, k, out, hnew, hk, hout, hess⟩

end NocapCrypt.Core
