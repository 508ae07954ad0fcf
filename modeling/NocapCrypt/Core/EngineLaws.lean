import NocapCrypt.Core.Engine

/-! The engine acts sector by sector, each sector under the IV of its absolute index, and the two
directions are mutually inverse. -/

namespace NocapCrypt.Core

open NocapCrypt.Library.Image NocapCrypt.Library.Blockwise

lemma sectorSize_pos : 0 < sectorSize := by decide

@[simp] lemma xorBlock_length (block prev : Bytes) :
    (xorBlock block prev).length = min block.length prev.length := by simp [xorBlock]

lemma xorBlock_cancel {block prev : Bytes} (h : block.length = prev.length) :
    xorBlock (xorBlock block prev) prev = block := by
  apply List.ext_getElem
  · simp [h]
  · intro i hi hj
    simp [xorBlock]

section Chaining

variable (cipher : Equiv.Perm Block)

lemma cbcEncryptLoop_length (blocks : ℕ) (prev buf : Bytes) (hp : prev.length = 16)
    (h : blocks * 16 ≤ buf.length) : (cbcEncryptLoop cipher blocks prev buf).length = buf.length := by
  induction blocks generalizing prev buf with
  | zero => rfl
  | succ blocks ih =>
    have hb : (onBlock cipher (xorBlock (buf.take 16) prev)).length = 16 := by simp; omega
    rw [cbcEncryptLoop, List.length_append, hb, ih _ _ hb (by simp; omega), List.length_drop]
    omega

lemma cbcDecryptLoop_length (blocks : ℕ) (prev buf : Bytes) (hp : prev.length = 16)
    (h : blocks * 16 ≤ buf.length) : (cbcDecryptLoop cipher blocks prev buf).length = buf.length := by
  induction blocks generalizing prev buf with
  | zero => rfl
  | succ blocks ih =>
    have ht : (buf.take 16).length = 16 := by simp; omega
    rw [cbcDecryptLoop, List.length_append, ih _ _ ht (by simp; omega), List.length_drop,
      xorBlock_length, onBlock_length, ht, hp]
    omega

lemma cbcDecryptLoop_encryptLoop (blocks : ℕ) (prev buf : Bytes) (hp : prev.length = 16)
    (h : blocks * 16 ≤ buf.length) :
    cbcDecryptLoop cipher blocks prev (cbcEncryptLoop cipher blocks prev buf) = buf := by
  induction blocks generalizing prev buf with
  | zero => rfl
  | succ blocks ih =>
    have ht : (buf.take 16).length = 16 := by simp; omega
    have hx : (xorBlock (buf.take 16) prev).length = 16 := by rw [xorBlock_length, ht, hp]; rfl
    have hb : (onBlock cipher (xorBlock (buf.take 16) prev)).length = 16 := by rw [onBlock_length, hx]
    rw [cbcEncryptLoop, cbcDecryptLoop, List.take_left' hb, List.drop_left' hb,
      onBlock_inverse cipher.symm_apply_apply hx, xorBlock_cancel (ht.trans hp.symm),
      ih _ _ hb (by simp; omega), List.take_append_drop]

lemma cbcEncryptLoop_decryptLoop (blocks : ℕ) (prev buf : Bytes) (hp : prev.length = 16)
    (h : blocks * 16 ≤ buf.length) :
    cbcEncryptLoop cipher blocks prev (cbcDecryptLoop cipher blocks prev buf) = buf := by
  induction blocks generalizing prev buf with
  | zero => rfl
  | succ blocks ih =>
    have ht : (buf.take 16).length = 16 := by simp; omega
    have hd : (onBlock cipher.symm (buf.take 16)).length = prev.length := by rw [onBlock_length, ht, hp]
    have hx : (xorBlock (onBlock cipher.symm (buf.take 16)) prev).length = 16 := by
      rw [xorBlock_length, hd, hp]; rfl
    rw [cbcDecryptLoop, cbcEncryptLoop, List.take_left' hx, List.drop_left' hx, xorBlock_cancel hd,
      onBlock_inverse cipher.apply_symm_apply ht, ih _ _ ht (by simp; omega), List.take_append_drop]

variable (iv : Block) {sector : Bytes}

lemma cbcEncryptBlocks_length : (cbcEncryptBlocks cipher iv sector).length = sector.length :=
  cbcEncryptLoop_length cipher _ _ _ (by simp) (Nat.div_mul_le_self _ _)

lemma cbcDecryptBlocks_length : (cbcDecryptBlocks cipher iv sector).length = sector.length :=
  cbcDecryptLoop_length cipher _ _ _ (by simp) (Nat.div_mul_le_self _ _)

lemma cbcDecryptBlocks_encryptBlocks : cbcDecryptBlocks cipher iv (cbcEncryptBlocks cipher iv sector) = sector := by
  rw [cbcDecryptBlocks, cbcEncryptBlocks_length]
  exact cbcDecryptLoop_encryptLoop cipher _ _ _ (by simp) (Nat.div_mul_le_self _ _)

lemma cbcEncryptBlocks_decryptBlocks : cbcEncryptBlocks cipher iv (cbcDecryptBlocks cipher iv sector) = sector := by
  rw [cbcEncryptBlocks, cbcDecryptBlocks_length]
  exact cbcEncryptLoop_decryptLoop cipher _ _ _ (by simp) (Nat.div_mul_le_self _ _)

end Chaining

namespace SectorEngine

def sectorCipher : SectorEngine → Bool → Block → Bytes → Bytes
  | .xts (.aes128 x), encrypt, iv | .xts (.aes192 x), encrypt, iv | .xts (.aes256 x), encrypt, iv =>
    onBlock (if encrypt then x.sector iv else (x.sector iv).symm)
  | .cbcEssiv (.aes256 main essiv), encrypt, iv =>
    if encrypt then cbcEncryptBlocks main (essiv iv) else cbcDecryptBlocks main (essiv iv)

def sectorIv (k : ℕ) : Block := plain64Iv (k % u64Size)

/-- The reference transformation of a buffer of whole sectors that starts at sector `first`. -/
def cryptSectors (engine : SectorEngine) (encrypt : Bool) (first : ℕ) (buf : Bytes) : Bytes :=
  mapBlocks sectorSize (fun k => engine.sectorCipher encrypt (sectorIv k)) first buf

variable (engine : SectorEngine)

lemma sectorCipher_length (encrypt : Bool) (iv : Block) (sector : Bytes) :
    (engine.sectorCipher encrypt iv sector).length = sector.length := by
  rcases engine with (x | x | x) | ⟨main, essiv⟩ <;> cases encrypt <;>
    simp [sectorCipher, cbcEncryptBlocks_length, cbcDecryptBlocks_length]

lemma sectorCipher_keepsLength (encrypt : Bool) :
    KeepsLength sectorSize fun k => engine.sectorCipher encrypt (sectorIv k) :=
  fun _ _ h => (engine.sectorCipher_length encrypt _ _).trans h

lemma sectorCipher_inverse (encrypt : Bool) (iv : Block) {sector : Bytes} (h : sector.length = sectorSize) :
    engine.sectorCipher (!encrypt) iv (engine.sectorCipher encrypt iv sector) = sector := by
  rcases engine with (x | x | x) | ⟨main, essiv⟩ <;> cases encrypt <;>
    simp only [sectorCipher, Bool.not_true, Bool.not_false, if_true, Bool.false_eq_true, if_false]
  any_goals exact onBlock_inverse (Equiv.apply_symm_apply _) h
  · exact cbcEncryptBlocks_decryptBlocks main _
  · exact cbcDecryptBlocks_encryptBlocks main _

@[simp] lemma cryptSectors_length (encrypt : Bool) (first : ℕ) (buf : Bytes) :
    (engine.cryptSectors encrypt first buf).length = buf.length :=
  mapBlocks_length (engine.sectorCipher_keepsLength encrypt) _ _

lemma cryptSectors_inverse (encrypt : Bool) (first : ℕ) (buf : Bytes) :
    engine.cryptSectors (!encrypt) first (engine.cryptSectors encrypt first buf) = buf :=
  mapBlocks_inverse (engine.sectorCipher_keepsLength encrypt)
    (fun _ _ h => engine.sectorCipher_inverse encrypt _ h) _ _

lemma cryptSectors_window (encrypt : Bool) (first off len : ℕ) (buf : Bytes) (ho : sectorSize ∣ off)
    (hl : sectorSize ∣ len) (h : off + len ≤ buf.length) :
    window (engine.cryptSectors encrypt first buf) off len =
      engine.cryptSectors encrypt (first + off / sectorSize) (window buf off len) :=
  mapBlocks_window sectorSize_pos (engine.sectorCipher_keepsLength encrypt) _ _ _ _ ho hl h

lemma cryptSectors_sector (encrypt : Bool) (first s : ℕ) {buf : Bytes}
    (h : s * sectorSize + sectorSize ≤ buf.length) :
    window (engine.cryptSectors encrypt first buf) (s * sectorSize) sectorSize =
      engine.sectorCipher encrypt (sectorIv (first + s)) (window buf (s * sectorSize) sectorSize) := by
  rw [engine.cryptSectors_window encrypt first _ _ buf (Nat.dvd_mul_left _ _) (dvd_refl _) h,
    Nat.mul_div_cancel _ sectorSize_pos, cryptSectors,
    mapBlocks_single sectorSize_pos _ _ _ (window_length_of_le h)]

lemma sectorIv_eq {k : ℕ} (hk : k < u64Size) : sectorIv k = plain64Iv k := by
  rw [sectorIv, Nat.mod_eq_of_lt hk]

lemma cryptSectors_take (encrypt : Bool) {len : ℕ} {buf : Bytes} (hd : sectorSize ∣ len) (h : len ≤ buf.length) :
    (engine.cryptSectors encrypt 0 buf).take len = engine.cryptSectors encrypt 0 (buf.take len) := by
  have hw := engine.cryptSectors_window encrypt 0 0 len buf (dvd_zero _) hd (by omega)
  simpa only [window, List.drop_zero, Nat.zero_add, Nat.zero_div] using hw

lemma cbcEssivCryptRange_eq (variant : CbcEssivVariant) (first : ℕ) (buf : Bytes) (encrypt : Bool) :
    cbcEssivCryptRange variant first buf encrypt = cryptSectors (.cbcEssiv variant) encrypt first buf := by
  obtain ⟨main, essiv⟩ := variant
  let f : ℕ → Bytes → Bytes := fun k => sectorCipher (.cbcEssiv (.aes256 main essiv)) encrypt (sectorIv k)
  have hf : KeepsLength sectorSize fun s => f (first + s) :=
    fun _ _ h => (sectorCipher_length _ encrypt _ _).trans h
  have hs : (fun s sectorBuf => if encrypt then
        cbcEncryptBlocks main (essiv (plain64Iv ((first + s) % u64Size))) sectorBuf
      else cbcDecryptBlocks main (essiv (plain64Iv ((first + s) % u64Size))) sectorBuf) =
      fun s => f (first + s) := by
    funext s sectorBuf
    cases encrypt <;> rfl
  rw [cbcEssivCryptRange]
  change rewriteBlocks sectorSize _ _ _ = _
  rw [hs, rewriteBlocks_eq sectorSize_pos hf _ _ (Nat.div_mul_le_self _ _), mapCount_shift, Nat.add_zero]
  rfl

/-- `encrypt_range` or `decrypt_range`, as the dispatcher's `encrypt` flag selects. -/
def cryptRange (encrypt : Bool) (firstSector : ℕ) (buf : Bytes) : Except Panic Bytes :=
  if encrypt then engine.encryptRange firstSector buf else engine.decryptRange firstSector buf

theorem cryptRange_eq (encrypt : Bool) (first : ℕ) {buf : Bytes} (h : sectorSize ∣ buf.length) :
    engine.cryptRange encrypt first buf = .ok (engine.cryptSectors encrypt first buf) := by
  have hm : ¬ buf.length % sectorSize ≠ 0 := not_not.mpr (Nat.mod_eq_zero_of_dvd h)
  rcases engine with (x | x | x) | variant <;> cases encrypt <;>
    simp only [cryptRange, encryptRange, decryptRange, if_neg hm, Bool.false_eq_true, if_true, if_false,
      Xts128.encryptArea_eq _ _ _ _ h, Xts128.decryptArea_eq _ _ _ _ h, cbcEssivCryptRange_eq] <;> rfl

lemma encryptRange_length (first : ℕ) {buf out : Bytes} (hd : sectorSize ∣ buf.length)
    (h : engine.encryptRange first buf = .ok out) : out.length = buf.length := by
  have he : engine.encryptRange first buf = .ok (engine.cryptSectors true first buf) :=
    engine.cryptRange_eq true first hd
  rw [he] at h
  cases h
  exact engine.cryptSectors_length true first buf

end SectorEngine

lemma tryInto_ok {n : ℕ} {key : Bytes} (message : String) (h : key.length = n) :
    ∃ v, tryInto n message key = .ok v := by
  rw [tryInto]
  rw [dif_pos h]
  exact ⟨_, rfl⟩

theorem SectorEngine.new_ok (P : Primitives) {spec : CipherSpec} {key : Bytes} (hs : spec.Supported)
    (hk : key.length = spec.requiredKeyBytes) : ∃ engine, SectorEngine.new P spec key = .ok (.ok engine) := by
  obtain ⟨mode, bits⟩ := spec
  rw [SectorEngine.new]
  rw [if_neg (not_not.mpr hk)]
  cases mode with
  | xtsPlain64 =>
    have hhalf : (key.take (key.length / 2)).length = bits.bytes ∧
        (key.drop (key.length / 2)).length = bits.bytes := by
      simp only [CipherSpec.requiredKeyBytes] at hk
      simp only [List.length_take, List.length_drop]
      omega
    cases bits with
    | bits128 =>
      obtain ⟨a, ha⟩ := tryInto_ok "key half length validated above" hhalf.1
      obtain ⟨b, hb⟩ := tryInto_ok "key half length validated above" hhalf.2
      simp only [AesKeyBits.bytes] at ha hb
      exact ⟨_, by simp only [ha, hb]; rfl⟩
    | bits192 => exact (hs rfl).elim
    | bits256 =>
      obtain ⟨a, ha⟩ := tryInto_ok "key half length validated above" hhalf.1
      obtain ⟨b, hb⟩ := tryInto_ok "key half length validated above" hhalf.2
      simp only [AesKeyBits.bytes] at ha hb
      exact ⟨_, by simp only [ha, hb]; rfl⟩
  | cbcEssivSha256 =>
    simp only [CipherSpec.Supported] at hs
    subst hs
    obtain ⟨a, ha⟩ := tryInto_ok "key length validated above" hk
    have hd : (P.sha256 key).toList.length = 32 := by simp
    obtain ⟨b, hb⟩ := tryInto_ok "SHA-256 digest is always 32 bytes" hd
    simp only [CipherSpec.requiredKeyBytes, AesKeyBits.bytes] at ha
    exact ⟨_, by simp only [ha, hb]; rfl⟩

lemma SectorEngine.new_total (P : Primitives) {spec : CipherSpec} (hs : spec.Supported) (key : Bytes) :
    ∃ result, SectorEngine.new P spec key = .ok result := by
  by_cases hk : key.length = spec.requiredKeyBytes
  · obtain ⟨engine, he⟩ := SectorEngine.new_ok P hs hk
    exact ⟨_, he⟩
  · rw [SectorEngine.new]
    rw [if_pos hk]
    exact ⟨_, rfl⟩

lemma SectorEngine.new_ok_iff (P : Primitives) {spec : CipherSpec} (hs : spec.Supported) (key : Bytes) :
    (∃ engine, SectorEngine.new P spec key = .ok (.ok engine)) ↔ key.length = spec.requiredKeyBytes := by
  constructor
  · rintro ⟨engine, he⟩
    by_contra hk
    rw [SectorEngine.new, if_pos hk] at he
    cases he
  · exact SectorEngine.new_ok P hs

lemma plain64Iv_getElem (n : ℕ) {i : ℕ} (hi : i < 8) :
    (plain64Iv n)[i] = UInt8.ofNat (n / 256 ^ i % 256) := by
  simp [plain64Iv, hi]

lemma plain64Iv_injective {a b : ℕ} (ha : a < u64Size) (hb : b < u64Size) (h : plain64Iv a = plain64Iv b) :
    a = b := by
  have hd : ∀ i < 8, a / 256 ^ i % 256 = b / 256 ^ i % 256 := by
    intro i hi
    have hv := congrArg (fun v : Block => v[i].toNat) h
    simpa only [plain64Iv_getElem _ hi, UInt8.toNat_ofNat', Nat.reducePow, Nat.mod_mod] using hv
  have h0 := hd 0 (by decide)
  have h1 := hd 1 (by decide)
  have h2 := hd 2 (by decide)
  have h3 := hd 3 (by decide)
  have h4 := hd 4 (by decide)
  have h5 := hd 5 (by decide)
  have h6 := hd 6 (by decide)
  have h7 := hd 7 (by decide)
  norm_num [u64Size] at h0 h1 h2 h3 h4 h5 h6 h7 ha hb
  omega

section Sample

def sampleKey : Bytes := (List.range 32).map UInt8.ofNat

/-- AES-256 of the zero block under the SHA-256 digest of `sampleKey`: the ESSIV of sector 0. -/
def sampleIv : Block := #v[167, 61, 95, 176, 228, 4, 16, 144, 202, 109, 193, 184, 32, 205, 175, 81]

/-- The ESSIVs of sectors 1 and 2. -/
def secondIv : Block := #v[89, 160, 128, 63, 68, 139, 223, 109, 61, 61, 230, 63, 234, 204, 213, 138]

def thirdIv : Block := #v[170, 75, 50, 143, 71, 106, 174, 89, 149, 195, 234, 33, 226, 104, 70, 127]

def sampleBlock : Block := #v[207, 78, 46, 195, 230, 4, 16, 144, 202, 109, 193, 184, 32, 205, 175, 81]

/-- AES-256 of `sampleBlock` under `sampleKey`. -/
def sampleCipherBlock : Block := #v[0, 217, 248, 242, 52, 243, 205, 30, 158, 234, 176, 111, 163, 221, 70, 63]

/-- AES-256 of `sampleCipherBlock`: the ciphertext of a block of zeros that is chained to it. -/
def paddingCipherBlock : Block := #v[96, 36, 48, 201, 199, 88, 94, 205, 95, 144, 173, 179, 20, 115, 33, 29]

def samplePreimage : Block := #v[109, 159, 8, 235, 42, 46, 39, 122, 180, 137, 132, 207, 241, 171, 154, 9]

def sampleMain : Equiv.Perm Block :=
  Equiv.swap sampleBlock sampleCipherBlock * Equiv.swap sampleCipherBlock paddingCipherBlock *
    Equiv.swap samplePreimage (Vector.replicate 16 0)

def sampleEssiv : Equiv.Perm Block :=
  Equiv.swap (plain64Iv 0) sampleIv * Equiv.swap (plain64Iv 1) secondIv * Equiv.swap (plain64Iv 2) thirdIv

def samplePrimitives : Primitives where
  aes128 _ := Equiv.refl _
  aes192 _ := Equiv.refl _
  aes256 key := if key.toList = sampleKey then sampleMain else sampleEssiv
  xts _ _ := Xts128.ofSector fun _ => Equiv.refl _
  sha256 _ := #v[99, 13, 205, 41, 102, 196, 51, 102, 145, 18, 84, 72, 187, 178, 91, 79,
    244, 18, 164, 156, 115, 45, 178, 200, 171, 193, 184, 88, 27, 215, 16, 221]

def sampleEngine : SectorEngine := .cbcEssiv (.aes256 sampleMain sampleEssiv)

/-- A plaintext sector, of a squashfs image, that chaining turns into one block thirty-two times. -/
def sampleSector : Bytes :=
  xorBlock sampleBlock.toList sampleIv.toList ++
    (List.replicate 31 (xorBlock sampleBlock.toList sampleCipherBlock.toList)).flatten

def sampleCiphertext : Bytes := (List.replicate 32 sampleCipherBlock.toList).flatten

example : sampleEngine.encryptRange 0 sampleSector = .ok sampleCiphertext := by decide +kernel

end Sample

end NocapCrypt.Core
