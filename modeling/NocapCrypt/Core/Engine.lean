import NocapCrypt.Core.CipherSpec
import NocapCrypt.Library.Blockwise

/-! The sector engine: `crates/nocap-crypt-core/src/{iv,engine,cipher}.rs`. -/

namespace NocapCrypt.Core

open NocapCrypt.Library.Image NocapCrypt.Library.Blockwise

def ivSectorSize : ℕ := 512

def sectorSize : ℕ := ivSectorSize

abbrev Block := Vector UInt8 16

abbrev Sector := Vector UInt8 sectorSize

/-- `Xts128` of the `xts-mode` crate: an area is a sequence of sectors, each enciphered under the tweak
that the callback gives for its absolute index. -/
structure Xts128 where
  sector : Block → Equiv.Perm Sector
  encryptArea : Bytes → ℕ → ℕ → (ℕ → Block) → Bytes
  decryptArea : Bytes → ℕ → ℕ → (ℕ → Block) → Bytes
  encryptArea_eq : ∀ area first tweak, sectorSize ∣ area.length →
    encryptArea area sectorSize first tweak = mapBlocks sectorSize (fun k => onBlock (sector (tweak k))) first area
  decryptArea_eq : ∀ area first tweak, sectorSize ∣ area.length →
    decryptArea area sectorSize first tweak =
      mapBlocks sectorSize (fun k => onBlock (sector (tweak k)).symm) first area

def Xts128.ofSector (sector : Block → Equiv.Perm Sector) : Xts128 where
  sector := sector
  encryptArea area size first tweak := mapBlocks size (fun k => onBlock (sector (tweak k))) first area
  decryptArea area size first tweak := mapBlocks size (fun k => onBlock (sector (tweak k)).symm) first area
  encryptArea_eq _ _ _ _ := rfl
  decryptArea_eq _ _ _ _ := rfl

/-- The third-party ciphers and digest: keyed AES is a permutation of the blocks. -/
structure Primitives where
  aes128 : Vector UInt8 16 → Equiv.Perm Block
  aes192 : Vector UInt8 24 → Equiv.Perm Block
  aes256 : Vector UInt8 32 → Equiv.Perm Block
  xts : Equiv.Perm Block → Equiv.Perm Block → Xts128
  sha256 : Bytes → Vector UInt8 32

/-- Little-endian sector number in the first eight bytes, zeros after it. -/
def plain64Iv (sector512 : ℕ) : Block :=
  Vector.ofFn fun i : Fin 16 => if i.val < 8 then UInt8.ofNat (sector512 / 256 ^ i.val % 256) else 0

/-- `sector_index as u64` keeps the low 64 bits of the `u128` index. -/
def tweakFn (sectorIndex : ℕ) : Block := plain64Iv (sectorIndex % u64Size)

inductive KeyError where
  | wrongLength (expected actual : ℕ)
  deriving DecidableEq, Repr

def KeyError.text : KeyError → String
  | .wrongLength expected actual => s!"expected a {expected}-byte key, got {actual} bytes"

inductive XtsVariant where
  | aes128 (xts : Xts128)
  | aes192 (xts : Xts128)
  | aes256 (xts : Xts128)

inductive CbcEssivVariant where
  | aes256 (main essiv : Equiv.Perm Block)

inductive SectorEngine where
  | xts (variant : XtsVariant)
  | cbcEssiv (variant : CbcEssivVariant)

def tryInto (n : ℕ) (message : String) (key : Bytes) : Except Panic (Vector UInt8 n) :=
  if h : key.length = n then .ok ⟨key.toArray, by simpa using h⟩ else .error (.expect message)

def SectorEngine.new (P : Primitives) (spec : CipherSpec) (key : Bytes) :
    Except Panic (Except KeyError SectorEngine) :=
  let expected := spec.requiredKeyBytes
  if key.length ≠ expected then .ok (.error (.wrongLength expected key.length))
  else match spec.mode with
    | .xtsPlain64 => do
      let half := key.length / 2
      let k1 := key.take half
      let k2 := key.drop half
      let variant ← match spec.aesBits with
        | .bits128 => do
          let a ← tryInto 16 "key half length validated above" k1
          let b ← tryInto 16 "key half length validated above" k2
          pure (XtsVariant.aes128 (P.xts (P.aes128 a) (P.aes128 b)))
        | .bits192 => do
          let a ← tryInto 24 "key half length validated above" k1
          let b ← tryInto 24 "key half length validated above" k2
          pure (XtsVariant.aes192 (P.xts (P.aes192 a) (P.aes192 b)))
        | .bits256 => do
          let a ← tryInto 32 "key half length validated above" k1
          let b ← tryInto 32 "key half length validated above" k2
          pure (XtsVariant.aes256 (P.xts (P.aes256 a) (P.aes256 b)))
      pure (.ok (.xts variant))
    | .cbcEssivSha256 => do
      let digest := P.sha256 key
      let variant ← match spec.aesBits with
        | .bits256 => do
          let main ← tryInto 32 "key length validated above" key
          let essiv ← tryInto 32 "SHA-256 digest is always 32 bytes" digest.toList
          pure (CbcEssivVariant.aes256 (P.aes256 main) (P.aes256 essiv))
        | .bits192 | .bits128 =>
          .error (.unreachable "CipherSpec::with_aes_bits rejects non-256-bit keys for CbcEssivSha256")
      pure (.ok (.cbcEssiv variant))

def xorBlock (block prev : Bytes) : Bytes := List.zipWith (· ^^^ ·) block prev

/-- One pass of the loop for each remaining whole block, with the previous ciphertext block carried. -/
def cbcEncryptLoop (cipher : Equiv.Perm Block) : ℕ → Bytes → Bytes → Bytes
  | 0, _, buf => buf
  | blocks + 1, prev, buf =>
    let block := onBlock cipher (xorBlock (buf.take 16) prev)
    block ++ cbcEncryptLoop cipher blocks block (buf.drop 16)

def cbcEncryptBlocks (cipher : Equiv.Perm Block) (iv : Block) (buf : Bytes) : Bytes :=
  cbcEncryptLoop cipher (buf.length / 16) iv.toList buf

def cbcDecryptLoop (cipher : Equiv.Perm Block) : ℕ → Bytes → Bytes → Bytes
  | 0, _, buf => buf
  | blocks + 1, prev, buf =>
    let ciphertext := buf.take 16
    xorBlock (onBlock cipher.symm ciphertext) prev ++ cbcDecryptLoop cipher blocks ciphertext (buf.drop 16)

def cbcDecryptBlocks (cipher : Equiv.Perm Block) (iv : Block) (buf : Bytes) : Bytes :=
  cbcDecryptLoop cipher (buf.length / 16) iv.toList buf

def cbcEssivCryptRange : CbcEssivVariant → ℕ → Bytes → Bool → Bytes
  | .aes256 main essiv, firstSector, buf, encrypt =>
    let sectors := buf.length / sectorSize
    rewriteBlocks sectorSize (fun s sectorBuf =>
      let sectorIndex := (firstSector + s) % u64Size
      let iv := essiv (plain64Iv sectorIndex)
      if encrypt then cbcEncryptBlocks main iv sectorBuf else cbcDecryptBlocks main iv sectorBuf) sectors buf

def SectorEngine.encryptRange (engine : SectorEngine) (firstSector : ℕ) (buf : Bytes) : Except Panic Bytes :=
  if buf.length % sectorSize ≠ 0 then .error (.assertion "buffer must be sector-aligned")
  else .ok <| match engine with
    | .xts (.aes128 x) => x.encryptArea buf sectorSize firstSector tweakFn
    | .xts (.aes192 x) => x.encryptArea buf sectorSize firstSector tweakFn
    | .xts (.aes256 x) => x.encryptArea buf sectorSize firstSector tweakFn
    | .cbcEssiv variant => cbcEssivCryptRange variant firstSector buf true

def SectorEngine.decryptRange (engine : SectorEngine) (firstSector : ℕ) (buf : Bytes) : Except Panic Bytes :=
  if buf.length % sectorSize ≠ 0 then .error (.assertion "buffer must be sector-aligned")
  else .ok <| match engine with
    | .xts (.aes128 x) => x.decryptArea buf sectorSize firstSector tweakFn
    | .xts (.aes192 x) => x.decryptArea buf sectorSize firstSector tweakFn
    | .xts (.aes256 x) => x.decryptArea buf sectorSize firstSector tweakFn
    | .cbcEssiv variant => cbcEssivCryptRange variant firstSector buf false

end NocapCrypt.Core
