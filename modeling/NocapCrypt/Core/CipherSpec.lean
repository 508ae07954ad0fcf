import NocapCrypt.Machine

/-! Cipher specs: `crates/nocap-crypt-core/src/cipherspec.rs`. -/

namespace NocapCrypt.Core

inductive CipherMode where
  | xtsPlain64
  | cbcEssivSha256
  deriving DecidableEq, Repr

inductive AesKeyBits where
  | bits128
  | bits192
  | bits256
  deriving DecidableEq, Repr

def AesKeyBits.bytes : AesKeyBits → ℕ
  | .bits128 => 16
  | .bits192 => 24
  | .bits256 => 32

def AesKeyBits.fromBits : UInt16 → Option AesKeyBits
  | 128 => some .bits128
  | 192 => some .bits192
  | 256 => some .bits256
  | _ => none

def AesKeyBits.bits : AesKeyBits → UInt16
  | .bits128 => 128
  | .bits192 => 192
  | .bits256 => 256

structure CipherSpec where
  mode : CipherMode
  aesBits : AesKeyBits
  deriving DecidableEq, Repr

inductive CipherSpecError where
  | unknownSpec (spec : String)
  | unsupportedXtsKeySize (bits : UInt16)
  | unsupportedEssivKeySize (bits : UInt16)
  | unsupportedKeySize (bits : UInt16)
  deriving DecidableEq, Repr

def CipherSpecError.text : CipherSpecError → String
  | .unknownSpec s =>
      s!"unrecognized cipher spec {s.quote} (supported: aes-xts-plain64, aes-cbc-essiv:sha256)"
  | .unsupportedXtsKeySize n => s!"XTS does not support a {n}-bit AES key (supported: 128, 256)"
  | .unsupportedEssivKeySize n =>
      s!"aes-cbc-essiv:sha256 requires a 256-bit AES key (SHA-256's 32-byte " ++
        s!"digest must match the ESSIV cipher's key size); got {n} bits"
  | .unsupportedKeySize n => s!"unsupported AES key size: {n} bits (supported: 128, 192, 256)"

namespace CipherSpec

def parse (spec : String) : Except CipherSpecError CipherSpec :=
  if spec = "aes-xts-plain64" then .ok ⟨.xtsPlain64, .bits256⟩
  else if spec = "aes-cbc-essiv:sha256" then .ok ⟨.cbcEssivSha256, .bits256⟩
  else .error (.unknownSpec spec)

def withAesBits (spec : CipherSpec) (bits : UInt16) : Except CipherSpecError CipherSpec :=
  match AesKeyBits.fromBits bits with
  | none => .error (.unsupportedKeySize bits)
  | some parsed =>
    if spec.mode = .xtsPlain64 ∧ parsed = .bits192 then .error (.unsupportedXtsKeySize bits)
    else if spec.mode = .cbcEssivSha256 ∧ parsed ≠ .bits256 then .error (.unsupportedEssivKeySize bits)
    else .ok { spec with aesBits := parsed }

/-- XTS key material is two concatenated AES keys. -/
def requiredKeyBytes (spec : CipherSpec) : ℕ :=
  match spec.mode with
  | .xtsPlain64 => spec.aesBits.bytes * 2
  | .cbcEssivSha256 => spec.aesBits.bytes

def asStr (spec : CipherSpec) : String :=
  match spec.mode with
  | .xtsPlain64 => "aes-xts-plain64"
  | .cbcEssivSha256 => "aes-cbc-essiv:sha256"

/-- What `withAesBits` guarantees: no 192-bit XTS and only 256-bit ESSIV. -/
def Supported (spec : CipherSpec) : Prop :=
  match spec.mode with
  | .xtsPlain64 => spec.aesBits ≠ .bits192
  | .cbcEssivSha256 => spec.aesBits = .bits256

lemma parse_supported {s : String} {spec : CipherSpec} (h : parse s = .ok spec) : spec.Supported := by
  rw [parse] at h
  split at h
  · cases h
    simp [Supported]
  · split at h
    · cases h
      rfl
    · cases h

lemma withAesBits_supported {spec spec' : CipherSpec} {bits : UInt16}
    (h : spec.withAesBits bits = .ok spec') : spec'.Supported := by
  rw [withAesBits] at h
  split at h
  · cases h
  · rename_i parsed _
    split at h
    · cases h
    · split at h
      · cases h
      · rename_i hx hc
        cases h
        cases hm : spec.mode <;> simp_all [Supported]

/-- A spec that `parse` and any number of `with_aes_bits` calls lead to. -/
inductive Obtained : CipherSpec → Prop
  | parse {s : String} {spec : CipherSpec} (h : parse s = .ok spec) : Obtained spec
  | withAesBits {spec spec' : CipherSpec} {bits : UInt16} (h : Obtained spec)
      (hb : spec.withAesBits bits = .ok spec') : Obtained spec'

lemma Obtained.supported {spec : CipherSpec} (h : spec.Obtained) : spec.Supported := by
  cases h with
  | parse h => exact parse_supported h
  | withAesBits _ hb => exact withAesBits_supported hb

@[simp] lemma parse_asStr (spec : CipherSpec) :
    parse spec.asStr = .ok { spec with aesBits := .bits256 } := by
  obtain ⟨mode, bits⟩ := spec
  cases mode <;> rfl

end CipherSpec

end NocapCrypt.Core
