import NocapCrypt.Core.EngineLaws

/-! Volume checks without a key: `crates/nocap-crypt-luks/src/{structural,header}.rs`. -/

namespace NocapCrypt.Luks

open NocapCrypt.Core

structure StructuralReport where
  fileSize : ℕ
  sectorSize : ℕ
  sizeIsSectorMultiple : Bool
  cipherSpecRoundTrips : Bool
  deriving DecidableEq, Repr

def StructuralReport.passes (report : StructuralReport) : Bool :=
  report.sizeIsSectorMultiple && report.cipherSpecRoundTrips

def validatePlainStructural (fileSize : ℕ) (cipherSpecStr : String) : StructuralReport where
  fileSize := fileSize
  sectorSize := sectorSize
  sizeIsSectorMultiple := fileSize % sectorSize == 0
  cipherSpecRoundTrips :=
    match CipherSpec.parse cipherSpecStr with
    | .ok spec => spec.asStr == cipherSpecStr
    | .error _ => false

/-- The spec of an accepted cipher always round-trips, so only the size can fail the check. -/
lemma validatePlainStructural_passes (fileSize : ℕ) (spec : CipherSpec) :
    (validatePlainStructural fileSize spec.asStr).passes = true ↔ sectorSize ∣ fileSize := by
  simp only [StructuralReport.passes, validatePlainStructural, CipherSpec.parse_asStr, Bool.and_eq_true, beq_iff_eq]
  rw [Nat.dvd_iff_mod_eq_zero]
  exact and_iff_left rfl

inductive LuksVersion where
  | v1
  | v2
  deriving DecidableEq, Repr

def LuksVersion.debug : LuksVersion → String
  | .v1 => "V1"
  | .v2 => "V2"

def luksMagic : Bytes := [0x4C, 0x55, 0x4B, 0x53, 0xBA, 0xBE]

def detectLuksHeader (data : Bytes) : Option LuksVersion :=
  match data with
  | a :: b :: c :: d :: e :: f :: hi :: lo :: _ =>
    if [a, b, c, d, e, f] = luksMagic then
      match hi.toNat * 256 + lo.toNat with
      | 1 => some .v1
      | 2 => some .v2
      | _ => none
    else none
  | _ => none

end NocapCrypt.Luks
