import NocapCrypt.Cli.Align
import NocapCrypt.Cli.EarlyExit

/-! The length of an encrypted image: sized in alignment blocks, written in whole sectors. -/

namespace NocapCrypt.Cli

open NocapCrypt.Library.Image NocapCrypt.Library.Commands NocapCrypt.Core NocapCrypt.BlockIo NocapCrypt.KeyMgmt
open NocapCrypt.Worker Cmd

/-- The event of `image encrypt` for an output of `size` bytes is right: the file has that length, it is
aligned, and `align check` would say so. -/
structure Announced (args : EncryptArgs) (size : ℕ) (w : World) : Prop where
  reported : .alignmentStatus args.output true args.alignBlockSize.toNat ∈ w.events
  length : w.fs.metadataLen args.output = .ok size
  aligned : args.alignBlockSize.toNat ∣ size
  checked : ∀ os : Os, os.fault .stat = none →
    (runCheck os ⟨args.output, args.alignBlockSize, 0⟩ w).1 = .exit .success

variable {X : Externals} {os : Os} {reporter : Reporter} {showProgress : Bool} {env : Environment} {w w' : World}

lemma alignmentStatus_reported {args : EncryptArgs}
    (h : runEncrypt X os reporter args showProgress env w = (.exit .success, w')) :
    .alignmentStatus args.output true args.alignBlockSize.toNat ∈ w'.events := by
  have hlast : Lasting fun w => .alignmentStatus args.output true args.alignBlockSize.toNat ∈ w.events :=
    fun _ _ hp hmem => hp.subset hmem
  have hrun := success_of_ensures (ensures_runEncryptImpl X os reporter _ args showProgress env) h
  obtain ⟨⟨spec, key⟩, w₁, -, k₁⟩ := bind_eq_ok.mp ((reportAll_bind _ _ _).symm.trans hrun)
  simp only [narrateCipherIntro, reportAll_bind, report_bind] at k₁
  obtain ⟨engine, w₂, -, k₂⟩ := bind_eq_ok.mp k₁
  obtain ⟨n, w₃, -, k₃⟩ := bind_eq_ok.mp k₂
  obtain ⟨size, w₄, -, k₄⟩ := bind_eq_ok.mp k₃
  rw [report_bind, reportAll_bind] at k₄
  obtain ⟨⟨info, concurrency⟩, w₅, h₅, k₅⟩ := bind_eq_ok.mp k₄
  rw [resolveAndReportConcurrency, report_bind] at h₅
  obtain ⟨-, hw₅⟩ := pure_eq_ok.mp h₅
  have hmem : Event.alignmentStatus args.output true args.alignBlockSize.toNat ∈ w₅.events := by
    rw [← hw₅]
    simp
  obtain ⟨inputFile, w₆, h₆, k₆⟩ := bind_eq_ok.mp k₅
  obtain ⟨rfl, -⟩ := openInputFile_ok h₆
  have hrest := late_writeEncrypted hlast X os reporter args showProgress env spec key engine n size info concurrency
    inputFile w₆ hmem
  rw [show writeEncrypted X os reporter args showProgress env spec key engine n size info concurrency inputFile w₆ =
    .ok .success w' from k₆] at hrest
  exact hrest.1

/-- The property, for every input, block size and number of extra blocks, comes down to whole sectors. -/
theorem encrypt_output_announced_iff (X : Externals) (os : Os) (reporter : Reporter) (args : EncryptArgs)
    (showProgress : Bool) (env : Environment) (w w' : World) (plaintext : Bytes) (size : ℕ)
    (hinput : w.fs.Regular args.input plaintext)
    (hsize : alignedOutputSize plaintext.length args.alignBlockSize.toNat args.alignExtraBlock.toNat = .ok size)
    (h : runEncrypt X os reporter args showProgress env w = (.exit .success, w')) :
    size = (divCeil plaintext.length args.alignBlockSize.toNat + args.alignExtraBlock.toNat) *
        args.alignBlockSize.toNat ∧
      (Announced args size w' ↔ 512 ∣ size) := by
  obtain ⟨-, heq, -⟩ := alignedOutputSize_eq_ok.mp hsize
  refine ⟨heq, ?_⟩
  obtain ⟨spec, key, engine, i, n, size', -, hi, hn, hsize', -, hout⟩ := runEncrypt_success h
  obtain ⟨rfl, -⟩ := regular_input hinput hi hn
  rw [hsize] at hsize'
  cases hsize'
  have hlen : w'.fs.metadataLen args.output = .ok (coverage size) := by
    rw [hout.metadataLen, SectorEngine.cryptSectors_length, resize_length]
  constructor
  · intro hann
    rw [hann.length, Except.ok.injEq] at hlen
    exact hlen ▸ sectorSize_dvd_coverage size
  · intro hdvd
    rw [coverage_of_dvd hdvd] at hlen
    have haligned : args.alignBlockSize.toNat ∣ size := heq ▸ Nat.dvd_mul_left _ _
    refine ⟨alignmentStatus_reported h, hlen, haligned, ?_⟩
    intro os' hos
    exact runCheck_success hos hlen haligned (dvd_zero _)

theorem encrypt_output_announced_sector :
    Announced sampleEncryptArgs 512 sampleEncryption.2 := by
  have hlen : sampleSector.length = 512 := by decide +kernel
  obtain ⟨-, hiff⟩ := encrypt_output_announced_iff sampleExternals sampleOs { progressFlavor := .sterile }
    sampleEncryptArgs false sampleEnv sampleWorld sampleEncryption.2 sampleSector 512 ⟨0, rfl, rfl⟩ (by rw [hlen]; decide)
    sampleEncryption_succeeds
  exact hiff.mpr (dvd_refl _)

section Tail

def tailBlock : Block := #v[207, 78, 46, 195, 230, 4, 16, 144, 202, 109, 193, 184, 32, 205, 175, 63]

/-- AES-256 of `tailBlock` under `sampleKey`. -/
def tailCipherBlock : Block := #v[127, 213, 229, 29, 145, 167, 63, 213, 165, 165, 87, 229, 190, 143, 12, 124]

/-- A sector short of its last byte, which would have been zero. -/
def tailPlaintext : Bytes :=
  xorBlock sampleBlock.toList sampleIv.toList ++
    (List.replicate 30 (xorBlock sampleBlock.toList sampleCipherBlock.toList)).flatten ++
    (xorBlock tailBlock.toList sampleCipherBlock.toList).take 15

def tailExternals : Externals :=
  { sampleExternals with
    primitives := { samplePrimitives with
      aes256 := fun key =>
        if key.toList = sampleKey then Equiv.swap tailBlock tailCipherBlock * sampleMain else sampleEssiv } }

def tailArgs : EncryptArgs := { sampleEncryptArgs with alignBlockSize := 511 }

def tailEnv : Environment := fun _ _ =>
  ⟨⟨[(0, .compute), (0, .kernel (.count 511)), (0, .compute), (0, .kernel (.count 512)), (0, .compute)], 0, none⟩,
    [], []⟩

def tailWorld : World :=
  { sampleWorld with
    fs := { sampleFs with node := fun i => if i = 0 then .regular tailPlaintext else sampleFs.node i } }

def tailEncryption : Outcome × World :=
  runEncrypt tailExternals sampleOs { progressFlavor := .sterile } tailArgs false tailEnv tailWorld

theorem encrypt_output_misaligned :
    tailWorld.fs.Regular tailArgs.input tailPlaintext ∧
      alignedOutputSize tailPlaintext.length tailArgs.alignBlockSize.toNat tailArgs.alignExtraBlock.toNat = .ok 511 ∧
      tailEncryption.1 = .exit .success ∧
      .alignmentStatus tailArgs.output true 511 ∈ tailEncryption.2.events ∧
      tailEncryption.2.fs.metadataLen tailArgs.output = .ok 512 ∧
      (runCheck sampleOs ⟨tailArgs.output, 511, 0⟩ tailEncryption.2).1 = .exit .alignmentFailed ∧
      ¬ Announced tailArgs 511 tailEncryption.2 := by
  have hlen : tailEncryption.2.fs.metadataLen tailArgs.output = .ok 512 := by decide +kernel
  refine ⟨⟨0, rfl, rfl⟩, by decide +kernel, by decide +kernel, by decide +kernel, hlen, by decide +kernel, ?_⟩
  intro hann
  have hlen' := hann.length
  rw [hlen] at hlen'
  exact absurd hlen' (by decide)

end Tail

end NocapCrypt.Cli
