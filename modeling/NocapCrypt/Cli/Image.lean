import NocapCrypt.Cli.Dispatch
import NocapCrypt.Cli.Keyload
import NocapCrypt.KeyMgmt.Represent

/-! `image encrypt` and `image decrypt`: `crates/nocap-crypt-cli/src/cmd/image.rs`. -/

namespace NocapCrypt.Cli

open NocapCrypt.Library.Commands NocapCrypt.Core NocapCrypt.BlockIo NocapCrypt.KeyMgmt NocapCrypt.Worker Cmd

structure EncryptArgs where
  input : Path
  output : Path
  keyFile : Path
  keyFormat : KeyFormatArg
  cipher : CipherArg
  keySize : Option UInt16
  alignBlockSize : UInt64
  alignExtraBlock : UInt64
  maxWorkers : Option UInt64
  smallFileThreshold : UInt64
  pinToSubmissionThread : Bool
  dryRunCryptsetupCompat : Bool

structure DecryptArgs where
  input : Path
  output : Path
  keyFile : Path
  keyFormat : KeyFormatArg
  cipher : CipherArg
  keySize : Option UInt16
  maxWorkers : Option UInt64
  smallFileThreshold : UInt64
  pinToSubmissionThread : Bool

/-- Its errors are reported with `ExitCode::InvalidArgs`. -/
def alignedOutputSize (inputLen alignBlockSize alignExtraBlock : ℕ) : Except String ℕ :=
  if alignBlockSize = 0 then .error "--align-block-size must be nonzero"
  else
    let blockcount := divCeil inputLen alignBlockSize
    match (checkedAdd blockcount alignExtraBlock).bind fun blocks => checkedMul blocks alignBlockSize with
    | some size => .ok size
    | none => .error "--align-block-size/--align-extra-block combination overflows"

/-- The `u64` sums and products of `process_one_range` are at most where a range ends in bytes, and the
counter adds up the lengths of the ranges. -/
def TransferJob.wraps (job : TransferJob) : Bool :=
  job.ranges.any (fun r => decide (u64Size ≤ (r.firstSector + r.sectorCount) * sectorSize)) ||
    decide (u64Size ≤ (job.ranges.map fun r => r.sectorCount * sectorSize).sum)

namespace Reporter

variable (reporter : Reporter)

def banner : List Event := reporter.bootBanner.toList.map .banner

def narration (topics : List Narration) : List Event := if reporter.narrates then topics.map .narration else []

def joke : List Event :=
  match reporter.corporateJoke with
  | some joke => [.message s!"WARNING: {joke}", .message "SECURING VOLUME ANYWAY."]
  | none => []

end Reporter

section Steps

variable (X : Externals) (os : Os) (reporter : Reporter)

def resolveSpecAndKey (cipher : CipherArg) (keySize : Option UInt16) (keyFile : Path) (keyFormat : KeyFormatArg) :
    Cmd (CipherSpec × Bytes) := do
  let spec ← orFail CipherSpecError.text .unsupportedCipher (resolveCipherSpec cipher keySize)
  let loaded ← loadKeyFile X os keyFile keyFormat
  let key ← orFail KeyLoadError.text .io loaded
  let _ ← orFail KeyValidationError.text .keyValidation (validateKey X.scores spec key)
  pure (spec, key)

def buildEngine (spec : CipherSpec) (key : Bytes) : Cmd SectorEngine := do
  let built ← orPanic (SectorEngine.new X.primitives spec key)
  orFail KeyError.text .keyValidation built

def statInputLen (path : Path) : Cmd ℕ := do
  let len ← os.metadataLen path
  orFail (fun e => s!"stat {path}: {e.text}") .io len

def resolveAndReportConcurrency (inputPath : Path) (inputLen : ℕ) (smallFileThreshold : UInt64)
    (pinToSubmissionThread : Bool) (maxWorkers : Option UInt64) : Cmd (DispatchInfo × Concurrency) := do
  let info := compute os.effectiveCores (os.diskType inputPath)
  let concurrency := resolve inputLen smallFileThreshold.toNat pinToSubmissionThread (maxWorkers.map UInt64.toNat)
  report (.concurrencyInfo info.effectiveCores info.diskType info.chunkSectors concurrency.debug)
  pure (info, concurrency)

def narrateCipherIntro (spec : CipherSpec) : Cmd Unit :=
  reportAll (reporter.narration [.blockCipherBasics, .xtsTweakability, .xtsAsciiDiagram, .xtsMalleability] ++
    [.cipherSelected spec.asStr spec.aesBits.bits])

def narrateSampleIvIfApplicable (inputLen : ℕ) : Cmd Unit :=
  reportAll (if 0 < inputLen then reporter.narration [.ivDerivation 0 (plain64Iv 0)] else [])

def openInputFile (path : Path) : Cmd SectorFile := do
  let file ← os.openRead path
  orFail (fun e => s!"opening {path}: {e.text}") .io file

def openOutputFile (path : Path) (size : ℕ) : Cmd SectorFile := do
  let file ← os.createSparseOutput path size
  orFail (fun e => s!"creating {path}: {e.text}") .io file

/-- What is written and reported in a transfer stays, however the transfer ends. -/
def World.transferred (w : World) (job : TransferJob) (disk : ℕ → Bytes) (ciSteps : List CiStep) : World where
  fs := w.fs.store job.outputFile.file (disk job.outputFile.file)
  events := w.events ++ (ciSteps.filterMap CiStep.report).map .progress
  wrapped := w.wrapped || job.wraps

def dispatch (job : TransferJob) (showProgress : Bool) (env : Environment) : Cmd (Except IoError Unit) := fun w =>
  match dispatchWithProgress reporter job showProgress (env job w.fs.disk) w.fs.disk with
  | .error s => .error s.outcome (w.transferred job s.disk s.ciSteps)
  | .ok t => .ok t.result (w.transferred job t.disk t.ciSteps)

def transferAndReportTiming (job : TransferJob) (phase : String) (showProgress : Bool) (env : Environment) :
    Cmd Unit := do
  let result ← dispatch reporter job showProgress env
  orFail IoError.text .io result
  report (.phaseTiming phase)

/-- The entropy of the ciphertext as it is found on the disk; a failure to read it is passed over. -/
def scoreCiphertext (output : Path) (inputLen : ℕ) : Cmd Unit :=
  if 0 < inputLen then do
    match ← os.read .readOutput output with
    | .ok ciphertext =>
      let real := ciphertext.take (min inputLen ciphertext.length)
      let bitsPerByte := X.scores.shannonEntropy real
      report (.entropyScore bitsPerByte (X.scores.isUniform real))
      reportAll (reporter.narration [.entropyResultCiphertext bitsPerByte])
    | .error _ => pure ()
  else pure ()

def compatCheck (spec : CipherSpec) (key : Bytes) (dryRun : Bool) : Cmd ExitCode :=
  if dryRun then do
    let outcome := X.cryptsetupCompat spec key
    report (.message outcome.message)
    pure (if outcome.isFailure then .luksCompat else .success)
  else pure .success

def runEncryptImpl (args : EncryptArgs) (showProgress : Bool) (env : Environment) : Cmd ExitCode := do
  reportAll reporter.banner
  let (spec, key) ← resolveSpecAndKey X os args.cipher args.keySize args.keyFile args.keyFormat
  narrateCipherIntro reporter spec
  reportAll (reporter.narration [.keyFingerprint (fingerprint X.primitives key), .headerlessPlainReference])
  reportAll reporter.joke
  report (.hardwareAccelPath os.hwDescription)
  let engine ← buildEngine X spec key
  let inputLen ← statInputLen os args.input
  let outputSize ← orFail id .invalidArgs
    (alignedOutputSize inputLen args.alignBlockSize.toNat args.alignExtraBlock.toNat)
  report (.alignmentStatus args.output true args.alignBlockSize.toNat)
  reportAll (reporter.narration [.alignmentContext])
  let (info, concurrency) ← resolveAndReportConcurrency os args.input inputLen args.smallFileThreshold
    args.pinToSubmissionThread args.maxWorkers
  let inputFile ← openInputFile os args.input
  let outputFile ← openOutputFile os args.output outputSize
  narrateSampleIvIfApplicable reporter inputLen
  let ranges ← orPanic (chunkRanges outputSize info.chunkSectors)
  transferAndReportTiming reporter
    ⟨inputFile, outputFile, engine, ranges, inputLen, outputSize, concurrency, true⟩ "encrypt" showProgress env
  scoreCiphertext X os reporter args.output inputLen
  compatCheck X spec key args.dryRunCryptsetupCompat

def runEncrypt (args : EncryptArgs) (showProgress : Bool) (env : Environment) : World → Outcome × World :=
  finish (runEncryptImpl X os reporter args showProgress env)

def runDecryptImpl (args : DecryptArgs) (showProgress : Bool) (env : Environment) : Cmd ExitCode := do
  reportAll reporter.banner
  let (spec, key) ← resolveSpecAndKey X os args.cipher args.keySize args.keyFile args.keyFormat
  narrateCipherIntro reporter spec
  let engine ← buildEngine X spec key
  let inputLen ← statInputLen os args.input
  let (info, concurrency) ← resolveAndReportConcurrency os args.input inputLen args.smallFileThreshold
    args.pinToSubmissionThread args.maxWorkers
  let inputFile ← openInputFile os args.input
  let outputFile ← openOutputFile os args.output inputLen
  narrateSampleIvIfApplicable reporter inputLen
  let ranges ← orPanic (chunkRanges inputLen info.chunkSectors)
  transferAndReportTiming reporter
    ⟨inputFile, outputFile, engine, ranges, inputLen, inputLen, concurrency, false⟩ "decrypt" showProgress env
  pure .success

def runDecrypt (args : DecryptArgs) (showProgress : Bool) (env : Environment) : World → Outcome × World :=
  finish (runDecryptImpl X os reporter args showProgress env)

inductive ImageAction where
  | encrypt (args : EncryptArgs)
  | decrypt (args : DecryptArgs)

def runImage (action : ImageAction) (showProgress : Bool) (env : Environment) : World → Outcome × World :=
  match action with
  | .encrypt args => runEncrypt X os reporter args showProgress env
  | .decrypt args => runDecrypt X os reporter args showProgress env

end Steps

lemma alignedOutputSize_eq_ok {n b e size : ℕ} :
    alignedOutputSize n b e = .ok size ↔ b ≠ 0 ∧ size = (divCeil n b + e) * b ∧ size < u64Size := by
  by_cases hb : b = 0
  · simp [alignedOutputSize, hb]
  · have hle : divCeil n b + e ≤ (divCeil n b + e) * b := Nat.le_mul_of_pos_right _ (Nat.pos_of_ne_zero hb)
    simp only [alignedOutputSize, hb, if_false, checkedAdd, ne_eq, not_false_eq_true, true_and]
    by_cases hfit : (divCeil n b + e) * b < u64Size
    · simp only [if_pos (hle.trans_lt hfit), Option.bind_some, checkedMul, if_pos hfit, Except.ok.injEq]
      constructor
      · rintro rfl
        exact ⟨rfl, hfit⟩
      · rintro ⟨rfl, -⟩
        rfl
    · have hnone : ((if divCeil n b + e < u64Size then some (divCeil n b + e) else none).bind
          fun blocks => checkedMul blocks b) = none := by
        split
        · rw [Option.bind_some, checkedMul, if_neg hfit]
        · rfl
      rw [hnone]
      constructor
      · intro h
        cases h
      · rintro ⟨rfl, h⟩
        exact (hfit h).elim

lemma le_alignedOutputSize {n b e size : ℕ} (h : alignedOutputSize n b e = .ok size) : n ≤ size := by
  obtain ⟨hb, rfl, -⟩ := alignedOutputSize_eq_ok.mp h
  exact (le_divCeil_mul n (Nat.pos_of_ne_zero hb)).trans (Nat.mul_le_mul_right b (Nat.le_add_right _ e))

end NocapCrypt.Cli
