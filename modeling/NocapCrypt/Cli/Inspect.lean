import NocapCrypt.Cli.Safety
import NocapCrypt.Entropy.Streaming
import NocapCrypt.Luks.Structural

/-! `inspect` and `entropy`: `crates/nocap-crypt-cli/src/cmd/{inspect,entropy}.rs`. -/

namespace NocapCrypt.Cli

open NocapCrypt.Library.Commands NocapCrypt.BlockIo NocapCrypt.KeyMgmt NocapCrypt.Luks NocapCrypt.Entropy Cmd

structure InspectArgs where
  input : Path
  windowSize : UInt64
  sectorSize : UInt64

structure EntropyArgs where
  input : Option Path
  windowSize : UInt64
  threshold : Option ℚ

structure InspectPayload where
  fileSize : ℕ
  sectorSize : ℕ
  sectorSizeDivisible : Bool
  overallShannonBitsPerByte : ℚ
  minChunkEntropy : Option ℚ
  windowCount : ℕ
  luksHeader : Option String

section Run

variable (scores : Scores) (os : Os)

/-- `analyze_stream` and the handling of its error. The total bounds every other sum of its loop. -/
def analyze (reader : Except IoError Bytes) (windowSize : UInt64) : Cmd StreamEntropyReport := do
  let analyzed ← orPanic (analyzeStream scores reader windowSize.toNat)
  let analysis ← orFail IoError.text .io analyzed
  let total ← wrapping analysis.totalBytes
  pure { analysis with totalBytes := total }

def Os.stream (file : ℕ) : Cmd (Except IoError Bytes) := fun w => .ok (os.refuses .readInput (.ok (w.fs.disk file))) w

def Os.fileLen (file : ℕ) : Cmd (Except IoError ℕ) := fun w =>
  .ok (os.refuses .stat (.ok (w.fs.node file).metadataLen)) w

/-- What `inspect` reports; `toStringPretty` is the JSON serializer. -/
def inspectReports (toStringPretty : InspectPayload → Option String) (args : InspectArgs) (json : Bool) (fileSize : ℕ)
    (analysis : StreamEntropyReport) (luks : Option LuksVersion) (rem : ℕ) : Cmd ExitCode :=
  if json then
    let payload : InspectPayload := ⟨fileSize, args.sectorSize.toNat, rem == 0, analysis.overallShannonBitsPerByte,
      analysis.minWindowEntropy, analysis.windows.length, luks.map LuksVersion.debug⟩
    match toStringPretty payload with
    | some text => do
      report (.message text)
      pure .success
    | none => pure .success
  else do
    let divisible := rem == 0
    let header := (luks.map LuksVersion.debug).getD "none (headerless/plain)"
    report (.message s!"{args.input}: {fileSize} bytes, sector-divisible: {divisible}, luks header: {header}")
    report (.entropyScore analysis.overallShannonBitsPerByte false)
    let minimum := fixedPoint 4 (analysis.minWindowEntropy.getD 0)
    let count := analysis.windows.length
    report (.message s!"min chunk entropy: {minimum} bits/byte across {count} windows")
    pure .success

def runInspectImpl (toStringPretty : InspectPayload → Option String) (args : InspectArgs) (json : Bool) :
    Cmd ExitCode := do
  let opened ← os.openFile args.input
  let file ← orFail (fun e => s!"opening {args.input}: {e.text}") .io opened
  let len ← os.fileLen file
  let fileSize ← orFail IoError.text .io len
  let reader ← os.stream file
  let analysis ← analyze scores reader args.windowSize
  let head ← os.read .readHead args.input
  let luks := detectLuksHeader ((head.toOption.getD []).take 8)
  let rem ← orPanic (checkedRem fileSize args.sectorSize.toNat)
  inspectReports toStringPretty args json fileSize analysis luks rem

def runInspect (toStringPretty : InspectPayload → Option String) (args : InspectArgs) (json : Bool) :
    World → Outcome × World := finish (runInspectImpl scores os toStringPretty args json)

/-- The reader that the arguments name; `-` and no path stand for the standard input. -/
def entropyReader (stdin : Except IoError Bytes) (input : Option Path) : Cmd (Except IoError Bytes) :=
  match input with
  | some path =>
    if path ≠ "-" then do
      let opened ← os.openFile path
      let file ← orFail (fun e => s!"opening {path}: {e.text}") .io opened
      os.stream file
    else pure stdin
  | none => pure stdin

def runEntropyImpl (stdin : Except IoError Bytes) (args : EntropyArgs) : Cmd ExitCode := do
  let reader ← entropyReader os stdin args.input
  let analysis ← analyze scores reader args.windowSize
  report (.entropyScore analysis.overallShannonBitsPerByte false)
  let overall := fixedPoint 4 analysis.overallShannonBitsPerByte
  let least := analysis.minWindowEntropy.getD 0
  let minimum := fixedPoint 4 least
  let count := analysis.windows.length
  let total := analysis.totalBytes
  report (.message s!"overall: {overall} bits/byte, min window: {minimum} bits/byte, {count} windows, {total} bytes")
  match args.threshold with
  | some threshold =>
    if least < threshold then
      let required := fixedPoint 4 threshold
      fail s!"min window entropy {minimum} below threshold {required}" .entropyFailed
    else pure .success
  | none => pure .success

def runEntropy (stdin : Except IoError Bytes) (args : EntropyArgs) : World → Outcome × World :=
  finish (runEntropyImpl scores os stdin args)

end Run

end NocapCrypt.Cli
