import NocapCrypt.Cli.ImageRuns
import NocapCrypt.Library.Decimal

/-! `bench`: `crates/nocap-crypt-cli/src/cmd/bench.rs` and `crates/nocap-crypt-bench/src/{datagen,runner}.rs`. -/

namespace NocapCrypt.Cli

open NocapCrypt.Library.Commands NocapCrypt.Library.Decimal NocapCrypt.Core NocapCrypt.BlockIo NocapCrypt.KeyMgmt
  NocapCrypt.Worker Cmd

structure BenchDataGenerator where
  state : UInt64

namespace BenchDataGenerator

def new (seed : UInt64) : BenchDataGenerator := ⟨if seed = 0 then 0x9E3779B97F4A7C15 else seed⟩

def next (gen : BenchDataGenerator) : BenchDataGenerator :=
  let s := gen.state ^^^ (gen.state <<< 13)
  let s := s ^^^ (s >>> 7)
  ⟨s ^^^ (s <<< 17)⟩

def toLeBytes (gen : BenchDataGenerator) : Bytes :=
  (List.range 8).map fun i => UInt8.ofNat (gen.state.toNat >>> (8 * i))

/-- The loop over `chunks_mut(8)` of a buffer of `len` bytes, with the state it leaves; the last chunk takes a part of
a word where `len` is no multiple of 8. -/
def fill : ℕ → BenchDataGenerator → ℕ → Bytes × BenchDataGenerator
  | 0, gen, _ => ([], gen)
  | chunks + 1, gen, len =>
    let (rest, last) := fill chunks gen.next (len - 8)
    (gen.next.toLeBytes.take (min 8 len) ++ rest, last)

def generate (gen : BenchDataGenerator) (len : ℕ) : Bytes := (fill (divCeil len 8) gen len).1

end BenchDataGenerator

structure BenchArgs where
  cipher : CipherArg
  keySize : Option UInt16
  dataLenMb : UInt64
  workers : String
  chunkSectors : UInt64
  seed : UInt64

structure BenchParams where
  cipher : CipherSpec
  key : Bytes
  dataLenBytes : ℕ
  workerCount : ℕ
  chunkSectors : ℕ
  seed : UInt64

/-- Without the clock readings. -/
structure BenchResult where
  cipher : String
  dataLenBytes : ℕ
  workerCount : ℕ
  chunkSectors : ℕ
  deriving DecidableEq, Repr

/-- The serializer and the table of the report crate, over the clock readings of the run. -/
structure BenchReport where
  toStringPretty : List BenchResult → Option String
  renderHumanTable : List BenchResult → String

/-- The random source, the temporary directory and the passes of a sweep: the transfer of each, and what the removal
of the directory gets to. -/
structure BenchEnv where
  random : (n : ℕ) → Option (Vector UInt8 n)
  dir : Path
  transfer : ℕ → Environment
  removed : ℕ → Path → Bool

def generateKey (random : (n : ℕ) → Option (Vector UInt8 n)) (spec : CipherSpec) : Except Panic Bytes :=
  match random spec.requiredKeyBytes with
  | some key => .ok key.toList
  | none => .error (.expect "OS CSPRNG failed to fill key material")

def parseWorkers (workers : String) : List ℕ :=
  (workers.toList.splitOn ',').filterMap fun text => (parseUnsigned u64Size (trim (String.ofList text))).toOption

example : parseWorkers "1, +2,four,18446744073709551616,4" = [1, 2, 4] := by decide +kernel

namespace Os

variable (os : Os)

def createDirAll : Cmd (Except IoError Unit) := fun w => .ok (os.refuses .createTempDir (.ok ())) w

def write (path : Path) (bytes : Bytes) : Cmd (Except IoError Unit) := fun w =>
  match os.fault .writeTempFile with
  | some e => .ok (.error e) w
  | none => .ok (.ok ()) { w with fs := w.fs.write path bytes }

end Os

section Run

variable (X : Externals) (os : Os) (env : BenchEnv) (flavor : ProgressFlavor) (live : Bool)

/-- Before the first range is done the counter is zero, and a display that was started polls for ever. -/
def beforeRanges {α : Type} (total : ℕ) : Except IoError α → Cmd α
  | .ok a => pure a
  | .error e => if LiveProgress.starts total live then throw .hang else fail e.text .io

def benchRun (params : BenchParams) (pass : ℕ) : Cmd BenchResult := do
  let total := params.dataLenBytes
  let inPath := env.dir ++ "/" ++ "plain.bin"
  let outPath := env.dir ++ "/" ++ "cipher.bin"
  let built ← orPanic (SectorEngine.new X.primitives params.cipher params.key)
  let engine ← beforeRanges live total (built.mapError fun e => .invalidInput e.text)
  let made ← os.createDirAll
  beforeRanges live total made
  let data := (BenchDataGenerator.new params.seed).generate total
  let written ← os.write inPath data
  beforeRanges live total written
  let sectorRoundedLen ← wrapping (divCeil total sectorSize * sectorSize)
  let ranges ← orPanic (chunkRanges total (max params.chunkSectors 1))
  let opened ← os.openRead inPath
  let input ← beforeRanges live total opened
  let created ← os.createSparseOutput outPath sectorRoundedLen
  let output ← beforeRanges live total created
  let result ← dispatch { progressFlavor := flavor }
    ⟨input, output, engine, ranges, total, total, .fixed (max params.workerCount 1), true⟩ live (env.transfer pass)
  orFail IoError.text .io result
  modify fun w => { w with fs := w.fs.removeDirAll env.dir (env.removed pass) }
  pure ⟨params.cipher.asStr, total, max params.workerCount 1, max params.chunkSectors 1⟩

/-- The loop over the worker counts, from its pass `i` on. -/
def sweep (params : ℕ → BenchParams) : List ℕ → ℕ → List BenchResult → Cmd (List BenchResult)
  | [], _, results => pure results
  | workerCount :: rest, i, results => do
    let result ← benchRun X os env flavor live (params workerCount) i
    report (.phaseTiming s!"bench(workers={workerCount})")
    sweep params rest (i + 1) (results ++ [result])

def dataLenBytes (dataLenMb : ℕ) : Cmd ℕ := do
  let kib ← wrapping (dataLenMb * 1024)
  wrapping (kib * 1024)

/-- One of the two products wraps exactly if the length in bytes is no `u64`, and either way it is a whole
number of sectors. -/
lemma dataLenBytes_eq (dataLenMb : ℕ) (w : World) : ∃ total,
    dataLenBytes dataLenMb w = .ok total { w with wrapped := w.wrapped || decide (2 ^ 44 ≤ dataLenMb) } ∧
      sectorSize ∣ total ∧ total < u64Size := by
  refine ⟨dataLenMb * 1024 % u64Size * 1024 % u64Size, ?_, ?_, Nat.mod_lt _ (by decide)⟩
  · have hwraps : (decide (u64Size ≤ dataLenMb * 1024) || decide (u64Size ≤ dataLenMb * 1024 % u64Size * 1024)) =
        decide (2 ^ 44 ≤ dataLenMb) := by
      rw [← Bool.decide_or, decide_eq_decide]
      rw [show u64Size = 2 ^ 64 from rfl]
      omega
    rw [dataLenBytes, bind_ok (wrapping_eq_ok.mpr ⟨rfl, rfl⟩), wrapping_eq_ok]
    refine ⟨rfl, ?_⟩
    rw [← hwraps, Bool.or_assoc]
  · rw [show sectorSize = 512 from rfl, show u64Size = 2 ^ 64 from rfl]
    omega

def reportSweep (rendering : BenchReport) (json : Bool) (results : List BenchResult) : Cmd Unit :=
  if json then
    match rendering.toStringPretty results with
    | some text => report (.message text)
    | none => pure ()
  else report (.message (rendering.renderHumanTable results))

/-- `run_bench` from the parsing of `--workers` on. -/
def benchWorkers (rendering : BenchReport) (args : BenchArgs) (json : Bool) (spec : CipherSpec) (key : Bytes)
    (total : ℕ) : Cmd ExitCode := do
  let workerCounts := parseWorkers args.workers
  if workerCounts = [] then
    let workers := args.workers.quote
    fail s!"--workers {workers} contains no valid worker counts" .invalidArgs
  else
    let params := fun workerCount => ⟨spec, key, total, workerCount, args.chunkSectors.toNat, args.seed⟩
    let results ← sweep X os env flavor live params workerCounts 0 []
    reportSweep rendering json results
    pure .success

def runBenchImpl (rendering : BenchReport) (args : BenchArgs) (json : Bool) : Cmd ExitCode := do
  let spec ← orFail CipherSpecError.text .unsupportedCipher (resolveCipherSpec args.cipher args.keySize)
  let key ← orPanic (generateKey env.random spec)
  let total ← dataLenBytes args.dataLenMb.toNat
  benchWorkers X os env flavor live rendering args json spec key total

def runBench (rendering : BenchReport) (args : BenchArgs) (json : Bool) : World → Outcome × World :=
  finish (runBenchImpl X os env flavor live rendering args json)

end Run

section Orderly

variable (X : Externals) (os : Os) (env : BenchEnv) (flavor : ProgressFlavor) (live b : Bool)

lemma ensures_beforeRanges {α : Type} {I : World → Prop} (hI : EventBlind I) (total : ℕ) (r : Except IoError α) :
    Ensures I (Orderly true) (beforeRanges live total r) fun a => r = .ok a := by
  cases r with
  | ok a => exact Ensures.pure rfl
  | error e =>
    apply Ensures.ite
    · intro _
      exact Ensures.throw ⟨rfl, by decide⟩
    · intro _
      exact ensures_fail hI _ (by decide)

lemma ensures_write (path : Path) (bytes : Bytes) :
    Ensures (Wrapped b) (Orderly true) (os.write path bytes) fun _ => True := by
  intro w hw
  rw [Os.write]
  cases os.fault .writeTempFile with
  | some e => exact ⟨hw, trivial⟩
  | none => exact ⟨hw, trivial⟩

lemma ensures_benchRun {params : BenchParams} (hspec : params.cipher.Supported)
    (hsectors : sectorSize ∣ params.dataLenBytes) (hfits : params.dataLenBytes < u64Size) (pass : ℕ) :
    Ensures (Wrapped b) (Orderly true) (benchRun X os env flavor live params pass) fun _ => True := by
  have hI := eventBlind_wrapped b
  have hrounded : divCeil params.dataLenBytes sectorSize * sectorSize = params.dataLenBytes :=
    coverage_of_dvd hsectors
  have hchunk : 0 < max params.chunkSectors 1 := by omega
  refine (ensures_orPanic (SectorEngine.new_total X.primitives hspec params.key)).bind fun built _ => ?_
  refine (ensures_beforeRanges live hI _ _).bind fun engine _ => ?_
  refine (Ensures.query fun w _ => ⟨_, rfl, trivial⟩ : Ensures (Wrapped b) (Orderly true) os.createDirAll
    fun _ => True).bind fun made _ => ?_
  refine (ensures_beforeRanges live hI _ made).bind fun _ _ => ?_
  refine (ensures_write os b _ _).bind fun written _ => ?_
  refine (ensures_beforeRanges live hI _ written).bind fun _ _ => ?_
  refine (ensures_wrapping (hrounded.trans_lt hfits)).bind fun roundedLen hlen => ?_
  refine (ensures_orPanic (chunkRanges_total _ hchunk)).bind fun ranges hranges => ?_
  refine (ensures_openRead os _).bind fun opened _ => ?_
  refine (ensures_beforeRanges live hI _ opened).bind fun input _ => ?_
  refine (ensures_createSparseOutput (fun _ _ h => h) os _ roundedLen).bind fun created hcreated => ?_
  refine (ensures_beforeRanges live hI _ created).bind fun output hout => ?_
  have hsize : params.dataLenBytes ≤ i64Max := by
    rw [← hrounded, ← hlen]
    exact hcreated output hout
  refine (ensures_dispatch hranges hsize _ b).bind fun result _ => ?_
  refine (ensures_orFail hI _ (by decide) result).bind fun _ _ => ?_
  refine (Ensures.modify fun w hw => ?_).bind fun _ _ => Ensures.pure trivial
  exact hw

lemma ensures_sweep {params : ℕ → BenchParams} (hspec : ∀ n, (params n).cipher.Supported)
    (hsectors : ∀ n, sectorSize ∣ (params n).dataLenBytes) (hfits : ∀ n, (params n).dataLenBytes < u64Size)
    (workerCounts : List ℕ) (i : ℕ) (results : List BenchResult) :
    Ensures (Wrapped b) (Orderly true) (sweep X os env flavor live params workerCounts i results) fun _ => True := by
  induction workerCounts generalizing i results with
  | nil => exact Ensures.pure trivial
  | cons workerCount rest ih =>
    refine (ensures_benchRun X os env flavor live b (hspec workerCount) (hsectors workerCount)
      (hfits workerCount) _).bind fun result _ => ?_
    refine (ensures_report (eventBlind_wrapped b) _).bind fun _ _ => ?_
    exact ih (i + 1) (results ++ [result])

lemma ensures_reportSweep (rendering : BenchReport) (json : Bool) (results : List BenchResult) :
    Ensures (Wrapped b) (Orderly true) (reportSweep rendering json results) fun _ => True := by
  have hI := eventBlind_wrapped b
  refine Ensures.ite (fun _ => ?_) (fun _ => ensures_report hI _)
  split
  · exact ensures_report hI _
  · exact Ensures.pure trivial

lemma ensures_benchWorkers (rendering : BenchReport) (args : BenchArgs) (json : Bool) {spec : CipherSpec}
    (hspec : spec.Supported) (key : Bytes) {total : ℕ} (hsectors : sectorSize ∣ total) (hfits : total < u64Size) :
    Ensures (Wrapped b) (Orderly true) (benchWorkers X os env flavor live rendering args json spec key total)
      fun _ => True := by
  have hI := eventBlind_wrapped b
  rw [benchWorkers]
  refine Ensures.ite (fun _ => ensures_fail hI _ (by decide)) (fun _ => ?_)
  refine (ensures_sweep X os env flavor live b (fun _ => hspec) (fun _ => hsectors) (fun _ => hfits) _ 0 []).bind
    fun results _ => ?_
  exact (ensures_reportSweep b rendering json results).bind fun _ _ => Ensures.pure trivial

end Orderly

end NocapCrypt.Cli
