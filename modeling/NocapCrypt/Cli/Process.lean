import NocapCrypt.BlockIo.Frame
import NocapCrypt.Cli.Artifacts
import NocapCrypt.Cli.Completions
import NocapCrypt.Cli.EnvConfig
import NocapCrypt.Cli.KeyCommands
import NocapCrypt.Cli.NumericOptions
import NocapCrypt.Cli.Validate

/-! A whole process, from its command line to its exit code: `crates/nocap-crypt-cli/src/{lib,exitcode,redpill,
reporter_setup}.rs`, `crates/nocap-crypt-cli/src/cmd/info.rs` and `crates/nocap-crypt-sysinfo`. -/

namespace NocapCrypt.Cli

open NocapCrypt.Library.Commands NocapCrypt.Core NocapCrypt.BlockIo NocapCrypt.KeyMgmt NocapCrypt.Worker Cmd

inductive LogFormatArg where
  | text
  | json
  deriving DecidableEq, Repr

inductive AlignAction where
  | check (args : AlignCheckArgs)
  | fix (args : AlignFixArgs)

inductive Command where
  | image (action : ImageAction)
  | keygen (args : KeygenArgs)
  | keycheck (args : KeycheckArgs)
  | inspect (args : InspectArgs)
  | validate (args : ValidateArgs)
  | entropy (args : EntropyArgs)
  | align (action : AlignAction)
  | bench (args : BenchArgs)
  | info
  | completions (shell : Completions.Shell)

/-- `Cli`, without `--no-color`. -/
structure CommandLine where
  quiet : Bool
  verbose : Bool
  didactic : Bool
  governance : Bool
  ci : Bool
  logFormat : LogFormatArg
  redpill : Bool
  command : Option Command

/-- The implementations of the trait `Reporter`. -/
inductive ReporterKind where
  | silent
  | verbose
  | didactic
  | corporate
  | ci
  deriving DecidableEq, Repr

namespace ReporterKind

def narrates : ReporterKind → Bool
  | .didactic => true
  | .silent | .verbose | .corporate | .ci => false

def ciMode : ReporterKind → Bool
  | .ci => true
  | .silent | .verbose | .didactic | .corporate => false

def progressFlavor : ReporterKind → ProgressFlavor
  | .didactic => .didactic
  | .corporate => .sterile
  | .silent | .verbose | .ci => .meme

def bootBanner : ReporterKind → Option String
  | .verbose => some ("\n".intercalate ["[!] INITIATING OPERATION: N O C A P",
      "[✓] Auditing Ring 0 Bureaucracy ... [ SWAMP DETECTED ]",
      "[✓] Bypassing dm-crypt cabal ...... [ BYPASSED ]",
      "[✓] Revoking CAP_SYS_ADMIN ........ [ PRIVILEGES STRIPPED ]",
      "[✓] MAKE USERSPACE GREAT AGAIN .... [ PATRIOT MODE ENGAGED ]"])
  | .corporate => some ("\n".intercalate ["============================================================",
      "ENTERPRISE CRYPTOGRAPHIC GOVERNANCE MODULE v1.0.4",
      "Compliance Standard: NIST SP 800-38E / FIPS 140-2 Aligned",
      "============================================================",
      "[INFO] Establishing Zero-Trust Userspace Perimeter..."])
  | .silent | .didactic | .ci => none

/-- `joke` is what the random choice among the registered jokes gives. -/
def corporateJoke (joke : String) : ReporterKind → Option String
  | .corporate => some joke
  | .silent | .verbose | .didactic | .ci => none

def reporter (kind : ReporterKind) (joke : String) : Reporter where
  narrates := kind.narrates
  bootBanner := kind.bootBanner
  corporateJoke := kind.corporateJoke joke
  progressFlavor := kind.progressFlavor
  ciMode := kind.ciMode

end ReporterKind

def buildReporter (quiet ci governance verbose didactic : Bool) : ReporterKind :=
  if quiet then .silent
  else if ci then .ci
  else if governance then .corporate
  else if didactic then .didactic
  else if verbose then .verbose
  else .verbose

structure HwAccelReport where
  targetArch : String
  cpuSupportsAesExtensions : Bool
  cpuSupportsVaes : Option Bool
  cryptoBackendUsesHardware : Bool
  activePathDescription : String

inductive Arch where
  | x86_64
  | aarch64
  | other (name : String)

/-- `aes` and `vaes` are what the processor is found to support. -/
def detectPlatform (arch : Arch) (aes vaes : Bool) : HwAccelReport :=
  match arch with
  | .x86_64 =>
    let path := match aes, vaes with
      | true, true => "AES-NI + VAES (hardware)"
      | true, false => "AES-NI (hardware)"
      | false, _ => "software (constant-time bitsliced fallback)"
    ⟨"x86_64", aes, some vaes, aes, path⟩
  | .aarch64 =>
    let path := if aes then
      "software (fixslicing) — CPU supports ARMv8 Crypto Extensions, but this build's crypto backend requires " ++
        "nightly to use them (stable-first policy)"
      else "software (fixslicing) — hardware AES unavailable on this CPU"
    ⟨"aarch64", aes, none, false, path⟩
  | .other name =>
    ⟨name, false, none, false,
      "software (constant-time fallback) — no hardware AES detection implemented for this architecture"⟩

structure BuildInfo where
  packageVersion : String
  targetArch : String
  targetOs : String
  gitSha : String

structure CryptoBackendInfo where
  backend : String
  cipherSpecsCompiledIn : List String

def cryptoBackendInfo : CryptoBackendInfo :=
  ⟨"RustCrypto aes/xts-mode/cbc/sha2 (pure Rust, no OpenSSL/libcrypto/ring linkage)",
    ["aes-xts-plain64", "aes-cbc-essiv:sha256"]⟩

structure SystemInfo where
  hwAccel : HwAccelReport
  build : BuildInfo
  cryptoBackend : CryptoBackendInfo

/-- What a process finds around it: third-party code and serializers, the operating system with its random bytes and
threads, the standard streams, the environment variables and the machine. -/
structure Surroundings where
  externals : Externals
  os : Os
  stdin : Except IoError Bytes
  answer : String
  stdoutFault : Option IoError
  joke : String
  transfer : Environment
  keygen : KeygenEnv
  sweep : BenchEnv
  kernel : ℕ → Answer
  texts : EnvConfig.Texts
  environment : EnvConfig.Env
  clapComplete : Completions.Shell → String → String
  inspectJson : InspectPayload → Option String
  infoJson : SystemInfo → Option String
  rendering : BenchReport
  arch : Arch
  aes : Bool
  vaes : Bool
  build : BuildInfo

def collect (around : Surroundings) : SystemInfo :=
  ⟨detectPlatform around.arch around.aes around.vaes, around.build, cryptoBackendInfo⟩

def runInfoImpl (info : SystemInfo) (infoJson : SystemInfo → Option String) (json : Bool) : Cmd ExitCode :=
  if json then
    match infoJson info with
    | some text => do
      report (.message text)
      pure .success
    | none => pure .success
  else do
    report (.hardwareAccelPath info.hwAccel.activePathDescription)
    let aes := boolText info.hwAccel.cpuSupportsAesExtensions
    let active := boolText info.hwAccel.cryptoBackendUsesHardware
    let arch := info.hwAccel.targetArch
    report (.message s!"arch: {arch}, cpu AES extensions: {aes}, backend hardware path active: {active}")
    let specs := ", ".intercalate info.cryptoBackend.cipherSpecsCompiledIn
    report (.message s!"crypto backend: {info.cryptoBackend.backend} (ciphers: {specs})")
    let target := info.build.targetArch ++ "-" ++ info.build.targetOs
    report (.message s!"build: nocap-crypt {info.build.packageVersion} ({target}) — git {info.build.gitSha}")
    pure .success

def runCompletionsImpl (around : Surroundings) (shell : Completions.Shell) : Cmd ExitCode := do
  let written ← orPanic (Completions.generate around.clapComplete around.stdoutFault shell "nocap-crypt")
  let _ ← orFail (fun e => s!"writing completion script: {e.text}") .io written
  pure .success

/-- `run` of `redpill`; its text goes to the standard output past the reporter. -/
def runRedpill (answer : String) (quiet : Bool) : ExitCode :=
  if quiet then .success
  else if ((trim answer).toList.head?.getD 'r').toLower = 'b' then .generic
  else .success

section Run

variable (around : Surroundings) (kind : ReporterKind) (json showProgress : Bool)

def runOperation : EnvConfig.Operation → World → Outcome × World
  | .encrypt args =>
    runEncrypt around.externals around.os (kind.reporter around.joke) args showProgress around.transfer
  | .decrypt args =>
    runDecrypt around.externals around.os (kind.reporter around.joke) args showProgress around.transfer

/-- `run_from_env` once the variables are resolved. -/
def runResolved : Except String EnvConfig.Operation → World → Outcome × World
  | .ok operation => runOperation around kind showProgress operation
  | .error text => finish (fail text .invalidArgs)

def runSubcommand : Command → World → Outcome × World
  | .image action =>
    runImage around.externals around.os (kind.reporter around.joke) action showProgress around.transfer
  | .keygen args => runKeygen around.externals around.keygen kind.narrates args
  | .keycheck args => runKeycheck around.externals around.os args
  | .inspect args => runInspect around.externals.scores around.os around.inspectJson args json
  | .validate args => runValidate around.externals around.os args around.kernel
  | .entropy args => runEntropy around.externals.scores around.os around.stdin args
  | .align (.check args) => runCheck around.os args
  | .align (.fix args) => runFix around.os args
  | .bench args =>
    runBench around.externals around.os around.sweep kind.progressFlavor (showProgress && !kind.ciMode)
      around.rendering args json
  | .info => finish (runInfoImpl (collect around) around.infoJson json)
  | .completions shell => finish (runCompletionsImpl around shell)

def runCommand (ci : Bool) (command : Option Command) : World → Outcome × World :=
  match command with
  | some command => runSubcommand around kind json showProgress command
  | none =>
    if ci then runResolved around kind showProgress (EnvConfig.resolveFromEnv around.texts around.environment)
    else finish (fail ("a subcommand is required (or pass --ci with NOCAP_CRYPT_OPERATION set for " ++
      "standalone env-var-driven invocation)") .invalidArgs)

end Run

namespace CommandLine

variable (cli : CommandLine)

def json : Bool := cli.logFormat == .json

def reporterKind : ReporterKind := buildReporter cli.quiet cli.ci cli.governance cli.verbose cli.didactic

def showProgress : Bool := !cli.quiet && !cli.json

/-- The boss key and CI mode both win over the easter egg. -/
def takesRedpill : Bool := cli.redpill && !cli.governance && !cli.ci

end CommandLine

/-- `Event::Outcome`, without the clock reading. -/
structure OutcomeLine where
  success : Bool
  errorCode : String
  label : String
  deriving DecidableEq, Repr

namespace ExitCode

/-- The code has one digit, padded to three. -/
def errorCode (code : ExitCode) : String := s!"NC-00{code.code}"

def outcomeLabel : ExitCode → String
  | .success => "completed successfully"
  | .generic => "failed"
  | .invalidArgs => "invalid arguments"
  | .keyValidation => "key validation failed"
  | .entropyFailed => "entropy check failed"
  | .alignmentFailed => "alignment check failed"
  | .luksCompat => "LUKS/dm-crypt compatibility check failed"
  | .io => "I/O error"
  | .unsupportedCipher => "unsupported cipher or key length mismatch"

def outcomeLine (code : ExitCode) : OutcomeLine := ⟨code == .success, code.errorCode, code.outcomeLabel⟩

end ExitCode

/-- How a process has ended, what it leaves, and the line that closes its log. -/
structure Ended where
  outcome : Outcome
  world : World
  line : Option OutcomeLine

/-- The closing line is only reported where the command has returned, and only by the reporter of `--ci`. -/
def closingLine (kind : ReporterKind) : Outcome → Option OutcomeLine
  | .exit code => if kind.ciMode then some code.outcomeLine else none
  | .panic _ | .hang | .unscheduled => none

def CommandLine.run (cli : CommandLine) (around : Surroundings) (w : World) : Ended :=
  if cli.takesRedpill then ⟨.exit (runRedpill around.answer cli.quiet), w, none⟩
  else
    let ended := runCommand around cli.reporterKind cli.json cli.showProgress cli.ci cli.command w
    ⟨ended.1, ended.2, closingLine cli.reporterKind ended.1⟩

end NocapCrypt.Cli
