import NocapCrypt.Cli.Image
import NocapCrypt.KeyMgmt.Readings
import NocapCrypt.Library.Decimal

/-! Parameters from `NOCAP_CRYPT_*` variables: `crates/nocap-crypt-cli/src/env_config.rs`. -/

namespace NocapCrypt.Cli.EnvConfig

open NocapCrypt.Library.Decimal NocapCrypt.BlockIo NocapCrypt.KeyMgmt

inductive Operation where
  | encrypt (args : EncryptArgs)
  | decrypt (args : DecryptArgs)

/-- The values of the process environment are any bytes. -/
abbrev Env := String → Option Bytes

def toAsciiLowercase (s : String) : String := String.ofList (s.toList.map Char.toLower)

def eqIgnoreAsciiCase (s t : String) : Prop := toAsciiLowercase s = toAsciiLowercase t

instance (s t : String) : Decidable (eqIgnoreAsciiCase s t) := inferInstanceAs (Decidable (_ = _))

def defaultSmallFileThresholdBytes : UInt64 := 256 * 1024 * 1024

def parseU16 (s : String) : Except IntErrorKind UInt16 := (parseUnsigned (2 ^ 16) s).map UInt16.ofNat

def parseU64 (s : String) : Except IntErrorKind UInt64 := (parseUnsigned u64Size s).map UInt64.ofNat

/-- `{:?}` of a string, and `ValueEnum::from_str` of the two argument types. -/
structure Texts where
  debug : String → String
  keyFormatFromStr : String → Bool → Except String KeyFormatArg
  cipherFromStr : String → Bool → Except String CipherArg

def valueName : KeyFormatArg → String
  | .auto => "auto"
  | .raw => "raw"
  | .hex => "hex"
  | .base64 => "base64"

/-- With `ignore_case`, a derived `ValueEnum` accepts the names of its values in any ASCII case. -/
structure Texts.Documented (texts : Texts) : Prop where
  keyFormat : ∀ s v, texts.keyFormatFromStr s true = .ok v ↔ eqIgnoreAsciiCase s (valueName v)
  cipher : ∀ s v, texts.cipherFromStr s true = .ok v ↔ eqIgnoreAsciiCase s v.asStr

section Resolve

variable (texts : Texts) (env : Env)

/-- `std::env::var` fails both for an unset variable and for a value that is not Unicode, and `ok` drops the
difference. -/
def optional (name : String) : Option String := ((env name).bind fromUtf8).filter fun s => !s.isEmpty

def require (name : String) : Except String String :=
  match optional env name with
  | some s => .ok s
  | none => .error s!"{name} is required (and must be non-empty) for standalone `--ci` invocation"

def requirePath (name : String) : Except String Path := require env name

def optionalParsed {α : Type} (parse : String → Except IntErrorKind α) (name : String) : Except String (Option α) :=
  match optional env name with
  | some s => ((parse s).map some).mapError fun e => s!"{name}={texts.debug s} is not valid: {e.text}"
  | none => .ok none

def optionalBool (name : String) : Except String (Option Bool) :=
  match optional env name with
  | some s =>
    if toAsciiLowercase s ∈ ["1", "true", "yes"] then .ok (some true)
    else if toAsciiLowercase s ∈ ["0", "false", "no"] then .ok (some false)
    else .error s!"{name}={texts.debug s} is not a valid boolean (use 1/0, true/false, yes/no)"
  | none => .ok none

def optionalKeyFormat : Except String KeyFormatArg :=
  match optional env "NOCAP_CRYPT_KEY_FORMAT" with
  | some s => (texts.keyFormatFromStr s true).mapError fun e =>
      s!"NOCAP_CRYPT_KEY_FORMAT={texts.debug s} is not valid: {e}"
  | none => .ok .auto

def optionalCipher : Except String CipherArg :=
  match optional env "NOCAP_CRYPT_CIPHER" with
  | some s => (texts.cipherFromStr s true).mapError fun e => s!"NOCAP_CRYPT_CIPHER={texts.debug s} is not valid: {e}"
  | none => .ok .aesXtsPlain64

def encryptArgsFromEnv : Except String EncryptArgs := do
  let input ← requirePath env "NOCAP_CRYPT_INPUT"
  let output ← requirePath env "NOCAP_CRYPT_OUTPUT"
  let keyFile ← requirePath env "NOCAP_CRYPT_KEY_FILE"
  let keyFormat ← optionalKeyFormat texts env
  let cipher ← optionalCipher texts env
  let keySize ← optionalParsed texts env parseU16 "NOCAP_CRYPT_KEY_SIZE"
  let alignBlockSize ← optionalParsed texts env parseU64 "NOCAP_CRYPT_ALIGN_BLOCK_SIZE"
  let alignExtraBlock ← optionalParsed texts env parseU64 "NOCAP_CRYPT_ALIGN_EXTRA_BLOCK"
  let maxWorkers ← optionalParsed texts env parseU64 "NOCAP_CRYPT_MAX_WORKERS"
  let smallFileThreshold ← optionalParsed texts env parseU64 "NOCAP_CRYPT_SMALL_FILE_THRESHOLD"
  let pinToSubmissionThread ← optionalBool texts env "NOCAP_CRYPT_PIN_TO_SUBMISSION_THREAD"
  pure {
    input, output, keyFile, keyFormat, cipher, keySize
    alignBlockSize := alignBlockSize.getD 4096
    alignExtraBlock := alignExtraBlock.getD 1
    maxWorkers
    smallFileThreshold := smallFileThreshold.getD defaultSmallFileThresholdBytes
    pinToSubmissionThread := pinToSubmissionThread.getD false
    dryRunCryptsetupCompat := false }

def decryptArgsFromEnv : Except String DecryptArgs := do
  let input ← requirePath env "NOCAP_CRYPT_INPUT"
  let output ← requirePath env "NOCAP_CRYPT_OUTPUT"
  let keyFile ← requirePath env "NOCAP_CRYPT_KEY_FILE"
  let keyFormat ← optionalKeyFormat texts env
  let cipher ← optionalCipher texts env
  let keySize ← optionalParsed texts env parseU16 "NOCAP_CRYPT_KEY_SIZE"
  let maxWorkers ← optionalParsed texts env parseU64 "NOCAP_CRYPT_MAX_WORKERS"
  let smallFileThreshold ← optionalParsed texts env parseU64 "NOCAP_CRYPT_SMALL_FILE_THRESHOLD"
  let pinToSubmissionThread ← optionalBool texts env "NOCAP_CRYPT_PIN_TO_SUBMISSION_THREAD"
  pure {
    input, output, keyFile, keyFormat, cipher, keySize, maxWorkers
    smallFileThreshold := smallFileThreshold.getD defaultSmallFileThresholdBytes
    pinToSubmissionThread := pinToSubmissionThread.getD false }

def resolveFromEnv : Except String Operation := do
  let operation ← require env "NOCAP_CRYPT_OPERATION"
  if operation = "encrypt" then .encrypt <$> encryptArgsFromEnv texts env
  else if operation = "decrypt" then .decrypt <$> decryptArgsFromEnv texts env
  else
    .error (s!"NOCAP_CRYPT_OPERATION={texts.debug operation} is not yet supported for standalone `--ci` " ++
      s!"invocation (supported: encrypt, decrypt) — run with an explicit subcommand " ++
      s!"instead, e.g. `nocap-crypt --ci {operation} ...`")

end Resolve

end NocapCrypt.Cli.EnvConfig
