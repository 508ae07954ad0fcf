import NocapCrypt.Cli.Safety

/-! Key files and cipher arguments: `crates/nocap-crypt-cli/src/keyload.rs`. -/

namespace NocapCrypt.Cli

open NocapCrypt.Library.Commands NocapCrypt.Core NocapCrypt.BlockIo NocapCrypt.KeyMgmt

inductive KeyFormatArg where
  | auto
  | raw
  | hex
  | base64
  deriving DecidableEq, Repr

inductive CipherArg where
  | aesXtsPlain64
  | aesCbcEssivSha256
  deriving DecidableEq, Repr

def CipherArg.asStr : CipherArg → String
  | .aesXtsPlain64 => "aes-xts-plain64"
  | .aesCbcEssivSha256 => "aes-cbc-essiv:sha256"

def KeyFormatArg.resolve (codecs : Codecs) (data : Bytes) : KeyFormatArg → KeyFormat
  | .auto => detectFormat codecs data
  | .raw => .raw
  | .hex => .hex
  | .base64 => .base64

inductive KeyLoadError where
  | io (error : IoError)
  | parse (error : KeyParseError)
  deriving DecidableEq, Repr

def KeyLoadError.text : KeyLoadError → String
  | .io e => s!"reading key file: {e.text}"
  | .parse e => s!"parsing key material: {e.text}"

def keyOf (codecs : Codecs) (format : KeyFormatArg) (raw : Bytes) : Except KeyLoadError Bytes :=
  let fmt := format.resolve codecs raw
  (parseKey codecs raw fmt).mapError .parse

def keyIn (X : Externals) (fs : Fs) (path : Path) (format : KeyFormatArg) : Except KeyLoadError Bytes := do
  let raw ← (fs.read path).mapError .io
  keyOf X.codecs format raw

def loadKeyFile (X : Externals) (os : Os) (path : Path) (format : KeyFormatArg) :
    Cmd (Except KeyLoadError Bytes) := do
  match ← os.read .readKeyFile path with
  | .error e => pure (.error (.io e))
  | .ok raw => pure (keyOf X.codecs format raw)

def resolveCipherSpec (cipher : CipherArg) (keySizeBits : Option UInt16) : Except CipherSpecError CipherSpec := do
  let spec ← CipherSpec.parse cipher.asStr
  match keySizeBits with
  | some bits => spec.withAesBits bits
  | none => .ok spec

lemma resolveCipherSpec_supported {cipher : CipherArg} {keySize : Option UInt16} {spec : CipherSpec}
    (h : resolveCipherSpec cipher keySize = .ok spec) : spec.Supported := by
  unfold resolveCipherSpec at h
  cases hp : CipherSpec.parse cipher.asStr with
  | error e =>
    rw [hp] at h
    cases h
  | ok spec₀ =>
    rw [hp] at h
    cases keySize with
    | none =>
      cases h
      exact CipherSpec.parse_supported hp
    | some bits => exact CipherSpec.withAesBits_supported h

lemma loadKeyFile_ok {X : Externals} {os : Os} {path : Path} {format : KeyFormatArg} {w w' : World}
    {r : Except KeyLoadError Bytes} (h : loadKeyFile X os path format w = .ok r w') :
    w' = w ∧ ∀ key, r = .ok key → keyIn X w.fs path format = .ok key := by
  obtain ⟨answer, w₁, ha, h⟩ := bind_eq_ok.mp h
  obtain ⟨rfl, rfl⟩ := Os.read_eq_ok.mp ha
  cases hraw : os.refuses .readKeyFile (w.fs.read path) with
  | error e =>
    rw [hraw] at h
    obtain ⟨rfl, rfl⟩ := pure_eq_ok.mp h
    exact ⟨rfl, fun key hk => by cases hk⟩
  | ok raw =>
    rw [hraw] at h
    obtain ⟨rfl, rfl⟩ := pure_eq_ok.mp h
    refine ⟨rfl, ?_⟩
    intro key hk
    rw [keyIn, (Os.refuses_ok hraw).2]
    exact hk

lemma ensures_loadKeyFile {transfers : Bool} {I : World → Prop} (X : Externals) (os : Os) (path : Path)
    (format : KeyFormatArg) :
    Ensures I (Orderly transfers) (loadKeyFile X os path format) fun _ => True := by
  refine (ensures_read os .readKeyFile path).bind fun answer _ => ?_
  cases answer with
  | error e => exact Ensures.pure trivial
  | ok raw => exact Ensures.pure trivial

end NocapCrypt.Cli
