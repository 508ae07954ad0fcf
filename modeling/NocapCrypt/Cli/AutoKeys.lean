import NocapCrypt.Cli.Keyload
import NocapCrypt.KeyMgmt.Readings

/-! Loading a key with `--key-format auto`: the one reading of the file with the required length. -/

namespace NocapCrypt.Cli

open NocapCrypt.Library.Commands NocapCrypt.Core NocapCrypt.BlockIo NocapCrypt.KeyMgmt

variable {X : Externals} {os : Os} {path : Path} {w w' : World}

lemma requiredKeyBytes_of_supported {spec : CipherSpec} (h : spec.Supported) :
    spec.requiredKeyBytes = 32 ∨ spec.requiredKeyBytes = 64 := by
  obtain ⟨mode, bits⟩ := spec
  cases mode <;> cases bits <;> simp_all [CipherSpec.Supported, CipherSpec.requiredKeyBytes, AesKeyBits.bytes]

lemma loadKeyFile_reading {format : KeyFormatArg} {key : Bytes}
    (h : loadKeyFile X os path format w = .ok (.ok key) w') :
    ∃ data, w.fs.read path = .ok data ∧ parseKey X.codecs data (format.resolve X.codecs data) = .ok key := by
  have hk := (loadKeyFile_ok h).2 key rfl
  rw [keyIn] at hk
  cases hr : w.fs.read path with
  | error e =>
    rw [hr] at hk
    cases hk
  | ok data =>
    rw [hr] at hk
    refine ⟨data, rfl, ?_⟩
    change (parseKey X.codecs data _).mapError _ = _ at hk
    cases hp : parseKey X.codecs data (format.resolve X.codecs data) with
    | error e =>
      rw [hp] at hk
      cases hk
    | ok k =>
      rw [hp] at hk
      cases hk
      rfl

lemma loadKeyFile_eq {format : KeyFormatArg} {data : Bytes} (hos : os.fault .readKeyFile = none)
    (h : w.fs.read path = .ok data) : loadKeyFile X os path format w = .ok (keyOf X.codecs format data) w := by
  have hread : os.read .readKeyFile path w = .ok (.ok data) w := by rw [Os.read, Os.refuses, hos, h]
  rw [loadKeyFile, bind_ok hread]
  rfl

/-- `validate_key` lets the key pass. -/
def Valid (X : Externals) (spec : CipherSpec) (key : Bytes) : Prop :=
  ∃ report, validateKey X.scores spec key = .ok report

lemma Valid.length {spec : CipherSpec} {key : Bytes} (h : Valid X spec key) : key.length = spec.requiredKeyBytes := by
  obtain ⟨report, hr⟩ := h
  exact validateKey_length hr

theorem auto_key_unique (X : Externals) (hc : X.codecs.Documented) (cipher : CipherArg) (keySize : Option UInt16)
    {spec : CipherSpec} (hspec : resolveCipherSpec cipher keySize = .ok spec) :
    (spec.requiredKeyBytes = 32 ∨ spec.requiredKeyBytes = 64) ∧
    (∀ data f g a b, parseKey X.codecs data f = .ok a → parseKey X.codecs data g = .ok b →
      a.length = spec.requiredKeyBytes → b.length = spec.requiredKeyBytes → f = g) ∧
    (∀ os os' path w w₁ w₂ format auto key, loadKeyFile X os path .auto w = .ok (.ok auto) w₁ → Valid X spec auto →
      loadKeyFile X os' path format w = .ok (.ok key) w₂ → Valid X spec key → key = auto) ∧
    (∀ os path w w' data key, w.fs.read path = .ok data → data.length = spec.requiredKeyBytes →
      loadKeyFile X os path .auto w = .ok (.ok key) w' → Valid X spec key → key = data) ∧
    ∀ os path w spelling key before after, os.fault .readKeyFile = none → key.length = spec.requiredKeyBytes →
      (∀ c ∈ before, isWhitespace c = true) → (∀ c ∈ after, isWhitespace c = true) →
      w.fs.read path = .ok (spelled spelling key before after) →
      loadKeyFile X os path .auto w = .ok (.ok key) w := by
  have hr := requiredKeyBytes_of_supported (resolveCipherSpec_supported hspec)
  have hunique : ∀ data f g a b, parseKey X.codecs data f = .ok a → parseKey X.codecs data g = .ok b →
      a.length = spec.requiredKeyBytes → b.length = spec.requiredKeyBytes → f = g :=
    fun data f g a b hf hg ha hb => parseKey_unique hc hr hf hg ha hb
  refine ⟨hr, hunique, ?_, ?_, ?_⟩
  · intro os os' path w w₁ w₂ format auto key hauto hva hkey hvk
    obtain ⟨data, hd, ha⟩ := loadKeyFile_reading hauto
    obtain ⟨data', hd', hk⟩ := loadKeyFile_reading hkey
    rw [hd] at hd'
    cases hd'
    have hformat := hunique _ _ _ _ _ ha hk hva.length hvk.length
    rw [hformat, hk] at ha
    cases ha
    rfl
  · intro os path w w' data key hread hdata hload hvalid
    obtain ⟨data', hd, hk⟩ := loadKeyFile_reading hload
    rw [hread] at hd
    cases hd
    have hformat := hunique _ _ .raw _ _ hk rfl hvalid.length hdata
    rw [hformat] at hk
    cases hk
    rfl
  · intro os path w spelling key before after hos hlen hb ha hread
    have hmod : key.length % 3 ≠ 0 := by
      rcases hr with hr | hr <;> rw [hlen, hr] <;> decide
    rw [loadKeyFile_eq hos hread, keyOf, KeyFormatArg.resolve, detectFormat_spelled hc spelling hmod hb ha,
      parseKey_spelled hc spelling key hb ha]
    rfl

def keyTextExternals : Externals := { sampleExternals with codecs := sampleCodecs }

/-- The sample files, with the key spelled out in base64 and ended by a newline. -/
def keyTextWorld : World :=
  { sampleWorld with
    fs := { sampleFs with
      node := fun i => if i = 1 then .regular (spelled .base64 sampleKey [] ['\n']) else sampleFs.node i } }

theorem auto_key_unique_sample :
    loadKeyFile keyTextExternals sampleOs "key.bin" .auto keyTextWorld = .ok (.ok sampleKey) keyTextWorld := by
  have hspec : resolveCipherSpec .aesCbcEssivSha256 none = .ok ⟨.cbcEssivSha256, .bits256⟩ := by decide
  obtain ⟨-, -, -, -, hspelled⟩ :=
    auto_key_unique keyTextExternals sampleCodecs_documented .aesCbcEssivSha256 none hspec
  have hread : keyTextWorld.fs.read "key.bin" = .ok (spelled .base64 sampleKey [] ['\n']) := by
    simp [keyTextWorld, sampleWorld, sampleFs, Fs.read, Fs.disk, Node.contents]
  exact hspelled sampleOs "key.bin" keyTextWorld .base64 sampleKey [] ['\n'] rfl (by decide) (by simp)
    (by simp [isWhitespace]) hread

end NocapCrypt.Cli
