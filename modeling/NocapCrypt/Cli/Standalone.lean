import NocapCrypt.Cli.Contract
import NocapCrypt.Cli.EnvHeeded

/-! What can be said with environment variables: every run of `encrypt` and `decrypt` but for a dry run, and nothing
else. -/

namespace NocapCrypt.Cli

open NocapCrypt.Library.Commands NocapCrypt.Library.Decimal NocapCrypt.BlockIo NocapCrypt.KeyMgmt

namespace EnvConfig

section Texts

/-- The text of a setting as a user would write it. -/
def Settings.text (c : Settings) : Var → Option String
  | .operation => some c.operation
  | .input => some c.input
  | .output => some c.output
  | .keyFile => some c.keyFile
  | .keyFormat => some (valueName c.keyFormat)
  | .cipher => some c.cipher.asStr
  | .keySize => c.keySize.map fun n => n.toNat.repr
  | .alignBlockSize => (c.alignment.map Prod.fst).map fun n => n.toNat.repr
  | .alignExtraBlock => (c.alignment.map Prod.snd).map fun n => n.toNat.repr
  | .maxWorkers => c.maxWorkers.map fun n => n.toNat.repr
  | .smallFileThreshold => some c.smallFileThreshold.toNat.repr
  | .pinToSubmissionThread => some (if c.pinToSubmissionThread then "true" else "false")

def Settings.env (c : Settings) : Env := fun name =>
  (encryptVars.find? (·.name = name)).bind fun v => (c.text v).map utf8

def Operation.Expressible : Operation → Prop
  | .encrypt args => args.input ≠ "" ∧ args.output ≠ "" ∧ args.keyFile ≠ "" ∧ args.dryRunCryptsetupCompat = false
  | .decrypt args => args.input ≠ "" ∧ args.output ≠ "" ∧ args.keyFile ≠ ""

variable {c : Settings} {v : Var} {s : String}

lemma repr_ne_empty (n : ℕ) : n.repr ≠ "" := by
  intro h
  have hlist := congrArg String.toList h
  rw [Nat.toList_repr] at hlist
  exact Nat.toDigits_ne_nil hlist

lemma env_name (c : Settings) (v : Var) : c.env v.name = (c.text v).map utf8 := by
  have hfind : encryptVars.find? (·.name = v.name) = some v := by cases v <;> decide
  rw [Settings.env, hfind]
  rfl

lemma optional_env (htext : c.text v = some s) (hne : s ≠ "") : optional c.env v.name = some s := by
  rw [optional, env_name, htext, Option.map_some, Option.bind_some, fromUtf8_utf8]
  exact Option.filter_eq_some_iff.mpr ⟨rfl, by simpa using hne⟩

lemma optional_env_none (htext : c.text v = none) : optional c.env v.name = none := by
  rw [optional, env_name, htext]
  rfl

lemma requirePath_env (htext : c.text v = some s) (hne : s ≠ "") : requirePath c.env v.name = .ok s := by
  rw [requirePath, require, optional_env htext hne]

variable (texts : Texts)

lemma optionalParsed_env {α : Type} {parse : String → Except IntErrorKind α} {value : Option α} {toNat : α → ℕ}
    (htext : c.text v = value.map fun n => (toNat n).repr) (hparse : ∀ n, parse (toNat n).repr = .ok n) :
    optionalParsed texts c.env parse v.name = .ok value := by
  rw [optionalParsed]
  cases value with
  | none => rw [optional_env_none htext]
  | some n =>
    rw [optional_env htext (repr_ne_empty _)]
    simp only [hparse]
    rfl

lemma parseU16_repr (n : UInt16) : parseU16 n.toNat.repr = .ok n := by
  rw [parseU16, (parseUnsigned_ok (by decide)).mpr ⟨n.toNat_lt, numeral_repr _⟩]
  exact congrArg Except.ok UInt16.ofNat_toNat

lemma parseU64_repr (n : UInt64) : parseU64 n.toNat.repr = .ok n := by
  have hlt : n.toNat < u64Size := n.toNat_lt
  rw [parseU64, (parseUnsigned_ok (by decide)).mpr ⟨hlt, numeral_repr _⟩]
  exact congrArg Except.ok UInt64.ofNat_toNat

lemma optionalBool_env (c : Settings) :
    optionalBool texts c.env "NOCAP_CRYPT_PIN_TO_SUBMISSION_THREAD" = .ok (some c.pinToSubmissionThread) := by
  have hne : (if c.pinToSubmissionThread then "true" else "false") ≠ "" := by cases c.pinToSubmissionThread <;> decide
  have hname : optional c.env "NOCAP_CRYPT_PIN_TO_SUBMISSION_THREAD" =
      some (if c.pinToSubmissionThread then "true" else "false") :=
    optional_env (v := .pinToSubmissionThread) rfl hne
  rw [optionalBool, hname]
  cases c.pinToSubmissionThread with
  | true => exact if_pos (by decide)
  | false => exact (if_neg (by decide)).trans (if_pos (by decide))

variable {texts}

lemma optionalKeyFormat_env (hdoc : texts.Documented) (c : Settings) :
    optionalKeyFormat texts c.env = .ok c.keyFormat := by
  have hne : valueName c.keyFormat ≠ "" := by cases c.keyFormat <;> decide
  have hname : optional c.env "NOCAP_CRYPT_KEY_FORMAT" = some (valueName c.keyFormat) :=
    optional_env (v := .keyFormat) rfl hne
  have hparse := (hdoc.keyFormat (valueName c.keyFormat) c.keyFormat).mpr rfl
  rw [optionalKeyFormat, hname]
  simp only [hparse]
  rfl

lemma optionalCipher_env (hdoc : texts.Documented) (c : Settings) : optionalCipher texts c.env = .ok c.cipher := by
  have hne : c.cipher.asStr ≠ "" := by cases c.cipher <;> decide
  have hname : optional c.env "NOCAP_CRYPT_CIPHER" = some c.cipher.asStr := optional_env (v := .cipher) rfl hne
  have hparse := (hdoc.cipher c.cipher.asStr c.cipher).mpr rfl
  rw [optionalCipher, hname]
  simp only [hparse]
  rfl

end Texts

section Resolved

variable {texts : Texts} (c : Settings)

lemma keySize_env : optionalParsed texts c.env parseU16 "NOCAP_CRYPT_KEY_SIZE" = .ok c.keySize :=
  optionalParsed_env texts (v := .keySize) rfl parseU16_repr

lemma alignBlockSize_env : optionalParsed texts c.env parseU64 "NOCAP_CRYPT_ALIGN_BLOCK_SIZE" =
    .ok (c.alignment.map Prod.fst) :=
  optionalParsed_env texts (v := .alignBlockSize) rfl parseU64_repr

lemma alignExtraBlock_env : optionalParsed texts c.env parseU64 "NOCAP_CRYPT_ALIGN_EXTRA_BLOCK" =
    .ok (c.alignment.map Prod.snd) :=
  optionalParsed_env texts (v := .alignExtraBlock) rfl parseU64_repr

lemma maxWorkers_env : optionalParsed texts c.env parseU64 "NOCAP_CRYPT_MAX_WORKERS" = .ok c.maxWorkers :=
  optionalParsed_env texts (v := .maxWorkers) rfl parseU64_repr

lemma smallFileThreshold_env : optionalParsed texts c.env parseU64 "NOCAP_CRYPT_SMALL_FILE_THRESHOLD" =
    .ok (some c.smallFileThreshold) := by
  have htext : c.text .smallFileThreshold = (some c.smallFileThreshold).map fun n => n.toNat.repr := rfl
  exact optionalParsed_env texts (v := .smallFileThreshold) htext parseU64_repr

variable {c}

lemma encryptArgsFromEnv_env (hdoc : texts.Documented) {args : EncryptArgs} (h : (Operation.encrypt args).Expressible) :
    encryptArgsFromEnv texts (Operation.encrypt args).settings.env = .ok args := by
  obtain ⟨hinput, houtput, hkeyFile, hdry⟩ := h
  have hinput : requirePath (Operation.encrypt args).settings.env "NOCAP_CRYPT_INPUT" = .ok args.input :=
    requirePath_env (v := .input) rfl hinput
  have houtput : requirePath (Operation.encrypt args).settings.env "NOCAP_CRYPT_OUTPUT" = .ok args.output :=
    requirePath_env (v := .output) rfl houtput
  have hkeyFile : requirePath (Operation.encrypt args).settings.env "NOCAP_CRYPT_KEY_FILE" = .ok args.keyFile :=
    requirePath_env (v := .keyFile) rfl hkeyFile
  rw [encryptArgsFromEnv, hinput, houtput, hkeyFile, optionalKeyFormat_env hdoc, optionalCipher_env hdoc, keySize_env,
    alignBlockSize_env, alignExtraBlock_env, maxWorkers_env, smallFileThreshold_env, optionalBool_env]
  change Except.ok { args with dryRunCryptsetupCompat := false } = _
  rw [← hdry]

lemma decryptArgsFromEnv_env (hdoc : texts.Documented) {args : DecryptArgs} (h : (Operation.decrypt args).Expressible) :
    decryptArgsFromEnv texts (Operation.decrypt args).settings.env = .ok args := by
  obtain ⟨hinput, houtput, hkeyFile⟩ := h
  have hinput : requirePath (Operation.decrypt args).settings.env "NOCAP_CRYPT_INPUT" = .ok args.input :=
    requirePath_env (v := .input) rfl hinput
  have houtput : requirePath (Operation.decrypt args).settings.env "NOCAP_CRYPT_OUTPUT" = .ok args.output :=
    requirePath_env (v := .output) rfl houtput
  have hkeyFile : requirePath (Operation.decrypt args).settings.env "NOCAP_CRYPT_KEY_FILE" = .ok args.keyFile :=
    requirePath_env (v := .keyFile) rfl hkeyFile
  rw [decryptArgsFromEnv, hinput, houtput, hkeyFile, optionalKeyFormat_env hdoc, optionalCipher_env hdoc, keySize_env,
    maxWorkers_env, smallFileThreshold_env, optionalBool_env]
  rfl

lemma resolveFromEnv_env (hdoc : texts.Documented) {op : Operation} (h : op.Expressible) :
    resolveFromEnv texts op.settings.env = .ok op := by
  cases op with
  | encrypt args =>
    have hname : require (Operation.encrypt args).settings.env "NOCAP_CRYPT_OPERATION" = .ok "encrypt" :=
      requirePath_env (v := .operation) rfl (by decide)
    rw [resolveFromEnv, hname, encryptArgsFromEnv_env hdoc h]
    rfl
  | decrypt args =>
    have hname : require (Operation.decrypt args).settings.env "NOCAP_CRYPT_OPERATION" = .ok "decrypt" :=
      requirePath_env (v := .operation) rfl (by decide)
    rw [resolveFromEnv, hname, decryptArgsFromEnv_env hdoc h]
    rfl

variable {env : Env}

lemma yields_required (name : String) : Yields (fun _ => True) (requirePath env name) fun path => path ≠ "" := by
  rw [requirePath, require]
  cases ho : optional env name with
  | none => trivial
  | some s =>
    have hne : (!s.isEmpty) = true := (Option.filter_eq_some_iff.mp ho).2
    exact fun h => by simp [h] at hne

lemma yields_encryptArgs_expressible :
    Yields (fun _ => True) (encryptArgsFromEnv texts env) fun args => (Operation.encrypt args).Expressible := by
  refine (yields_required _).bind fun input hinput => ?_
  refine (yields_required _).bind fun output houtput => ?_
  refine (yields_required _).bind fun keyFile hkeyFile => ?_
  refine (Yields.any _).bind fun keyFormat _ => ?_
  refine (Yields.any _).bind fun cipher _ => ?_
  refine (Yields.any _).bind fun keySize _ => ?_
  refine (Yields.any _).bind fun alignBlockSize _ => ?_
  refine (Yields.any _).bind fun alignExtraBlock _ => ?_
  refine (Yields.any _).bind fun maxWorkers _ => ?_
  refine (Yields.any _).bind fun smallFileThreshold _ => ?_
  refine (Yields.any _).bind fun pinToSubmissionThread _ => ?_
  exact ⟨hinput, houtput, hkeyFile, rfl⟩

lemma yields_decryptArgs_expressible :
    Yields (fun _ => True) (decryptArgsFromEnv texts env) fun args => (Operation.decrypt args).Expressible := by
  refine (yields_required _).bind fun input hinput => ?_
  refine (yields_required _).bind fun output houtput => ?_
  refine (yields_required _).bind fun keyFile hkeyFile => ?_
  refine (Yields.any _).bind fun keyFormat _ => ?_
  refine (Yields.any _).bind fun cipher _ => ?_
  refine (Yields.any _).bind fun keySize _ => ?_
  refine (Yields.any _).bind fun maxWorkers _ => ?_
  refine (Yields.any _).bind fun smallFileThreshold _ => ?_
  refine (Yields.any _).bind fun pinToSubmissionThread _ => ?_
  exact ⟨hinput, houtput, hkeyFile⟩

lemma resolveFromEnv_expressible {op : Operation} (h : resolveFromEnv texts env = .ok op) : op.Expressible := by
  have hyields : Yields (fun _ => True) (resolveFromEnv texts env) Operation.Expressible := by
    refine (Yields.any _).bind fun operation _ => ?_
    split
    · exact yields_encryptArgs_expressible.map fun _ h => h
    · split
      · exact yields_decryptArgs_expressible.map fun _ h => h
      · trivial
  exact hyields.of_ok h

end Resolved

end EnvConfig

namespace CommandLine

variable (cli : CommandLine)

/-- `--ci` without a subcommand. -/
def standalone : CommandLine := { cli with ci := true, command := none }

def withOperation (op : EnvConfig.Operation) : CommandLine :=
  { cli with ci := true, command := some (.image op.action) }

end CommandLine

section Standalone

variable {cli : CommandLine} {around : Surroundings} {env : EnvConfig.Env} {op : EnvConfig.Operation} {w : World}

lemma takesRedpill_ci (command : Option Command) :
    { cli with ci := true, command := command }.takesRedpill = false := by
  rw [CommandLine.takesRedpill, Bool.not_true, Bool.and_false]

lemma run_standalone_ok (h : EnvConfig.resolveFromEnv around.texts env = .ok op) (w : World) :
    cli.standalone.run { around with environment := env } w = (cli.withOperation op).run around w := by
  have hstandalone : cli.standalone.effective { around with environment := env } = some (.image op.action) := by
    rw [CommandLine.effective, CommandLine.standalone, takesRedpill_ci]
    simp only [h]
    rfl
  have hoperation : (cli.withOperation op).effective around = some (.image op.action) := by
    rw [CommandLine.effective, CommandLine.withOperation, takesRedpill_ci]
    rfl
  rw [run_effective hstandalone, run_effective hoperation]
  rfl

lemma run_standalone_error {text : String} (h : EnvConfig.resolveFromEnv around.texts env = .error text) (w : World) :
    (cli.standalone.run { around with environment := env } w).outcome = .exit .invalidArgs ∧
      (cli.standalone.run { around with environment := env } w).world.fs = w.fs := by
  rw [CommandLine.run, CommandLine.standalone, takesRedpill_ci]
  simp only [runCommand, h]
  exact ⟨rfl, rfl⟩

end Standalone

/-- Without a subcommand, `--ci` can be made to do exactly what it does with `encrypt` or `decrypt` and any paths and
options but for an empty path and a dry run; and whatever the variables hold, it does that or touches nothing. -/
theorem standalone_matches (cli : CommandLine) (around : Surroundings) (hdoc : around.texts.Documented) :
    (∀ op : EnvConfig.Operation, op.Expressible → ∃ env : EnvConfig.Env, ∀ w,
        cli.standalone.run { around with environment := env } w = (cli.withOperation op).run around w) ∧
      ∀ env : EnvConfig.Env,
        (∃ op : EnvConfig.Operation, op.Expressible ∧ ∀ w,
          cli.standalone.run { around with environment := env } w = (cli.withOperation op).run around w) ∨
        ∀ w, (cli.standalone.run { around with environment := env } w).outcome = .exit .invalidArgs ∧
          (cli.standalone.run { around with environment := env } w).world.fs = w.fs := by
  constructor
  · intro op hop
    exact ⟨op.settings.env, run_standalone_ok (EnvConfig.resolveFromEnv_env hdoc hop)⟩
  · intro env
    cases hresolved : EnvConfig.resolveFromEnv around.texts env with
    | ok op => exact Or.inl ⟨op, EnvConfig.resolveFromEnv_expressible hresolved, run_standalone_ok hresolved⟩
    | error text => exact Or.inr (run_standalone_error hresolved)

theorem standalone_matches_sample : ∃ env : EnvConfig.Env,
    (sampleCommandLine true .info).standalone.run
        { sampleSurroundings with texts := EnvConfig.sampleTexts, environment := env } sampleWorld =
      ((sampleCommandLine true .info).withOperation (.encrypt sampleEncryptArgs)).run
        { sampleSurroundings with texts := EnvConfig.sampleTexts } sampleWorld := by
  obtain ⟨env, h⟩ := (standalone_matches (sampleCommandLine true .info)
    { sampleSurroundings with texts := EnvConfig.sampleTexts } EnvConfig.sampleTexts_documented).1
      (.encrypt sampleEncryptArgs) ⟨by decide, by decide, by decide, rfl⟩
  exact ⟨env, h sampleWorld⟩

end NocapCrypt.Cli
