import NocapCrypt.Cli.EnvConfig

/-! What becomes of the variables that a run without arguments reads: each shows in the arguments, has its default, or
is named in the error, but for values that are not Unicode. -/

namespace NocapCrypt.Cli.EnvConfig

open NocapCrypt.Library.Commands NocapCrypt.Library.Decimal NocapCrypt.BlockIo NocapCrypt.KeyMgmt

section Variables

inductive Var where
  | operation
  | input
  | output
  | keyFile
  | keyFormat
  | cipher
  | keySize
  | alignBlockSize
  | alignExtraBlock
  | maxWorkers
  | smallFileThreshold
  | pinToSubmissionThread
  deriving DecidableEq, Repr

def Var.name : Var → String
  | .operation => "NOCAP_CRYPT_OPERATION"
  | .input => "NOCAP_CRYPT_INPUT"
  | .output => "NOCAP_CRYPT_OUTPUT"
  | .keyFile => "NOCAP_CRYPT_KEY_FILE"
  | .keyFormat => "NOCAP_CRYPT_KEY_FORMAT"
  | .cipher => "NOCAP_CRYPT_CIPHER"
  | .keySize => "NOCAP_CRYPT_KEY_SIZE"
  | .alignBlockSize => "NOCAP_CRYPT_ALIGN_BLOCK_SIZE"
  | .alignExtraBlock => "NOCAP_CRYPT_ALIGN_EXTRA_BLOCK"
  | .maxWorkers => "NOCAP_CRYPT_MAX_WORKERS"
  | .smallFileThreshold => "NOCAP_CRYPT_SMALL_FILE_THRESHOLD"
  | .pinToSubmissionThread => "NOCAP_CRYPT_PIN_TO_SUBMISSION_THREAD"

def Var.required (v : Var) : Prop := v = .operation ∨ v = .input ∨ v = .output ∨ v = .keyFile

def decryptVars : List Var :=
  [.operation, .input, .output, .keyFile, .keyFormat, .cipher, .keySize, .maxWorkers, .smallFileThreshold,
    .pinToSubmissionThread]

def encryptVars : List Var := decryptVars ++ [.alignBlockSize, .alignExtraBlock]

/-- The variables that the chosen operation reads. -/
def varsRead (env : Env) : List Var :=
  if optional env "NOCAP_CRYPT_OPERATION" = some "encrypt" then encryptVars
  else if optional env "NOCAP_CRYPT_OPERATION" = some "decrypt" then decryptVars
  else [.operation]

def Boolean (s : String) (b : Bool) : Prop :=
  toAsciiLowercase s ∈ if b then ["1", "true", "yes"] else ["0", "false", "no"]

def WellFormed : Var → String → Prop
  | .operation, s => s = "encrypt" ∨ s = "decrypt"
  | .input, _ | .output, _ | .keyFile, _ => True
  | .keyFormat, s => ∃ v, eqIgnoreAsciiCase s (valueName v)
  | .cipher, s => ∃ v : CipherArg, eqIgnoreAsciiCase s v.asStr
  | .keySize, s => ∃ n < 2 ^ 16, Numeral s n
  | .alignBlockSize, s | .alignExtraBlock, s | .maxWorkers, s | .smallFileThreshold, s => ∃ n < u64Size, Numeral s n
  | .pinToSubmissionThread, s => ∃ b, Boolean s b

/-- The settings that the two kinds of arguments share, and the two that only `encrypt` has. -/
structure Settings where
  operation : String
  input : Path
  output : Path
  keyFile : Path
  keyFormat : KeyFormatArg
  cipher : CipherArg
  keySize : Option UInt16
  alignment : Option (UInt64 × UInt64)
  maxWorkers : Option UInt64
  smallFileThreshold : UInt64
  pinToSubmissionThread : Bool

def Operation.settings : Operation → Settings
  | .encrypt a => ⟨"encrypt", a.input, a.output, a.keyFile, a.keyFormat, a.cipher, a.keySize,
      some (a.alignBlockSize, a.alignExtraBlock), a.maxWorkers, a.smallFileThreshold, a.pinToSubmissionThread⟩
  | .decrypt a => ⟨"decrypt", a.input, a.output, a.keyFile, a.keyFormat, a.cipher, a.keySize, none, a.maxWorkers,
      a.smallFileThreshold, a.pinToSubmissionThread⟩

def Reflects (c : Settings) : Var → String → Prop
  | .operation, s => c.operation = s
  | .input, s => c.input = s
  | .output, s => c.output = s
  | .keyFile, s => c.keyFile = s
  | .keyFormat, s => eqIgnoreAsciiCase s (valueName c.keyFormat)
  | .cipher, s => eqIgnoreAsciiCase s c.cipher.asStr
  | .keySize, s => ∃ n, c.keySize = some n ∧ Numeral s n.toNat
  | .alignBlockSize, s => ∃ a, c.alignment = some a ∧ Numeral s a.1.toNat
  | .alignExtraBlock, s => ∃ a, c.alignment = some a ∧ Numeral s a.2.toNat
  | .maxWorkers, s => ∃ n, c.maxWorkers = some n ∧ Numeral s n.toNat
  | .smallFileThreshold, s => Numeral s c.smallFileThreshold.toNat
  | .pinToSubmissionThread, s => Boolean s c.pinToSubmissionThread

def Default (c : Settings) : Var → Prop
  | .operation | .input | .output | .keyFile => False
  | .keyFormat => c.keyFormat = .auto
  | .cipher => c.cipher = .aesXtsPlain64
  | .keySize => c.keySize = none
  | .alignBlockSize => ∃ a, c.alignment = some a ∧ a.1 = 4096
  | .alignExtraBlock => ∃ a, c.alignment = some a ∧ a.2 = 1
  | .maxWorkers => c.maxWorkers = none
  | .smallFileThreshold => c.smallFileThreshold = defaultSmallFileThresholdBytes
  | .pinToSubmissionThread => c.pinToSubmissionThread = false

variable (env : Env)

def IsSet (v : Var) (value : Bytes) : Prop := env v.name = some value ∧ value ≠ []

def Unset (v : Var) : Prop := env v.name = none ∨ env v.name = some []

/-- A required variable is missing or empty, or the value is malformed; one that is not Unicode is. -/
def Bad (v : Var) : Prop :=
  (v.required ∧ Unset env v) ∨ ∃ value, IsSet env v value ∧ ∀ s, fromUtf8 value = some s → ¬ WellFormed v s

/-- No variable of the operation is ignored: with `Ok` every one that is set shows in the arguments and the others
have their defaults, and a bad one gives an `Err` that names a bad one. -/
def Heeded (result : Except String Operation) : Prop :=
  (∀ op, result = .ok op → ∀ v ∈ varsRead env,
    (∀ value, IsSet env v value → ∃ s, fromUtf8 value = some s ∧ Reflects op.settings v s) ∧
      (Unset env v → Default op.settings v)) ∧
  ((∃ v ∈ varsRead env, Bad env v) →
    ∃ text, result = .error text ∧ ∃ v ∈ varsRead env, Bad env v ∧ v.name.toList <:+: text.toList)

end Variables

section Readers

variable (env : Env)

/-- What the code turns down: a required variable under whose name it finds nothing, or a text that is malformed. -/
def Rejected (v : Var) : Prop :=
  match optional env v.name with
  | some s => ¬ WellFormed v s
  | none => v.required

def Blames (vars : List Var) (text : String) : Prop :=
  ∃ v ∈ vars, Rejected env v ∧ v.name.toList <:+: text.toList

def Reads (v : Var) (reflects : String → Prop) (default : Prop) : Prop :=
  match optional env v.name with
  | some s => WellFormed v s ∧ reflects s
  | none => ¬ v.required ∧ default

variable {env} {v : Var} {vars : List Var}

lemma Reads.imp {reflects reflects' : String → Prop} {default default' : Prop} (h : Reads env v reflects default)
    (hr : ∀ s, reflects s → reflects' s) (hd : default → default') : Reads env v reflects' default' := by
  unfold Reads at h ⊢
  split at h
  · exact ⟨h.1, hr _ h.2⟩
  · exact ⟨h.1, hd h.2⟩

lemma Reads.getD {α : Type} {value : Option α} {reflects : α → String → Prop}
    (h : Reads env v (fun s => ∃ a, value = some a ∧ reflects a s) (value = none)) (d : α) :
    Reads env v (reflects (value.getD d)) (value.getD d = d) := by
  apply h.imp
  · rintro s ⟨a, rfl, hr⟩
    exact hr
  · rintro rfl
    rfl

lemma Reads.not_rejected {reflects : String → Prop} {default : Prop} (h : Reads env v reflects default) :
    ¬ Rejected env v := by
  unfold Reads at h
  unfold Rejected
  split at h
  · exact fun hr => hr h.1
  · exact h.1

lemma yields_reads {α : Type} {r : Except String α} {reflects : α → String → Prop} {default : α → Prop} (hv : v ∈ vars)
    (hsome : ∀ s, optional env v.name = some s →
      Yields (fun text => ¬ WellFormed v s ∧ v.name.toList <+: text.toList) r fun a => WellFormed v s ∧ reflects a s)
    (hnone : optional env v.name = none →
      Yields (fun text => v.required ∧ v.name.toList <+: text.toList) r fun a => ¬ v.required ∧ default a) :
    Yields (Blames env vars) r fun a => Reads env v (reflects a) (default a) := by
  unfold Blames Reads Rejected
  cases ho : optional env v.name with
  | some s =>
    cases r with
    | ok a => exact hsome s ho
    | error text =>
      refine ⟨v, hv, ?_, (hsome s ho).2.isInfix⟩
      rw [ho]
      exact (hsome s ho).1
  | none =>
    cases r with
    | ok a => exact hnone ho
    | error text =>
      refine ⟨v, hv, ?_, (hnone ho).2.isInfix⟩
      rw [ho]
      exact (hnone ho).1

lemma yields_requirePath (hv : v ∈ vars) (hreq : v.required) (hw : ∀ s, WellFormed v s) :
    Yields (Blames env vars) (requirePath env v.name) fun path => Reads env v (path = ·) False := by
  apply yields_reads hv
  · intro s ho
    rw [requirePath, require, ho]
    exact ⟨hw s, rfl⟩
  · intro ho
    rw [requirePath, require, ho]
    refine ⟨hreq, ?_⟩
    simp only [String.toList_append]
    exact List.prefix_append _ _

variable (texts : Texts)

lemma yields_optionalParsed {α : Type} {parse : String → Except IntErrorKind α} {reflects : α → String → Prop}
    (hv : v ∈ vars) (hreq : ¬ v.required)
    (hparse : ∀ s, Yields (fun _ => ¬ WellFormed v s) (parse s) fun a => WellFormed v s ∧ reflects a s) :
    Yields (Blames env vars) (optionalParsed texts env parse v.name) fun value =>
      Reads env v (fun s => ∃ a, value = some a ∧ reflects a s) (value = none) := by
  apply yields_reads hv
  · intro s ho
    rw [optionalParsed, ho]
    dsimp only
    have hs := hparse s
    cases hp : parse s with
    | ok a =>
      have ha := hs.of_ok hp
      exact ⟨ha.1, a, rfl, ha.2⟩
    | error e =>
      refine ⟨hs.of_error hp, ?_⟩
      simp only [String.toList_append, List.append_assoc]
      exact List.prefix_append _ _
  · intro ho
    rw [optionalParsed, ho]
    exact ⟨hreq, rfl⟩

lemma parseU16_yields (s : String) : Yields (fun _ => ¬ ∃ n < 2 ^ 16, Numeral s n) (parseU16 s) fun n =>
    (∃ n < 2 ^ 16, Numeral s n) ∧ Numeral s n.toNat := by
  rw [parseU16]
  cases hp : parseUnsigned (2 ^ 16) s with
  | ok n =>
    have hn := (parseUnsigned_ok (by decide)).mp hp
    refine ⟨⟨n, hn⟩, ?_⟩
    rw [UInt16.toNat_ofNat_of_lt' hn.1]
    exact hn.2
  | error e =>
    rintro ⟨n, hn⟩
    rw [(parseUnsigned_ok (by decide)).mpr hn] at hp
    cases hp

lemma parseU64_yields (s : String) : Yields (fun _ => ¬ ∃ n < u64Size, Numeral s n) (parseU64 s) fun n =>
    (∃ n < u64Size, Numeral s n) ∧ Numeral s n.toNat := by
  rw [parseU64]
  cases hp : parseUnsigned u64Size s with
  | ok n =>
    have hn := (parseUnsigned_ok (by decide)).mp hp
    refine ⟨⟨n, hn⟩, ?_⟩
    rw [UInt64.toNat_ofNat_of_lt' hn.1]
    exact hn.2
  | error e =>
    rintro ⟨n, hn⟩
    rw [(parseUnsigned_ok (by decide)).mpr hn] at hp
    cases hp

lemma yields_optionalBool (hv : v ∈ vars) (hreq : ¬ v.required) (hw : ∀ s, WellFormed v s ↔ ∃ b, Boolean s b) :
    Yields (Blames env vars) (optionalBool texts env v.name) fun value =>
      Reads env v (fun s => ∃ b, value = some b ∧ Boolean s b) (value = none) := by
  apply yields_reads hv
  · intro s ho
    rw [optionalBool, ho, hw]
    dsimp only
    split
    · rename_i htrue
      exact ⟨⟨true, htrue⟩, true, rfl, htrue⟩
    · rename_i htrue
      split
      · rename_i hfalse
        exact ⟨⟨false, hfalse⟩, false, rfl, hfalse⟩
      · rename_i hfalse
        refine ⟨?_, ?_⟩
        · rintro ⟨b, hb⟩
          cases b
          · exact hfalse hb
          · exact htrue hb
        · simp only [String.toList_append, List.append_assoc]
          exact List.prefix_append _ _
  · intro ho
    rw [optionalBool, ho]
    exact ⟨hreq, rfl⟩

lemma yields_valueEnum {α : Type} {reader : Except String α} {fromStr : String → Except String α} {name : α → String}
    {default : α} {text : String → String → String} (hv : v ∈ vars) (hreq : ¬ v.required)
    (hreader : reader = match optional env v.name with
      | some s => (fromStr s).mapError (text s)
      | none => .ok default)
    (hw : ∀ s, WellFormed v s ↔ ∃ a, eqIgnoreAsciiCase s (name a))
    (hfromStr : ∀ s a, fromStr s = .ok a ↔ eqIgnoreAsciiCase s (name a))
    (htext : ∀ s e, v.name.toList <+: (text s e).toList) :
    Yields (Blames env vars) reader fun a => Reads env v (eqIgnoreAsciiCase · (name a)) (a = default) := by
  apply yields_reads hv
  · intro s ho
    rw [hreader, ho, hw]
    dsimp only
    cases hf : fromStr s with
    | ok a =>
      have hs := (hfromStr s a).mp hf
      exact ⟨⟨a, hs⟩, hs⟩
    | error e =>
      refine ⟨?_, htext s e⟩
      rintro ⟨a, hs⟩
      rw [(hfromStr s a).mpr hs] at hf
      cases hf
  · intro ho
    rw [hreader, ho]
    exact ⟨hreq, rfl⟩

lemma yields_optionalKeyFormat (hdoc : texts.Documented) (hv : .keyFormat ∈ vars) :
    Yields (Blames env vars) (optionalKeyFormat texts env) fun format =>
      Reads env .keyFormat (eqIgnoreAsciiCase · (valueName format)) (format = .auto) := by
  have hname : Var.keyFormat.name.toList <+: "NOCAP_CRYPT_KEY_FORMAT=".toList := by decide
  apply yields_valueEnum hv (by simp [Var.required]) rfl (fun _ => Iff.rfl) hdoc.keyFormat
  intro s e
  simp only [String.toList_append, List.append_assoc]
  exact hname.trans (List.prefix_append _ _)

lemma yields_optionalCipher (hdoc : texts.Documented) (hv : .cipher ∈ vars) :
    Yields (Blames env vars) (optionalCipher texts env) fun cipher =>
      Reads env .cipher (eqIgnoreAsciiCase · cipher.asStr) (cipher = .aesXtsPlain64) := by
  have hname : Var.cipher.name.toList <+: "NOCAP_CRYPT_CIPHER=".toList := by decide
  apply yields_valueEnum hv (by simp [Var.required]) rfl (fun _ => Iff.rfl) hdoc.cipher
  intro s e
  simp only [String.toList_append, List.append_assoc]
  exact hname.trans (List.prefix_append _ _)

end Readers

section Arguments

variable (texts : Texts) (env : Env)

def Shows (c : Settings) (v : Var) : Prop := Reads env v (Reflects c v) (Default c v)

lemma yields_encryptArgs (hdoc : texts.Documented) :
    Yields (Blames env encryptVars) (encryptArgsFromEnv texts env) fun args =>
      ∀ v ∈ encryptVars, v ≠ .operation → Shows env (Operation.encrypt args).settings v := by
  refine (yields_requirePath (v := .input) (by decide) (by simp [Var.required]) fun _ => trivial).bind
    fun input hinput => ?_
  refine (yields_requirePath (v := .output) (by decide) (by simp [Var.required]) fun _ => trivial).bind
    fun output houtput => ?_
  refine (yields_requirePath (v := .keyFile) (by decide) (by simp [Var.required]) fun _ => trivial).bind
    fun keyFile hkeyFile => ?_
  refine (yields_optionalKeyFormat texts hdoc (by decide)).bind fun keyFormat hkeyFormat => ?_
  refine (yields_optionalCipher texts hdoc (by decide)).bind fun cipher hcipher => ?_
  refine (yields_optionalParsed texts (v := .keySize) (by decide) (by simp [Var.required]) parseU16_yields).bind
    fun keySize hkeySize => ?_
  refine (yields_optionalParsed texts (v := .alignBlockSize) (by decide) (by simp [Var.required])
    parseU64_yields).bind fun alignBlockSize halignBlockSize => ?_
  refine (yields_optionalParsed texts (v := .alignExtraBlock) (by decide) (by simp [Var.required])
    parseU64_yields).bind fun alignExtraBlock halignExtraBlock => ?_
  refine (yields_optionalParsed texts (v := .maxWorkers) (by decide) (by simp [Var.required]) parseU64_yields).bind
    fun maxWorkers hmaxWorkers => ?_
  refine (yields_optionalParsed texts (v := .smallFileThreshold) (by decide) (by simp [Var.required])
    parseU64_yields).bind fun smallFileThreshold hsmall => ?_
  refine (yields_optionalBool texts (v := .pinToSubmissionThread) (by decide) (by simp [Var.required])
    fun _ => Iff.rfl).bind fun pinToSubmissionThread hpin => ?_
  intro v hv hne
  cases v with
  | operation => exact absurd rfl hne
  | input => exact hinput
  | output => exact houtput
  | keyFile => exact hkeyFile
  | keyFormat => exact hkeyFormat
  | cipher => exact hcipher
  | keySize => exact hkeySize
  | alignBlockSize =>
    apply (halignBlockSize.getD _).imp
    · exact fun s h => ⟨_, rfl, h⟩
    · exact fun h => ⟨_, rfl, h⟩
  | alignExtraBlock =>
    apply (halignExtraBlock.getD _).imp
    · exact fun s h => ⟨_, rfl, h⟩
    · exact fun h => ⟨_, rfl, h⟩
  | maxWorkers => exact hmaxWorkers
  | smallFileThreshold => exact hsmall.getD _
  | pinToSubmissionThread => exact hpin.getD _

lemma yields_decryptArgs (hdoc : texts.Documented) :
    Yields (Blames env decryptVars) (decryptArgsFromEnv texts env) fun args =>
      ∀ v ∈ decryptVars, v ≠ .operation → Shows env (Operation.decrypt args).settings v := by
  refine (yields_requirePath (v := .input) (by decide) (by simp [Var.required]) fun _ => trivial).bind
    fun input hinput => ?_
  refine (yields_requirePath (v := .output) (by decide) (by simp [Var.required]) fun _ => trivial).bind
    fun output houtput => ?_
  refine (yields_requirePath (v := .keyFile) (by decide) (by simp [Var.required]) fun _ => trivial).bind
    fun keyFile hkeyFile => ?_
  refine (yields_optionalKeyFormat texts hdoc (by decide)).bind fun keyFormat hkeyFormat => ?_
  refine (yields_optionalCipher texts hdoc (by decide)).bind fun cipher hcipher => ?_
  refine (yields_optionalParsed texts (v := .keySize) (by decide) (by simp [Var.required]) parseU16_yields).bind
    fun keySize hkeySize => ?_
  refine (yields_optionalParsed texts (v := .maxWorkers) (by decide) (by simp [Var.required]) parseU64_yields).bind
    fun maxWorkers hmaxWorkers => ?_
  refine (yields_optionalParsed texts (v := .smallFileThreshold) (by decide) (by simp [Var.required])
    parseU64_yields).bind fun smallFileThreshold hsmall => ?_
  refine (yields_optionalBool texts (v := .pinToSubmissionThread) (by decide) (by simp [Var.required])
    fun _ => Iff.rfl).bind fun pinToSubmissionThread hpin => ?_
  intro v hv hne
  cases v with
  | operation => exact absurd rfl hne
  | input => exact hinput
  | output => exact houtput
  | keyFile => exact hkeyFile
  | keyFormat => exact hkeyFormat
  | cipher => exact hcipher
  | keySize => exact hkeySize
  | alignBlockSize => exact absurd hv (by decide)
  | alignExtraBlock => exact absurd hv (by decide)
  | maxWorkers => exact hmaxWorkers
  | smallFileThreshold => exact hsmall.getD _
  | pinToSubmissionThread => exact hpin.getD _

lemma shows_operation {c : Settings} {vars : List Var} {s : String}
    (ho : optional env "NOCAP_CRYPT_OPERATION" = some s) (hs : s = "encrypt" ∨ s = "decrypt") (hc : c.operation = s)
    (h : ∀ v ∈ vars, v ≠ .operation → Shows env c v) : ∀ v ∈ vars, Shows env c v := by
  intro v hv
  by_cases hop : v = .operation
  · subst hop
    rw [Shows, Reads, show optional env (Var.operation).name = some s from ho]
    exact ⟨hs, hc⟩
  · exact h v hv hop

/-- Every variable of the operation shows in the result, or the error names one that is turned down. -/
lemma yields_resolveFromEnv (hdoc : texts.Documented) :
    Yields (Blames env (varsRead env)) (resolveFromEnv texts env) fun op =>
      ∀ v ∈ varsRead env, Shows env op.settings v := by
  rw [resolveFromEnv, require, varsRead]
  cases ho : optional env "NOCAP_CRYPT_OPERATION" with
  | none =>
    refine ⟨.operation, List.mem_singleton_self _, ?_, ?_⟩
    · rw [Rejected, show optional env (Var.operation).name = none from ho]
      exact Or.inl rfl
    · simp only [String.toList_append]
      exact (List.prefix_append _ _).isInfix
  | some s =>
    change Yields _ (if s = "encrypt" then _ else _) _
    by_cases hencrypt : s = "encrypt"
    · rw [if_pos hencrypt, if_pos (congrArg some hencrypt)]
      apply (yields_encryptArgs texts env hdoc).map
      intro args hargs
      exact shows_operation env ho (Or.inl hencrypt) hencrypt.symm hargs
    · rw [if_neg hencrypt, if_neg (fun h => hencrypt (Option.some.inj h))]
      by_cases hdecrypt : s = "decrypt"
      · rw [if_pos hdecrypt, if_pos (congrArg some hdecrypt)]
        apply (yields_decryptArgs texts env hdoc).map
        intro args hargs
        exact shows_operation env ho (Or.inr hdecrypt) hdecrypt.symm hargs
      · rw [if_neg hdecrypt, if_neg (fun h => hdecrypt (Option.some.inj h))]
        refine ⟨.operation, List.mem_singleton_self _, ?_, ?_⟩
        · rw [Rejected, show optional env (Var.operation).name = some s from ho]
          exact fun hs => hs.elim hencrypt hdecrypt
        · simp only [String.toList_append, List.append_assoc]
          exact ((show Var.operation.name.toList <+: "NOCAP_CRYPT_OPERATION=".toList by decide).trans
            (List.prefix_append _ _)).isInfix

end Arguments

section Heeded

variable (texts : Texts) (env : Env)

lemma fromUtf8_eq_empty {value : Bytes} {s : String} (h : fromUtf8 value = some s) : s = "" ↔ value = [] := by
  rw [← String.utf8ByteSize_eq_zero_iff, fromUtf8_length h, List.length_eq_zero_iff]

lemma optional_isSet {v : Var} {value : Bytes} {s : String} (hset : IsSet env v value) (hs : fromUtf8 value = some s) :
    optional env v.name = some s := by
  have hne : s ≠ "" := mt (fromUtf8_eq_empty hs).mp hset.2
  rw [optional, hset.1, Option.bind_some, hs, Option.filter_some, if_pos (by simpa using hne)]

lemma optional_notUnicode {v : Var} {value : Bytes} (hset : env v.name = some value) (hs : fromUtf8 value = none) :
    optional env v.name = none := by
  rw [optional, hset, Option.bind_some, hs, Option.filter_none]

lemma optional_unset {v : Var} (h : Unset env v) : optional env v.name = none := by
  rcases h with h | h
  · rw [optional, h, Option.bind_none, Option.filter_none]
  · rw [optional, h, Option.bind_some, show fromUtf8 [] = some "" from fromUtf8_utf8 ""]
    rfl

lemma bad_of_rejected {v : Var} (h : Rejected env v) : Bad env v := by
  rw [Rejected] at h
  cases hvalue : env v.name with
  | none =>
    rw [optional_unset env (Or.inl hvalue)] at h
    exact Or.inl ⟨h, Or.inl hvalue⟩
  | some value =>
    by_cases hnil : value = []
    · rw [hnil] at hvalue
      rw [optional_unset env (Or.inr hvalue)] at h
      exact Or.inl ⟨h, Or.inr hvalue⟩
    · refine Or.inr ⟨value, ⟨hvalue, hnil⟩, ?_⟩
      intro s hs
      rwa [optional_isSet env ⟨hvalue, hnil⟩ hs] at h

/-- What the code overlooks: a malformed value that it does not turn down is one of an optional variable that is
not Unicode. -/
lemma rejected_of_bad {v : Var} (h : Bad env v) :
    Rejected env v ∨ (¬ v.required ∧ ∃ value, env v.name = some value ∧ fromUtf8 value = none) := by
  rw [Rejected]
  rcases h with ⟨hreq, hunset⟩ | ⟨value, hset, hbad⟩
  · rw [optional_unset env hunset]
    exact Or.inl hreq
  · cases hs : fromUtf8 value with
    | some s =>
      rw [optional_isSet env hset hs]
      exact Or.inl (hbad s hs)
    | none =>
      rw [optional_notUnicode env hset.1 hs]
      by_cases hreq : v.required
      · exact Or.inl hreq
      · exact Or.inr ⟨hreq, value, hset.1, hs⟩

lemma Shows.heeded {c : Settings} {v : Var} (h : Shows env c v)
    (hunicode : ¬ v.required → ∀ value, env v.name = some value → fromUtf8 value ≠ none) :
    (∀ value, IsSet env v value → ∃ s, fromUtf8 value = some s ∧ Reflects c v s) ∧
      (Unset env v → Default c v) := by
  rw [Shows, Reads] at h
  refine ⟨?_, ?_⟩
  · intro value hset
    cases hs : fromUtf8 value with
    | some s =>
      rw [optional_isSet env hset hs] at h
      exact ⟨s, rfl, h.2⟩
    | none =>
      rw [optional_notUnicode env hset.1 hs] at h
      exact absurd hs (hunicode h.1 value hset.1)
  · intro hunset
    rw [optional_unset env hunset] at h
    exact h.2

/-- The environment is heeded exactly when no optional variable is set to something that is not Unicode, or the
code stops at another variable anyway. -/
theorem resolveFromEnv_heeded_iff (hdoc : texts.Documented) :
    Heeded env (resolveFromEnv texts env) ↔
      (∀ v ∈ varsRead env, ¬ v.required → ∀ value, env v.name = some value → fromUtf8 value ≠ none) ∨
        ∃ v ∈ varsRead env, Rejected env v := by
  have hresolve := yields_resolveFromEnv texts env hdoc
  cases hr : resolveFromEnv texts env with
  | error text =>
    obtain ⟨v, hv, hrej, hname⟩ := hresolve.of_error hr
    refine iff_of_true ⟨?_, ?_⟩ (Or.inr ⟨v, hv, hrej⟩)
    · intro op hop
      cases hop
    · exact fun _ => ⟨text, rfl, v, hv, bad_of_rejected env hrej, hname⟩
  | ok op =>
    have hshows := hresolve.of_ok hr
    have hnone : ¬ ∃ v ∈ varsRead env, Rejected env v := by
      rintro ⟨v, hv, hrej⟩
      exact (hshows v hv).not_rejected hrej
    rw [or_iff_left hnone]
    constructor
    · rintro ⟨-, hbad⟩ v hv hreq value hset hs
      have hne : value ≠ [] := by
        rintro rfl
        rw [show fromUtf8 [] = some "" from fromUtf8_utf8 ""] at hs
        cases hs
      have hv' : Bad env v := Or.inr ⟨value, ⟨hset, hne⟩, by simp [hs]⟩
      obtain ⟨text, herr, -⟩ := hbad ⟨v, hv, hv'⟩
      cases herr
    · intro hunicode
      refine ⟨?_, ?_⟩
      · intro op' hop v hv
        cases hop
        exact (hshows v hv).heeded env (hunicode v hv)
      · rintro ⟨v, hv, hbad⟩
        rcases rejected_of_bad env hbad with hrej | ⟨hreq, value, hset, hs⟩
        · exact absurd ⟨v, hv, hrej⟩ hnone
        · exact absurd hs (hunicode v hv hreq value hset)

end Heeded

section Sample

def sampleTexts : Texts where
  debug s := s!"\"{s}\""
  keyFormatFromStr s ignoreCase :=
    ([.auto, .raw, .hex, .base64].find? fun v =>
      if ignoreCase then decide (eqIgnoreAsciiCase s (valueName v)) else s == valueName v).elim
      (.error s!"invalid variant: {s}") .ok
  cipherFromStr s ignoreCase :=
    ([.aesXtsPlain64, .aesCbcEssivSha256].find? fun v =>
      if ignoreCase then decide (eqIgnoreAsciiCase s v.asStr) else s == v.asStr).elim
      (.error s!"invalid variant: {s}") .ok

lemma find?_eq_some_of_unique {α : Type} {p : α → Bool} {xs : List α} (hall : ∀ a, a ∈ xs)
    (hunique : ∀ a b, p a → p b → a = b) (a : α) : xs.find? p = some a ↔ p a := by
  constructor
  · exact List.find?_some
  · intro ha
    cases hf : xs.find? p with
    | none => exact absurd ha (List.find?_eq_none.mp hf a (hall a))
    | some b => rw [hunique b a (List.find?_some hf) ha]

lemma sampleTexts_documented : sampleTexts.Documented where
  keyFormat := by
    intro s v
    have hnames : ∀ a b, toAsciiLowercase (valueName a) = toAsciiLowercase (valueName b) → a = b := by
      intro a b
      cases a <;> cases b <;> decide +kernel
    rw [sampleTexts, elim_eq_ok, find?_eq_some_of_unique]
    · exact decide_eq_true_iff
    · intro a
      cases a <;> decide
    · intro a b ha hb
      exact hnames a b ((of_decide_eq_true ha).symm.trans (of_decide_eq_true hb))
  cipher := by
    intro s v
    have hnames : ∀ a b : CipherArg, toAsciiLowercase a.asStr = toAsciiLowercase b.asStr → a = b := by
      intro a b
      cases a <;> cases b <;> decide +kernel
    rw [sampleTexts, elim_eq_ok, find?_eq_some_of_unique]
    · exact decide_eq_true_iff
    · intro a
      cases a <;> decide
    · intro a b ha hb
      exact hnames a b ((of_decide_eq_true ha).symm.trans (of_decide_eq_true hb))

/-- Everything that `encrypt` requires, and one variable more. -/
def sampleEnv (more : String × Bytes) : Env := fun name =>
  [("NOCAP_CRYPT_OPERATION", utf8 "encrypt"), ("NOCAP_CRYPT_INPUT", utf8 "in.img"),
    ("NOCAP_CRYPT_OUTPUT", utf8 "out.enc"), ("NOCAP_CRYPT_KEY_FILE", utf8 "key.bin"), more].lookup name

theorem resolveFromEnv_heeded_malformed_key_size :
    Heeded (sampleEnv ("NOCAP_CRYPT_KEY_SIZE", utf8 "not-a-number"))
      (resolveFromEnv sampleTexts (sampleEnv ("NOCAP_CRYPT_KEY_SIZE", utf8 "not-a-number"))) := by
  apply (resolveFromEnv_heeded_iff sampleTexts _ sampleTexts_documented).mpr
  refine Or.inr ⟨.keySize, by decide +kernel, ?_⟩
  have hs : optional (sampleEnv ("NOCAP_CRYPT_KEY_SIZE", utf8 "not-a-number")) Var.keySize.name =
      some "not-a-number" := by decide +kernel
  rw [Rejected, hs]
  exact (parseU16_yields "not-a-number").of_error (e := .invalidDigit) (by decide +kernel)

/-- A cipher that is not Unicode is ignored. -/
theorem resolveFromEnv_ignores_cipher : sampleTexts.Documented ∧
    ¬ Heeded (sampleEnv ("NOCAP_CRYPT_CIPHER", [0xFF]))
      (resolveFromEnv sampleTexts (sampleEnv ("NOCAP_CRYPT_CIPHER", [0xFF]))) := by
  refine ⟨sampleTexts_documented, ?_⟩
  rintro ⟨-, hbad⟩
  have hread : Var.cipher ∈ varsRead (sampleEnv ("NOCAP_CRYPT_CIPHER", [0xFF])) := by decide +kernel
  have hset : IsSet (sampleEnv ("NOCAP_CRYPT_CIPHER", [0xFF])) .cipher [0xFF] := ⟨by decide +kernel, by decide⟩
  have hvalue : fromUtf8 [0xFF] = none := by decide +kernel
  have hok : (resolveFromEnv sampleTexts (sampleEnv ("NOCAP_CRYPT_CIPHER", [0xFF]))).isOk = true := by decide +kernel
  obtain ⟨text, herr, -⟩ := hbad ⟨.cipher, hread, Or.inr ⟨[0xFF], hset, by simp [hvalue]⟩⟩
  rw [herr] at hok
  cases hok

end Sample

end NocapCrypt.Cli.EnvConfig
