import NocapCrypt.Cli.AutoKeys
import NocapCrypt.Cli.Bench
import NocapCrypt.Cli.EarlyExit
import NocapCrypt.KeyMgmt.KeyFile
import NocapCrypt.KeyMgmt.Represent

/-! `keygen` and `keycheck`: `crates/nocap-crypt-cli/src/cmd/{keygen,keycheck}.rs`. -/

namespace NocapCrypt.Cli

open NocapCrypt.Library.Image NocapCrypt.Library.Runs NocapCrypt.Library.Commands NocapCrypt.Library.TextEncodings
  NocapCrypt.Core NocapCrypt.BlockIo NocapCrypt.KeyMgmt Cmd

structure KeygenArgs where
  cipher : CipherArg
  keySize : Option UInt16
  output : Path
  force : Bool

structure KeycheckArgs where
  keyFile : Path
  keyFormat : KeyFormatArg
  cipher : CipherArg
  keySize : Option UInt16
  reveal : Bool

/-- The random bytes, the umask, the mode of a key file that exists, and the answers to each call of
`write_key_file`. -/
structure KeygenEnv where
  random : (n : ℕ) → Option (Vector UInt8 n)
  umask : UInt32
  mode : UInt32
  moves : KeyWrite → Option KeyFile → List KeyMove

/-- Every call of `write_key_file` is taken to its return. -/
def KeygenEnv.Carries (env : KeygenEnv) : Prop :=
  ∀ call file, ∃ file' result,
    run (writeKeyFileStep call) (file, .entered) (env.moves call file) = some (file', .returned result)

/-- The file is opened where it may be, and the key is written at once. -/
def writtenAtOnce (call : KeyWrite) (file : Option KeyFile) : List KeyMove :=
  if file.isSome = true ∧ call.force = false then [.check true]
  else if call.key = [] then [.check true, .openFile none]
  else [.check true, .openFile none, .write (.count call.key.length)]

lemma writtenAtOnce_returns (call : KeyWrite) (file : Option KeyFile) : ∃ file' result,
    run (writeKeyFileStep call) (file, .entered) (writtenAtOnce call file) = some (file', .returned result) := by
  rw [writtenAtOnce]
  split
  · rename_i hrefused
    refine ⟨file, .error (.alreadyExists call.path), ?_⟩
    simp [run_cons, writeKeyFileStep, writeKeyFile, hrefused]
  · rename_i hopens
    split
    · rename_i hempty
      refine ⟨some (openTruncated file restrictiveMode call.umask), .ok (), ?_⟩
      simp [run_cons, writeKeyFileStep, writeKeyFile, hopens, hempty]
    · rename_i hkey
      refine ⟨some { openTruncated file restrictiveMode call.umask with
        bytes := overwrite (openTruncated file restrictiveMode call.umask).bytes 0 call.key }, .ok (), ?_⟩
      simp [run_cons, writeKeyFileStep, writeKeyFile, hopens, hkey, Platform.writeAt]

def keyFileAt (fs : Fs) (path : Path) (mode : UInt32) : Option KeyFile :=
  (fs.lookup path).map fun i => ⟨fs.disk i, mode⟩

def World.withKeyFile (w : World) (path : Path) : Option KeyFile → World
  | some f => { w with fs := w.fs.write path f.bytes }
  | none => w

/-- `write_key_file` on a path that names no device, alone on the machine. -/
def writeKey (env : KeygenEnv) (path : Path) (key : Bytes) (force : Bool) : Cmd (Except KeyFileWriteError Unit) :=
  fun w =>
  let call : KeyWrite := ⟨path, key, force, env.umask⟩
  let before := keyFileAt w.fs path env.mode
  match run (writeKeyFileStep call) (before, .entered) (env.moves call before) with
  | none => .error .unscheduled w
  | some (file, .returned result) => .ok result (w.withKeyFile path file)
  | some (file, _) => .error .unscheduled (w.withKeyFile path file)

/-- `{}` of a `bool`. -/
def boolText (b : Bool) : String := if b then "true" else "false"

/-- `shannon_entropy_ceiling` of a key, whose length is a power of two by then. -/
def keyEntropyCeiling (len : ℕ) : ℚ := if len = 0 then 0 else (min len 256).log2

def entropyNote (report : KeyValidationReport) : String :=
  s!"entropy note: {fixedPoint 4 report.shannonBitsPerByte} bits/byte is expected here, not low — " ++
    s!"a {report.actualBytes}-byte sample can't exceed ~{fixedPoint 2 (keyEntropyCeiling report.actualBytes)} " ++
    "bits/byte on this metric no matter how random the source is (too few bytes to occupy all 256 possible values). " ++
    s!"Chi-square uniform@95% ({boolText report.chiSquareUniform95}) is the signal that actually accounts for " ++
    "sample size."

def keyOkText (P : Primitives) (key : Bytes) (report : KeyValidationReport) : String :=
  s!"key OK: {report.actualBytes} bytes (required {report.requiredBytes}), {redacted P key}"

def reportIf (condition : Bool) (event : Event) : Cmd Unit := if condition then report event else pure ()

section Commands

variable (X : Externals) (os : Os) (env : KeygenEnv) (narrates : Bool)

def runKeygenImpl (args : KeygenArgs) : Cmd ExitCode := do
  let spec ← orFail CipherSpecError.text .unsupportedCipher (resolveCipherSpec args.cipher args.keySize)
  let key ← orPanic (generateKey env.random spec)
  let written ← writeKey env args.output key args.force
  let _ ← orFail KeyFileWriteError.text .io written
  report (.cipherSelected spec.asStr spec.aesBits.bits)
  report (.message s!"wrote {key.length}-byte key to {args.output} ({redacted X.primitives key})")
  reportIf narrates (.entropyScore (X.scores.shannonEntropy key) (X.scores.isUniform key))
  pure .success

def runKeygen (args : KeygenArgs) : World → Outcome × World := finish (runKeygenImpl X env narrates args)

/-- `run` of `keycheck` from the loaded key on. -/
def checkLoaded (args : KeycheckArgs) (spec : CipherSpec) (loaded : Except KeyLoadError Bytes) : Cmd ExitCode := do
  let key ← orFail KeyLoadError.text .io loaded
  let validated ← orFail KeyValidationError.text .keyValidation (validateKey X.scores spec key)
  report (.cipherSelected spec.asStr spec.aesBits.bits)
  report (.entropyScore validated.shannonBitsPerByte validated.chiSquareUniform95)
  report (.message (entropyNote validated))
  report (.message (keyOkText X.primitives key validated))
  reportIf args.reveal (.message s!"key material: {hexGrouped key}")
  pure .success

def runKeycheckImpl (args : KeycheckArgs) : Cmd ExitCode := do
  let spec ← orFail CipherSpecError.text .unsupportedCipher (resolveCipherSpec args.cipher args.keySize)
  let loaded ← loadKeyFile X os args.keyFile args.keyFormat
  checkLoaded X args spec loaded

def runKeycheck (args : KeycheckArgs) : World → Outcome × World := finish (runKeycheckImpl X os args)

end Commands

section Runs

variable {X : Externals} {os : Os} {env : KeygenEnv} {narrates : Bool} {w w' : World} {spec : CipherSpec}

lemma Regular.read {fs : Fs} {path : Path} {bytes : Bytes} (h : fs.Regular path bytes) : fs.read path = .ok bytes := by
  obtain ⟨i, hi, hnode⟩ := h
  rw [Fs.read, hi]
  simp only [Fs.disk, hnode, Node.contents]

/-- `keycheck` of a key file is a check of what is read from it. -/
lemma runKeycheck_loaded {args : KeycheckArgs} {spec : CipherSpec}
    (hspec : resolveCipherSpec args.cipher args.keySize = .ok spec) (w : World) : runKeycheck X os args w =
      finish (checkLoaded X args spec (keyRead X os w.fs args.keyFile args.keyFormat)) w := by
  have hload : loadKeyFile X os args.keyFile args.keyFormat w =
      .ok (keyRead X os w.fs args.keyFile args.keyFormat) w := by
    rw [loadKeyFile, keyRead, bind_ok (show os.read .readKeyFile args.keyFile w = .ok _ w from rfl)]
    cases os.refuses .readKeyFile (w.fs.read args.keyFile) with
    | error e => rfl
    | ok raw => rfl
  rw [runKeycheck, runKeycheckImpl, hspec, finish, finish, orFail_bind, bind_ok hload]

lemma checkLoaded_outcome (args : KeycheckArgs) (spec : CipherSpec) (loaded : Except KeyLoadError Bytes) (w : World) :
    (finish (checkLoaded X args spec loaded) w).1 = match loaded with
      | .error _ => .exit .io
      | .ok key => match validateKey X.scores spec key with
        | .error _ => .exit .keyValidation
        | .ok _ => .exit .success := by
  rw [finish, checkLoaded]
  cases loaded with
  | error e => rfl
  | ok key =>
    rw [orFail_bind]
    dsimp only
    cases validateKey X.scores spec key with
    | error e => rfl
    | ok validated =>
      rw [orFail_bind, report_bind, report_bind, report_bind, report_bind]
      cases args.reveal <;> rfl

end Runs

section Shown

variable {X : Externals} {os : Os} {args : KeycheckArgs}

/-- What `keycheck` shows of a key that it has loaded, unless it is to reveal it. -/
structure SameShown (X : Externals) (spec : CipherSpec) (key key' : Bytes) : Prop where
  verdict : validateKey X.scores spec key = validateKey X.scores spec key'
  fingerprint : fingerprint X.primitives key = fingerprint X.primitives key'

def LoadedAlike (X : Externals) (spec : CipherSpec) : Except KeyLoadError Bytes → Except KeyLoadError Bytes → Prop
  | .ok key, .ok key' => SameShown X spec key key'
  | .error e, .error e' => e.text = e'.text
  | _, _ => False

/-- The events of a key that passes. -/
def shownEvents (X : Externals) (args : KeycheckArgs) (spec : CipherSpec) (key : Bytes)
    (validated : KeyValidationReport) : List Event :=
  [.cipherSelected spec.asStr spec.aesBits.bits,
    .entropyScore validated.shannonBitsPerByte validated.chiSquareUniform95,
    .message (entropyNote validated),
    .message (keyOkText X.primitives key validated)] ++
    if args.reveal then [.message s!"key material: {hexGrouped key}"] else []

lemma checkLoaded_valid {spec : CipherSpec} {key : Bytes} {validated : KeyValidationReport}
    (hvalid : validateKey X.scores spec key = .ok validated) (w : World) :
    checkLoaded X args spec (.ok key) w =
      .ok .success { w with events := w.events ++ shownEvents X args spec key validated } := by
  have happend : ∀ (a b c d : Event) (rest : List Event),
      (((w.events ++ [a]) ++ [b]) ++ [c]) ++ [d] ++ rest = w.events ++ ([a, b, c, d] ++ rest) := by
    intro a b c d rest
    simp only [List.append_assoc, List.cons_append, List.nil_append]
  rw [checkLoaded, orFail_bind, hvalid, orFail_bind, report_bind, report_bind, report_bind, report_bind, shownEvents,
    ← happend]
  cases args.reveal with
  | false =>
    rw [if_neg Bool.false_ne_true, List.append_nil]
    rfl
  | true => rfl

lemma checkLoaded_reports (X : Externals) (args : KeycheckArgs) (spec : CipherSpec)
    (loaded : Except KeyLoadError Bytes) :
    ∃ outcome shown, ∀ w, finish (checkLoaded X args spec loaded) w =
      (outcome, { w with events := w.events ++ shown }) := by
  cases loaded with
  | error e => exact ⟨_, _, fun _ => rfl⟩
  | ok key =>
    cases hvalid : validateKey X.scores spec key with
    | error e =>
      refine ⟨.exit .keyValidation, [.error e.text], fun w => ?_⟩
      rw [finish, checkLoaded, orFail_bind, hvalid]
      rfl
    | ok validated =>
      refine ⟨.exit .success, shownEvents X args spec key validated, fun w => ?_⟩
      rw [finish, checkLoaded_valid hvalid]

lemma checkLoaded_congr {spec : CipherSpec} {loaded loaded' : Except KeyLoadError Bytes}
    (hreveal : args.reveal = false) (h : LoadedAlike X spec loaded loaded') (w : World) :
    finish (checkLoaded X args spec loaded) w = finish (checkLoaded X args spec loaded') w := by
  cases loaded with
  | error e =>
    cases loaded' with
    | error e' =>
      have htext : e.text = e'.text := h
      have hfail : ∀ e : KeyLoadError, finish (checkLoaded X args spec (.error e)) w =
          (.exit .io, { w with events := w.events ++ [.error e.text] }) := fun _ => rfl
      rw [hfail, hfail, htext]
    | ok key' => exact h.elim
  | ok key =>
    cases loaded' with
    | error e' => exact h.elim
    | ok key' =>
      obtain ⟨hverdict, hprint⟩ : SameShown X spec key key' := h
      cases hvalid : validateKey X.scores spec key with
      | error e =>
        rw [finish, finish, checkLoaded, checkLoaded, orFail_bind, orFail_bind, ← hverdict, hvalid]
        rfl
      | ok validated =>
        have hvalid' := hverdict.symm.trans hvalid
        have hlen : key.length = key'.length := (validateKey_length hvalid).trans (validateKey_length hvalid').symm
        rw [finish, finish, checkLoaded_valid hvalid, checkLoaded_valid hvalid', shownEvents, shownEvents, hreveal,
          keyOkText, keyOkText, redacted, redacted, hprint, hlen, if_neg Bool.false_ne_true, if_neg Bool.false_ne_true]

lemma checkLoaded_success {spec : CipherSpec} {loaded : Except KeyLoadError Bytes} {w : World}
    (h : (finish (checkLoaded X args spec loaded) w).1 = .exit .success) :
    ∃ key validated, loaded = .ok key ∧ validateKey X.scores spec key = .ok validated := by
  rw [checkLoaded_outcome] at h
  cases loaded with
  | error e => cases h
  | ok key =>
    dsimp only at h
    cases hvalid : validateKey X.scores spec key with
    | error e =>
      rw [hvalid] at h
      cases h
    | ok validated => exact ⟨key, validated, rfl, hvalid⟩

lemma revealed_inj {spec : CipherSpec} {key key' : Bytes} {validated validated' : KeyValidationReport}
    (hreveal : args.reveal = true)
    (h : shownEvents X args spec key validated = shownEvents X args spec key' validated') : key = key' := by
  rw [shownEvents, shownEvents, hreveal, if_pos rfl, if_pos rfl] at h
  have hlast := congrArg List.getLast? h
  rw [List.getLast?_append, List.getLast?_append] at hlast
  have htext := congrArg String.toList (Event.message.inj (Option.some.inj hlast))
  rw [String.toList_append, String.toList_append] at htext
  have hgrouped : (hexGrouped key).toList = (hexGrouped key').toList := List.append_cancel_left htext
  have hbytes := hexBytes_hexGrouped key
  rw [hgrouped, hexBytes_hexGrouped] at hbytes
  exact (Option.some.inj hbytes).symm

/-- Without `--reveal` a run shows of a key its verdict, with the length and the scores that are part of it, and its
fingerprint: on two keys that have these in common it ends alike and reports the same. -/
theorem keycheck_blind (X : Externals) (os : Os) (args : KeycheckArgs) (hreveal : args.reveal = false) (w : World)
    (fs fs' : Fs)
    (halike : ∀ spec, resolveCipherSpec args.cipher args.keySize = .ok spec → LoadedAlike X spec
      (keyRead X os fs args.keyFile args.keyFormat) (keyRead X os fs' args.keyFile args.keyFormat)) :
    (runKeycheck X os args { w with fs := fs }).1 = (runKeycheck X os args { w with fs := fs' }).1 ∧
      (runKeycheck X os args { w with fs := fs }).2.events = (runKeycheck X os args { w with fs := fs' }).2.events := by
  cases hspec : resolveCipherSpec args.cipher args.keySize with
  | error e =>
    rw [runKeycheck, runKeycheckImpl, hspec]
    exact ⟨rfl, rfl⟩
  | ok spec =>
    obtain ⟨outcome, shown, hreports⟩ := checkLoaded_reports X args spec
      (keyRead X os fs' args.keyFile args.keyFormat)
    rw [runKeycheck_loaded hspec, runKeycheck_loaded hspec, checkLoaded_congr hreveal (halike spec hspec), hreports,
      hreports]
    exact ⟨rfl, rfl⟩

/-- With `--reveal` the reports of two runs that pass are the same for one key only. -/
theorem keycheck_reveals (X : Externals) (os : Os) (args : KeycheckArgs) (hreveal : args.reveal = true) (w : World)
    (fs fs' : Fs) (hpass : (runKeycheck X os args { w with fs := fs }).1 = .exit .success)
    (hpass' : (runKeycheck X os args { w with fs := fs' }).1 = .exit .success)
    (hevents : (runKeycheck X os args { w with fs := fs }).2.events =
      (runKeycheck X os args { w with fs := fs' }).2.events) :
    ∃ key, keyRead X os fs args.keyFile args.keyFormat = .ok key ∧
      keyRead X os fs' args.keyFile args.keyFormat = .ok key := by
  cases hspec : resolveCipherSpec args.cipher args.keySize with
  | error e =>
    rw [runKeycheck, runKeycheckImpl, hspec] at hpass
    cases hpass
  | ok spec =>
    rw [runKeycheck_loaded hspec] at hpass hpass' hevents
    rw [runKeycheck_loaded hspec] at hevents
    obtain ⟨key, validated, hkey, hvalid⟩ := checkLoaded_success hpass
    obtain ⟨key', validated', hkey', hvalid'⟩ := checkLoaded_success hpass'
    dsimp only at hkey hkey' hevents
    rw [hkey, hkey', finish, finish, checkLoaded_valid hvalid, checkLoaded_valid hvalid'] at hevents
    obtain rfl := revealed_inj hreveal (List.append_cancel_left hevents)
    exact ⟨key, hkey, hkey'⟩

end Shown

section Sample

def sampleKeycheckArgs (path : Path) (reveal : Bool) : KeycheckArgs :=
  ⟨path, .raw, .aesCbcEssivSha256, none, reveal⟩

def keyFs (key : Bytes) : Fs := { sampleFs with node := fun i => if i = 1 then .regular key else sampleFs.node i }

/-- Two keys whose digests and scores the sample functions do not tell apart. -/
theorem keycheck_blind_rotated :
    (runKeycheck sampleExternals sampleOs (sampleKeycheckArgs "key.bin" false)
        { sampleWorld with fs := keyFs sampleKey.reverse }).2.events =
      (runKeycheck sampleExternals sampleOs (sampleKeycheckArgs "key.bin" false)
        { sampleWorld with fs := keyFs (sampleKey.rotate 1) }).2.events := by
  apply (keycheck_blind sampleExternals sampleOs (sampleKeycheckArgs "key.bin" false) rfl sampleWorld
    (keyFs sampleKey.reverse) (keyFs (sampleKey.rotate 1)) _).2
  intro spec hspec
  rw [show resolveCipherSpec (sampleKeycheckArgs "key.bin" false).cipher (sampleKeycheckArgs "key.bin" false).keySize =
    .ok ⟨.cbcEssivSha256, .bits256⟩ by decide] at hspec
  cases hspec
  exact ⟨rfl, rfl⟩

/-- The same key beside another input. -/
def otherFs : Fs := { keyFs sampleKey with node := fun i => if i = 0 then .regular [7] else (keyFs sampleKey).node i }

theorem keycheck_reveals_sample :
    ∃ key, keyRead sampleExternals sampleOs (keyFs sampleKey) "key.bin" .raw = .ok key ∧
      keyRead sampleExternals sampleOs otherFs "key.bin" .raw = .ok key :=
  keycheck_reveals sampleExternals sampleOs (sampleKeycheckArgs "key.bin" true) rfl sampleWorld (keyFs sampleKey)
    otherFs (by decide +kernel) (by decide +kernel) (by decide +kernel)

end Sample

end NocapCrypt.Cli
