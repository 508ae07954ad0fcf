import NocapCrypt.Cli.Command
import NocapCrypt.KeyMgmt.KeyFile
import NocapCrypt.KeyMgmt.Readings

/-! `--dry-run-cryptsetup-compat`: `crates/nocap-crypt-cli/src/cryptsetup_compat.rs`, in steps between which the
temporary files lie on the disk. -/

namespace NocapCrypt.Cli.CryptsetupCompat

open NocapCrypt.Library.Image NocapCrypt.Library.Runs NocapCrypt.Library.Commands NocapCrypt.Core
  NocapCrypt.BlockIo NocapCrypt.KeyMgmt

def fixtureSectors : ℕ := 4

def fixtureSkipSectors : ℕ := 17

inductive Outcome where
  | cryptsetupNotFound
  | unsupportedPlatform
  | operationalError (detail : String)
  | matched
  | mismatch
  deriving DecidableEq, Repr

def Outcome.isFailure (outcome : Outcome) : Bool := outcome == .mismatch

def Outcome.message : Outcome → String
  | .cryptsetupNotFound => "--dry-run-cryptsetup-compat: cryptsetup not found on PATH, skipping"
  | .unsupportedPlatform =>
    "--dry-run-cryptsetup-compat: needs Linux + dm-crypt + loop devices, skipping on this platform"
  | .operationalError detail =>
    s!"--dry-run-cryptsetup-compat: could not complete (likely needs root/CAP_SYS_ADMIN " ++
      s!"— see specs/fips_check.md Tier 4): {detail}"
  | .matched =>
    s!"--dry-run-cryptsetup-compat: MATCH ({fixtureSectors} sectors at sector " ++
      s!"{fixtureSkipSectors}, bit-for-bit identical to real cryptsetup output)"
  | .mismatch => "--dry-run-cryptsetup-compat: MISMATCH — ciphertext differs from real cryptsetup output"

def Outcome.compat (outcome : Outcome) : CompatOutcome := ⟨outcome.message, outcome.isFailure⟩

/-- `platform::run` on Linux: `cryptsetup --version` decides whether `run_inner` is called. -/
def platformRun (found : Bool) (inner : Except String Bool) : Outcome :=
  if found = false then .cryptsetupNotFound
  else match inner with
    | .ok true => .matched
    | .ok false => .mismatch
    | .error detail => .operationalError detail

def fixtureLen : ℕ := fixtureSectors * sectorSize

def plaintext : Bytes := (List.range fixtureLen).map fun i => UInt8.ofNat (i % 256)

/-- The arguments of `run_inner`, and what it takes from its process. -/
structure CompatCall where
  spec : CipherSpec
  key : Bytes
  umask : UInt32
  tempDir : Bytes
  pid : ℕ

namespace CompatCall

variable (call : CompatCall)

def join (dir : Bytes) (name : String) : Bytes :=
  if dir = [] ∨ dir.getLast? = some 0x2F then dir ++ utf8 name else dir ++ 0x2F :: utf8 name

def mapName : String := s!"nocap-crypt-compat-{call.pid}"

def backingPath : Bytes := join call.tempDir s!"nocap-crypt-compat-{call.pid}.img"

def keyPath : Bytes := join call.tempDir s!"nocap-crypt-compat-{call.pid}.key"

def openArgs (keyFile loopDev : String) : List Bytes :=
  ["open", "--type", "plain", "--cipher", call.spec.asStr, "--key-size", toString (call.spec.requiredKeyBytes * 8),
    "--key-file", keyFile, "--skip", toString fixtureSkipSectors, loopDev, call.mapName].map utf8

end CompatCall

/-- How a child process ended, and what `from_utf8_lossy` makes of its output. -/
structure CommandOutput where
  success : Bool
  status : String
  stdout : String
  stderr : String

/-- The answers of the system. A write through the mapping ends up in the backing file. -/
inductive CompatMove where
  | file (fault : Option IoError)
  | write (answer : Answer)
  | command (output : Except IoError CommandOutput)
  | mapping (fault : Option IoError) (backing : Bytes)

/-- The phases from `closing` on are those of `Guard::drop`. -/
inductive CompatPhase where
  | createBacking
  | sizeBacking
  | openKey
  | writeKey
  | losetup
  | openMapping (loopDev keyFile : String)
  | writeMapping
  | readBacking
  | closing (name : String) (result : Except String Bool)
  | detaching (dev : String) (result : Except String Bool)
  | removingBacking (result : Except String Bool)
  | removingKey (result : Except String Bool)
  | returned (result : Except String Bool)

/-- The files, the guard and the commands run so far. Of the key file it is also kept how much of the key has been
written since it was opened, and what `std::fs::write` returned. -/
structure CompatState where
  phase : CompatPhase
  ours : Bytes
  backing : Option Bytes
  keyFile : Option KeyFile
  written : Option ℕ
  keyWrite : Option (Except IoError Unit)
  mapName : Option String
  loopDev : Option String
  commands : List (String × List Bytes)

namespace CompatState

variable (s : CompatState) (result : Except String Bool)

def afterClose : CompatPhase :=
  match s.loopDev with
  | some dev => .detaching dev result
  | none => .removingBacking result

/-- The guard goes out of scope. -/
def drop : CompatState :=
  { s with phase := match s.mapName with
    | some name => .closing name result
    | none => s.afterClose result }

def fail (detail : String) : CompatState := s.drop (.error detail)

def ran (program : String) (args : List Bytes) : CompatState := { s with commands := s.commands ++ [(program, args)] }

/-- `run_inner` up to the guard; a panic of the engine ends it before it has touched a file. -/
def start (P : Primitives) (call : CompatCall) (backing : Option Bytes) (keyFile : Option KeyFile) :
    Except Panic CompatState := do
  match ← SectorEngine.new P call.spec call.key with
  | .error e =>
    pure ⟨.returned (.error s!"building engine: {e.text}"), [], backing, keyFile, none, none, none, none, []⟩
  | .ok engine =>
    let ours ← engine.encryptRange fixtureSkipSectors plaintext
    pure ⟨.createBacking, ours, backing, keyFile, none, none, none, none, []⟩

end CompatState

/-- `File::create` asks for this mode. -/
def createMode : UInt32 := 0o666

/-- One `write` of the key to the file that `std::fs::write` has opened. -/
def writeKeyPass (call : CompatCall) (s : CompatState) (file : KeyFile) (written : ℕ) (answer : Answer) :
    CompatState :=
  match Platform.writeAt file.bytes written (call.key.drop written) answer with
  | .error e => { s with keyWrite := some (.error e) }.fail s!"writing key file: {e.text}"
  | .ok (n, bytes) =>
    let s' := { s with keyFile := some { file with bytes := bytes }, written := some (written + n) }
    if n = 0 then
      let e := IoError.os "failed to write whole buffer"
      { s' with keyWrite := some (.error e) }.fail s!"writing key file: {e.text}"
    else if written + n < call.key.length then s'
    else { s' with keyWrite := some (.ok ()), phase := .losetup }

def afterLosetup (call : CompatCall) (s : CompatState) (output : CommandOutput) : CompatState :=
  if output.success = false then s.fail s!"losetup failed: {trim output.stderr}"
  else
    let loopDev := trim output.stdout
    let s' := { s with loopDev := some loopDev }
    match fromUtf8 call.keyPath with
    | none => s'.fail "temp key path is not valid UTF-8"
    | some keyFile => { s' with phase := .openMapping loopDev keyFile }

/-- One step of `run_inner` or of the guard, whose own failures are passed over. -/
def compatStep (call : CompatCall) (s : CompatState) (move : CompatMove) : Option CompatState :=
  match s.phase, move with
  | .createBacking, .file (some e) => some (s.fail s!"creating backing file: {e.text}")
  | .createBacking, .file none => some { s with backing := some [], phase := .sizeBacking }
  | .sizeBacking, .file (some e) => some (s.fail s!"creating backing file: {e.text}")
  | .sizeBacking, .file none => some { s with backing := some (List.replicate fixtureLen 0), phase := .openKey }
  | .openKey, .file (some e) => some ({ s with keyWrite := some (.error e) }.fail s!"writing key file: {e.text}")
  | .openKey, .file none =>
    let s' := { s with keyFile := some (openTruncated s.keyFile createMode call.umask), written := some 0 }
    some (if call.key = [] then { s' with keyWrite := some (.ok ()), phase := .losetup }
      else { s' with phase := .writeKey })
  | .writeKey, .write answer =>
    match s.keyFile, s.written with
    | some file, some written => some (writeKeyPass call s file written answer)
    | _, _ => none
  | .losetup, .command output =>
    let s' := s.ran "losetup" [utf8 "--find", utf8 "--show", call.backingPath]
    match output with
    | .error e => some (s'.fail s!"running losetup: {e.text}")
    | .ok output => some (afterLosetup call s' output)
  | .openMapping loopDev keyFile, .command output =>
    let s' := s.ran "cryptsetup" (call.openArgs keyFile loopDev)
    match output with
    | .error e => some (s'.fail s!"running cryptsetup open: {e.text}")
    | .ok output =>
      some (if output.success = false then s'.fail s!"cryptsetup open exited with {output.status}"
        else { s' with mapName := some call.mapName, phase := .writeMapping })
  | .writeMapping, .mapping fault backing =>
    let s' := { s with backing := some backing }
    match fault with
    | some e => some (s'.fail s!"writing through dm-crypt mapping: {e.text}")
    | none => some { s' with phase := .readBacking }
  | .readBacking, .file (some e) => some (s.fail s!"reading backing file: {e.text}")
  | .readBacking, .file none =>
    match s.backing with
    | none => none
    | some backing =>
      some (if backing.length < fixtureLen then s.fail "backing file shorter than expected after write"
        else s.drop (.ok (backing.take fixtureLen == s.ours)))
  | .closing name result, .command _ =>
    some { s.ran "cryptsetup" [utf8 "close", utf8 name] with phase := s.afterClose result }
  | .detaching dev result, .command _ =>
    some { s.ran "losetup" [utf8 "-d", utf8 dev] with phase := .removingBacking result }
  | .removingBacking result, .file fault =>
    some { s with backing := if fault = none then none else s.backing, phase := .removingKey result }
  | .removingKey result, .file fault =>
    some { s with keyFile := if fault = none then none else s.keyFile, phase := .returned result }
  | _, _ => none

section KeyFile

variable {call : CompatCall} {s s' : CompatState}

def CompatPhase.Early : CompatPhase → Prop
  | .createBacking | .sizeBacking | .openKey => True
  | _ => False

/-- What one step can do to the key file: create or truncate it, write a piece of the key, or leave it or remove it. -/
inductive KeyFileStep (call : CompatCall) (s s' : CompatState) : Prop
  | opens (he : s.phase.Early) (hf : s'.keyFile = some (openTruncated s.keyFile createMode call.umask))
      (hw : s'.written = some 0) (hr : s'.keyWrite = some (.ok ()) → s.keyWrite = some (.ok ()) ∨ call.key = [])
      (hl : ¬ s'.phase.Early)
  | writes {file : KeyFile} {written n : ℕ} (h : s.keyFile = some file) (hwritten : s.written = some written)
      (hn : written + n ≤ max written call.key.length)
      (hf : s'.keyFile = some { file with bytes := overwrite file.bytes written ((call.key.drop written).take n) })
      (hw : s'.written = some (written + n))
      (hr : s'.keyWrite = some (.ok ()) → s.keyWrite = some (.ok ()) ∨ call.key.length ≤ written + n)
      (hl : ¬ s'.phase.Early)
  | keeps (hf : s'.keyFile = s.keyFile ∨ s'.keyFile = none) (hw : s'.written = s.written)
      (hr : s'.keyWrite = some (.ok ()) → s.keyWrite = some (.ok ()))
      (hl : s'.phase.Early → s.phase.Early ∧ s'.keyFile = s.keyFile ∧ s'.keyWrite = s.keyWrite)

lemma not_early_afterClose (s : CompatState) (result : Except String Bool) : ¬ (s.afterClose result).Early := by
  rw [CompatState.afterClose]
  split <;> exact id

lemma not_early_drop (s : CompatState) (result : Except String Bool) : ¬ (s.drop result).phase.Early := by
  rw [CompatState.drop]
  dsimp only
  split
  · exact id
  · exact not_early_afterClose s result

lemma keeps_drop {t : CompatState} {result : Except String Bool} (hf : t.keyFile = s.keyFile)
    (hw : t.written = s.written) (hr : t.keyWrite = s.keyWrite) : KeyFileStep call s (t.drop result) :=
  .keeps (Or.inl hf) hw (fun h => hr ▸ h) fun he => absurd he (not_early_drop t result)

lemma keeps_fail {t : CompatState} {detail : String} (hf : t.keyFile = s.keyFile) (hw : t.written = s.written)
    (hr : t.keyWrite = s.keyWrite) : KeyFileStep call s (t.fail detail) := keeps_drop hf hw hr

lemma keeps_writeFault (e : IoError) (detail : String) :
    KeyFileStep call s (CompatState.fail { s with keyWrite := some (.error e) } detail) :=
  .keeps (Or.inl rfl) rfl (fun h => by cases h) fun he => absurd he (not_early_drop _ _)

lemma writeKeyPass_step {file : KeyFile} {written : ℕ} (answer : Answer) (hp : ¬ s.phase.Early)
    (hf : s.keyFile = some file) (hw : s.written = some written) :
    KeyFileStep call s (writeKeyPass call s file written answer) := by
  rw [writeKeyPass]
  cases ha : Platform.writeAt file.bytes written (call.key.drop written) answer with
  | error e => exact keeps_writeFault e _
  | ok r =>
    obtain ⟨n, bytes⟩ := r
    obtain ⟨hn, rfl⟩ := Platform.writeAt_ok ha
    rw [List.length_drop] at hn
    dsimp only
    split
    · exact .writes hf hw (by omega) rfl rfl (fun h => by cases h) (not_early_drop _ _)
    · split
      · exact .writes hf hw (by omega) rfl rfl Or.inl hp
      · exact .writes hf hw (by omega) rfl rfl (fun _ => Or.inr (by omega)) id

lemma afterLosetup_step {t : CompatState} {output : CommandOutput} (hf : t.keyFile = s.keyFile)
    (hw : t.written = s.written) (hr : t.keyWrite = s.keyWrite) :
    KeyFileStep call s (afterLosetup call t output) := by
  rw [afterLosetup]
  split
  · exact keeps_fail hf hw hr
  · dsimp only
    split
    · apply keeps_fail <;> assumption
    · exact .keeps (Or.inl hf) hw (fun h => hr ▸ h) fun he => he.elim

lemma compatStep_keyFile {move : CompatMove} (h : compatStep call s move = some s') : KeyFileStep call s s' := by
  rw [compatStep.eq_def] at h
  split at h
  · cases h
    apply keeps_fail <;> rfl
  · rename_i hp
    cases h
    exact .keeps (Or.inl rfl) rfl id fun _ => ⟨by rw [hp]; trivial, rfl, rfl⟩
  · cases h
    apply keeps_fail <;> rfl
  · rename_i hp
    cases h
    exact .keeps (Or.inl rfl) rfl id fun _ => ⟨by rw [hp]; trivial, rfl, rfl⟩
  · cases h
    exact keeps_writeFault _ _
  · rename_i hp
    have he : s.phase.Early := by rw [hp]; trivial
    cases h
    split
    · rename_i hkey
      exact .opens he rfl rfl (fun _ => Or.inr hkey) id
    · exact .opens he rfl rfl Or.inl id
  · rename_i hp
    split at h
    · rename_i file written hf hw
      cases h
      exact writeKeyPass_step _ (by rw [hp]; exact id) hf hw
    · cases h
  · dsimp only at h
    split at h
    · cases h
      apply keeps_fail <;> rfl
    · cases h
      apply afterLosetup_step <;> rfl
  · dsimp only at h
    split at h
    · cases h
      apply keeps_fail <;> rfl
    · cases h
      split
      · apply keeps_fail <;> rfl
      · exact .keeps (Or.inl rfl) rfl id fun he => he.elim
  · dsimp only at h
    split at h
    · cases h
      apply keeps_fail <;> rfl
    · cases h
      exact .keeps (Or.inl rfl) rfl id fun he => he.elim
  · cases h
    apply keeps_fail <;> rfl
  · split at h
    · cases h
    · cases h
      split
      · apply keeps_fail <;> rfl
      · apply keeps_drop <;> rfl
  · cases h
    exact .keeps (Or.inl rfl) rfl id fun he => absurd he (not_early_afterClose s _)
  · cases h
    exact .keeps (Or.inl rfl) rfl id fun he => he.elim
  · cases h
    exact .keeps (Or.inl rfl) rfl id fun he => he.elim
  · cases h
    refine .keeps ?_ rfl id fun he => he.elim
    split
    · exact Or.inr rfl
    · exact Or.inl rfl
  · cases h

/-- Of the key the file holds what has been written, under the mode it was opened with. -/
structure KeyInv (call : CompatCall) (before : Option KeyFile) (s : CompatState) : Prop where
  early : s.phase.Early → s.keyFile = before ∧ s.keyWrite = none
  opened : ∀ written file, s.written = some written → s.keyFile = some file →
    file = { openTruncated before createMode call.umask with bytes := call.key.take written }
  bounded : ∀ written, s.written = some written → written ≤ call.key.length
  whole : s.keyWrite = some (.ok ()) → s.written = some call.key.length

lemma keyInv_step {before : Option KeyFile} {move : CompatMove} (hi : KeyInv call before s)
    (h : compatStep call s move = some s') : KeyInv call before s' := by
  cases compatStep_keyFile h with
  | opens he hf hw hr hl =>
    obtain ⟨hbefore, hnone⟩ := hi.early he
    rw [hbefore] at hf
    rw [hnone] at hr
    refine ⟨fun he' => absurd he' hl, ?_, ?_, ?_⟩
    · intro written file hwritten hfile
      rw [hw, Option.some.injEq] at hwritten
      rw [hf, Option.some.injEq] at hfile
      rw [← hwritten, ← hfile, List.take_zero, ← openTruncated_bytes before createMode call.umask]
    · intro written hwritten
      rw [hw, Option.some.injEq] at hwritten
      exact hwritten ▸ Nat.zero_le _
    · intro hok
      rw [hw, (hr hok).resolve_left (by simp)]
      rfl
  | @writes f w n hf hw hn hf' hw' hr hl =>
    have hle := hi.bounded w hw
    have hfile := hi.opened w f hw hf
    refine ⟨fun he' => absurd he' hl, ?_, ?_, ?_⟩
    · intro written file hwritten hfile'
      rw [hw', Option.some.injEq] at hwritten
      rw [hf', Option.some.injEq] at hfile'
      rw [← hwritten, ← hfile', hfile, overwrite_take hle]
    · intro written hwritten
      rw [hw', Option.some.injEq] at hwritten
      omega
    · intro hok
      rw [hw', Option.some.injEq]
      rcases hr hok with hdone | hlen
      · have hall := hi.whole hdone
        rw [hw, Option.some.injEq] at hall
        omega
      · omega
  | keeps hf hw hr hl =>
    refine ⟨?_, ?_, ?_, ?_⟩
    · intro he
      obtain ⟨he', hf', hr'⟩ := hl he
      rw [hf', hr']
      exact hi.early he'
    · intro written file hwritten hfile
      rw [hw] at hwritten
      rcases hf with hf | hf
      · exact hi.opened written file hwritten (hf ▸ hfile)
      · rw [hf] at hfile
        cases hfile
    · intro written hwritten
      exact hi.bounded written (hw ▸ hwritten)
    · intro hok
      rw [hw]
      exact hi.whole (hr hok)

lemma start_fresh (P : Primitives) (call : CompatCall) (backing : Option Bytes) (before : Option KeyFile) :
    Yields (fun _ => True) (CompatState.start P call backing before) fun s =>
      ∃ phase ours, s = ⟨phase, ours, backing, before, none, none, none, none, []⟩ ∧
        (phase = .createBacking ∨ ∃ result, phase = .returned result) := by
  refine (Yields.any (SectorEngine.new P call.spec call.key)).bind fun built _ => ?_
  cases built with
  | error e => exact ⟨_, _, rfl, Or.inr ⟨_, rfl⟩⟩
  | ok engine =>
    dsimp only
    generalize engine.encryptRange fixtureSkipSectors plaintext = ours
    refine (Yields.any ours).bind fun ours _ => ?_
    exact ⟨_, ours, rfl, Or.inl rfl⟩

lemma keyInv_start {P : Primitives} {backing : Option Bytes} {before : Option KeyFile}
    (h : CompatState.start P call backing before = .ok s) : KeyInv call before s := by
  obtain ⟨phase, ours, rfl, -⟩ := (start_fresh P call backing before).of_ok h
  refine ⟨fun _ => ⟨rfl, rfl⟩, ?_, ?_, ?_⟩
  · intro written file hwritten
    cases hwritten
  · intro written hwritten
    cases hwritten
  · intro hok
    cases hok

end KeyFile

/-- A key file that the tool has written keeps others out exactly when it was already there and did, or is new and
asked for with no other bits: `write_key_file` asks for `0600`, the temporary key file leaves it to the umask. -/
theorem keyFile_ownerOnly_iff (before : Option KeyFile) :
    (∀ (call : KeyWrite) (moves : List KeyMove) (file : Option KeyFile),
      run (writeKeyFileStep call) (before, .entered) moves = some (file, .returned (.ok ())) →
      ∃ f, file = some f ∧ f.bytes = call.key ∧ (OwnerOnly f ↔ ∀ old, before = some old → OwnerOnly old)) ∧
    ∀ (P : Primitives) (call : CompatCall) (backing : Option Bytes) (s₀ : CompatState),
      CompatState.start P call backing before = .ok s₀ →
      ∀ (moves : List CompatMove) (s : CompatState), run (compatStep call) s₀ moves = some s →
      ∀ written file, s.written = some written → s.keyFile = some file →
        file.bytes = call.key.take written ∧ (s.keyWrite = some (.ok ()) → file.bytes = call.key) ∧
          (OwnerOnly file ↔ match before with
            | some old => OwnerOnly old
            | none => createMode &&& ~~~call.umask &&& 0o077 = 0) := by
  refine ⟨?_, ?_⟩
  · intro call moves file h
    exact ⟨_, writeKeyFile_leaves h, rfl, ownerOnly_openTruncated before call.umask call.key⟩
  · intro P call backing s₀ hstart moves s hrun written file hw hf
    have hinv := run_invariant (fun _ _ _ => keyInv_step) (keyInv_start hstart) hrun
    obtain rfl := hinv.opened written file hw hf
    refine ⟨rfl, ?_, ?_⟩
    · intro hok
      have hall := hinv.whole hok
      rw [hw, Option.some.injEq] at hall
      rw [hall, List.take_length]
    · cases before with
      | some old => exact Iff.rfl
      | none => exact Iff.rfl

section Sample

def sampleCall (umask : UInt32) : CompatCall := ⟨⟨.cbcEssivSha256, .bits256⟩, sampleKey, umask, utf8 "/tmp", 7⟩

def sampleMoves : List CompatMove := [.file none, .file none, .file none, .write (.count 32)]

def sampleKeyMoves : List KeyMove := [.check true, .openFile none, .write (.count 32)]

theorem keyFile_ownerOnly_new :
    (∃ f, run (writeKeyFileStep ⟨"key.bin", sampleKey, false, 0o022⟩) (none, .entered) sampleKeyMoves =
      some (some f, .returned (.ok ())) ∧ OwnerOnly f) ∧
    ∃ s₀ s file, CompatState.start samplePrimitives (sampleCall 0o077) none none = .ok s₀ ∧
      run (compatStep (sampleCall 0o077)) s₀ sampleMoves = some s ∧ s.keyFile = some file ∧ OwnerOnly file := by
  obtain ⟨hkey, hcompat⟩ := keyFile_ownerOnly_iff none
  refine ⟨?_, ?_⟩
  · have hrun : run (writeKeyFileStep ⟨"key.bin", sampleKey, false, 0o022⟩) (none, .entered) sampleKeyMoves =
        some (some ⟨sampleKey, 0o600⟩, .returned (.ok ())) := by decide +kernel
    obtain ⟨f, hf, -, hiff⟩ := hkey _ _ _ hrun
    rw [Option.some.inj hf] at hrun
    exact ⟨f, hrun, hiff.mpr (by simp)⟩
  · have hend : ((CompatState.start samplePrimitives (sampleCall 0o077) none none).toOption.bind fun s =>
        (run (compatStep (sampleCall 0o077)) s sampleMoves).map fun s => (s.keyFile, s.written)) =
          some (some ⟨sampleKey, 0o600⟩, some 32) := by decide +kernel
    obtain ⟨s₀, hstart, hmap⟩ := Option.bind_eq_some_iff.mp hend
    obtain ⟨s, hrun, hs⟩ := Option.map_eq_some_iff.mp hmap
    have hok : CompatState.start samplePrimitives (sampleCall 0o077) none none = .ok s₀ := by
      cases hr : CompatState.start samplePrimitives (sampleCall 0o077) none none with
      | error p =>
        rw [hr] at hstart
        cases hstart
      | ok t =>
        rw [hr] at hstart
        exact congrArg Except.ok (Option.some.inj hstart)
    obtain ⟨hfile, hwritten⟩ := Prod.mk.inj hs
    obtain ⟨-, -, hiff⟩ := hcompat samplePrimitives (sampleCall 0o077) none s₀ hok sampleMoves s hrun 32 _ hwritten
      hfile
    exact ⟨s₀, s, _, hok, hrun, hfile, hiff.mpr (by decide)⟩

/-- A forced write leaves an old mode as it is, and under the usual umask the temporary key file is readable by
everyone. -/
theorem keyFile_readable_by_others :
    run (writeKeyFileStep ⟨"key.bin", sampleKey, true, 0o077⟩) (some ⟨[1], 0o644⟩, .entered) sampleKeyMoves =
      some (some ⟨sampleKey, 0o644⟩, .returned (.ok ())) ∧
    ((CompatState.start samplePrimitives (sampleCall 0o022) none none).toOption.bind fun s =>
      (run (compatStep (sampleCall 0o022)) s sampleMoves).map fun s => (s.keyFile, s.keyWrite)) =
        some (some ⟨sampleKey, 0o644⟩, some (.ok ())) ∧
    ¬ OwnerOnly ⟨sampleKey, 0o644⟩ := by
  refine ⟨?_, ?_, ?_⟩ <;> decide +kernel

end Sample

end NocapCrypt.Cli.CryptsetupCompat
