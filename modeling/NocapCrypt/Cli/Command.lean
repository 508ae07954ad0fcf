import NocapCrypt.BlockIo.FileSystem
import NocapCrypt.Core.EngineLaws
import NocapCrypt.KeyMgmt.Format
import NocapCrypt.KeyMgmt.Validate
import NocapCrypt.Library.Commands
import NocapCrypt.Worker.Concurrency

/-! What the subcommands share: exit codes, events, the operating system and the command monad. -/

namespace NocapCrypt.Cli

open NocapCrypt.Library.Commands NocapCrypt.Core NocapCrypt.BlockIo NocapCrypt.KeyMgmt NocapCrypt.Worker

inductive ExitCode where
  | success
  | generic
  | invalidArgs
  | keyValidation
  | entropyFailed
  | alignmentFailed
  | luksCompat
  | io
  | unsupportedCipher
  deriving DecidableEq, Repr

def ExitCode.code : ExitCode → ℕ
  | .success => 0
  | .generic => 1
  | .invalidArgs => 2
  | .keyValidation => 3
  | .entropyFailed => 4
  | .alignmentFailed => 5
  | .luksCompat => 6
  | .io => 7
  | .unsupportedCipher => 8

/-- What `image` commands narrate: the fingerprint of the key, and texts under the names that `narrate.rs` has for
them. -/
inductive Narration where
  | blockCipherBasics
  | xtsTweakability
  | xtsAsciiDiagram
  | xtsMalleability
  | keyFingerprint (fingerprint : String)
  | headerlessPlainReference
  | alignmentContext
  | ivDerivation (sector512 : ℕ) (iv : Block)
  | entropyResultCiphertext (bitsPerByte : ℚ)
  deriving DecidableEq

/-- The events of `nocap-crypt-ui`, without clock readings; banner and narration are those of `image` commands. -/
inductive Event where
  | cipherSelected (cipher : String) (keyBits : UInt16)
  | hardwareAccelPath (description : String)
  | concurrencyInfo (effectiveCores : ℕ) (diskType : String) (chunkSectors : ℕ) (concurrency : String)
  | alignmentStatus (path : Path) (aligned : Bool) (requiredAlignment : ℕ)
  | phaseTiming (phase : String)
  | entropyScore (bitsPerByte : ℚ) (chiSquareUniform95 : Bool)
  | progress (percent : ℚ)
  | narration (narration : Narration)
  | banner (text : String)
  | message (text : String)
  | error (text : String)
  deriving DecidableEq

/-- `--dry-run-cryptsetup-compat`: what the external tool made of the fixture. -/
structure CompatOutcome where
  message : String
  isFailure : Bool

/-- Third-party code: ciphers, decoders, scores and `cryptsetup`. -/
structure Externals where
  primitives : Primitives
  codecs : Codecs
  scores : Scores
  cryptsetupCompat : CipherSpec → Bytes → CompatOutcome

/-- The calls of a command that the operating system can refuse, whatever the files hold. -/
inductive OsCall where
  | stat
  | openInput
  | readInput
  | openOutput
  | setLen
  | readOutput
  | readHead
  | readKeyFile
  | createTempDir
  | writeTempFile
  deriving DecidableEq, Repr

structure Os where
  fault : OsCall → Option IoError
  direct : OsCall → Bool
  effectiveCores : ℕ
  diskType : Path → String
  hwDescription : String

/-- How a process ends: with an exit code, by a panic, or not at all because a `join` never returns.
`unscheduled` marks an environment that does not carry the run to its end. -/
inductive Outcome where
  | exit (code : ExitCode)
  | panic (panic : Panic)
  | hang
  | unscheduled
  deriving DecidableEq, Repr

/-- `wrapped` is a history variable: some unchecked `u64` operation has left its range. -/
structure World where
  fs : Fs
  events : List Event
  wrapped : Bool

abbrev Cmd := EStateM Outcome World

namespace Cmd

variable {α : Type}

def report (event : Event) : Cmd Unit := modify fun w => { w with events := w.events ++ [event] }

def reportAll (events : List Event) : Cmd Unit := modify fun w => { w with events := w.events ++ events }

def fail (text : String) (code : ExitCode) : Cmd α := do
  report (.error text)
  throw (.exit code)

def orFail {ε : Type} (text : ε → String) (code : ExitCode) : Except ε α → Cmd α
  | .ok a => pure a
  | .error e => fail (text e) code

def orPanic : Except Panic α → Cmd α
  | .ok a => pure a
  | .error p => throw (.panic p)

/-- The `u64` value of `exact`, in a release build. -/
def wrapping (exact : ℕ) : Cmd ℕ := fun w =>
  .ok (exact % u64Size) { w with wrapped := w.wrapped || decide (u64Size ≤ exact) }

def finish (c : Cmd ExitCode) (w : World) : Outcome × World :=
  match c w with
  | .ok code w' => (.exit code, w')
  | .error outcome w' => (outcome, w')

end Cmd

namespace Os

variable (os : Os)

def refuses {α : Type} (call : OsCall) (answer : Except IoError α) : Except IoError α :=
  match os.fault call with
  | some e => .error e
  | none => answer

def metadataLen (path : Path) : Cmd (Except IoError ℕ) := fun w =>
  .ok (os.refuses .stat (w.fs.metadataLen path)) w

def openFile (path : Path) : Cmd (Except IoError ℕ) := fun w =>
  .ok (os.refuses .openInput (w.fs.openRead path)) w

def read (call : OsCall) (path : Path) : Cmd (Except IoError Bytes) := fun w =>
  .ok (os.refuses call (w.fs.read path)) w

def openRead (path : Path) : Cmd (Except IoError SectorFile) := fun w =>
  .ok ((os.refuses .openInput (w.fs.openRead path)).map fun i => ⟨i, os.direct .openInput⟩) w

def openWrite (path : Path) (create : Bool) : Cmd (Except IoError SectorFile) := fun w =>
  match os.refuses .openOutput (w.fs.openWrite path create) with
  | .error e => .ok (.error e) w
  | .ok (i, fs) => .ok (.ok ⟨i, os.direct .openOutput⟩) { w with fs := fs }

def setLen (file : SectorFile) (len : ℕ) : Cmd (Except IoError Unit) := fun w =>
  match os.refuses .setLen (w.fs.setLen file.file len) with
  | .error e => .ok (.error e) w
  | .ok fs => .ok (.ok ()) { w with fs := fs }

def createSparseOutput (path : Path) (len : ℕ) : Cmd (Except IoError SectorFile) := do
  match ← os.openWrite path true with
  | .error e => pure (.error e)
  | .ok file =>
    match ← os.setLen file len with
    | .error e => pure (.error e)
    | .ok () => pure (.ok file)

end Os

section Inversion

open Cmd

variable {α : Type} {w w' : World}

@[simp] lemma report_eq_ok {event : Event} {u : Unit} :
    Cmd.report event w = .ok u w' ↔ w' = { w with events := w.events ++ [event] } := by
  change EStateM.Result.ok () _ = EStateM.Result.ok u w' ↔ _
  rw [EStateM.Result.ok.injEq]
  exact ⟨fun h => h.2.symm, fun h => ⟨rfl, h.symm⟩⟩

lemma report_bind (event : Event) (f : Unit → Cmd α) (w : World) :
    (Cmd.report event >>= f) w = f () { w with events := w.events ++ [event] } := rfl

@[simp] lemma reportAll_eq_ok {events : List Event} {u : Unit} :
    Cmd.reportAll events w = .ok u w' ↔ w' = { w with events := w.events ++ events } := by
  change EStateM.Result.ok () _ = EStateM.Result.ok u w' ↔ _
  rw [EStateM.Result.ok.injEq]
  exact ⟨fun h => h.2.symm, fun h => ⟨rfl, h.symm⟩⟩

lemma reportAll_bind (events : List Event) (f : Unit → Cmd α) (w : World) :
    (Cmd.reportAll events >>= f) w = f () { w with events := w.events ++ events } := rfl

lemma orFail_bind {ε β : Type} (text : ε → String) (code : ExitCode) (a : α) (f : α → Cmd β) (w : World) :
    (orFail text code (.ok a) >>= f) w = f a w := rfl

lemma orPanic_bind {β : Type} (a : α) (f : α → Cmd β) (w : World) : (orPanic (.ok a) >>= f) w = f a w := rfl

@[simp] lemma fail_ne_ok {text : String} {code : ExitCode} {a : α} : ¬ (fail text code : Cmd α) w = .ok a w' := by
  intro h
  obtain ⟨u, w₁, -, h⟩ := bind_eq_ok.mp h
  exact throw_ne_ok h

@[simp] lemma orFail_eq_ok {ε : Type} {text : ε → String} {code : ExitCode} {r : Except ε α} {a : α} :
    orFail text code r w = .ok a w' ↔ r = .ok a ∧ w' = w := by
  cases r with
  | ok b =>
    rw [orFail, pure_eq_ok, Except.ok.injEq]
    exact and_congr_right fun _ => eq_comm
  | error e =>
    constructor
    · intro h
      exact (fail_ne_ok h).elim
    · rintro ⟨h, -⟩
      cases h

@[simp] lemma orPanic_eq_ok {r : Except Panic α} {a : α} : orPanic r w = .ok a w' ↔ r = .ok a ∧ w' = w := by
  cases r with
  | ok b =>
    rw [orPanic, pure_eq_ok, Except.ok.injEq]
    exact and_congr_right fun _ => eq_comm
  | error e =>
    constructor
    · intro h
      exact (throw_ne_ok h).elim
    · rintro ⟨h, -⟩
      cases h

lemma wrapping_eq_ok {exact n : ℕ} : wrapping exact w = .ok n w' ↔
    n = exact % u64Size ∧ w' = { w with wrapped := w.wrapped || decide (u64Size ≤ exact) } := by
  rw [wrapping, EStateM.Result.ok.injEq]
  exact and_congr eq_comm eq_comm

lemma wrapping_of_lt {exact : ℕ} (h : exact < u64Size) : wrapping exact w = .ok exact w := by
  rw [wrapping, decide_eq_false (Nat.not_le_of_lt h), Bool.or_false, Nat.mod_eq_of_lt h]

lemma finish_exit {c : Cmd ExitCode} {code : ExitCode} (h : finish c w = (.exit code, w')) :
    c w = .ok code w' ∨ c w = .error (.exit code) w' := by
  rw [finish] at h
  split at h
  · rename_i hr
    cases h
    exact Or.inl hr
  · rename_i hr
    cases h
    exact Or.inr hr

end Inversion

namespace Os

variable {os : Os} {w w' : World} {path : Path}

lemma refuses_ok {α : Type} {call : OsCall} {answer : Except IoError α} {a : α}
    (h : os.refuses call answer = .ok a) : os.fault call = none ∧ answer = .ok a := by
  rw [refuses] at h
  split at h
  · cases h
  · exact ⟨‹_›, h⟩

lemma metadataLen_eq_ok {r : Except IoError ℕ} :
    os.metadataLen path w = .ok r w' ↔ os.refuses .stat (w.fs.metadataLen path) = r ∧ w = w' := by
  rw [metadataLen, EStateM.Result.ok.injEq]

lemma read_eq_ok {call : OsCall} {r : Except IoError Bytes} :
    os.read call path w = .ok r w' ↔ os.refuses call (w.fs.read path) = r ∧ w = w' := by
  rw [read, EStateM.Result.ok.injEq]

lemma openRead_eq_ok {r : Except IoError SectorFile} : os.openRead path w = .ok r w' ↔
    (os.refuses .openInput (w.fs.openRead path)).map (fun i => ⟨i, os.direct .openInput⟩) = r ∧ w = w' := by
  rw [openRead, EStateM.Result.ok.injEq]

lemma createSparseOutput_ok {len : ℕ} {file : SectorFile}
    (h : os.createSparseOutput path len w = .ok (.ok file) w') :
    ∃ fs₁, w.fs.openWrite path true = .ok (file.file, fs₁) ∧ fs₁.setLen file.file len = .ok w'.fs ∧
      w' = { w with fs := w'.fs } := by
  obtain ⟨r, w₁, ho, h⟩ := bind_eq_ok.mp h
  rw [openWrite] at ho
  split at ho
  · cases ho
    cases (pure_eq_ok.mp h).1
  · rename_i i fs hopen
    cases ho
    obtain ⟨u, w₂, hs, h⟩ := bind_eq_ok.mp h
    rw [setLen] at hs
    split at hs
    · cases hs
      cases (pure_eq_ok.mp h).1
    · rename_i fs' hset
      cases hs
      obtain ⟨he, rfl⟩ := pure_eq_ok.mp h
      cases he
      exact ⟨fs, (refuses_ok hopen).2, (refuses_ok hset).2, rfl⟩

end Os

section Sample

/-- The third-party code as far as runs on the sample sector call it. -/
def sampleExternals : Externals where
  primitives := samplePrimitives
  codecs := ⟨fun _ => .error "Odd number of digits", fun _ => .error "Invalid padding"⟩
  scores :=
    { shannonEntropy := fun bytes => if bytes = sampleKey then 5 else 4
      chiSquareStatistic := fun bytes => if bytes = sampleKey then 224 else 7680
      isUniform := fun bytes => bytes = sampleKey }
  cryptsetupCompat := fun _ _ => ⟨"--dry-run-cryptsetup-compat: skipped", false⟩

def sampleOs : Os := ⟨fun _ => none, fun _ => false, 1, fun _ => "Unknown", "software"⟩

def sampleFs : Fs where
  lookup path :=
    if path = "plain.img" then some 0 else if path = "key.bin" then some 1 else if path = "short.img" then some 2
    else if path = "/dev/sdb" then some 3 else none
  node i :=
    if i = 0 then .regular sampleSector else if i = 1 then .regular sampleKey else if i = 2 then .regular [0]
    else .blockDevice [Vector.replicate sectorSize 1]
  next := 4
  lookup_lt := by
    intro path i h
    split_ifs at h <;> cases h <;> decide

def sampleWorld : World := ⟨sampleFs, [], false⟩

end Sample

end NocapCrypt.Cli
