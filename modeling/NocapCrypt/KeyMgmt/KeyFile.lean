import NocapCrypt.BlockIo.FileSystem
import NocapCrypt.Library.Runs

/-! Key files: `write_key_file` of `crates/nocap-crypt-keymgmt/src/keygen.rs`, called by any number of
processes on one path, in steps that interleave. -/

namespace NocapCrypt.KeyMgmt

open NocapCrypt.Library.Image NocapCrypt.Library.Runs NocapCrypt.BlockIo

inductive KeyFileWriteError where
  | alreadyExists (path : Path)
  | io (error : IoError)
  deriving DecidableEq, Repr

def KeyFileWriteError.text : KeyFileWriteError → String
  | .alreadyExists path => s!"key file already exists at {path} (pass --force to overwrite)"
  | .io error => s!"io error writing key file: {error.text}"

structure KeyFile where
  bytes : Bytes
  mode : UInt32
  deriving DecidableEq, Repr

/-- The arguments of `write_key_file`, and the umask of the process that calls it. -/
structure KeyWrite where
  path : Path
  key : Bytes
  force : Bool
  umask : UInt32

def restrictiveMode : UInt32 := 0o600

/-- `open` with `write`, `create` and `truncate`: the mode is that of a new file only. -/
def openTruncated (file : Option KeyFile) (mode umask : UInt32) : KeyFile :=
  match file with
  | some f => { f with bytes := [] }
  | none => ⟨[], mode &&& ~~~umask⟩

inductive WritePhase where
  | entered
  | checked
  | writing (written : ℕ)
  | returned (result : Except KeyFileWriteError Unit)
  deriving DecidableEq

/-- `exists` is false also where the path cannot be examined. -/
inductive KeyMove where
  | check (visible : Bool)
  | openFile (fault : Option IoError)
  | write (answer : Answer)
  deriving DecidableEq

/-- One step of `write_key_file` on the file at its path. -/
def writeKeyFile (call : KeyWrite) (file : Option KeyFile) (phase : WritePhase) (move : KeyMove) :
    Option (Option KeyFile × WritePhase) :=
  match phase, move with
  | .entered, .check visible =>
    if (file.isSome && visible) = true ∧ call.force = false then
      some (file, .returned (.error (.alreadyExists call.path)))
    else some (file, .checked)
  | .checked, .openFile (some e) => some (file, .returned (.error (.io e)))
  | .checked, .openFile none =>
    some (some (openTruncated file restrictiveMode call.umask),
      if call.key = [] then .returned (.ok ()) else .writing 0)
  | .writing written, .write answer =>
    match file with
    | none => none
    | some f =>
      match Platform.writeAt f.bytes written (call.key.drop written) answer with
      | .error e => some (file, .returned (.error (.io e)))
      | .ok (n, bytes) =>
        some (some { f with bytes := bytes },
          if n = 0 then .returned (.error (.io (.os "failed to write whole buffer")))
          else if written + n < call.key.length then .writing (written + n) else .returned (.ok ()))
  | _, _ => none

abbrev Callers := Tasks (Option KeyFile) WritePhase

/-- A step of one of the calls, or another process that creates the path. -/
inductive KeyEvent where
  | call (i : ℕ) (move : KeyMove)
  | create (file : KeyFile)
  deriving DecidableEq

def keyStep (calls : ℕ → KeyWrite) (c : Callers) : KeyEvent → Option Callers
  | .call i move => c.move (fun i => writeKeyFile (calls i)) i move
  | .create file => if c.shared = none then some ⟨some file, c.task⟩ else none

def callers (file : Option KeyFile) : Callers := ⟨file, fun _ => .entered⟩

inductive WriteStep (call : KeyWrite) (file : Option KeyFile) :
    WritePhase → KeyMove → Option KeyFile → WritePhase → Prop
  | refuse {visible} (h : file.isSome = true) (hf : call.force = false) :
      WriteStep call file .entered (.check visible) file (.returned (.error (.alreadyExists call.path)))
  | pass {visible} (h : (file.isSome && visible) = false ∨ call.force = true) :
      WriteStep call file .entered (.check visible) file .checked
  | openFault {e} : WriteStep call file .checked (.openFile (some e)) file (.returned (.error (.io e)))
  | openFile {t} (h : t = if call.key = [] then .returned (.ok ()) else .writing 0) :
      WriteStep call file .checked (.openFile none) (some (openTruncated file restrictiveMode call.umask)) t
  | writeFault {written answer e} :
      WriteStep call file (.writing written) (.write answer) file (.returned (.error (.io e)))
  | writeNone {f written answer} (h : file = some f) :
      WriteStep call file (.writing written) (.write answer) file
        (.returned (.error (.io (.os "failed to write whole buffer"))))
  | writeSome {f written answer n t} (h : file = some f) (hn : written + n ≤ max written call.key.length)
      (ht : t = if written + n < call.key.length then .writing (written + n) else .returned (.ok ())) :
      WriteStep call file (.writing written) (.write answer)
        (some { f with bytes := overwrite f.bytes written ((call.key.drop written).take n) }) t

lemma writeKeyFile_some {call : KeyWrite} {file file' : Option KeyFile} {t t' : WritePhase} {m : KeyMove}
    (h : writeKeyFile call file t m = some (file', t')) : WriteStep call file t m file' t' := by
  rw [writeKeyFile.eq_def] at h
  split at h
  · split at h
    · rename_i hc
      cases h
      exact .refuse (Bool.and_eq_true_iff.mp hc.1).1 hc.2
    · rename_i hc
      cases h
      apply WriteStep.pass
      by_cases hf : call.force = true
      · exact Or.inr hf
      · exact Or.inl (by simpa using fun hv => hc ⟨hv, by simpa using hf⟩)
  · cases h
    exact .openFault
  · cases h
    exact .openFile rfl
  · split at h
    · cases h
    · rename_i f
      split at h
      · cases h
        exact .writeFault
      · rename_i n bytes hw
        obtain ⟨hn, rfl⟩ := Platform.writeAt_ok hw
        rw [List.length_drop] at hn
        cases h
        split
        · rename_i h0
          rw [h0, List.take_zero, overwrite_nil]
          exact .writeNone rfl
        · exact .writeSome rfl (by omega) rfl
  · cases h

variable {calls : ℕ → KeyWrite} {c c' : Callers}

lemma keyStep_call {i : ℕ} {m : KeyMove} (h : keyStep calls c (.call i m) = some c') :
    ∃ file t, WriteStep (calls i) c.shared (c.task i) m file t ∧ c' = ⟨file, Function.update c.task i t⟩ := by
  rw [keyStep] at h
  obtain ⟨file, t, hstep, rfl⟩ := Tasks.move_some h
  exact ⟨file, t, writeKeyFile_some hstep, rfl⟩

lemma keyStep_create {file : KeyFile} (h : keyStep calls c (.create file) = some c') :
    c.shared = none ∧ c' = ⟨some file, c.task⟩ := by
  rw [keyStep] at h
  split at h
  · exact ⟨‹_›, (Option.some.inj h).symm⟩
  · cases h

section OneWriter

/-- The call has opened the file and written a part of the key, or all of it. -/
def Holds (key : Bytes) (file : Option KeyFile) : WritePhase → Prop
  | .writing written => written ≤ key.length ∧ ∃ mode, file = some ⟨key.take written, mode⟩
  | .returned (.ok ()) => ∃ mode, file = some ⟨key, mode⟩
  | _ => True

def Opened : WritePhase → Prop
  | .writing _ | .returned (.ok ()) => True
  | _ => False

lemma Holds.isSome {key : Bytes} {file : Option KeyFile} {t : WritePhase} (h : Holds key file t)
    (ho : Opened t) : file ≠ none := by
  match t, h, ho with
  | .writing _, ⟨_, mode, hf⟩, _ => simp [hf]
  | .returned (.ok ()), ⟨mode, hf⟩, _ => simp [hf]

lemma holds_of_not_opened {key : Bytes} {file : Option KeyFile} {t : WritePhase} (h : ¬ Opened t) :
    Holds key file t := by
  match t, h with
  | .entered, _ => trivial
  | .checked, _ => trivial
  | .writing _, h => exact (h trivial).elim
  | .returned (.ok ()), h => exact (h trivial).elim
  | .returned (.error _), _ => trivial

structure OneWriter (calls : ℕ → KeyWrite) (c : Callers) : Prop where
  holds : ∀ i, Holds (calls i).key c.shared (c.task i)
  unique : ∀ i j, Opened (c.task i) → Opened (c.task j) → i = j

/-- A call opens the file only where there is none. -/
def OpensNew (c : Callers) : KeyEvent → Prop
  | .call _ (.openFile _) => c.shared = none
  | _ => True

instance (c : Callers) : DecidablePred (OpensNew c)
  | .call _ (.openFile _) => inferInstanceAs (Decidable (c.shared = none))
  | .call _ (.check _) => inferInstanceAs (Decidable True)
  | .call _ (.write _) => inferInstanceAs (Decidable True)
  | .create _ => inferInstanceAs (Decidable True)

lemma overwrite_take {key : Bytes} {written : ℕ} (h : written ≤ key.length) (n : ℕ) :
    overwrite (key.take written) written ((key.drop written).take n) = key.take (written + n) := by
  rw [overwrite_end (List.length_take_of_le h), List.take_add]

/-- A step of a call keeps what it holds; it changes the file only as the one that has opened it, or by
opening it new. -/
lemma writeStep_holds {call : KeyWrite} {file file' : Option KeyFile} {t t' : WritePhase} {m : KeyMove}
    (hi : Holds call.key file t) (hnew : ∀ fault, m = .openFile fault → file = none)
    (h : WriteStep call file t m file' t') :
    Holds call.key file' t' ∧ (file' = file ∨ Opened t ∨ file = none) ∧
      (Opened t' → Opened t ∨ file = none) := by
  cases h with
  | refuse _ _ => exact ⟨trivial, Or.inl rfl, fun h => h.elim⟩
  | pass _ => exact ⟨trivial, Or.inl rfl, fun h => h.elim⟩
  | openFault => exact ⟨trivial, Or.inl rfl, fun h => h.elim⟩
  | openFile ht =>
    have hnone := hnew none rfl
    subst hnone ht
    refine ⟨?_, Or.inr (Or.inr rfl), fun _ => Or.inr rfl⟩
    split
    · rename_i hkey
      exact ⟨_, by rw [hkey]; rfl⟩
    · exact ⟨Nat.zero_le _, _, by rw [List.take_zero]; rfl⟩
  | writeFault => exact ⟨trivial, Or.inl rfl, fun h => h.elim⟩
  | writeNone _ => exact ⟨trivial, Or.inl rfl, fun h => h.elim⟩
  | @writeSome f written answer n t hf hn ht =>
    obtain ⟨hle, mode, hfile⟩ := hi
    rw [hf] at hfile
    cases hfile
    refine ⟨?_, Or.inr (Or.inl trivial), fun _ => Or.inl trivial⟩
    subst ht
    simp only [overwrite_take hle]
    split
    · rename_i hlt
      exact ⟨hlt.le, mode, rfl⟩
    · rename_i hge
      exact ⟨mode, by rw [List.take_of_length_le (by omega)]⟩

lemma oneWriter_step {e : KeyEvent} (hnew : OpensNew c e) (hi : OneWriter calls c)
    (h : keyStep calls c e = some c') : OneWriter calls c' := by
  cases e with
  | create file =>
    obtain ⟨hnone, rfl⟩ := keyStep_create h
    refine ⟨?_, hi.unique⟩
    intro i
    exact holds_of_not_opened fun ho => (hi.holds i).isSome ho hnone
  | call i m =>
    obtain ⟨file, t, hstep, rfl⟩ := keyStep_call h
    have hopen : ∀ fault, m = .openFile fault → c.shared = none := by
      rintro fault rfl
      exact hnew
    obtain ⟨hholds, hfile, hopened⟩ := writeStep_holds (hi.holds i) hopen hstep
    -- a call that has the file open leaves none for the others to open
    have halone : ∀ j, j ≠ i → Opened (c.task j) → file = c.shared ∧ ¬ Opened t := by
      intro j hj ho
      have hsome := (hi.holds j).isSome ho
      have hclosed : ¬ Opened (c.task i) := fun hoi => hj (hi.unique j i ho hoi)
      exact ⟨(hfile.resolve_right (by tauto)), fun ht => (hopened ht).elim hclosed hsome⟩
    refine ⟨?_, ?_⟩
    · intro j
      by_cases hj : j = i
      · subst hj
        simpa only [Function.update_self] using hholds
      · simp only [Function.update_of_ne hj]
        by_cases ho : Opened (c.task j)
        · rw [(halone j hj ho).1]
          exact hi.holds j
        · exact holds_of_not_opened ho
    · intro j k hoj hok
      by_cases hj : j = i <;> by_cases hk : k = i
      · rw [hj, hk]
      · subst hj
        simp only [Function.update_self, Function.update_of_ne hk] at hoj hok
        exact ((halone k hk hok).2 hoj).elim
      · subst hk
        simp only [Function.update_self, Function.update_of_ne hj] at hoj hok
        exact ((halone j hj hoj).2 hok).elim
      · simp only [Function.update_of_ne hj, Function.update_of_ne hk] at hoj hok
        exact hi.unique j k hoj hok

lemma oneWriter_start (file : Option KeyFile) : OneWriter calls (callers file) :=
  ⟨fun _ => trivial, fun _ _ h => h.elim⟩

theorem run_oneWriter {file : Option KeyFile} {events : List KeyEvent}
    (hnew : Along (keyStep calls) OpensNew (callers file) events)
    (h : run (keyStep calls) (callers file) events = some c) : OneWriter calls c :=
  run_invariant_along (fun _ _ _ => oneWriter_step) hnew (oneWriter_start file) h

end OneWriter

/-- The file that a call finds when it opens is left as it is, and the call reports it. -/
def Refuses (calls : ℕ → KeyWrite) (c : Callers) : KeyEvent → Prop
  | .call i (.openFile fault) => ∀ f c', c.shared = some f →
      keyStep calls c (.call i (.openFile fault)) = some c' →
      c'.shared = some f ∧ c'.task i = .returned (.error (.alreadyExists (calls i).path))
  | _ => True

/-- No key is destroyed in a run to `c`. -/
structure KeepsKeys (calls : ℕ → KeyWrite) (file : Option KeyFile) (events : List KeyEvent) (c : Callers) :
    Prop where
  single : ∀ i j, c.task i = .returned (.ok ()) → c.task j = .returned (.ok ()) → i = j
  kept : ∀ i, c.task i = .returned (.ok ()) → ∃ mode, c.shared = some ⟨(calls i).key, mode⟩
  refused : Along (keyStep calls) (Refuses calls) (callers file) events

def unforced (path : Path) (keys : ℕ → Bytes) (umask : ℕ → UInt32) (i : ℕ) : KeyWrite :=
  ⟨path, keys i, false, umask i⟩

lemma opensNew_of_refuses {e : KeyEvent} (h : keyStep calls c e = some c') (hr : Refuses calls c e) :
    OpensNew c e := by
  match e, h, hr with
  | .call i (.openFile fault), h, hr =>
    change c.shared = none
    by_contra hne
    obtain ⟨f, hf⟩ := Option.ne_none_iff_exists'.mp hne
    obtain ⟨-, ht⟩ := hr f c' hf h
    obtain ⟨file, t, hstep, rfl⟩ := keyStep_call h
    simp only [Function.update_self] at ht
    subst ht
    generalize c.task i = t at hstep
    -- no branch after the check reports that the file exists
    cases hstep with
    | openFile ht => split at ht <;> cases ht
  | .call _ (.check _), _, _ => trivial
  | .call _ (.write _), _, _ => trivial
  | .create _, _, _ => trivial

lemma refuses_of_opensNew {e : KeyEvent} (hn : OpensNew c e) : Refuses calls c e := by
  match e, hn with
  | .call i (.openFile fault), hn =>
    intro f c' hf
    rw [show c.shared = none from hn] at hf
    cases hf
  | .call _ (.check _), _ => trivial
  | .call _ (.write _), _ => trivial
  | .create _, _ => trivial

/-- A call that opens right after its own check opens a new file. -/
theorem opensNew_of_adjacent {i : ℕ} (hforce : (calls i).force = false)
    (h : keyStep calls c (.call i (.check true)) = some c') (ht : c'.task i = .checked) (fault : Option IoError) :
    OpensNew c' (.call i (.openFile fault)) := by
  obtain ⟨file, t, hstep, rfl⟩ := keyStep_call h
  simp only [Function.update_self] at ht
  subst ht
  generalize c.task i = t at hstep
  cases hstep with
  | pass hpass =>
    rcases hpass with hnone | hforced
    · change c.shared = none
      simpa using hnone
    · rw [hforce] at hforced
      cases hforced

/-- In a run of unforced calls no key is destroyed exactly if no call opens a file that exists, whatever
was created since its check. -/
theorem writeKeyFile_keepsKeys_iff (path : Path) (keys : ℕ → Bytes) (umask : ℕ → UInt32)
    (file : Option KeyFile) (events : List KeyEvent) (c : Callers)
    (h : run (keyStep (unforced path keys umask)) (callers file) events = some c) :
    KeepsKeys (unforced path keys umask) file events c ↔
      Along (keyStep (unforced path keys umask)) OpensNew (callers file) events := by
  constructor
  · intro hk
    exact hk.refused.mono (fun _ _ _ => opensNew_of_refuses) h
  · intro hnew
    have howner := run_oneWriter hnew h
    refine ⟨?_, ?_, hnew.mono (fun _ _ _ _ => refuses_of_opensNew) h⟩
    · intro i j hi hj
      exact howner.unique i j (hi ▸ trivial) (hj ▸ trivial)
    · intro i hi
      have hholds := howner.holds i
      rw [hi] at hholds
      exact hholds

def sampleKeys (i : ℕ) : Bytes := List.replicate 32 (UInt8.ofNat (i + 1))

def sampleCalls : ℕ → KeyWrite := unforced "key.bin" sampleKeys fun _ => 0o022

def turnEvents : List KeyEvent :=
  [.call 0 (.check true), .call 0 (.openFile none), .call 0 (.write (.count 32)), .call 1 (.check true)]

theorem writeKeyFile_keepsKeys_turns : ∃ c, run (keyStep sampleCalls) (callers none) turnEvents = some c ∧
    KeepsKeys sampleCalls none turnEvents c := by
  obtain ⟨c, hc⟩ := Option.isSome_iff_exists.mp
    (show (run (keyStep sampleCalls) (callers none) turnEvents).isSome = true by decide)
  exact ⟨c, hc, (writeKeyFile_keepsKeys_iff "key.bin" sampleKeys (fun _ => 0o022) none turnEvents c hc).mpr
    (by decide)⟩

/-- Both calls check before either opens. -/
def raceEvents : List KeyEvent :=
  [.call 0 (.check true), .call 1 (.check true), .call 0 (.openFile none), .call 0 (.write (.count 32)),
    .call 1 (.openFile none), .call 1 (.write (.count 32))]

theorem writeKeyFile_race :
    (run (keyStep sampleCalls) (callers none) raceEvents).map (fun c => (c.shared, c.task 0, c.task 1)) =
      some (some ⟨sampleKeys 1, 0o600⟩, .returned (.ok ()), .returned (.ok ())) ∧
    ∀ c, run (keyStep sampleCalls) (callers none) raceEvents = some c →
      ¬ KeepsKeys sampleCalls none raceEvents c := by
  have hend : (run (keyStep sampleCalls) (callers none) raceEvents).map (fun c => (c.shared, c.task 0, c.task 1)) =
      some (some ⟨sampleKeys 1, 0o600⟩, .returned (.ok ()), .returned (.ok ())) := by decide +kernel
  refine ⟨hend, ?_⟩
  intro c hc hk
  rw [hc, Option.map_some, Option.some.injEq, Prod.mk.injEq, Prod.mk.injEq] at hend
  have hone := hk.single 0 1 hend.2.1 hend.2.2
  cases hone

section OneCall

def OwnerOnly (file : KeyFile) : Prop := file.mode &&& 0o077 = 0

instance : DecidablePred OwnerOnly := fun file => inferInstanceAs (Decidable (file.mode &&& 0o077 = 0))

/-- `write_key_file` with the path to itself. -/
def writeKeyFileStep (call : KeyWrite) (s : Option KeyFile × WritePhase) (move : KeyMove) :
    Option (Option KeyFile × WritePhase) := writeKeyFile call s.1 s.2 move

/-- The key as far as it is written, in a file with the mode that it was opened with. -/
def Leaves (call : KeyWrite) (before : Option KeyFile) (s : Option KeyFile × WritePhase) : Prop :=
  let opened := openTruncated before restrictiveMode call.umask
  match s.2 with
  | .entered | .checked => s.1 = before
  | .writing written => written ≤ call.key.length ∧ s.1 = some { opened with bytes := call.key.take written }
  | .returned (.ok ()) => s.1 = some { opened with bytes := call.key }
  | .returned (.error _) => True

lemma openTruncated_bytes (file : Option KeyFile) (mode umask : UInt32) :
    (openTruncated file mode umask).bytes = [] := by
  cases file <;> rfl

lemma leaves_step {call : KeyWrite} {before : Option KeyFile} {s s' : Option KeyFile × WritePhase} {m : KeyMove}
    (hi : Leaves call before s) (h : writeKeyFileStep call s m = some s') : Leaves call before s' := by
  obtain ⟨file, t⟩ := s
  obtain ⟨file', t'⟩ := s'
  cases writeKeyFile_some h with
  | refuse _ _ => trivial
  | pass _ => exact hi
  | openFault => trivial
  | openFile ht =>
    obtain rfl : file = before := hi
    have hopened := openTruncated_bytes file restrictiveMode call.umask
    subst ht
    split
    · rename_i hkey
      change some _ = some _
      rw [hkey, ← hopened]
    · refine ⟨Nat.zero_le _, ?_⟩
      rw [List.take_zero, ← hopened]
  | writeFault => trivial
  | writeNone _ => trivial
  | @writeSome f written answer n t hf hn ht =>
    obtain ⟨hle, hfile⟩ := hi
    rw [hf, Option.some.injEq] at hfile
    subst hfile ht
    simp only [overwrite_take hle]
    split
    · rename_i hlt
      exact ⟨hlt.le, rfl⟩
    · rename_i hge
      change some _ = some _
      rw [List.take_of_length_le (by omega)]

theorem writeKeyFile_leaves {call : KeyWrite} {before file : Option KeyFile} {moves : List KeyMove}
    (h : run (writeKeyFileStep call) (before, .entered) moves = some (file, .returned (.ok ()))) :
    file = some { openTruncated before restrictiveMode call.umask with bytes := call.key } := by
  have hstart : Leaves call before (before, .entered) := rfl
  exact run_invariant (fun _ _ _ => leaves_step) hstart h

lemma ownerOnly_restrictiveMode (umask : UInt32) : restrictiveMode &&& ~~~umask &&& 0o077 = 0 := by
  rw [UInt32.and_assoc, UInt32.and_comm (~~~umask), ← UInt32.and_assoc]
  have hbits : restrictiveMode &&& 0o077 = 0 := by decide
  rw [hbits, UInt32.zero_and]

lemma ownerOnly_openTruncated (before : Option KeyFile) (umask : UInt32) (bytes : Bytes) :
    OwnerOnly { openTruncated before restrictiveMode umask with bytes := bytes } ↔
      ∀ old, before = some old → OwnerOnly old := by
  cases before with
  | none => exact iff_of_true (ownerOnly_restrictiveMode umask) (by simp)
  | some old => simp [OwnerOnly, openTruncated]

end OneCall

end NocapCrypt.KeyMgmt
