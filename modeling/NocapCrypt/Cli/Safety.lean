import NocapCrypt.Cli.Command

/-! Commands that neither crash nor wrap, and the pre- and postconditions of what they are made of. -/

namespace NocapCrypt.Cli

open NocapCrypt.Library.Commands NocapCrypt.BlockIo Cmd

/-- The process ends with an exit code; only the threads of a transfer can keep it from that. -/
def Returns (transfers : Bool) : Outcome → Prop
  | .exit _ => True
  | .panic _ => False
  | .hang | .unscheduled => transfers = true

/-- No panic, and no `u64` operation out of range. -/
def Clean (transfers : Bool) (run : Outcome × World) : Prop := Returns transfers run.1 ∧ run.2.wrapped = false

instance (transfers : Bool) : DecidablePred (Returns transfers)
  | .exit _ => isTrue trivial
  | .panic _ => isFalse id
  | .hang | .unscheduled => inferInstanceAs (Decidable (transfers = true))

instance (transfers : Bool) : DecidablePred (Clean transfers) := fun run =>
  inferInstanceAs (Decidable (Returns transfers run.1 ∧ run.2.wrapped = false))

/-- How a command may stop early: not with `ExitCode::Success`. -/
def Orderly (transfers : Bool) (outcome : Outcome) : Prop := Returns transfers outcome ∧ outcome ≠ .exit .success

def EventBlind (I : World → Prop) : Prop := ∀ w events, I w → I { w with events := events }

/-- The history of overflows is `b`. -/
def Wrapped (b : Bool) (w : World) : Prop := w.wrapped = b

lemma eventBlind_wrapped (b : Bool) : EventBlind (Wrapped b) := fun _ _ h => h

section Primitives

variable {α : Type} {transfers : Bool} {I : World → Prop} (hI : EventBlind I) (os : Os)

include hI

lemma ensures_report (event : Event) : Ensures I (Orderly transfers) (report event) fun _ => True :=
  Ensures.modify fun w hw => hI w (w.events ++ [event]) hw

lemma ensures_reportAll (events : List Event) : Ensures I (Orderly transfers) (reportAll events) fun _ => True :=
  Ensures.modify fun w hw => hI w (w.events ++ events) hw

lemma ensures_fail {Q : α → Prop} (text : String) {code : ExitCode} (hc : code ≠ .success) :
    Ensures I (Orderly transfers) (fail text code) Q :=
  (ensures_report hI (.error text)).bind fun _ _ => Ensures.throw ⟨trivial, fun h => hc (Outcome.exit.inj h)⟩

lemma ensures_orFail {ε : Type} (text : ε → String) {code : ExitCode} (hc : code ≠ .success) (r : Except ε α) :
    Ensures I (Orderly transfers) (orFail text code r) fun a => r = .ok a := by
  cases r with
  | ok a => exact Ensures.pure rfl
  | error e => exact ensures_fail hI _ hc

omit hI

lemma ensures_orPanic {r : Except Panic α} (h : ∃ a, r = .ok a) :
    Ensures I (Orderly transfers) (orPanic r) fun a => r = .ok a := by
  obtain ⟨a, rfl⟩ := h
  exact Ensures.pure rfl

lemma ensures_wrapping {exact : ℕ} (h : exact < u64Size) :
    Ensures I (Orderly transfers) (wrapping exact) (· = exact) := by
  intro w hw
  rw [wrapping_of_lt h]
  exact ⟨hw, rfl⟩

lemma ensures_metadataLen (path : Path) : Ensures I (Orderly transfers) (os.metadataLen path) fun _ => True :=
  Ensures.query fun w _ => ⟨os.refuses .stat (w.fs.metadataLen path), rfl, trivial⟩

lemma ensures_read (call : OsCall) (path : Path) : Ensures I (Orderly transfers) (os.read call path) fun _ => True :=
  Ensures.query fun w _ => ⟨os.refuses call (w.fs.read path), rfl, trivial⟩

lemma ensures_openRead (path : Path) : Ensures I (Orderly transfers) (os.openRead path) fun _ => True :=
  Ensures.query fun _ _ => ⟨_, rfl, trivial⟩

end Primitives

section Outputs

variable {transfers : Bool} {I : World → Prop} (hI : ∀ w fs, I w → I { w with fs := fs }) (os : Os)

include hI

lemma ensures_openWrite (path : Path) (create : Bool) :
    Ensures I (Orderly transfers) (os.openWrite path create) fun _ => True := by
  intro w hw
  rw [Os.openWrite]
  cases os.refuses .openOutput (w.fs.openWrite path create) with
  | error e => exact ⟨hw, trivial⟩
  | ok r => exact ⟨hI w _ hw, trivial⟩

lemma ensures_setLen (file : SectorFile) (len : ℕ) :
    Ensures I (Orderly transfers) (os.setLen file len) fun r => r = .ok () → len ≤ i64Max := by
  intro w hw
  rw [Os.setLen]
  cases hr : os.refuses .setLen (w.fs.setLen file.file len) with
  | error e => exact ⟨hw, fun h => by cases h⟩
  | ok fs => exact ⟨hI w fs hw, fun _ => (Fs.setLen_ok (Os.refuses_ok hr).2).1⟩

lemma ensures_createSparseOutput (path : Path) (len : ℕ) :
    Ensures I (Orderly transfers) (os.createSparseOutput path len) fun r => ∀ file, r = .ok file → len ≤ i64Max := by
  refine (ensures_openWrite hI os path true).bind fun opened _ => ?_
  cases opened with
  | error e => exact Ensures.pure fun file h => by cases h
  | ok file =>
    refine (ensures_setLen hI os file len).bind fun resized hlen => ?_
    cases resized with
    | error e => exact Ensures.pure fun file h => by cases h
    | ok u => exact Ensures.pure fun file _ => hlen rfl

end Outputs

lemma clean_of_ensures {transfers : Bool} {c : Cmd ExitCode} {I : World → Prop} {Q : ExitCode → Prop}
    (h : Ensures I (Orderly transfers) c Q) (hI : ∀ w, I w → w.wrapped = false) {w : World} (hw : I w) :
    Clean transfers (finish c w) := by
  have hc := h w hw
  rw [finish]
  cases hr : c w with
  | ok code w' =>
    rw [hr] at hc
    exact ⟨trivial, hI w' hc.1⟩
  | error outcome w' =>
    rw [hr] at hc
    exact ⟨hc.2.1, hI w' hc.1⟩

lemma eq_success {run : Outcome × World} (h : run.1 = .exit .success) : run = (.exit .success, run.2) :=
  Prod.ext h rfl

lemma success_of_ensures {transfers : Bool} {c : Cmd ExitCode} {w w' : World} {Q : ExitCode → Prop}
    (h : Ensures (Wrapped w.wrapped) (Orderly transfers) c Q) (hrun : finish c w = (.exit .success, w')) :
    c w = .ok .success w' := by
  rcases finish_exit hrun with hr | hr
  · exact hr
  · have hc := h w rfl
    rw [hr] at hc
    exact (hc.2.2 rfl).elim

end NocapCrypt.Cli
