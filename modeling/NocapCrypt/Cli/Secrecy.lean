import NocapCrypt.Cli.Artifacts
import NocapCrypt.Cli.EarlyExit
import NocapCrypt.Cli.OutputModes
import NocapCrypt.Worker.SideBySide

/-! What an `image` command shows of a run: the lengths of the files, whether the key is accepted, the entropy of the
ciphertext, and nothing else of what the files hold. -/

namespace NocapCrypt.Cli

open NocapCrypt.Library.Runs NocapCrypt.Library.Commands NocapCrypt.Library.Relational NocapCrypt.Core
  NocapCrypt.BlockIo NocapCrypt.KeyMgmt NocapCrypt.Worker Cmd

/-- The event without the scores of the ciphertext and the fingerprint of the key. -/
def Event.masked : Event → Event
  | .entropyScore _ _ => .entropyScore 0 false
  | .narration (.entropyResultCiphertext _) => .narration (.entropyResultCiphertext 0)
  | .narration (.keyFingerprint _) => .narration (.keyFingerprint "")
  | event => event

/-- The kind and the length of a file. -/
def shapeOf : Node → Bool × ℕ
  | .regular bytes => (true, bytes.length)
  | .blockDevice sectors => (false, (sectors.flatMap Vector.toList).length)

/-- The same files under the same names, but for their contents. -/
structure SameShape (fs fs' : Fs) : Prop where
  lookup : fs.lookup = fs'.lookup
  next : fs.next = fs'.next
  node : ∀ i, shapeOf (fs.node i) = shapeOf (fs'.node i)

structure SameView (w w' : World) : Prop where
  fs : SameShape w.fs w'.fs
  events : w.events.map Event.masked = w'.events.map Event.masked
  wrapped : w.wrapped = w'.wrapped

/-- Two results of one kind: values in relation `P`, or errors that read alike. -/
def Verdicts {α β ε τ : Type} (P : α → β → Prop) (text : ε → τ) : Except ε α → Except ε β → Prop
  | .ok a, .ok b => P a b
  | .error e, .error f => text e = text f
  | .ok _, .error _ | .error _, .ok _ => False

section Shapes

variable {fs fs' : Fs}

lemma metadataLen_of_shape {node node' : Node} (h : shapeOf node = shapeOf node') :
    node.metadataLen = node'.metadataLen := by
  cases node <;> cases node' <;> simp_all [shapeOf, Node.metadataLen]

lemma contents_of_shape {node node' : Node} (h : shapeOf node = shapeOf node') :
    node.contents.length = node'.contents.length := by
  cases node <;> cases node' <;> simp_all [shapeOf, Node.contents]

lemma SameShape.disk (h : SameShape fs fs') (i : ℕ) : (fs.disk i).length = (fs'.disk i).length :=
  contents_of_shape (h.node i)

lemma SameShape.store (h : SameShape fs fs') (i : ℕ) {bytes bytes' : Bytes} (hlen : bytes.length = bytes'.length) :
    SameShape (fs.store i bytes) (fs'.store i bytes') where
  lookup := h.lookup
  next := h.next
  node j := by
    by_cases hj : j = i
    · rw [hj, Fs.store_node_self, Fs.store_node_self, shapeOf, shapeOf, hlen]
    · rw [Fs.store_node_of_ne _ _ hj, Fs.store_node_of_ne _ _ hj, h.node j]

lemma SameShape.create (h : SameShape fs fs') (path : Path) : SameShape (fs.create path) (fs'.create path) where
  lookup := by
    change Function.update fs.lookup path (some fs.next) = Function.update fs'.lookup path (some fs'.next)
    rw [h.lookup, h.next]
  next := congrArg (· + 1) h.next
  node j := by
    change shapeOf (Function.update fs.node fs.next (.regular []) j) =
      shapeOf (Function.update fs'.node fs'.next (.regular []) j)
    rw [h.next]
    by_cases hj : j = fs'.next
    · rw [hj, Function.update_self, Function.update_self]
    · rw [Function.update_of_ne hj, Function.update_of_ne hj, h.node j]

lemma SameShape.metadataLen (h : SameShape fs fs') (path : Path) : fs.metadataLen path = fs'.metadataLen path := by
  rw [Fs.metadataLen, Fs.metadataLen, h.lookup]
  cases fs'.lookup path with
  | none => rfl
  | some i => exact congrArg Except.ok (metadataLen_of_shape (h.node i))

lemma SameShape.openRead (h : SameShape fs fs') (path : Path) : fs.openRead path = fs'.openRead path := by
  rw [Fs.openRead, Fs.openRead, h.lookup]

lemma SameShape.read (h : SameShape fs fs') (path : Path) :
    Verdicts (fun bytes bytes' => bytes.length = bytes'.length) id (fs.read path) (fs'.read path) := by
  rw [Fs.read, Fs.read, h.lookup]
  cases fs'.lookup path with
  | none => rfl
  | some i => exact h.disk i

lemma SameShape.openWrite (h : SameShape fs fs') (path : Path) (create : Bool) :
    Verdicts (fun opened opened' => opened.1 = opened'.1 ∧ SameShape opened.2 opened'.2) id
      (fs.openWrite path create) (fs'.openWrite path create) := by
  rw [Fs.openWrite, Fs.openWrite, h.lookup]
  cases fs'.lookup path with
  | some i => exact ⟨rfl, h⟩
  | none =>
    cases create with
    | true => exact ⟨h.next, h.create path⟩
    | false => rfl

lemma SameShape.setLen (h : SameShape fs fs') (i len : ℕ) :
    Verdicts SameShape id (fs.setLen i len) (fs'.setLen i len) := by
  have hnode := h.node i
  rw [Fs.setLen, Fs.setLen]
  split
  · rfl
  · cases hn : fs.node i with
    | regular bytes =>
      cases hn' : fs'.node i with
      | regular bytes' =>
        refine h.store i ?_
        rw [Library.Image.resize_length, Library.Image.resize_length]
      | blockDevice sectors =>
        rw [hn, hn'] at hnode
        cases hnode
    | blockDevice sectors =>
      cases hn' : fs'.node i with
      | regular bytes' =>
        rw [hn, hn'] at hnode
        cases hnode
      | blockDevice sectors' => rfl

end Shapes

/-- From worlds that look alike the two commands end alike, in worlds that do, and where they return, it is with
values in relation `P`. -/
def Paired {α β : Type} (view : World → World → Prop) (c : Cmd α) (d : Cmd β) (P : α → β → Prop) : Prop :=
  Agree (fun outcome w outcome' w' => outcome = outcome' ∧ view w w') view c d
    fun a w b w' => P a b ∧ view w w'

section Paired

variable {α β α' β' ε τ : Type} {view : World → World → Prop} {P : α → β → Prop} {c : Cmd α} {d : Cmd β}

lemma Paired.pure {a : α} {b : β} (h : P a b) : Paired view (pure a) (pure b) P := Agree.pure fun _ _ hw => ⟨h, hw⟩

lemma Paired.throw (outcome : Outcome) : Paired view (throw outcome : Cmd α) (throw outcome : Cmd β) P :=
  Agree.throw fun _ _ hw => ⟨rfl, hw⟩

lemma Paired.bind {f : α → Cmd α'} {g : β → Cmd β'} {R : α' → β' → Prop} (h : Paired view c d P)
    (hfg : ∀ a b, P a b → Paired view (f a) (g b) R) : Paired view (c >>= f) (d >>= g) R :=
  Agree.bind h fun a b => Agree.assuming (hfg a b)

lemma verdicts_cases {text : ε → τ} {r : Except ε α} {r' : Except ε β} (h : Verdicts P text r r') :
    (∃ a b, r = .ok a ∧ r' = .ok b ∧ P a b) ∨ ∃ e f, r = .error e ∧ r' = .error f ∧ text e = text f := by
  cases r with
  | ok a =>
    cases r' with
    | ok b => exact Or.inl ⟨a, b, rfl, rfl, h⟩
    | error f => exact h.elim
  | error e =>
    cases r' with
    | ok b => exact h.elim
    | error f => exact Or.inr ⟨e, f, rfl, rfl, h⟩

lemma verdicts_self (text : ε → τ) (r : Except ε α) : Verdicts (fun a b => a = b) text r r := by
  cases r with
  | ok a => rfl
  | error e => rfl

lemma paired_orPanic (r : Except Panic α) : Paired view (orPanic r) (orPanic r) fun a b => a = b ∧ r = .ok a := by
  cases r with
  | ok a => exact Paired.pure ⟨rfl, rfl⟩
  | error panic => exact Paired.throw _

/-- Worlds that look alike do so after the same report. -/
def KeepsReports (view : World → World → Prop) : Prop :=
  ∀ event, Paired view (report event) (report event) fun _ _ => True

variable (hview : KeepsReports view)

include hview

lemma KeepsReports.fail (text : String) (code : ExitCode) :
    Paired view (fail text code : Cmd α) (fail text code : Cmd β) P :=
  (hview _).bind fun _ _ _ => Paired.throw _

lemma KeepsReports.orFail {text : ε → String} (code : ExitCode) {r : Except ε α} {r' : Except ε β}
    (h : Verdicts P text r r') : Paired view (orFail text code r) (orFail text code r') P := by
  rcases verdicts_cases h with ⟨a, b, rfl, rfl, hab⟩ | ⟨e, f, rfl, rfl, htext⟩
  · exact Paired.pure hab
  · rw [Cmd.orFail, Cmd.orFail, htext]
    exact hview.fail _ _

end Paired

/-- Nothing else of a run is shown than what `SameView` keeps. -/
def Veiled {α β : Type} (c : Cmd α) (d : Cmd β) (P : α → β → Prop) : Prop := Paired SameView c d P

namespace Veiled

variable {α β α' β' : Type} {P : α → β → Prop} {c : Cmd α} {d : Cmd β}

lemma pure {a : α} {b : β} (h : P a b) : Veiled (pure a) (pure b) P := Paired.pure h

lemma bind {f : α → Cmd α'} {g : β → Cmd β'} {R : α' → β' → Prop} (h : Veiled c d P)
    (hfg : ∀ a b, P a b → Veiled (f a) (g b) R) : Veiled (c >>= f) (d >>= g) R := Paired.bind h hfg

end Veiled

section Primitives

variable {α β ε : Type} {P : α → β → Prop} (os : Os)

lemma veiled_report {event event' : Event} (h : event.masked = event'.masked) :
    Veiled (report event) (report event') fun _ _ => True := by
  apply Agree.modify
  intro w w' hw
  refine ⟨trivial, hw.fs, ?_, hw.wrapped⟩
  rw [List.map_append, List.map_append, hw.events, List.map_singleton, List.map_singleton, h]

lemma veiled_reportAll {events events' : List Event} (h : events.map Event.masked = events'.map Event.masked) :
    Veiled (reportAll events) (reportAll events') fun _ _ => True := by
  apply Agree.modify
  intro w w' hw
  refine ⟨trivial, hw.fs, ?_, hw.wrapped⟩
  rw [List.map_append, List.map_append, hw.events, h]

lemma veiled_entropyScore (bitsPerByte bitsPerByte' : ℚ) (uniform uniform' : Bool) :
    Veiled (report (.entropyScore bitsPerByte uniform)) (report (.entropyScore bitsPerByte' uniform'))
      fun _ _ => True := veiled_report rfl

lemma keepsReports_sameView : KeepsReports SameView := fun _ => veiled_report rfl

lemma veiled_orFail {text : ε → String} (code : ExitCode) {r : Except ε α} {r' : Except ε β}
    (h : Verdicts P text r r') : Veiled (orFail text code r) (orFail text code r') P :=
  keepsReports_sameView.orFail code h

lemma verdicts_refuses (call : OsCall) {r : Except IoError α} {r' : Except IoError β} (h : Verdicts P id r r') :
    Verdicts P id (os.refuses call r) (os.refuses call r') := by
  rw [Os.refuses, Os.refuses]
  cases os.fault call with
  | some e => rfl
  | none => exact h

lemma veiled_metadataLen (path : Path) : Veiled (os.metadataLen path) (os.metadataLen path) fun r r' => r = r' :=
  Agree.query fun _ _ hw => ⟨_, _, rfl, rfl, by rw [hw.fs.metadataLen], hw⟩

lemma veiled_openRead (path : Path) : Veiled (os.openRead path) (os.openRead path) fun r r' => r = r' :=
  Agree.query fun _ _ hw => ⟨_, _, rfl, rfl, by rw [hw.fs.openRead], hw⟩

lemma veiled_read (call : OsCall) (path : Path) : Veiled (os.read call path) (os.read call path)
    (Verdicts (fun bytes bytes' => bytes.length = bytes'.length) id) :=
  Agree.query fun _ _ hw => ⟨_, _, rfl, rfl, verdicts_refuses os call (hw.fs.read path), hw⟩

lemma veiled_openWrite (path : Path) (create : Bool) :
    Veiled (os.openWrite path create) (os.openWrite path create) fun r r' => r = r' := by
  intro w w' hw
  rw [Os.openWrite, Os.openWrite]
  rcases verdicts_cases (verdicts_refuses os .openOutput (hw.fs.openWrite path create)) with
    ⟨⟨i, fs⟩, ⟨i', fs'⟩, hopen, hopen', rfl, hshape⟩ | ⟨e, e', hopen, hopen', htext⟩
  · rw [hopen, hopen']
    exact ⟨rfl, hshape, hw.events, hw.wrapped⟩
  · rw [hopen, hopen']
    exact ⟨congrArg Except.error htext, hw⟩

lemma veiled_setLen (file : SectorFile) (len : ℕ) :
    Veiled (os.setLen file len) (os.setLen file len) fun r r' => r = r' := by
  intro w w' hw
  rw [Os.setLen, Os.setLen]
  rcases verdicts_cases (verdicts_refuses os .setLen (hw.fs.setLen file.file len)) with
    ⟨resized, resized', hset, hset', hshape⟩ | ⟨e, e', hset, hset', htext⟩
  · rw [hset, hset']
    exact ⟨rfl, hshape, hw.events, hw.wrapped⟩
  · rw [hset, hset']
    exact ⟨congrArg Except.error htext, hw⟩

lemma veiled_createSparseOutput (path : Path) (len : ℕ) :
    Veiled (os.createSparseOutput path len) (os.createSparseOutput path len) fun r r' => r = r' := by
  refine (veiled_openWrite os path true).bind fun opened _ hopened => ?_
  subst hopened
  cases opened with
  | error e => exact Veiled.pure rfl
  | ok file =>
    refine (veiled_setLen os file len).bind fun resized _ hresized => ?_
    subst hresized
    cases resized with
    | error e => exact Veiled.pure rfl
    | ok u => exact Veiled.pure rfl

end Primitives

section Transfer

/-- Transfers that went alike, over files of the same lengths. -/
structure TransferredAlike (t t' : Transferred) : Prop where
  result : t.result = t'.result
  disk : ∀ i, (t.disk i).length = (t'.disk i).length
  ciSteps : t.ciSteps = t'.ciSteps

structure StoppedAlike (s s' : Stopped) : Prop where
  outcome : s.outcome = s'.outcome
  disk : ∀ i, (s.disk i).length = (s'.disk i).length
  ciSteps : s.ciSteps = s'.ciSteps

def DispatchedAlike : Except Stopped Transferred → Except Stopped Transferred → Prop
  | .ok t, .ok t' => TransferredAlike t t'
  | .error s, .error s' => StoppedAlike s s'
  | .ok _, .error _ | .error _, .ok _ => False

def TransferJob.under (job : TransferJob) (engine : SectorEngine) : TransferJob := { job with engine := engine }

/-- What happens around a transfer depends neither on its key nor on what the files hold. -/
def Environment.Blind (env : Environment) : Prop :=
  ∀ (job : TransferJob) engine disk disk', (∀ i, (disk i).length = (disk' i).length) →
    env job disk = env (job.under engine) disk'

variable (reporter : Reporter) (job : TransferJob) (engine : SectorEngine) (showProgress : Bool)
  {disk disk' : ℕ → Bytes}

section Worker

variable (env : TransferEnv) (h : ∀ i, (disk i).length = (disk' i).length)

include h

lemma worker_lengths (progress : Bool) :
    (processRanges (job.rangeJob progress) job.concurrency env.schedule (workerStart disk) = none ∧
      processRanges ((job.under engine).rangeJob progress) job.concurrency env.schedule (workerStart disk') = none) ∨
    ∃ r s s', processRanges (job.rangeJob progress) job.concurrency env.schedule (workerStart disk) = some (r, s) ∧
      processRanges ((job.under engine).rangeJob progress) job.concurrency env.schedule (workerStart disk') =
        some (r, s') ∧ SameLengths s s' := by
  have hworker : Option.Rel (fun a b => a.1 = b.1 ∧ SameLengths a.2 b.2)
      (processRanges (job.rangeJob progress) job.concurrency env.schedule (workerStart disk))
      (processRanges ((job.under engine).rangeJob progress) job.concurrency env.schedule (workerStart disk')) :=
    (follows_lengths (job.rangeJob progress) job.engine engine).processRanges_rel job.concurrency env.schedule ⟨h, rfl⟩
  generalize processRanges (job.rangeJob progress) _ _ _ = ran at hworker ⊢
  generalize processRanges ((job.under engine).rangeJob progress) _ _ _ = ran' at hworker ⊢
  cases hworker with
  | none => exact Or.inl ⟨rfl, rfl⟩
  | @some a b hab =>
    obtain ⟨r, s⟩ := a
    obtain ⟨r', s'⟩ := b
    obtain ⟨rfl, hlengths⟩ := hab
    exact Or.inr ⟨r, s, s', rfl, rfl, hlengths⟩

lemma diskLeft_lengths (progress : Bool) (i : ℕ) :
    (diskLeft (job.rangeJob progress) job.concurrency env.schedule disk i).length =
      (diskLeft ((job.under engine).rangeJob progress) job.concurrency env.schedule disk' i).length := by
  have hrun : Option.Rel (Tasks.Linked SameLengths fun p q => p.blank = q.blank)
      (run (step (job.rangeJob progress) job.concurrency) (start (workerStart disk)) env.schedule.moves)
      (run (step ((job.under engine).rangeJob progress) job.concurrency) (start (workerStart disk'))
        env.schedule.moves) :=
    (follows_lengths (job.rangeJob progress) job.engine engine).run_linked job.concurrency
      (show SameLengths (workerStart disk) (workerStart disk') from ⟨h, rfl⟩) env.schedule.moves
  rw [diskLeft, diskLeft]
  generalize run (step (job.rangeJob progress) job.concurrency) _ _ = left at hrun ⊢
  generalize run (step ((job.under engine).rangeJob progress) job.concurrency) _ _ = left' at hrun ⊢
  cases hrun with
  | none => exact h i
  | some hlinked => exact hlinked.1.disk i

lemma counter_lengths : counterAt (job.rangeJob true) job.concurrency env.schedule (workerStart disk) =
    counterAt ((job.under engine).rangeJob true) job.concurrency env.schedule (workerStart disk') :=
  funext ((follows_lengths (job.rangeJob true) job.engine engine).counterAt_eq (fun _ _ h => h.counter)
    job.concurrency env.schedule ⟨h, rfl⟩)

lemma dispatchWithProgress_lengths :
    DispatchedAlike (dispatchWithProgress reporter job showProgress env disk)
      (dispatchWithProgress reporter (job.under engine) showProgress env disk') := by
  have hcounter := counter_lengths job engine env h
  have hload : displayLoad job env disk = displayLoad (job.under engine) env disk' :=
    funext fun k => congrFun hcounter _
  have hjoins : displayJoins job reporter.progressFlavor env disk =
      displayJoins (job.under engine) reporter.progressFlavor env disk' := by
    rw [displayJoins, displayJoins, hload]
    rfl
  have htotal : (job.under engine).progressTotalBytes = job.progressTotalBytes := rfl
  have hmode : (job.under engine).concurrency = job.concurrency := rfl
  rw [dispatchWithProgress, dispatchWithProgress, hjoins, htotal, hmode]
  dsimp only
  cases reporter.ciMode with
  | true =>
    rw [if_pos rfl, if_pos rfl, hcounter]
    rcases worker_lengths job engine env h true with ⟨hran, hran'⟩ | ⟨r, s, s', hran, hran', hlengths⟩
    · rw [hran, hran']
      exact ⟨rfl, diskLeft_lengths job engine env h true, rfl⟩
    · rw [hran, hran']
      dsimp only
      split
      · exact ⟨rfl, hlengths.disk, rfl⟩
      · cases r with
        | error panic => exact ⟨rfl, hlengths.disk, rfl⟩
        | ok result => exact ⟨rfl, hlengths.disk, rfl⟩
  | false =>
    rw [if_neg Bool.false_ne_true, if_neg Bool.false_ne_true]
    rcases worker_lengths job engine env h (LiveProgress.starts job.progressTotalBytes showProgress) with
      ⟨hran, hran'⟩ | ⟨r, s, s', hran, hran', hlengths⟩
    · rw [hran, hran']
      exact ⟨rfl, diskLeft_lengths job engine env h _, rfl⟩
    · rw [hran, hran']
      cases r with
      | error panic => exact ⟨rfl, hlengths.disk, rfl⟩
      | ok result =>
        dsimp only
        split
        · exact ⟨rfl, hlengths.disk, rfl⟩
        · exact ⟨rfl, hlengths.disk, rfl⟩

end Worker

lemma SameView.transferred {w w' : World} (hw : SameView w w') {left left' : ℕ → Bytes}
    (hleft : ∀ i, (left i).length = (left' i).length) (steps : List CiStep) :
    SameView (w.transferred job left steps) (w'.transferred (job.under engine) left' steps) := by
  refine ⟨hw.fs.store _ (hleft _), ?_, congrArg (· || job.wraps) hw.wrapped⟩
  rw [World.transferred, World.transferred, List.map_append, List.map_append, hw.events]

lemma veiled_transfer {env : Environment} (hblind : env.Blind) (phase : String) :
    Veiled (transferAndReportTiming reporter job phase showProgress env)
      (transferAndReportTiming reporter (job.under engine) phase showProgress env) fun _ _ => True := by
  have hdispatch : Veiled (dispatch reporter job showProgress env)
      (dispatch reporter (job.under engine) showProgress env) fun r r' => r = r' := by
    intro w w' hw
    have h := dispatchWithProgress_lengths reporter job engine showProgress (env job w.fs.disk) hw.fs.disk
    rw [dispatch, dispatch, ← hblind job engine w.fs.disk w'.fs.disk hw.fs.disk]
    generalize dispatchWithProgress reporter job _ _ _ = ran at h ⊢
    generalize dispatchWithProgress reporter (job.under engine) _ _ _ = ran' at h ⊢
    cases ran with
    | ok t =>
      cases ran' with
      | ok t' =>
        refine ⟨h.result, ?_⟩
        rw [h.ciSteps]
        exact hw.transferred job engine h.disk t'.ciSteps
      | error s' => exact h.elim
    | error s =>
      cases ran' with
      | ok t' => exact h.elim
      | error s' =>
        refine ⟨h.outcome, ?_⟩
        rw [h.ciSteps]
        exact hw.transferred job engine h.disk s'.ciSteps
  refine hdispatch.bind fun result _ hresult => ?_
  subst hresult
  refine (veiled_orFail .io (verdicts_self IoError.text result)).bind fun _ _ _ => ?_
  exact veiled_report rfl

end Transfer

section Commands

variable (X : Externals) (os : Os)

/-- Two keys that are both accepted, or refused in the same words. -/
def KeysAlike (spec : CipherSpec) : Except KeyLoadError Bytes → Except KeyLoadError Bytes → Prop :=
  Verdicts (fun key key' => Verdicts (fun _ _ => True) KeyValidationError.text (validateKey X.scores spec key)
    (validateKey X.scores spec key')) KeyLoadError.text

/-- The cipher, and keys of the length it takes. -/
def Selected (r r' : CipherSpec × Bytes) : Prop :=
  r.1 = r'.1 ∧ r.1.Supported ∧ r.2.length = r.1.requiredKeyBytes ∧ r'.2.length = r.1.requiredKeyBytes

lemma loadKeyFile_eq_keyRead (path : Path) (format : KeyFormatArg) (w : World) :
    loadKeyFile X os path format w = .ok (keyRead X os w.fs path format) w := by
  rw [loadKeyFile, bind_ok (rfl : os.read .readKeyFile path w = .ok _ w), keyRead]
  cases os.refuses .readKeyFile (w.fs.read path) with
  | error e => rfl
  | ok raw => rfl

lemma veiled_accepted {spec : CipherSpec} (hspec : spec.Supported) {loaded loaded' : Except KeyLoadError Bytes}
    (h : KeysAlike X spec loaded loaded') :
    Veiled
      (orFail KeyLoadError.text .io loaded >>= fun key =>
        orFail KeyValidationError.text .keyValidation (validateKey X.scores spec key) >>= fun _ =>
          (pure (spec, key) : Cmd (CipherSpec × Bytes)))
      (orFail KeyLoadError.text .io loaded' >>= fun key =>
        orFail KeyValidationError.text .keyValidation (validateKey X.scores spec key) >>= fun _ =>
          (pure (spec, key) : Cmd (CipherSpec × Bytes))) Selected := by
  refine (veiled_orFail .io h).bind fun key key' hverdicts => ?_
  rcases verdicts_cases hverdicts with ⟨report, report', hvalid, hvalid', -⟩ | ⟨e, e', hvalid, hvalid', htext⟩
  · rw [hvalid, hvalid']
    exact Veiled.pure ⟨rfl, hspec, validateKey_length hvalid, validateKey_length hvalid'⟩
  · rw [hvalid, hvalid']
    have hrefused : Verdicts (fun _ _ : KeyValidationReport => False) KeyValidationError.text (.error e) (.error e') :=
      htext
    exact (veiled_orFail .keyValidation hrefused).bind fun _ _ h => h.elim

/-- Worlds that look alike, in which no file has been written to since `w` and `w'`. -/
structure Unwritten (w w' s s' : World) : Prop where
  left : s.fs = w.fs
  right : s'.fs = w'.fs
  view : SameView s s'

/-- What both runs do up to the first write, and how it ends. -/
def Opening {α β : Type} (w w' : World) (c : Cmd α) (d : Cmd β) (Q : α → World → β → World → Prop) : Prop :=
  Agree (fun outcome s outcome' s' => outcome = outcome' ∧ SameView s s') (Unwritten w w') c d Q

lemma opening_reportAll (w w' : World) (events : List Event) :
    Opening w w' (reportAll events) (reportAll events) fun _ s _ s' => Unwritten w w' s s' := by
  apply Agree.modify
  intro s s' hs
  refine ⟨hs.left, hs.right, hs.view.fs, ?_, hs.view.wrapped⟩
  rw [List.map_append, List.map_append, hs.view.events]

lemma opening_resolveSpecAndKey {cipher : CipherArg} {keySize : Option UInt16} {keyFile : Path}
    {keyFormat : KeyFormatArg} {w w' : World}
    (hkey : ∀ spec, resolveCipherSpec cipher keySize = .ok spec →
      KeysAlike X spec (keyRead X os w.fs keyFile keyFormat) (keyRead X os w'.fs keyFile keyFormat)) :
    Opening w w' (resolveSpecAndKey X os cipher keySize keyFile keyFormat)
      (resolveSpecAndKey X os cipher keySize keyFile keyFormat) fun r s r' s' => Selected r r' ∧ SameView s s' := by
  intro s s' hs
  rw [resolveSpecAndKey]
  cases hspec : resolveCipherSpec cipher keySize with
  | error e =>
    have hfail : Veiled (fail e.text .unsupportedCipher : Cmd (CipherSpec × Bytes))
        (fail e.text .unsupportedCipher) Selected := keepsReports_sameView.fail _ _
    exact hfail s s' hs.view
  | ok spec =>
    have hread := hkey spec hspec
    rw [← hs.left, ← hs.right] at hread
    have haccepted := veiled_accepted X (resolveCipherSpec_supported hspec) hread s s' hs.view
    rw [orFail_bind, orFail_bind, bind_ok (loadKeyFile_eq_keyRead X os keyFile keyFormat s),
      bind_ok (loadKeyFile_eq_keyRead X os keyFile keyFormat s')]
    exact haccepted

lemma veiled_buildEngine {r r' : CipherSpec × Bytes} (h : Selected r r') :
    Veiled (buildEngine X r.1 r.2) (buildEngine X r'.1 r'.2) fun _ _ => True := by
  obtain ⟨hspec, hsupported, hlen, hlen'⟩ := h
  obtain ⟨engine, hengine⟩ := SectorEngine.new_ok X.primitives hsupported hlen
  obtain ⟨engine', hengine'⟩ := SectorEngine.new_ok X.primitives hsupported hlen'
  rw [buildEngine, buildEngine, ← hspec, hengine, hengine']
  exact Veiled.pure trivial

lemma veiled_statInputLen (path : Path) :
    Veiled (statInputLen os path) (statInputLen os path) fun n n' => n = n' := by
  refine (veiled_metadataLen os path).bind fun len _ hlen => ?_
  subst hlen
  exact veiled_orFail _ (verdicts_self _ len)

lemma veiled_resolveAndReportConcurrency (path : Path) (n : ℕ) (threshold : UInt64) (pin : Bool)
    (maxWorkers : Option UInt64) :
    Veiled (resolveAndReportConcurrency os path n threshold pin maxWorkers)
      (resolveAndReportConcurrency os path n threshold pin maxWorkers) fun r r' => r = r' :=
  (veiled_report rfl).bind fun _ _ _ => Veiled.pure rfl

lemma veiled_openInputFile (path : Path) :
    Veiled (openInputFile os path) (openInputFile os path) fun file file' => file = file' := by
  refine (veiled_openRead os path).bind fun opened _ hopened => ?_
  subst hopened
  exact veiled_orFail _ (verdicts_self _ opened)

lemma veiled_openOutputFile (path : Path) (size : ℕ) :
    Veiled (openOutputFile os path size) (openOutputFile os path size) fun file file' => file = file' := by
  refine (veiled_createSparseOutput os path size).bind fun created _ hcreated => ?_
  subst hcreated
  exact veiled_orFail _ (verdicts_self _ created)

variable (reporter : Reporter)

lemma veiled_scoreCiphertext (path : Path) (n : ℕ) :
    Veiled (scoreCiphertext X os reporter path n) (scoreCiphertext X os reporter path n) fun _ _ => True := by
  refine Agree.ite (fun _ => ?_) (fun _ => Veiled.pure trivial)
  refine (veiled_read os .readOutput path).bind fun ciphertext ciphertext' h => ?_
  rcases verdicts_cases h with ⟨bytes, bytes', rfl, rfl, -⟩ | ⟨e, e', rfl, rfl, -⟩
  · refine (veiled_entropyScore _ _ _ _).bind fun _ _ _ => veiled_reportAll ?_
    rw [Reporter.narration, Reporter.narration]
    split <;> rfl
  · exact Veiled.pure trivial

lemma veiled_keyNarration (topics : List Narration) (fingerprint fingerprint' : String) :
    Veiled (reportAll (reporter.narration (.keyFingerprint fingerprint :: topics)))
      (reportAll (reporter.narration (.keyFingerprint fingerprint' :: topics))) fun _ _ => True := by
  apply veiled_reportAll
  rw [Reporter.narration, Reporter.narration]
  split <;> rfl

variable (showProgress : Bool) {env : Environment} (hblind : env.Blind) {w w' : World}

include hblind

lemma veiled_runEncryptImpl {args : EncryptArgs} (hplain : args.dryRunCryptsetupCompat = false)
    (hkey : ∀ spec, resolveCipherSpec args.cipher args.keySize = .ok spec → KeysAlike X spec
      (keyRead X os w.fs args.keyFile args.keyFormat) (keyRead X os w'.fs args.keyFile args.keyFormat)) :
    Opening w w' (runEncryptImpl X os reporter args showProgress env)
      (runEncryptImpl X os reporter args showProgress env) fun code s code' s' => code = code' ∧ SameView s s' := by
  refine (opening_reportAll w w' _).bind fun _ _ => ?_
  refine (opening_resolveSpecAndKey X os hkey).bind fun ⟨spec, key⟩ ⟨spec', key'⟩ => ?_
  refine Agree.assuming fun hselected => ?_
  change Veiled _ _ fun code code' => code = code'
  obtain rfl : spec = spec' := hselected.1
  refine (veiled_reportAll rfl).bind fun _ _ _ => ?_
  refine (veiled_keyNarration reporter _ _ _).bind fun _ _ _ => ?_
  refine (veiled_reportAll rfl).bind fun _ _ _ => ?_
  refine (veiled_report rfl).bind fun _ _ _ => ?_
  refine (veiled_buildEngine X hselected).bind fun engine engine' _ => ?_
  refine (veiled_statInputLen os args.input).bind fun inputLen _ hlen => ?_
  subst hlen
  refine (veiled_orFail .invalidArgs (verdicts_self id _)).bind fun outputSize _ hsize => ?_
  subst hsize
  refine (veiled_report rfl).bind fun _ _ _ => ?_
  refine (veiled_reportAll rfl).bind fun _ _ _ => ?_
  refine (veiled_resolveAndReportConcurrency os _ _ _ _ _).bind fun ⟨info, concurrency⟩ _ hresolved => ?_
  subst hresolved
  refine (veiled_openInputFile os args.input).bind fun inputFile _ hinput => ?_
  subst hinput
  refine (veiled_openOutputFile os args.output outputSize).bind fun outputFile _ houtput => ?_
  subst houtput
  refine (veiled_reportAll rfl).bind fun _ _ _ => ?_
  refine (paired_orPanic _).bind fun ranges _ hranges => ?_
  obtain rfl := hranges.1
  refine (veiled_transfer reporter _ engine' showProgress hblind "encrypt").bind fun _ _ _ => ?_
  refine (veiled_scoreCiphertext X os reporter args.output inputLen).bind fun _ _ _ => ?_
  rw [compatCheck, compatCheck, hplain]
  exact Veiled.pure rfl

lemma veiled_runDecryptImpl {args : DecryptArgs}
    (hkey : ∀ spec, resolveCipherSpec args.cipher args.keySize = .ok spec → KeysAlike X spec
      (keyRead X os w.fs args.keyFile args.keyFormat) (keyRead X os w'.fs args.keyFile args.keyFormat)) :
    Opening w w' (runDecryptImpl X os reporter args showProgress env)
      (runDecryptImpl X os reporter args showProgress env) fun code s code' s' => code = code' ∧ SameView s s' := by
  refine (opening_reportAll w w' _).bind fun _ _ => ?_
  refine (opening_resolveSpecAndKey X os hkey).bind fun ⟨spec, key⟩ ⟨spec', key'⟩ => ?_
  refine Agree.assuming fun hselected => ?_
  change Veiled _ _ fun code code' => code = code'
  obtain rfl : spec = spec' := hselected.1
  refine (veiled_reportAll rfl).bind fun _ _ _ => ?_
  refine (veiled_buildEngine X hselected).bind fun engine engine' _ => ?_
  refine (veiled_statInputLen os args.input).bind fun inputLen _ hlen => ?_
  subst hlen
  refine (veiled_resolveAndReportConcurrency os _ _ _ _ _).bind fun ⟨info, concurrency⟩ _ hresolved => ?_
  subst hresolved
  refine (veiled_openInputFile os args.input).bind fun inputFile _ hinput => ?_
  subst hinput
  refine (veiled_openOutputFile os args.output inputLen).bind fun outputFile _ houtput => ?_
  subst houtput
  refine (veiled_reportAll rfl).bind fun _ _ _ => ?_
  refine (paired_orPanic _).bind fun ranges _ hranges => ?_
  obtain rfl := hranges.1
  refine (veiled_transfer reporter _ engine' showProgress hblind "decrypt").bind fun _ _ _ => ?_
  exact Veiled.pure rfl

end Commands

lemma finish_paired {view R : World → World → Prop} {c d : Cmd ExitCode} {w w' : World}
    (h : Agree (fun outcome s outcome' s' => outcome = outcome' ∧ view s s') R c d
      fun code s code' s' => code = code' ∧ view s s') (hw : R w w') :
    (finish c w).1 = (finish d w').1 ∧ view (finish c w).2 (finish d w').2 := by
  have hcd := h w w' hw
  rw [finish, finish]
  cases hc : c w with
  | ok code w₁ =>
    cases hd : d w' with
    | ok code' w₁' =>
      rw [hc, hd] at hcd
      exact ⟨congrArg Outcome.exit hcd.1, hcd.2⟩
    | error outcome' w₁' =>
      rw [hc, hd] at hcd
      exact hcd.elim
  | error outcome w₁ =>
    cases hd : d w' with
    | ok code' w₁' =>
      rw [hc, hd] at hcd
      exact hcd.elim
    | error outcome' w₁' =>
      rw [hc, hd] at hcd
      exact hcd

def ImageAction.dryRun : ImageAction → Bool
  | .encrypt args => args.dryRunCryptsetupCompat
  | .decrypt _ => false

/-- Two runs of an `image` command on files that differ in their contents only, with keys that are both accepted or
refused in the same words, end alike, report the same but for the scores of the ciphertext and the fingerprint of the
key, and leave files of the same lengths. So nothing else that is printed tells anything about a plaintext or a key. -/
theorem runImage_secrecy (X : Externals) (os : Os) (reporter : Reporter) (action : ImageAction) (showProgress : Bool)
    (env : Environment) (hblind : env.Blind) (w w' : World) (hplain : action.dryRun = false) (hview : SameView w w')
    (hkey : ∀ spec, resolveCipherSpec action.cipher action.keySize = .ok spec → KeysAlike X spec
      (keyRead X os w.fs action.keyFile action.keyFormat) (keyRead X os w'.fs action.keyFile action.keyFormat)) :
    (runImage X os reporter action showProgress env w).1 = (runImage X os reporter action showProgress env w').1 ∧
      SameView (runImage X os reporter action showProgress env w).2
        (runImage X os reporter action showProgress env w').2 := by
  have hstart : Unwritten w w' w w' := ⟨rfl, rfl, hview⟩
  cases action with
  | encrypt args => exact finish_paired (veiled_runEncryptImpl X os reporter showProgress hblind hplain hkey) hstart
  | decrypt args => exact finish_paired (veiled_runDecryptImpl X os reporter showProgress hblind hkey) hstart

section Sample

/-- Another plaintext and another key. -/
def otherWorld : World :=
  { sampleWorld with
    fs :=
      { sampleFs with
        node := fun i =>
          if i = 0 then .regular (List.replicate 512 7) else if i = 1 then .regular sampleKey.reverse
          else sampleFs.node i } }

lemma otherWorld_view : SameView sampleWorld otherWorld := by
  refine ⟨⟨rfl, rfl, ?_⟩, rfl, rfl⟩
  intro i
  by_cases hplain : i = 0
  · subst hplain
    decide +kernel
  · by_cases hkey : i = 1
    · subst hkey
      decide +kernel
    · change shapeOf (sampleFs.node i) = shapeOf (if i = 0 then _ else if i = 1 then _ else sampleFs.node i)
      rw [if_neg hplain, if_neg hkey]

/-- The digests of both keys. -/
def hashingExternals : Externals :=
  { sampleExternals with
    primitives := { samplePrimitives with
      sha256 := fun bytes =>
        if bytes = sampleKey.reverse then
          #v[105, 197, 92, 144, 2, 235, 140, 122, 78, 117, 208, 180, 150, 41, 196, 207,
            131, 209, 44, 251, 86, 103, 10, 140, 214, 226, 219, 20, 145, 169, 150, 196]
        else samplePrimitives.sha256 bytes } }

def didacticEncryption (w : World) : Outcome × World :=
  runImage hashingExternals sampleOs { narrates := true, progressFlavor := .didactic } (.encrypt sampleEncryptArgs) true
    sampleEnv w

/-- Under `--didactic` the logs differ, in the fingerprint of the key. -/
theorem runImage_secrecy_didactic :
    (didacticEncryption sampleWorld).1 = (didacticEncryption otherWorld).1 ∧
      SameView (didacticEncryption sampleWorld).2 (didacticEncryption otherWorld).2 ∧
      (didacticEncryption sampleWorld).2.events ≠ (didacticEncryption otherWorld).2.events := by
  have hcbc : resolveCipherSpec (ImageAction.encrypt sampleEncryptArgs).cipher
      (ImageAction.encrypt sampleEncryptArgs).keySize = .ok ⟨.cbcEssivSha256, .bits256⟩ := by decide
  have hkeys : ∀ spec, resolveCipherSpec (ImageAction.encrypt sampleEncryptArgs).cipher
      (ImageAction.encrypt sampleEncryptArgs).keySize = .ok spec → KeysAlike hashingExternals spec
        (keyRead hashingExternals sampleOs sampleWorld.fs "key.bin" .raw)
        (keyRead hashingExternals sampleOs otherWorld.fs "key.bin" .raw) := by
    intro spec hspec
    rw [hcbc] at hspec
    cases hspec
    exact trivial
  obtain ⟨hend, hview⟩ := runImage_secrecy hashingExternals sampleOs { narrates := true, progressFlavor := .didactic }
    (.encrypt sampleEncryptArgs) true sampleEnv (fun _ _ _ _ _ => rfl) sampleWorld otherWorld rfl otherWorld_view hkeys
  exact ⟨hend, hview, by decide +kernel⟩

end Sample

end NocapCrypt.Cli
