import NocapCrypt.Cli.ImageRuns
import NocapCrypt.Library.Relational

/-! `--quiet`, `--ci`, `--log-format` and the moments at which a display polls decide what an `image` command prints,
not what it does. -/

namespace NocapCrypt.Cli

open NocapCrypt.Library.Commands NocapCrypt.Library.Relational NocapCrypt.Core NocapCrypt.BlockIo NocapCrypt.KeyMgmt
  NocapCrypt.Worker Cmd

/-- What a mode adds to the reports of a command, with the lines of its joke. -/
def Event.isChatter (jokes : List Event) (event : Event) : Bool :=
  match event with
  | .progress _ | .banner _ | .narration _ => true
  | event => decide (event ∈ jokes)

def World.log (jokes : List Event) (w : World) : List Event := w.events.filter fun event => !event.isChatter jokes

/-- The same world, but for the chatter of the modes. -/
structure SameButChatter (jokes : List Event) (w w' : World) : Prop where
  fs : w.fs = w'.fs
  wrapped : w.wrapped = w'.wrapped
  log : w.log jokes = w'.log jokes

/-- The mode in which `dispatch_with_progress` spawns a display thread and joins it. -/
def Reporter.live (reporter : Reporter) (showProgress : Bool) : Bool := !reporter.ciMode && showProgress

/-- Two ends of one command in two modes. They are the same, or the transfer has failed and, with the same files left
behind, the command waits for its live display, which is shown in one of the modes only. -/
def EndsAlike (jokes : List Event) (live live' : Bool) (outcome : Outcome) (w : World) (outcome' : Outcome)
    (w' : World) : Prop :=
  (outcome = outcome' ∧ SameButChatter jokes w w') ∨
    (live = true ∧ live' = false ∧ outcome = .hang ∧ outcome' = .exit .io ∧ w.fs = w'.fs) ∨
    (live = false ∧ live' = true ∧ outcome = .exit .io ∧ outcome' = .hang ∧ w.fs = w'.fs)

/-- `c` and `d` do the same up to their chatter, and where they return it is with the same value, of which `P`
holds. -/
def Together {α : Type} (jokes : List Event) (live live' : Bool) (c d : Cmd α) (P : α → Prop) : Prop :=
  Agree (EndsAlike jokes live live') (SameButChatter jokes) c d
    fun a w b w' => a = b ∧ P a ∧ SameButChatter jokes w w'

section Chatter

variable {jokes : List Event}

lemma filter_chatter {events : List Event} (h : ∀ event ∈ events, event.isChatter jokes = true) :
    (events.filter fun event => !event.isChatter jokes) = [] := by
  rw [List.filter_eq_nil_iff]
  intro event hevent
  simp [h event hevent]

lemma Reporter.banner_chatter (reporter : Reporter) : ∀ event ∈ reporter.banner, event.isChatter jokes = true := by
  intro event hevent
  obtain ⟨text, -, rfl⟩ := List.mem_map.mp hevent
  rfl

lemma Reporter.narration_chatter (reporter : Reporter) (topics : List Narration) :
    ∀ event ∈ reporter.narration topics, event.isChatter jokes = true := by
  intro event hevent
  rw [Reporter.narration] at hevent
  split at hevent
  · obtain ⟨topic, -, rfl⟩ := List.mem_map.mp hevent
    rfl
  · cases hevent

lemma Reporter.joke_chatter {reporter : Reporter} (h : reporter.joke ⊆ jokes) :
    ∀ event ∈ reporter.joke, event.isChatter jokes = true := by
  intro event hevent
  have hmem := h hevent
  cases event <;> simp [Event.isChatter, hmem]

lemma progress_chatter (percents : List ℚ) :
    ∀ event ∈ percents.map Event.progress, event.isChatter jokes = true := by
  intro event hevent
  obtain ⟨percent, -, rfl⟩ := List.mem_map.mp hevent
  rfl

lemma SameButChatter.withFs {w w' : World} (h : SameButChatter jokes w w') (fs : Fs) :
    SameButChatter jokes { w with fs := fs } { w' with fs := fs } := ⟨rfl, h.wrapped, h.log⟩

/-- The reports that follow may differ in their chatter. -/
lemma SameButChatter.reportAll {w w' : World} (h : SameButChatter jokes w w') {events events' : List Event}
    (hlog : (events.filter fun event => !event.isChatter jokes) = events'.filter fun event => !event.isChatter jokes) :
    SameButChatter jokes { w with events := w.events ++ events } { w' with events := w'.events ++ events' } := by
  refine ⟨h.fs, h.wrapped, ?_⟩
  have hbefore := h.log
  simp only [World.log] at hbefore
  simp only [World.log, List.filter_append, hbefore, hlog]

end Chatter

namespace Together

variable {jokes : List Event} {α β : Type} {live live' : Bool} {P Q : α → Prop}

lemma pure {a : α} (h : P a) : Together jokes live live' (pure a) (pure a) P :=
  Agree.pure fun _ _ hw => ⟨rfl, h, hw⟩

lemma throw (outcome : Outcome) : Together jokes live live' (throw outcome : Cmd α) (throw outcome) P :=
  Agree.throw fun _ _ hw => Or.inl ⟨rfl, hw⟩

lemma bind {c d : Cmd α} {f g : α → Cmd β} {R : β → Prop} (h : Together jokes live live' c d P)
    (hfg : ∀ a, P a → Together jokes live live' (f a) (g a) R) : Together jokes live live' (c >>= f) (d >>= g) R := by
  apply Agree.bind h
  rintro a b w w' ⟨rfl, ha, hw⟩
  exact hfg a ha w w' hw

lemma imp {c d : Cmd α} (h : Together jokes live live' c d P) (hpq : ∀ a, P a → Q a) :
    Together jokes live live' c d Q :=
  Agree.imp h (fun _ _ hw => hw) fun a _ _ _ ⟨hab, ha, hw⟩ => ⟨hab, hpq a ha, hw⟩

/-- What one of the runs ensures of its value holds of the value of both. -/
lemma ensuring {c d : Cmd α} {E : Outcome → Prop} (h : Together jokes live live' c d P)
    (hq : ∀ b, Ensures (Wrapped b) E c Q) : Together jokes live live' c d Q := by
  intro w w' hw
  have hcd := h w w' hw
  have hc := hq w.wrapped w rfl
  cases hr : c w with
  | ok a w₁ =>
    rw [hr] at hcd hc
    cases hd : d w' with
    | ok b w₁' =>
      rw [hd] at hcd
      exact ⟨hcd.1, hc.2, hcd.2.2⟩
    | error f w₁' =>
      rw [hd] at hcd
      exact hcd
  | error e w₁ =>
    rw [hr] at hcd
    cases hd : d w' with
    | ok b w₁' =>
      rw [hd] at hcd
      exact hcd
    | error f w₁' =>
      rw [hd] at hcd
      exact hcd

lemma ite {p : Prop} [Decidable p] {c d c' d' : Cmd α} (hc : p → Together jokes live live' c d P)
    (hd : ¬ p → Together jokes live live' c' d' P) :
    Together jokes live live' (if p then c else c') (if p then d else d') P := Agree.ite hc hd

end Together

section Primitives

variable {jokes : List Event} {α : Type} {live live' : Bool} (os : Os)

lemma together_reportAll {events events' : List Event}
    (h : (events.filter fun event => !event.isChatter jokes) = events'.filter fun event => !event.isChatter jokes) :
    Together jokes live live' (reportAll events) (reportAll events') fun _ => True :=
  Agree.modify fun _ _ hw => ⟨rfl, trivial, hw.reportAll h⟩

lemma together_chatter {events events' : List Event} (h : ∀ event ∈ events, event.isChatter jokes = true)
    (h' : ∀ event ∈ events', event.isChatter jokes = true) :
    Together jokes live live' (reportAll events) (reportAll events') fun _ => True :=
  together_reportAll (by rw [filter_chatter h, filter_chatter h'])

lemma together_report (event : Event) : Together jokes live live' (report event) (report event) fun _ => True :=
  together_reportAll rfl

lemma together_fail {P : α → Prop} (text : String) (code : ExitCode) :
    Together jokes live live' (fail text code) (fail text code) P :=
  (together_report _).bind fun _ _ => Together.throw _

lemma together_orFail {ε : Type} (text : ε → String) (code : ExitCode) (r : Except ε α) :
    Together jokes live live' (orFail text code r) (orFail text code r) fun a => r = .ok a := by
  cases r with
  | ok a => exact Together.pure rfl
  | error e => exact together_fail _ _

lemma together_orPanic (r : Except Panic α) :
    Together jokes live live' (orPanic r) (orPanic r) fun a => r = .ok a := by
  cases r with
  | ok a => exact Together.pure rfl
  | error p => exact Together.throw _

/-- A call of the operating system knows the files only. -/
lemma together_call {c : Cmd α} (h : ∀ fs, ∃ a fs', ∀ w : World, w.fs = fs → c w = .ok a { w with fs := fs' }) :
    Together jokes live live' c c fun _ => True := by
  intro w w' hw
  obtain ⟨a, fs', hcall⟩ := h w.fs
  rw [hcall w rfl, hcall w' hw.fs.symm]
  exact ⟨rfl, trivial, hw.withFs fs'⟩

lemma together_metadataLen (path : Path) :
    Together jokes live live' (os.metadataLen path) (os.metadataLen path) fun _ => True := by
  apply together_call
  intro fs
  refine ⟨os.refuses .stat (fs.metadataLen path), fs, ?_⟩
  rintro w rfl
  rfl

lemma together_read (call : OsCall) (path : Path) :
    Together jokes live live' (os.read call path) (os.read call path) fun _ => True := by
  apply together_call
  intro fs
  refine ⟨os.refuses call (fs.read path), fs, ?_⟩
  rintro w rfl
  rfl

lemma together_openRead (path : Path) :
    Together jokes live live' (os.openRead path) (os.openRead path) fun _ => True := by
  apply together_call
  intro fs
  refine ⟨(os.refuses .openInput (fs.openRead path)).map fun i => ⟨i, os.direct .openInput⟩, fs, ?_⟩
  rintro w rfl
  rfl

lemma together_openWrite (path : Path) (create : Bool) :
    Together jokes live live' (os.openWrite path create) (os.openWrite path create) fun _ => True := by
  apply together_call
  intro fs
  cases hopen : os.refuses .openOutput (fs.openWrite path create) with
  | error e =>
    refine ⟨.error e, fs, ?_⟩
    rintro w rfl
    rw [Os.openWrite, hopen]
  | ok opened =>
    refine ⟨.ok ⟨opened.1, os.direct .openOutput⟩, opened.2, ?_⟩
    rintro w rfl
    rw [Os.openWrite, hopen]

lemma together_setLen (file : SectorFile) (len : ℕ) :
    Together jokes live live' (os.setLen file len) (os.setLen file len) fun _ => True := by
  apply together_call
  intro fs
  cases hset : os.refuses .setLen (fs.setLen file.file len) with
  | error e =>
    refine ⟨.error e, fs, ?_⟩
    rintro w rfl
    rw [Os.setLen, hset]
  | ok resized =>
    refine ⟨.ok (), resized, ?_⟩
    rintro w rfl
    rw [Os.setLen, hset]

lemma together_createSparseOutput (path : Path) (len : ℕ) :
    Together jokes live live' (os.createSparseOutput path len) (os.createSparseOutput path len) fun _ => True := by
  refine (together_openWrite os path true).bind fun opened _ => ?_
  cases opened with
  | error e => exact Together.pure trivial
  | ok file =>
    refine (together_setLen os file len).bind fun resized _ => ?_
    cases resized with
    | error e => exact Together.pure trivial
    | ok u => exact Together.pure trivial

end Primitives

section Transfer

variable {reporter reporter' : Reporter} {job : TransferJob} {showProgress showProgress' : Bool} {chunk : ℕ}
  {disk : ℕ → Bytes}

/-- What a mode makes of a transfer of which the worker, that leaves `s`, makes `result`. -/
def Shown (live : Bool) (total : ℕ) (result : Except IoError Unit) (s : Shared) (found : Except Stopped Transferred) :
    Prop :=
  (∃ steps, found = .ok ⟨result, s.disk, steps⟩ ∧ ¬ (live = true ∧ 0 < total ∧ result ≠ .ok ())) ∨
    (found = .error ⟨.hang, s.disk, []⟩ ∧ live = true ∧ 0 < total ∧ result ≠ .ok ())

lemma dispatch_shown (hranges : chunkRanges job.progressTotalBytes chunk = .ok job.ranges)
    (hfits : coverage job.progressTotalBytes < u64Size) {env : TransferEnv} (hcarries : env.Carries job disk)
    {result : Except IoError Unit} {s : Shared}
    (hret : processRanges (job.rangeJob true) job.concurrency env.schedule (workerStart disk) = some (.ok result, s)) :
    Shown (reporter.live showProgress) job.progressTotalBytes result s
      (dispatchWithProgress reporter job showProgress env disk) := by
  rw [dispatchWithProgress]
  cases hci : reporter.ciMode with
  | true =>
    obtain ⟨steps, hsteps⟩ :=
      hcarries.reports (counterAt (job.rangeJob true) job.concurrency env.schedule (workerStart disk))
    simp only [if_true, hret, hsteps, Reporter.live, hci, Bool.not_true, Bool.false_and]
    exact Or.inl ⟨steps, rfl, fun h => by cases h.1⟩
  | false =>
    simp only [Bool.false_eq_true, if_false, Reporter.live, hci, Bool.not_false, Bool.true_and]
    cases hstarts : LiveProgress.starts job.progressTotalBytes showProgress with
    | false =>
      have hdead : ¬ (showProgress = true ∧ 0 < job.progressTotalBytes) := by
        rintro ⟨rfl, htotal⟩
        simp [LiveProgress.starts, htotal.ne'] at hstarts
      have halike := processRanges_alike (job.rangeJob true) true false job.concurrency env.schedule
        (s := workerStart disk) (t := workerStart disk) ⟨rfl, rfl⟩
      change Option.Rel _ (processRanges (job.rangeJob true) _ _ _) (processRanges (job.rangeJob false) _ _ _) at halike
      rw [hret] at halike
      generalize processRanges (job.rangeJob false) _ _ _ = uncounted at halike ⊢
      cases halike with
      | @some a b h =>
        obtain ⟨r', s'⟩ := b
        obtain ⟨rfl, hdisk, -⟩ := h
        simp only [Bool.false_and, Bool.false_eq_true, if_false]
        exact Or.inl ⟨[], by rw [hdisk], fun h => hdead ⟨h.1, h.2.1⟩⟩
    | true =>
      obtain ⟨rfl, htotal⟩ : showProgress = true ∧ 0 < job.progressTotalBytes := by
        simpa [LiveProgress.starts, Nat.pos_iff_ne_zero] using hstarts
      obtain ⟨-, hjoins⟩ := joins_iff_of_coverage hranges hfits htotal reporter.progressFlavor hret
      simp only [hret]
      by_cases hok : result = .ok ()
      · simp only [hjoins.mpr hok, Bool.not_true, Bool.and_false, Bool.false_eq_true, if_false]
        exact Or.inl ⟨[], rfl, fun h => h.2.2 hok⟩
      · simp only [Bool.eq_false_iff.mpr fun h => hok (hjoins.mp h), Bool.not_false, Bool.and_true, if_true]
        exact Or.inr ⟨rfl, rfl, htotal, hok⟩

lemma transfer_of_error {phase : String} {env : Environment} {w : World} {stopped : Stopped}
    (h : dispatchWithProgress reporter job showProgress (env job w.fs.disk) w.fs.disk = .error stopped) :
    transferAndReportTiming reporter job phase showProgress env w =
      .error stopped.outcome (w.transferred job stopped.disk stopped.ciSteps) := by
  apply bind_error
  rw [dispatch, h]

lemma transfer_of_ok {phase : String} {env : Environment} {w : World} {t : Transferred}
    (h : dispatchWithProgress reporter job showProgress (env job w.fs.disk) w.fs.disk = .ok t) :
    transferAndReportTiming reporter job phase showProgress env w =
      (orFail IoError.text .io t.result >>= fun _ => report (.phaseTiming phase))
        (w.transferred job t.disk t.ciSteps) := by
  apply bind_ok
  rw [dispatch, h]

variable {jokes : List Event}

lemma SameButChatter.transferred {w w' : World} (h : SameButChatter jokes w w') (job : TransferJob)
    (disk : ℕ → Bytes) (steps steps' : List CiStep) :
    SameButChatter jokes (w.transferred job disk steps) (w'.transferred job disk steps') := by
  have hchatter : ((steps.filterMap CiStep.report).map Event.progress).filter (fun event => !event.isChatter jokes) =
      ((steps'.filterMap CiStep.report).map Event.progress).filter fun event => !event.isChatter jokes := by
    rw [filter_chatter (progress_chatter _), filter_chatter (progress_chatter _)]
  refine ⟨?_, ?_, (h.reportAll hchatter).log⟩
  · rw [World.transferred, World.transferred, h.fs]
  · rw [World.transferred, World.transferred, h.wrapped]

lemma not_live {reporter : Reporter} {total : ℕ} {result : Except IoError Unit}
    (h : ¬ (reporter.live showProgress = true ∧ 0 < total ∧ result ≠ .ok ())) (htotal : 0 < total)
    (hfailed : result ≠ .ok ()) : reporter.live showProgress = false := by
  rw [Bool.eq_false_iff]
  exact fun hlive => h ⟨hlive, htotal, hfailed⟩

lemma together_transfer (hranges : chunkRanges job.progressTotalBytes chunk = .ok job.ranges)
    (hfits : coverage job.progressTotalBytes < u64Size) (phase : String) {env env' : Environment}
    (hschedule : ∀ job disk, (env job disk).schedule = (env' job disk).schedule) (hcarries : env.Carries)
    (hcarries' : env'.Carries) :
    Together jokes (reporter.live showProgress) (reporter'.live showProgress')
      (transferAndReportTiming reporter job phase showProgress env)
      (transferAndReportTiming reporter' job phase showProgress' env') fun _ => True := by
  intro w w' hw
  obtain ⟨⟨returned, s⟩, hret⟩ := (hcarries job w.fs.disk chunk hranges hfits).returns true
  obtain ⟨result, rfl⟩ := processRanges_no_panic (covers_of_coverage (job.rangeJob true) hranges hfits) hret
  have hleft : Shown (reporter.live showProgress) job.progressTotalBytes result s
      (dispatchWithProgress reporter job showProgress (env job w.fs.disk) w.fs.disk) :=
    dispatch_shown hranges hfits (hcarries job w.fs.disk chunk hranges hfits) hret
  rw [hschedule, hw.fs] at hret
  have hright : Shown (reporter'.live showProgress') job.progressTotalBytes result s
      (dispatchWithProgress reporter' job showProgress' (env' job w'.fs.disk) w'.fs.disk) :=
    dispatch_shown hranges hfits (hcarries' job w'.fs.disk chunk hranges hfits) hret
  have hfs : ∀ steps steps', (w.transferred job s.disk steps).fs = (w'.transferred job s.disk steps').fs :=
    fun steps steps' => (hw.transferred job s.disk steps steps').fs
  rcases hleft with ⟨steps, hleft, hlive⟩ | ⟨hleft, hlive, htotal, hfailed⟩
  · rcases hright with ⟨steps', hright, -⟩ | ⟨hright, hlive', htotal, hfailed⟩
    · rw [transfer_of_ok hleft, transfer_of_ok hright]
      have htail : Together jokes (reporter.live showProgress) (reporter'.live showProgress')
          (orFail IoError.text .io result >>= fun _ => report (.phaseTiming phase))
          (orFail IoError.text .io result >>= fun _ => report (.phaseTiming phase)) fun _ => True :=
        (together_orFail _ _ result).bind fun _ _ => together_report _
      exact htail _ _ (hw.transferred job s.disk steps steps')
    · rw [transfer_of_ok hleft, transfer_of_error hright]
      cases result with
      | ok u => exact (hfailed rfl).elim
      | error e => exact Or.inr (Or.inr ⟨not_live hlive htotal hfailed, hlive', rfl, rfl, hfs steps []⟩)
  · rw [transfer_of_error hleft]
    rcases hright with ⟨steps', hright, hlive'⟩ | ⟨hright, -, -, -⟩
    · rw [transfer_of_ok hright]
      cases result with
      | ok u => exact (hfailed rfl).elim
      | error e => exact Or.inr (Or.inl ⟨hlive, not_live hlive' htotal hfailed, rfl, rfl, hfs [] steps'⟩)
    · rw [transfer_of_error hright]
      exact Or.inl ⟨rfl, hw.transferred job s.disk [] []⟩

end Transfer

section Commands

variable {jokes : List Event} (X : Externals) (os : Os) {live live' : Bool}

lemma together_resolveSpecAndKey (cipher : CipherArg) (keySize : Option UInt16) (keyFile : Path)
    (keyFormat : KeyFormatArg) :
    Together jokes live live' (resolveSpecAndKey X os cipher keySize keyFile keyFormat)
      (resolveSpecAndKey X os cipher keySize keyFile keyFormat) fun _ => True := by
  have hload : Together jokes live live' (loadKeyFile X os keyFile keyFormat) (loadKeyFile X os keyFile keyFormat)
      fun _ => True := by
    refine (together_read os .readKeyFile keyFile).bind fun answer _ => ?_
    cases answer with
    | error e => exact Together.pure trivial
    | ok raw => exact Together.pure trivial
  refine (together_orFail _ _ _).bind fun spec _ => ?_
  refine hload.bind fun loaded _ => ?_
  refine (together_orFail _ _ loaded).bind fun key _ => ?_
  refine (together_orFail _ _ _).bind fun _ _ => ?_
  exact Together.pure trivial

lemma together_buildEngine (spec : CipherSpec) (key : Bytes) :
    Together jokes live live' (buildEngine X spec key) (buildEngine X spec key) fun _ => True := by
  refine (together_orPanic _).bind fun built _ => ?_
  exact (together_orFail _ _ built).imp fun _ _ => trivial

lemma together_statInputLen (path : Path) :
    Together jokes live live' (statInputLen os path) (statInputLen os path) fun _ => True := by
  refine (together_metadataLen os path).bind fun len _ => ?_
  exact (together_orFail _ _ len).imp fun _ _ => trivial

lemma together_resolveAndReportConcurrency (path : Path) (n : ℕ) (threshold : UInt64) (pin : Bool)
    (maxWorkers : Option UInt64) :
    Together jokes live live' (resolveAndReportConcurrency os path n threshold pin maxWorkers)
      (resolveAndReportConcurrency os path n threshold pin maxWorkers) fun _ => True := by
  refine (together_report _).bind fun _ _ => ?_
  exact Together.pure trivial

lemma together_openInputFile (path : Path) :
    Together jokes live live' (openInputFile os path) (openInputFile os path) fun _ => True := by
  refine (together_openRead os path).bind fun opened _ => ?_
  exact (together_orFail _ _ opened).imp fun _ _ => trivial

lemma together_openOutputFile (path : Path) (size : ℕ) :
    Together jokes live live' (openOutputFile os path size) (openOutputFile os path size) fun _ => size ≤ i64Max := by
  have hopen : Together jokes live live' (openOutputFile os path size) (openOutputFile os path size) fun _ => True := by
    refine (together_createSparseOutput os path size).bind fun opened _ => ?_
    exact (together_orFail _ _ opened).imp fun _ _ => trivial
  exact hopen.ensuring fun b => ensures_openOutputFile os b path size

lemma together_compatCheck (spec : CipherSpec) (key : Bytes) (dryRun : Bool) :
    Together jokes live live' (compatCheck X spec key dryRun) (compatCheck X spec key dryRun) fun _ => True := by
  refine Together.ite (fun _ => ?_) (fun _ => Together.pure trivial)
  exact (together_report _).bind fun _ _ => Together.pure trivial

variable (reporter reporter' : Reporter)

lemma together_narration (topics : List Narration) (events : List Event) :
    Together jokes live live' (reportAll (reporter.narration topics ++ events))
      (reportAll (reporter'.narration topics ++ events)) fun _ => True := by
  apply together_reportAll
  rw [List.filter_append, List.filter_append, filter_chatter (reporter.narration_chatter topics),
    filter_chatter (reporter'.narration_chatter topics)]

lemma together_narrateSampleIvIfApplicable (n : ℕ) :
    Together jokes live live' (narrateSampleIvIfApplicable reporter n) (narrateSampleIvIfApplicable reporter' n)
      fun _ => True := by
  rw [narrateSampleIvIfApplicable, narrateSampleIvIfApplicable]
  split
  · exact together_chatter (reporter.narration_chatter _) (reporter'.narration_chatter _)
  · exact together_reportAll rfl

lemma together_scoreCiphertext (path : Path) (n : ℕ) :
    Together jokes live live' (scoreCiphertext X os reporter path n) (scoreCiphertext X os reporter' path n)
      fun _ => True := by
  refine Together.ite (fun _ => ?_) (fun _ => Together.pure trivial)
  refine (together_read os .readOutput path).bind fun ciphertext _ => ?_
  cases ciphertext with
  | ok bytes =>
    refine (together_report _).bind fun _ _ => ?_
    exact together_chatter (reporter.narration_chatter _) (reporter'.narration_chatter _)
  | error e => exact Together.pure trivial

variable (showProgress showProgress' : Bool) {env env' : Environment}
  (hschedule : ∀ job disk, (env job disk).schedule = (env' job disk).schedule) (hcarries : env.Carries)
  (hcarries' : env'.Carries)

include hschedule hcarries hcarries'

lemma together_runEncryptImpl (args : EncryptArgs) (hjoke : reporter.joke ⊆ jokes) (hjoke' : reporter'.joke ⊆ jokes) :
    Together jokes (reporter.live showProgress) (reporter'.live showProgress')
      (runEncryptImpl X os reporter args showProgress env) (runEncryptImpl X os reporter' args showProgress' env')
      fun _ => True := by
  refine (together_chatter reporter.banner_chatter reporter'.banner_chatter).bind fun _ _ => ?_
  refine (together_resolveSpecAndKey X os _ _ _ _).bind fun ⟨spec, key⟩ _ => ?_
  refine (together_narration reporter reporter' _ _).bind fun _ _ => ?_
  refine (together_chatter (reporter.narration_chatter _) (reporter'.narration_chatter _)).bind fun _ _ => ?_
  refine (together_chatter (reporter.joke_chatter hjoke) (reporter'.joke_chatter hjoke')).bind fun _ _ => ?_
  refine (together_report _).bind fun _ _ => ?_
  refine (together_buildEngine X spec key).bind fun engine _ => ?_
  refine (together_statInputLen os args.input).bind fun inputLen _ => ?_
  refine (together_orFail _ _ _).bind fun outputSize _ => ?_
  refine (together_report _).bind fun _ _ => ?_
  refine (together_chatter (reporter.narration_chatter _) (reporter'.narration_chatter _)).bind fun _ _ => ?_
  refine (together_resolveAndReportConcurrency os _ _ _ _ _).bind fun ⟨info, concurrency⟩ _ => ?_
  refine (together_openInputFile os args.input).bind fun inputFile _ => ?_
  refine (together_openOutputFile os args.output outputSize).bind fun outputFile hsize => ?_
  refine (together_narrateSampleIvIfApplicable reporter reporter' inputLen).bind fun _ _ => ?_
  refine (together_orPanic _).bind fun ranges hranges => ?_
  refine (together_transfer hranges (coverage_lt_u64Size hsize) _ hschedule hcarries hcarries').bind fun _ _ => ?_
  refine (together_scoreCiphertext X os reporter reporter' args.output inputLen).bind fun _ _ => ?_
  exact together_compatCheck X spec key _

lemma together_runDecryptImpl (args : DecryptArgs) :
    Together jokes (reporter.live showProgress) (reporter'.live showProgress')
      (runDecryptImpl X os reporter args showProgress env) (runDecryptImpl X os reporter' args showProgress' env')
      fun _ => True := by
  refine (together_chatter reporter.banner_chatter reporter'.banner_chatter).bind fun _ _ => ?_
  refine (together_resolveSpecAndKey X os _ _ _ _).bind fun ⟨spec, key⟩ _ => ?_
  refine (together_narration reporter reporter' _ _).bind fun _ _ => ?_
  refine (together_buildEngine X spec key).bind fun engine _ => ?_
  refine (together_statInputLen os args.input).bind fun inputLen _ => ?_
  refine (together_resolveAndReportConcurrency os _ _ _ _ _).bind fun ⟨info, concurrency⟩ _ => ?_
  refine (together_openInputFile os args.input).bind fun inputFile _ => ?_
  refine (together_openOutputFile os args.output inputLen).bind fun outputFile hsize => ?_
  refine (together_narrateSampleIvIfApplicable reporter reporter' inputLen).bind fun _ _ => ?_
  refine (together_orPanic _).bind fun ranges hranges => ?_
  refine (together_transfer hranges (coverage_lt_u64Size hsize) _ hschedule hcarries hcarries').bind fun _ _ => ?_
  exact Together.pure trivial

end Commands

lemma finish_alike {jokes : List Event} {live live' : Bool} {c d : Cmd ExitCode} {P : ExitCode → Prop}
    (h : Together jokes live live' c d P) {w w' : World} (hw : SameButChatter jokes w w') :
    EndsAlike jokes live live' (finish c w).1 (finish c w).2 (finish d w').1 (finish d w').2 := by
  have hcd := h w w' hw
  rw [finish, finish]
  cases hc : c w with
  | ok code w₁ =>
    cases hd : d w' with
    | ok code' w₁' =>
      rw [hc, hd] at hcd
      obtain ⟨rfl, -, hsame⟩ := hcd
      exact Or.inl ⟨rfl, hsame⟩
    | error outcome' w₁' =>
      rw [hc, hd] at hcd
      exact hcd.elim
  | error outcome w₁ =>
    cases hd : d w' with
    | ok code' w₁' =>
      rw [hc, hd] at hcd
      exact hcd.elim
    | error outcome' w₁' =>
      rw [hc, hd] at hcd
      exact hcd

/-- Two runs of one `image` command on one file system, with the threads of the transfer scheduled alike and carried to
their end, end with one outcome, the same files and the same reports but for those of the progress, the banner, the
narration and the joke, whatever the modes and the moments at which the displays poll. The exception is a transfer
that fails behind a live display in one of the modes: there the command hangs, where it exits with `ExitCode::Io` in
the other. -/
theorem runImage_mode_independent (X : Externals) (os : Os) (action : ImageAction) (reporter reporter' : Reporter)
    (showProgress showProgress' : Bool) (env env' : Environment)
    (hschedule : ∀ job disk, (env job disk).schedule = (env' job disk).schedule) (hcarries : env.Carries)
    (hcarries' : env'.Carries) (w : World) :
    let ran := runImage X os reporter action showProgress env w
    let ran' := runImage X os reporter' action showProgress' env' w
    EndsAlike (reporter.joke ++ reporter'.joke) (reporter.live showProgress) (reporter'.live showProgress') ran.1 ran.2
      ran'.1 ran'.2 := by
  intro ran ran'
  have hw : SameButChatter (reporter.joke ++ reporter'.joke) w w := ⟨rfl, rfl, rfl⟩
  cases action with
  | encrypt args =>
    exact finish_alike (together_runEncryptImpl X os reporter reporter' showProgress showProgress' hschedule hcarries
      hcarries' args (List.subset_append_left _ _) (List.subset_append_right _ _)) hw
  | decrypt args =>
    exact finish_alike (together_runDecryptImpl X os reporter reporter' showProgress showProgress' hschedule hcarries
      hcarries' args) hw

section Sample

/-- The worker is seen at work once, and then seen finished. -/
def polledEnv : Environment :=
  Environment.orFaulty (fun _ _ => ⟨sampleSchedule, [], [⟨2, 3, false⟩, ⟨8, 9, false⟩]⟩)
    (.os "Input/output error (os error 5)")

lemma polledEnv_carries : polledEnv.Carries := Environment.orFaulty_carries _ _

def governance : Reporter where
  bootBanner := some "ENTERPRISE CRYPTOGRAPHIC GOVERNANCE MODULE v1.0.4"
  corporateJoke := some "this joke is picked at random"
  progressFlavor := .sterile

def modeEncryption (reporter : Reporter) (env : Environment) : Outcome × World :=
  runImage sampleExternals sampleOs reporter (.encrypt sampleEncryptArgs) true env sampleWorld

theorem runImage_mode_independent_governance :
    (modeEncryption { ciMode := true } polledEnv).1 = .exit .success ∧
      (modeEncryption governance polledEnv).1 = .exit .success ∧
      (modeEncryption { ciMode := true } polledEnv).2.events ≠ (modeEncryption governance polledEnv).2.events ∧
      SameButChatter governance.joke (modeEncryption { ciMode := true } polledEnv).2
        (modeEncryption governance polledEnv).2 := by
  have hci : (modeEncryption { ciMode := true } polledEnv).1 = .exit .success := by decide +kernel
  refine ⟨hci, by decide +kernel, by decide +kernel, ?_⟩
  rcases runImage_mode_independent sampleExternals sampleOs (.encrypt sampleEncryptArgs) { ciMode := true } governance
    true true polledEnv polledEnv (fun _ _ => rfl) polledEnv_carries polledEnv_carries sampleWorld with
    ⟨-, hsame⟩ | ⟨-, -, hhang, -⟩ | ⟨-, -, hio, -⟩
  · exact hsame
  · cases hci.symm.trans hhang
  · cases hci.symm.trans hio

end Sample

end NocapCrypt.Cli
