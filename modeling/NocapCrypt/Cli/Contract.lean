import NocapCrypt.Cli.Process

/-! The contract of a process with the scripts that call it: its exit codes, the files it may change, and that it does
not hang where nobody watches it. -/

namespace NocapCrypt.Cli

open NocapCrypt.Library.Runs NocapCrypt.Library.Commands NocapCrypt.Core NocapCrypt.BlockIo NocapCrypt.KeyMgmt
  NocapCrypt.Worker Cmd

/-- How a command may stop: with one of `codes`, by a panic, or never, where it shows a live display. -/
inductive Permitted (codes : List ExitCode) (live : Bool) : Outcome → Prop
  | exit {code} (h : code ∈ codes) : Permitted codes live (.exit code)
  | panic {p} : Permitted codes live (.panic p)
  | hang (h : live = true) : Permitted codes live .hang

/-- A command that is not `carried` to its end may be left without one. -/
def Stops (codes : List ExitCode) (live : Bool) (carried : Prop) (outcome : Outcome) : Prop :=
  Permitted codes live outcome ∨ outcome = .unscheduled ∧ ¬ carried

/-- Only `paths` have been written to, and nothing at all where there are none. -/
def Inside (paths : Set Path) (fs : Fs) (w : World) : Prop := Framed paths fs w.fs ∧ (paths = ∅ → w.fs = fs)

/-- Started where only `paths` have been written to, `c` keeps to them and stops as it is permitted. -/
abbrev Abides {α : Type} (codes : List ExitCode) (live : Bool) (carried : Prop) (paths : Set Path) (fs : Fs)
    (c : Cmd α) (Q : α → Prop) : Prop :=
  Ensures (Inside paths fs) (Stops codes live carried) c Q

/-- The contents of the temporary directory. -/
def BenchEnv.tempFiles (env : BenchEnv) : Set Path := {path | Under env.dir path}

lemma inside_refl (paths : Set Path) (w : World) : Inside paths w.fs w := ⟨Framed.refl paths w.fs, fun _ => rfl⟩

lemma inside_of_framed {paths : Set Path} {fs : Fs} {w : World} {path : Path} (hp : path ∈ paths)
    (h : Framed paths fs w.fs) : Inside paths fs w := by
  refine ⟨h, ?_⟩
  rintro rfl
  exact hp.elim

section Primitives

variable {α : Type} {codes : List ExitCode} {live : Bool} {carried : Prop} {paths : Set Path} {fs : Fs} {path : Path}
  (os : Os)

lemma abides_report (event : Event) : Abides codes live carried paths fs (report event) fun _ => True :=
  Ensures.modify fun _ hw => hw

lemma abides_reportAll (events : List Event) : Abides codes live carried paths fs (reportAll events) fun _ => True :=
  Ensures.modify fun _ hw => hw

lemma abides_reportIf (condition : Bool) (event : Event) :
    Abides codes live carried paths fs (reportIf condition event) fun _ => True :=
  Ensures.ite (fun _ => abides_report event) fun _ => Ensures.pure trivial

lemma abides_fail {Q : α → Prop} (text : String) {code : ExitCode} (hc : code ∈ codes) :
    Abides codes live carried paths fs (fail text code) Q :=
  (abides_report (.error text)).bind fun _ _ => Ensures.throw (Or.inl (.exit hc))

lemma abides_orFail {ε : Type} (text : ε → String) {code : ExitCode} (hc : code ∈ codes) (r : Except ε α) :
    Abides codes live carried paths fs (orFail text code r) fun a => r = .ok a := by
  cases r with
  | ok a => exact Ensures.pure rfl
  | error e => exact abides_fail _ hc

lemma abides_orPanic (r : Except Panic α) : Abides codes live carried paths fs (orPanic r) fun a => r = .ok a := by
  cases r with
  | ok a => exact Ensures.pure rfl
  | error p => exact Ensures.throw (Or.inl .panic)

lemma abides_wrapping (exact : ℕ) : Abides codes live carried paths fs (wrapping exact) fun _ => True :=
  fun _ hw => ⟨hw, trivial⟩

/-- A command that only looks. -/
lemma abides_look {c : Cmd α} (h : ∀ w, ∃ a, c w = .ok a w) : Abides codes live carried paths fs c fun _ => True := by
  refine Ensures.query fun w _ => ?_
  obtain ⟨a, ha⟩ := h w
  exact ⟨a, ha, trivial⟩

lemma abides_metadataLen (path : Path) : Abides codes live carried paths fs (os.metadataLen path) fun _ => True :=
  abides_look fun _ => ⟨_, rfl⟩

lemma abides_openFile (path : Path) : Abides codes live carried paths fs (os.openFile path) fun _ => True :=
  abides_look fun _ => ⟨_, rfl⟩

lemma abides_openRead (path : Path) : Abides codes live carried paths fs (os.openRead path) fun _ => True :=
  abides_look fun _ => ⟨_, rfl⟩

lemma abides_read (call : OsCall) (path : Path) :
    Abides codes live carried paths fs (os.read call path) fun _ => True :=
  abides_look fun _ => ⟨_, rfl⟩

lemma abides_stream (file : ℕ) : Abides codes live carried paths fs (os.stream file) fun _ => True :=
  abides_look fun _ => ⟨_, rfl⟩

lemma abides_fileLen (file : ℕ) : Abides codes live carried paths fs (os.fileLen file) fun _ => True :=
  abides_look fun _ => ⟨_, rfl⟩

lemma abides_readAtExact (kernel : ℕ → Answer) (file : SectorFile) (offset len : ℕ) :
    Abides codes live carried paths fs (Os.readAtExact kernel file offset len) fun _ => True := by
  intro w hw
  obtain ⟨r, hr⟩ := Option.isSome_iff_exists.mp (readAtExact_isSome file.directIoActive (w.fs.disk file.file) offset len
    ((List.range len).map kernel) (by simp))
  rw [Os.readAtExact, hr]
  exact ⟨hw, trivial⟩

lemma abides_openWrite (hp : path ∈ paths) (create : Bool) :
    Abides codes live carried paths fs (os.openWrite path create)
      fun opened => ∀ file, opened = .ok file → Within paths fs file.file := by
  intro w hw
  rw [Os.openWrite]
  cases hr : os.refuses .openOutput (w.fs.openWrite path create) with
  | error e => exact ⟨hw, fun file h => by cases h⟩
  | ok opened =>
    obtain ⟨i, fs'⟩ := opened
    obtain ⟨hframed, hwithin⟩ := hw.1.openWrite hp (Os.refuses_ok hr).2
    refine ⟨inside_of_framed hp hframed, ?_⟩
    rintro file ⟨⟩
    exact hwithin

lemma abides_setLen (hp : path ∈ paths) {file : SectorFile} (hfile : Within paths fs file.file) (len : ℕ) :
    Abides codes live carried paths fs (os.setLen file len) fun resized => resized = .ok () → len ≤ i64Max := by
  intro w hw
  rw [Os.setLen]
  cases hr : os.refuses .setLen (w.fs.setLen file.file len) with
  | error e => exact ⟨hw, fun h => by cases h⟩
  | ok fs' =>
    have hset := (Os.refuses_ok hr).2
    exact ⟨inside_of_framed hp (hw.1.setLen hfile hset), fun _ => (Fs.setLen_ok hset).1⟩

lemma abides_createSparseOutput (hp : path ∈ paths) (len : ℕ) :
    Abides codes live carried paths fs (os.createSparseOutput path len)
      fun created => ∀ file, created = .ok file → Within paths fs file.file ∧ len ≤ i64Max := by
  refine (abides_openWrite os hp true).bind fun opened hopened => ?_
  cases opened with
  | error e => exact Ensures.pure fun file h => by cases h
  | ok file =>
    refine (abides_setLen os hp (hopened file rfl) len).bind fun resized hlen => ?_
    cases resized with
    | error e => exact Ensures.pure fun file h => by cases h
    | ok u =>
      apply Ensures.pure
      rintro file' ⟨⟩
      exact ⟨hopened file rfl, hlen rfl⟩

lemma dispatchWithProgress_hang {reporter : Reporter} {job : TransferJob} {showProgress : Bool} {env : TransferEnv}
    {disk : ℕ → Bytes} {stopped : Stopped}
    (h : dispatchWithProgress reporter job showProgress env disk = .error stopped) (ho : stopped.outcome = .hang) :
    (showProgress && !reporter.ciMode) = true := by
  rw [dispatchWithProgress] at h
  split at h
  · simp only at h
    split at h
    · cases h
      cases ho
    · split at h
      · cases h
        cases ho
      · split at h
        · cases h
          cases ho
        · cases h
  · rename_i hci
    simp only at h
    split at h
    · cases h
      cases ho
    · cases h
      cases ho
    · split at h
      · rename_i hstarts
        simp only [LiveProgress.starts, Bool.and_eq_true] at hstarts
        rw [Bool.not_eq_true] at hci
        rw [hstarts.1.1, hci]
        rfl
      · cases h

variable {reporter : Reporter} {job : TransferJob} {showProgress : Bool} {chunk : ℕ} {env : Environment}

/-- The job is one that a command may set up. -/
lemma abides_dispatch (hp : path ∈ paths) (hfile : Within paths fs job.outputFile.file)
    (hlive : (showProgress && !reporter.ciMode) = live) (hcarries : carried → env.Carries)
    (hranges : chunkRanges job.progressTotalBytes chunk = .ok job.ranges)
    (hfits : coverage job.progressTotalBytes < u64Size) :
    Abides codes live carried paths fs (dispatch reporter job showProgress env) fun _ => True := by
  intro w hw
  rw [dispatch]
  cases hd : dispatchWithProgress reporter job showProgress (env job w.fs.disk) w.fs.disk with
  | ok t => exact ⟨inside_of_framed hp (hw.1.store hfile _), trivial⟩
  | error stopped =>
    refine ⟨inside_of_framed hp (hw.1.store hfile _), ?_⟩
    have hscheduled : carried → stopped.outcome ≠ .unscheduled := fun hc =>
      dispatchWithProgress_carried (hcarries hc job w.fs.disk chunk hranges hfits) hd
    have hhang : stopped.outcome = .hang → live = true := fun ho => hlive ▸ dispatchWithProgress_hang hd ho
    obtain ⟨progress, hcases⟩ :=
      dispatchWithProgress_cases reporter job showProgress (env job w.fs.disk) w.fs.disk
    rw [hd] at hcases
    rcases hcases with ⟨result, s, steps, -, ht⟩ | ⟨stopped', ht, ho | ho | ⟨-, p, -, ho, -⟩⟩
    · cases ht
    · cases ht
      exact Or.inr ⟨ho, fun hc => hscheduled hc ho⟩
    · cases ht
      rw [ho]
      exact Or.inl (.hang (hhang ho))
    · cases ht
      rw [ho]
      exact Or.inl .panic

end Primitives

section Readers

variable {codes : List ExitCode} {live : Bool} {carried : Prop} {paths : Set Path} {fs : Fs} (X : Externals) (os : Os)

lemma abides_loadKeyFile (path : Path) (format : KeyFormatArg) :
    Abides codes live carried paths fs (loadKeyFile X os path format) fun _ => True := by
  refine (abides_read os .readKeyFile path).bind fun answer _ => ?_
  cases answer with
  | error e => exact Ensures.pure trivial
  | ok raw => exact Ensures.pure trivial

lemma abides_buildEngine (hc : .keyValidation ∈ codes) (spec : CipherSpec) (key : Bytes) :
    Abides codes live carried paths fs (buildEngine X spec key) fun _ => True := by
  refine (abides_orPanic _).bind fun built _ => ?_
  exact (abides_orFail _ hc built).imp fun _ _ => trivial

lemma abides_runKeycheckImpl (args : KeycheckArgs) :
    Abides [.success, .keyValidation, .io, .unsupportedCipher] live carried paths fs (runKeycheckImpl X os args)
      (· ∈ [.success, .keyValidation, .io, .unsupportedCipher]) := by
  refine (abides_orFail _ (by decide) _).bind fun spec _ => ?_
  refine (abides_loadKeyFile X os _ _).bind fun loaded _ => ?_
  refine (abides_orFail _ (by decide) loaded).bind fun key _ => ?_
  refine (abides_orFail _ (by decide) _).bind fun validated _ => ?_
  refine (abides_report _).bind fun _ _ => ?_
  refine (abides_report _).bind fun _ _ => ?_
  refine (abides_report _).bind fun _ _ => ?_
  refine (abides_report _).bind fun _ _ => ?_
  refine (abides_reportIf _ _).bind fun _ _ => ?_
  exact Ensures.pure (by decide)

lemma abides_analyze (hc : .io ∈ codes) (reader : Except IoError Bytes) (windowSize : UInt64) :
    Abides codes live carried paths fs (analyze X.scores reader windowSize) fun _ => True := by
  refine (abides_orPanic _).bind fun analyzed _ => ?_
  refine (abides_orFail _ hc analyzed).bind fun analysis _ => ?_
  exact (abides_wrapping _).bind fun _ _ => Ensures.pure trivial

lemma abides_runInspectImpl (toStringPretty : InspectPayload → Option String) (args : InspectArgs) (json : Bool) :
    Abides [.success, .io] live carried paths fs (runInspectImpl X.scores os toStringPretty args json)
      (· ∈ [.success, .io]) := by
  refine (abides_openFile os args.input).bind fun opened _ => ?_
  refine (abides_orFail _ (by decide) opened).bind fun file _ => ?_
  refine (abides_fileLen os file).bind fun len _ => ?_
  refine (abides_orFail _ (by decide) len).bind fun fileSize _ => ?_
  refine (abides_stream os file).bind fun reader _ => ?_
  refine (abides_analyze X (by decide) reader _).bind fun analysis _ => ?_
  refine (abides_read os .readHead args.input).bind fun head _ => ?_
  refine (abides_orPanic _).bind fun rem _ => ?_
  refine Ensures.ite (fun _ => ?_) (fun _ => ?_)
  · dsimp only
    split
    · exact (abides_report _).bind fun _ _ => Ensures.pure (by decide)
    · exact Ensures.pure (by decide)
  · refine (abides_report _).bind fun _ _ => ?_
    refine (abides_report _).bind fun _ _ => ?_
    exact (abides_report _).bind fun _ _ => Ensures.pure (by decide)

lemma abides_roundTripCheck (hok : .success ∈ codes) (hkey : .keyValidation ∈ codes) (hluks : .luksCompat ∈ codes)
    (hio : .io ∈ codes) (args : ValidateArgs) (kernel : ℕ → Answer) (spec : CipherSpec) (fileSize : ℕ)
    (keyPath : Path) :
    Abides codes live carried paths fs (roundTripCheck X os args kernel spec fileSize keyPath) (· ∈ codes) := by
  refine (abides_loadKeyFile X os _ _).bind fun loaded _ => ?_
  refine (abides_orFail _ hio loaded).bind fun key _ => ?_
  refine (abides_buildEngine X hkey spec key).bind fun engine _ => ?_
  refine Ensures.ite (fun _ => ?_) (fun _ => ?_)
  · exact (abides_report _).bind fun _ _ => Ensures.pure hok
  · refine (abides_openRead os args.input).bind fun opened _ => ?_
    refine (abides_orFail _ hio opened).bind fun file _ => ?_
    refine (abides_readAtExact kernel file 0 _).bind fun read _ => ?_
    refine (abides_orFail _ hio read).bind fun head _ => ?_
    refine (abides_orPanic _).bind fun head _ => ?_
    split
    · exact (abides_report _).bind fun _ _ => Ensures.pure hok
    · exact abides_fail _ hluks

lemma abides_runValidateImpl (args : ValidateArgs) (kernel : ℕ → Answer) :
    Abides [.success, .keyValidation, .luksCompat, .io, .unsupportedCipher] live carried paths fs
      (runValidateImpl X os args kernel) (· ∈ [.success, .keyValidation, .luksCompat, .io, .unsupportedCipher]) := by
  refine (abides_metadataLen os args.input).bind fun len _ => ?_
  refine (abides_orFail _ (by decide) len).bind fun fileSize _ => ?_
  refine (abides_orFail _ (by decide) _).bind fun spec _ => ?_
  refine (abides_report _).bind fun _ _ => ?_
  refine Ensures.ite (fun _ => ?_) (fun _ => abides_fail _ (by decide))
  split
  · exact Ensures.pure (by decide)
  · exact abides_roundTripCheck X os (by decide) (by decide) (by decide) (by decide) args kernel spec fileSize _

lemma abides_runEntropyImpl (stdin : Except IoError Bytes) (args : EntropyArgs) :
    Abides ([.success, .io] ++ if args.threshold.isSome then [.entropyFailed] else []) live carried paths fs
      (runEntropyImpl X.scores os stdin args)
      (· ∈ [.success, .io] ++ if args.threshold.isSome then [.entropyFailed] else []) := by
  have hio : ExitCode.io ∈ [.success, .io] ++ if args.threshold.isSome then [.entropyFailed] else [] :=
    List.mem_append_left _ (by decide)
  have hok : ExitCode.success ∈ [.success, .io] ++ if args.threshold.isSome then [.entropyFailed] else [] :=
    List.mem_append_left _ (by decide)
  have hreader : Abides ([.success, .io] ++ if args.threshold.isSome then [.entropyFailed] else []) live carried
      paths fs (entropyReader os stdin args.input) fun _ => True := by
    cases args.input with
    | none => exact Ensures.pure trivial
    | some path =>
      refine Ensures.ite (fun _ => ?_) (fun _ => Ensures.pure trivial)
      refine (abides_openFile os path).bind fun opened _ => ?_
      refine (abides_orFail _ hio opened).bind fun file _ => ?_
      exact abides_stream os file
  refine hreader.bind fun reader _ => ?_
  refine (abides_analyze X hio reader _).bind fun analysis _ => ?_
  refine (abides_report _).bind fun _ _ => ?_
  refine (abides_report _).bind fun _ _ => ?_
  cases hthreshold : args.threshold with
  | none => exact Ensures.pure (by simp)
  | some threshold =>
    refine Ensures.ite (fun _ => ?_) (fun _ => Ensures.pure (by simp))
    exact abides_fail _ (by simp)

lemma abides_statPath (hc : .io ∈ codes) (path : Path) :
    Abides codes live carried paths fs (statPath os path) fun _ => True := by
  refine (abides_metadataLen os path).bind fun len _ => ?_
  exact (abides_orFail _ hc len).imp fun _ _ => trivial

lemma abides_runCheckImpl (args : AlignCheckArgs) :
    Abides [.success, .alignmentFailed, .io] live carried paths fs (runCheckImpl os args)
      (· ∈ [.success, .alignmentFailed, .io]) := by
  refine (abides_statPath os (by decide) args.path).bind fun fileSize _ => ?_
  refine (abides_report _).bind fun _ _ => ?_
  refine (abides_report _).bind fun _ _ => ?_
  apply Ensures.pure
  split
  · decide
  · decide

lemma abides_runInfoImpl (info : SystemInfo) (infoJson : SystemInfo → Option String) (json : Bool) :
    Abides [.success] live carried paths fs (runInfoImpl info infoJson json) (· ∈ [.success]) := by
  refine Ensures.ite (fun _ => ?_) (fun _ => ?_)
  · split
    · exact (abides_report _).bind fun _ _ => Ensures.pure (by decide)
    · exact Ensures.pure (by decide)
  · refine (abides_report _).bind fun _ _ => ?_
    refine (abides_report _).bind fun _ _ => ?_
    refine (abides_report _).bind fun _ _ => ?_
    exact (abides_report _).bind fun _ _ => Ensures.pure (by decide)

lemma abides_runCompletionsImpl (around : Surroundings) (shell : Completions.Shell) :
    Abides [.success, .io] live carried paths fs (runCompletionsImpl around shell) (· ∈ [.success, .io]) := by
  refine (abides_orPanic _).bind fun written _ => ?_
  exact (abides_orFail _ (by decide) written).bind fun _ _ => Ensures.pure (by decide)

end Readers

section Writers

variable {codes : List ExitCode} {live : Bool} {carried : Prop} {paths : Set Path} {fs : Fs} (X : Externals) (os : Os)

lemma abides_runFixImpl (args : AlignFixArgs) :
    Abides [.success, .io] live carried {args.path} fs (runFixImpl os args) (· ∈ [.success, .io]) := by
  have hp : args.path ∈ ({args.path} : Set Path) := rfl
  refine (abides_statPath os (by decide) args.path).bind fun fileSize _ => ?_
  have halign : Abides [.success, .io] live carried {args.path} fs (alignUp fileSize args.alignment.toNat)
      fun _ => True := by
    refine (abides_orPanic _).bind fun rem _ => ?_
    exact Ensures.ite (fun _ => Ensures.pure trivial) fun _ => abides_wrapping _
  refine halign.bind fun target _ => ?_
  refine Ensures.ite (fun _ => ?_) (fun _ => ?_)
  · exact (abides_report _).bind fun _ _ => Ensures.pure (by decide)
  · refine (abides_openWrite os hp false).bind fun opened hopened => ?_
    refine (abides_orFail _ (by decide) opened).bind fun file hfile => ?_
    refine (abides_setLen os hp (hopened file hfile) target).bind fun resized _ => ?_
    refine (abides_orFail _ (by decide) resized).bind fun _ _ => ?_
    exact (abides_report _).bind fun _ _ => Ensures.pure (by decide)

lemma abides_writeKey {env : KeygenEnv} (hcarries : carried → env.Carries) {path : Path} (hp : path ∈ paths)
    (key : Bytes) (force : Bool) : Abides codes live carried paths fs (writeKey env path key force) fun _ => True := by
  intro w hw
  have hleft : ∀ file, Inside paths fs (w.withKeyFile path file) := by
    intro file
    cases file with
    | none => exact hw
    | some f => exact inside_of_framed hp (hw.1.write hp f.bytes)
  have hreturns : carried → ∃ file result, run (writeKeyFileStep ⟨path, key, force, env.umask⟩)
      (keyFileAt w.fs path env.mode, .entered)
      (env.moves ⟨path, key, force, env.umask⟩ (keyFileAt w.fs path env.mode)) = some (file, .returned result) :=
    fun hc => hcarries hc _ _
  rw [writeKey]
  dsimp only
  generalize run (writeKeyFileStep ⟨path, key, force, env.umask⟩) _ _ = ran at hreturns ⊢
  cases ran with
  | none =>
    refine ⟨hw, Or.inr ⟨rfl, fun hc => ?_⟩⟩
    obtain ⟨file, result, h⟩ := hreturns hc
    cases h
  | some s =>
    obtain ⟨file, phase⟩ := s
    cases phase with
    | returned result => exact ⟨hleft file, trivial⟩
    | _ =>
      refine ⟨hleft file, Or.inr ⟨rfl, fun hc => ?_⟩⟩
      obtain ⟨file', result, h⟩ := hreturns hc
      cases h

/-- `run` of `keygen` from the cipher specification on. -/
def generateAndWrite (env : KeygenEnv) (narrates : Bool) (args : KeygenArgs) (spec : CipherSpec) : Cmd ExitCode := do
  let key ← orPanic (generateKey env.random spec)
  let written ← writeKey env args.output key args.force
  let _ ← orFail KeyFileWriteError.text .io written
  report (.cipherSelected spec.asStr spec.aesBits.bits)
  report (.message s!"wrote {key.length}-byte key to {args.output} ({redacted X.primitives key})")
  reportIf narrates (.entropyScore (X.scores.shannonEntropy key) (X.scores.isUniform key))
  pure .success

lemma abides_generateAndWrite {env : KeygenEnv} (hcarries : carried → env.Carries) (narrates : Bool)
    (args : KeygenArgs) (spec : CipherSpec) :
    Abides [.success, .io] live carried {args.output} fs (generateAndWrite X env narrates args spec)
      (· ∈ [.success, .io]) := by
  refine (abides_orPanic _).bind fun key _ => ?_
  refine (abides_writeKey hcarries (Set.mem_singleton args.output) key args.force).bind fun written _ => ?_
  refine (abides_orFail _ (by decide) written).bind fun _ _ => ?_
  refine (abides_report _).bind fun _ _ => ?_
  refine (abides_report _).bind fun _ _ => ?_
  refine (abides_reportIf _ _).bind fun _ _ => ?_
  exact Ensures.pure (by decide)

section Sweep

variable {env : BenchEnv} (hdir : env.tempFiles ⊆ paths) (hcarries : carried → ∀ pass, (env.transfer pass).Carries)
  (hio : .io ∈ codes) (flavor : ProgressFlavor)

include hdir hcarries hio

lemma abides_benchRun {params : BenchParams} (hsectors : sectorSize ∣ params.dataLenBytes)
    (hfits : params.dataLenBytes < u64Size) (pass : ℕ) :
    Abides codes live carried paths fs (benchRun X os env flavor live params pass) fun _ => True := by
  have hin : env.dir ++ "/" ++ "plain.bin" ∈ paths := hdir (under_append env.dir "plain.bin")
  have hout : env.dir ++ "/" ++ "cipher.bin" ∈ paths := hdir (under_append env.dir "cipher.bin")
  have hbefore : ∀ {α : Type} (r : Except IoError α),
      Abides codes live carried paths fs (beforeRanges live params.dataLenBytes r) fun a => r = .ok a := by
    intro α r
    cases r with
    | ok a => exact Ensures.pure rfl
    | error e =>
      refine Ensures.ite (fun hstarts => ?_) (fun _ => abides_fail _ hio)
      simp only [LiveProgress.starts, Bool.and_eq_true] at hstarts
      exact Ensures.throw (Or.inl (.hang hstarts.1))
  have hdispatch : ∀ job : TransferJob, Within paths fs job.outputFile.file →
      job.progressTotalBytes = params.dataLenBytes →
      chunkRanges params.dataLenBytes (max params.chunkSectors 1) = .ok job.ranges →
      Abides codes live carried paths fs (dispatch { progressFlavor := flavor } job live (env.transfer pass))
        fun _ => True := by
    intro job hfile htotal hranges
    have hcoverage : coverage params.dataLenBytes < u64Size := (coverage_of_dvd hsectors).trans_lt hfits
    rw [← htotal] at hranges hcoverage
    exact abides_dispatch hout hfile (Bool.and_true live) (fun hc => hcarries hc pass) hranges hcoverage
  refine (abides_orPanic _).bind fun built _ => ?_
  refine (hbefore _).bind fun engine _ => ?_
  refine (abides_look fun _ => ⟨_, rfl⟩ : Abides codes live carried paths fs os.createDirAll fun _ => True).bind
    fun made _ => ?_
  refine (hbefore made).bind fun _ _ => ?_
  have hwrite : ∀ bytes, Abides codes live carried paths fs (os.write (env.dir ++ "/" ++ "plain.bin") bytes)
      fun _ => True := by
    intro bytes w hw
    rw [Os.write]
    cases os.fault .writeTempFile with
    | some e => exact ⟨hw, trivial⟩
    | none => exact ⟨inside_of_framed hin (hw.1.write hin bytes), trivial⟩
  refine (hwrite _).bind fun written _ => ?_
  refine (hbefore written).bind fun _ _ => ?_
  refine (abides_wrapping _).bind fun roundedLen _ => ?_
  refine (abides_orPanic _).bind fun ranges hranges => ?_
  refine (abides_openRead os _).bind fun opened _ => ?_
  refine (hbefore opened).bind fun input _ => ?_
  refine (abides_createSparseOutput os hout roundedLen).bind fun created hcreated => ?_
  refine (hbefore created).bind fun output houtput => ?_
  refine (hdispatch _ (hcreated output houtput).1 rfl hranges).bind fun result _ => ?_
  refine (abides_orFail _ hio result).bind fun _ _ => ?_
  refine (Ensures.modify fun w hw => ?_).bind fun _ _ => Ensures.pure trivial
  exact inside_of_framed hin (hw.1.removeDirAll hdir (env.removed pass))

lemma abides_sweep {params : ℕ → BenchParams} (hsectors : ∀ n, sectorSize ∣ (params n).dataLenBytes)
    (hfits : ∀ n, (params n).dataLenBytes < u64Size) (workerCounts : List ℕ) (i : ℕ) (results : List BenchResult) :
    Abides codes live carried paths fs (sweep X os env flavor live params workerCounts i results) fun _ => True := by
  induction workerCounts generalizing i results with
  | nil => exact Ensures.pure trivial
  | cons workerCount rest ih =>
    refine (abides_benchRun X os hdir hcarries hio flavor (hsectors workerCount) (hfits workerCount) i).bind
      fun result _ => ?_
    refine (abides_report _).bind fun _ _ => ?_
    exact ih (i + 1) (results ++ [result])

end Sweep

/-- `run_bench` from the worker counts on. -/
def sweepAndReport (env : BenchEnv) (flavor : ProgressFlavor) (live : Bool) (rendering : BenchReport) (json : Bool)
    (params : ℕ → BenchParams) (workerCounts : List ℕ) : Cmd ExitCode := do
  let results ← sweep X os env flavor live params workerCounts 0 []
  reportSweep rendering json results
  pure .success

lemma abides_sweepAndReport {env : BenchEnv} (hcarries : carried → ∀ pass, (env.transfer pass).Carries)
    (flavor : ProgressFlavor) (rendering : BenchReport) (json : Bool) {params : ℕ → BenchParams}
    (hsectors : ∀ n, sectorSize ∣ (params n).dataLenBytes) (hfits : ∀ n, (params n).dataLenBytes < u64Size)
    (workerCounts : List ℕ) :
    Abides [.success, .io] live carried env.tempFiles fs
      (sweepAndReport X os env flavor live rendering json params workerCounts) (· ∈ [.success, .io]) := by
  refine (abides_sweep X os (subset_refl _) hcarries (by decide) flavor hsectors hfits workerCounts 0 []).bind
    fun results _ => ?_
  have hreport : Abides [.success, .io] live carried env.tempFiles fs (reportSweep rendering json results)
      fun _ => True := by
    refine Ensures.ite (fun _ => ?_) (fun _ => abides_report _)
    split
    · exact abides_report _
    · exact Ensures.pure trivial
  exact hreport.bind fun _ _ => Ensures.pure (by decide)

end Writers

section Images

variable {codes : List ExitCode} {live : Bool} {carried : Prop} {paths : Set Path} {fs : Fs} (X : Externals) (os : Os)
  (reporter : Reporter)

lemma abides_resolveSpecAndKey (hkey : .keyValidation ∈ codes) (hio : .io ∈ codes)
    (hcipher : .unsupportedCipher ∈ codes) (cipher : CipherArg) (keySize : Option UInt16) (keyFile : Path)
    (keyFormat : KeyFormatArg) :
    Abides codes live carried paths fs (resolveSpecAndKey X os cipher keySize keyFile keyFormat) fun _ => True := by
  refine (abides_orFail _ hcipher _).bind fun spec _ => ?_
  refine (abides_loadKeyFile X os keyFile keyFormat).bind fun loaded _ => ?_
  refine (abides_orFail _ hio loaded).bind fun key _ => ?_
  exact (abides_orFail _ hkey _).bind fun _ _ => Ensures.pure trivial

lemma abides_statInputLen (hio : .io ∈ codes) (path : Path) :
    Abides codes live carried paths fs (statInputLen os path) fun _ => True := by
  refine (abides_metadataLen os path).bind fun len _ => ?_
  exact (abides_orFail _ hio len).imp fun _ _ => trivial

lemma abides_openInputFile (hio : .io ∈ codes) (path : Path) :
    Abides codes live carried paths fs (openInputFile os path) fun _ => True := by
  refine (abides_openRead os path).bind fun file _ => ?_
  exact (abides_orFail _ hio file).imp fun _ _ => trivial

lemma abides_resolveAndReportConcurrency (path : Path) (n : ℕ) (threshold : UInt64) (pin : Bool)
    (maxWorkers : Option UInt64) :
    Abides codes live carried paths fs (resolveAndReportConcurrency os path n threshold pin maxWorkers) fun _ => True :=
  (abides_report _).bind fun _ _ => Ensures.pure trivial

lemma abides_openOutputFile {path : Path} (hp : path ∈ paths) (hio : .io ∈ codes) (size : ℕ) :
    Abides codes live carried paths fs (openOutputFile os path size)
      fun file => Within paths fs file.file ∧ size ≤ i64Max := by
  refine (abides_createSparseOutput os hp size).bind fun created hcreated => ?_
  exact (abides_orFail _ hio created).imp fun file hfile => hcreated file hfile

variable {reporter} in
lemma abides_transfer {path : Path} (hp : path ∈ paths) (hio : .io ∈ codes) {job : TransferJob} {showProgress : Bool}
    {chunk : ℕ} {env : Environment} (hfile : Within paths fs job.outputFile.file)
    (hlive : (showProgress && !reporter.ciMode) = live) (hcarries : carried → env.Carries)
    (hranges : chunkRanges job.progressTotalBytes chunk = .ok job.ranges) (hsize : job.progressTotalBytes ≤ i64Max)
    (phase : String) :
    Abides codes live carried paths fs (transferAndReportTiming reporter job phase showProgress env)
      fun _ => True := by
  refine (abides_dispatch hp hfile hlive hcarries hranges (coverage_lt_u64Size hsize)).bind fun result _ => ?_
  refine (abides_orFail _ hio result).bind fun _ _ => ?_
  exact abides_report _

def ImageAction.exitCodes : ImageAction → List ExitCode
  | .encrypt args =>
      [.success, .invalidArgs, .keyValidation, .io, .unsupportedCipher] ++
        if args.dryRunCryptsetupCompat then [.luksCompat] else []
  | .decrypt _ => [.success, .keyValidation, .io, .unsupportedCipher]

variable {env : Environment} (hcarries : carried → env.Carries)

include hcarries

lemma abides_runEncryptImpl (args : EncryptArgs) (showProgress : Bool) :
    Abides (ImageAction.encrypt args).exitCodes (showProgress && !reporter.ciMode) carried {args.output} fs
      (runEncryptImpl X os reporter args showProgress env) (· ∈ (ImageAction.encrypt args).exitCodes) := by
  have hmem : ∀ code ∈ [ExitCode.success, .invalidArgs, .keyValidation, .io, .unsupportedCipher],
      code ∈ (ImageAction.encrypt args).exitCodes := fun code h => List.mem_append_left _ h
  have hp : args.output ∈ ({args.output} : Set Path) := rfl
  have hio := hmem .io (by decide)
  refine (abides_reportAll _).bind fun _ _ => ?_
  refine (abides_resolveSpecAndKey X os (hmem _ (by decide)) hio (hmem _ (by decide)) _ _ _ _).bind fun resolved _ => ?_
  refine (abides_reportAll _).bind fun _ _ => ?_
  refine (abides_reportAll _).bind fun _ _ => ?_
  refine (abides_reportAll _).bind fun _ _ => ?_
  refine (abides_report _).bind fun _ _ => ?_
  refine (abides_buildEngine X (hmem _ (by decide)) _ _).bind fun engine _ => ?_
  refine (abides_statInputLen os hio args.input).bind fun inputLen _ => ?_
  refine (abides_orFail _ (hmem _ (by decide)) _).bind fun outputSize _ => ?_
  refine (abides_report _).bind fun _ _ => ?_
  refine (abides_reportAll _).bind fun _ _ => ?_
  refine (abides_resolveAndReportConcurrency os _ _ _ _ _).bind fun dispatched _ => ?_
  refine (abides_openInputFile os hio args.input).bind fun inputFile _ => ?_
  refine (abides_openOutputFile os hp hio outputSize).bind fun outputFile hfile => ?_
  refine (abides_reportAll _).bind fun _ _ => ?_
  refine (abides_orPanic _).bind fun ranges hranges => ?_
  refine (abides_transfer hp hio hfile.1 rfl hcarries hranges hfile.2 _).bind fun _ _ => ?_
  have hscore : Abides (ImageAction.encrypt args).exitCodes (showProgress && !reporter.ciMode) carried {args.output} fs
      (scoreCiphertext X os reporter args.output inputLen) fun _ => True := by
    refine Ensures.ite (fun _ => ?_) (fun _ => Ensures.pure trivial)
    refine (abides_read os .readOutput args.output).bind fun ciphertext _ => ?_
    cases ciphertext with
    | ok bytes => exact (abides_report _).bind fun _ _ => abides_reportAll _
    | error e => exact Ensures.pure trivial
  refine hscore.bind fun _ _ => ?_
  refine Ensures.ite (fun hdry => ?_) (fun _ => Ensures.pure (hmem _ (by decide)))
  refine (abides_report _).bind fun _ _ => Ensures.pure ?_
  split
  · exact List.mem_append_right _ (by rw [if_pos hdry]; exact List.mem_singleton_self _)
  · exact hmem _ (by decide)

lemma abides_runDecryptImpl (args : DecryptArgs) (showProgress : Bool) :
    Abides (ImageAction.decrypt args).exitCodes (showProgress && !reporter.ciMode) carried {args.output} fs
      (runDecryptImpl X os reporter args showProgress env) (· ∈ (ImageAction.decrypt args).exitCodes) := by
  have hp : args.output ∈ ({args.output} : Set Path) := rfl
  have hio : ExitCode.io ∈ (ImageAction.decrypt args).exitCodes := by simp [ImageAction.exitCodes]
  have hkey : ExitCode.keyValidation ∈ (ImageAction.decrypt args).exitCodes := by simp [ImageAction.exitCodes]
  refine (abides_reportAll _).bind fun _ _ => ?_
  refine (abides_resolveSpecAndKey X os hkey hio (by simp [ImageAction.exitCodes]) _ _ _ _).bind fun resolved _ => ?_
  refine (abides_reportAll _).bind fun _ _ => ?_
  refine (abides_buildEngine X hkey _ _).bind fun engine _ => ?_
  refine (abides_statInputLen os hio args.input).bind fun inputLen _ => ?_
  refine (abides_resolveAndReportConcurrency os _ _ _ _ _).bind fun dispatched _ => ?_
  refine (abides_openInputFile os hio args.input).bind fun inputFile _ => ?_
  refine (abides_openOutputFile os hp hio inputLen).bind fun outputFile hfile => ?_
  refine (abides_reportAll _).bind fun _ _ => ?_
  refine (abides_orPanic _).bind fun ranges hranges => ?_
  refine (abides_transfer hp hio hfile.1 rfl hcarries hranges hfile.2 _).bind fun _ _ => ?_
  exact Ensures.pure (by simp [ImageAction.exitCodes])

end Images

/-- Whatever a process waits for, but for a live display, is taken to its end. -/
structure Surroundings.Carries (around : Surroundings) : Prop where
  transfer : around.transfer.Carries
  keygen : around.keygen.Carries
  sweep : ∀ pass, (around.sweep.transfer pass).Carries

def EnvConfig.Operation.action : EnvConfig.Operation → ImageAction
  | .encrypt args => .encrypt args
  | .decrypt args => .decrypt args

namespace Command

def exitCodes : Command → List ExitCode
  | .image action => action.exitCodes
  | .keygen _ => [.success, .io, .unsupportedCipher]
  | .keycheck _ => [.success, .keyValidation, .io, .unsupportedCipher]
  | .inspect _ => [.success, .io]
  | .validate _ => [.success, .keyValidation, .luksCompat, .io, .unsupportedCipher]
  | .entropy args => [.success, .io] ++ if args.threshold.isSome then [.entropyFailed] else []
  | .align (.check _) => [.success, .alignmentFailed, .io]
  | .align (.fix _) => [.success, .io]
  | .bench _ => [.success, .invalidArgs, .io, .unsupportedCipher]
  | .info => [.success]
  | .completions _ => [.success, .io]

def writes (around : Surroundings) : Command → Set Path
  | .image action => {action.output}
  | .keygen args => {args.output}
  | .align (.fix args) => {args.path}
  | .bench _ => around.sweep.tempFiles
  | .keycheck _ | .inspect _ | .validate _ | .entropy _ | .align (.check _) | .info | .completions _ => ∅

end Command

namespace CommandLine

variable (cli : CommandLine) (around : Surroundings)

/-- The subcommand that is run in the end, be it given or described by the environment variables. -/
def effective : Option Command :=
  if cli.takesRedpill then none
  else match cli.command with
    | some command => some command
    | none =>
      if cli.ci then
        (EnvConfig.resolveFromEnv around.texts around.environment).toOption.map fun operation => .image operation.action
      else none

def exitCodes : List ExitCode :=
  match cli.effective around with
  | some command => command.exitCodes
  | none =>
    if cli.takesRedpill then if cli.quiet then [.success] else [.success, .generic]
    else [.invalidArgs]

def writes : Set Path := (cli.effective around).elim ∅ (Command.writes around)

/-- A terminal is redrawn. -/
def live : Bool := cli.showProgress && !cli.reporterKind.ciMode

end CommandLine

section Subcommands

variable {codes codes' : List ExitCode} {live : Bool} {carried : Prop} {paths : Set Path} {fs : Fs} {w : World}

lemma Abides.mono {c : Cmd ExitCode} (h : Abides codes live carried paths fs c (· ∈ codes))
    (hsub : ∀ code ∈ codes, code ∈ codes') : Abides codes' live carried paths fs c (· ∈ codes') := by
  refine (h.weaken fun outcome ho => ho.imp_left fun hpermitted => ?_).imp hsub
  cases hpermitted with
  | exit hcode => exact .exit (hsub _ hcode)
  | panic => exact .panic
  | hang hlive => exact .hang hlive

lemma finish_abides {c : Cmd ExitCode} (h : Abides codes live carried paths w.fs c (· ∈ codes)) :
    Stops codes live carried (finish c w).1 ∧ Inside paths w.fs (finish c w).2 := by
  have hc := h w (inside_refl paths w)
  rw [finish]
  cases hr : c w with
  | ok code w' =>
    rw [hr] at hc
    exact ⟨Or.inl (.exit hc.2), hc.1⟩
  | error outcome w' =>
    rw [hr] at hc
    exact ⟨hc.2, hc.1⟩

lemma abides_runKeygenImpl (X : Externals) {env : KeygenEnv} (hcarries : carried → env.Carries) (narrates : Bool)
    (args : KeygenArgs) :
    Abides [.success, .io, .unsupportedCipher] live carried {args.output} fs (runKeygenImpl X env narrates args)
      (· ∈ [.success, .io, .unsupportedCipher]) := by
  refine (abides_orFail _ (by decide) _).bind fun spec _ => ?_
  exact Abides.mono (abides_generateAndWrite X hcarries narrates args spec) (by decide)

lemma abides_dataLenBytes (dataLenMb : ℕ) : Abides codes live carried paths fs (dataLenBytes dataLenMb)
    fun total => sectorSize ∣ total ∧ total < u64Size := by
  intro w hw
  obtain ⟨total, htotal, hsectors, hfits⟩ := dataLenBytes_eq dataLenMb w
  rw [htotal]
  exact ⟨hw, hsectors, hfits⟩

lemma abides_runBenchImpl (X : Externals) (os : Os) {env : BenchEnv}
    (hcarries : carried → ∀ pass, (env.transfer pass).Carries) (flavor : ProgressFlavor) (rendering : BenchReport)
    (args : BenchArgs) (json : Bool) :
    Abides [.success, .invalidArgs, .io, .unsupportedCipher] live carried env.tempFiles fs
      (runBenchImpl X os env flavor live rendering args json)
      (· ∈ [.success, .invalidArgs, .io, .unsupportedCipher]) := by
  refine (abides_orFail _ (by decide) _).bind fun spec _ => ?_
  refine (abides_orPanic _).bind fun key _ => ?_
  refine (abides_dataLenBytes _).bind fun total htotal => ?_
  refine Ensures.ite (fun _ => abides_fail _ (by decide)) (fun _ => ?_)
  exact Abides.mono
    (abides_sweepAndReport X os hcarries flavor rendering json (fun _ => htotal.1) (fun _ => htotal.2) _) (by decide)

variable (around : Surroundings) (kind : ReporterKind) (json showProgress : Bool)

lemma runSubcommand_abides (command : Command) (w : World) :
    Stops command.exitCodes (showProgress && !kind.ciMode) around.Carries
        (runSubcommand around kind json showProgress command w).1 ∧
      Inside (command.writes around) w.fs (runSubcommand around kind json showProgress command w).2 := by
  cases command with
  | image action =>
    have hmode : (kind.reporter around.joke).ciMode = kind.ciMode := rfl
    rw [← hmode]
    cases action with
    | encrypt args => exact finish_abides (abides_runEncryptImpl _ _ _ (fun h => h.transfer) args showProgress)
    | decrypt args => exact finish_abides (abides_runDecryptImpl _ _ _ (fun h => h.transfer) args showProgress)
  | keygen args => exact finish_abides (abides_runKeygenImpl _ (fun h => h.keygen) _ args)
  | keycheck args => exact finish_abides (abides_runKeycheckImpl _ _ args)
  | inspect args => exact finish_abides (abides_runInspectImpl _ _ _ args json)
  | validate args => exact finish_abides (abides_runValidateImpl _ _ args _)
  | entropy args => exact finish_abides (abides_runEntropyImpl _ _ _ args)
  | align action =>
    cases action with
    | check args => exact finish_abides (abides_runCheckImpl _ args)
    | fix args => exact finish_abides (abides_runFixImpl _ args)
  | bench args => exact finish_abides (abides_runBenchImpl _ _ (fun h => h.sweep) _ _ args json)
  | info => exact finish_abides (abides_runInfoImpl _ _ json)
  | completions shell => exact finish_abides (abides_runCompletionsImpl around shell)

end Subcommands

section Failures

variable {w : World} {code : ExitCode}

/-- The exit codes of commands that may have begun to write. -/
def committedCodes : List ExitCode := [.success, .luksCompat, .io]

lemma fs_of_reaches {I : World → Prop} {E : Outcome → Prop} {c : Cmd ExitCode} {D : Cmd ExitCode → Prop}
    (h : Reaches I E c D) (hw : I w) (hI : ∀ w', I w' → w'.fs = w.fs)
    (hD : ∀ rest w' code, D rest → (finish rest w').1 = .exit code → code ∈ committedCodes)
    (hcode : (finish c w).1 = .exit code) (hne : code ∉ committedCodes) : (finish c w).2.fs = w.fs := by
  rcases h w hw with ⟨outcome, w', hc, hw', -⟩ | ⟨rest, w', hrest, -, hc⟩
  · rw [finish, hc]
    exact hI w' hw'
  · rw [show finish c w = finish rest w' by rw [finish, hc, finish]] at hcode
    exact (hne (hD rest w' code hrest hcode)).elim

lemma committed_of_late {rest : Cmd ExitCode} {w' : World}
    (h : Ensures (fun _ => True) Late rest fun code => code = .success ∨ code = .luksCompat)
    (hcode : (finish rest w').1 = .exit code) : code ∈ committedCodes := by
  have hc := h w' trivial
  rw [finish] at hcode
  cases hr : rest w' with
  | ok c w₁ =>
    rw [hr] at hc hcode
    cases hcode
    rcases hc.2 with rfl | rfl
    · decide
    · decide
  | error outcome w₁ =>
    rw [hr] at hc hcode
    cases hcode
    obtain rfl : code = .io := hc.2
    decide

lemma committed_of_abides {live : Bool} {carried : Prop} {paths : Set Path} {rest : Cmd ExitCode} {w' : World}
    (h : Abides [.success, .io] live carried paths w'.fs rest (· ∈ [.success, .io]))
    (hcode : (finish rest w').1 = .exit code) : code ∈ committedCodes := by
  have hstops := (finish_abides h).1
  rw [hcode] at hstops
  rcases hstops with ⟨⟨hmem⟩⟩ | ⟨hnone, -⟩
  · exact (show ∀ c ∈ [ExitCode.success, .io], c ∈ committedCodes by decide) code hmem
  · cases hnone

lemma runKeygen_failed (X : Externals) (env : KeygenEnv) (narrates : Bool) (args : KeygenArgs)
    (hcode : (runKeygen X env narrates args w).1 = .exit code) (hne : code ∉ committedCodes) :
    (runKeygen X env narrates args w).2.fs = w.fs := by
  have hreach : Reaches (Inside ∅ w.fs) (Stops [.unsupportedCipher] false False) (runKeygenImpl X env narrates args)
      fun rest => ∃ spec, rest = generateAndWrite X env narrates args spec :=
    Reaches.bind (abides_orFail _ (by decide) _) fun spec _ => Reaches.here ⟨spec, rfl⟩
  refine fs_of_reaches hreach (inside_refl ∅ w) (fun w' h => h.2 rfl) ?_ hcode hne
  rintro rest w' code ⟨spec, rfl⟩ h
  have habides : Abides [.success, .io] false False {args.output} w'.fs (generateAndWrite X env narrates args spec)
      (· ∈ [.success, .io]) := abides_generateAndWrite X False.elim narrates args spec
  exact committed_of_abides habides h

lemma runBench_failed (X : Externals) (os : Os) (env : BenchEnv) (flavor : ProgressFlavor) (live : Bool)
    (rendering : BenchReport) (args : BenchArgs) (json : Bool)
    (hcode : (runBench X os env flavor live rendering args json w).1 = .exit code) (hne : code ∉ committedCodes) :
    (runBench X os env flavor live rendering args json w).2.fs = w.fs := by
  by_cases hnone : parseWorkers args.workers = []
  · have hrun : Abides [.invalidArgs, .unsupportedCipher] live False ∅ w.fs
        (runBenchImpl X os env flavor live rendering args json) (· ∈ [.invalidArgs, .unsupportedCipher]) := by
      refine (abides_orFail _ (by decide) _).bind fun spec _ => ?_
      refine (abides_orPanic _).bind fun key _ => ?_
      refine (abides_dataLenBytes _).bind fun total _ => ?_
      exact Ensures.ite (fun _ => abides_fail _ (by decide)) fun hsome => (hsome hnone).elim
    exact (finish_abides hrun).2.2 rfl
  · have hreach : Reaches (Inside ∅ w.fs) (Stops [.unsupportedCipher] live False)
        (runBenchImpl X os env flavor live rendering args json)
        fun rest => ∃ params : ℕ → BenchParams, (∀ n, sectorSize ∣ (params n).dataLenBytes) ∧
          (∀ n, (params n).dataLenBytes < u64Size) ∧
          rest = sweepAndReport X os env flavor live rendering json params (parseWorkers args.workers) := by
      refine Reaches.bind (abides_orFail _ (by decide) _) fun spec _ => ?_
      refine Reaches.bind (abides_orPanic _) fun key _ => ?_
      refine Reaches.bind (abides_dataLenBytes _) fun total htotal => ?_
      exact Reaches.here ⟨_, fun _ => htotal.1, fun _ => htotal.2, if_neg hnone⟩
    refine fs_of_reaches hreach (inside_refl ∅ w) (fun w' h => h.2 rfl) ?_ hcode hne
    rintro rest w' code ⟨params, hsectors, hfits, rfl⟩ h
    have habides : Abides [.success, .io] live False env.tempFiles w'.fs
        (sweepAndReport X os env flavor live rendering json params (parseWorkers args.workers))
        (· ∈ [.success, .io]) := abides_sweepAndReport X os False.elim flavor rendering json hsectors hfits _
    exact committed_of_abides habides h

lemma runImage_failed (X : Externals) (os : Os) (reporter : Reporter) (action : ImageAction) (showProgress : Bool)
    (env : Environment) (hcode : (runImage X os reporter action showProgress env w).1 = .exit code)
    (hne : code ∉ committedCodes) : (runImage X os reporter action showProgress env w).2.fs = w.fs := by
  cases action with
  | encrypt args =>
    refine fs_of_reaches (reaches_writeEncrypted X os reporter w.fs args showProgress env) rfl (fun _ h => h) ?_
      hcode hne
    rintro rest w' code ⟨spec, key, engine, n, size, info, concurrency, inputFile, -, -, -, rfl⟩ h
    exact committed_of_late (late_writeEncrypted (fun _ _ _ h => h) X os reporter args showProgress env spec key engine
      n size info concurrency inputFile) h
  | decrypt args =>
    refine fs_of_reaches (reaches_writeDecrypted X os reporter w.fs args showProgress env) rfl (fun _ h => h) ?_
      hcode hne
    rintro rest w' code ⟨spec, key, engine, n, info, concurrency, inputFile, -, -, rfl⟩ h
    exact committed_of_late (late_writeDecrypted (fun _ _ _ h => h) os reporter args showProgress env engine n info
      concurrency inputFile) h

lemma runSubcommand_failed (around : Surroundings) (kind : ReporterKind) (json showProgress : Bool) (command : Command)
    (hcode : (runSubcommand around kind json showProgress command w).1 = .exit code) (hne : code ∉ committedCodes) :
    (runSubcommand around kind json showProgress command w).2.fs = w.fs := by
  obtain ⟨hstops, hinside⟩ := runSubcommand_abides around kind json showProgress command w
  cases command with
  | image action => exact runImage_failed _ _ _ action _ _ hcode hne
  | keygen args => exact runKeygen_failed _ _ _ args hcode hne
  | bench args => exact runBench_failed _ _ _ _ _ _ args json hcode hne
  | align action =>
    cases action with
    | check args => exact hinside.2 rfl
    | fix args =>
      rw [hcode] at hstops
      rcases hstops with ⟨⟨hmem⟩⟩ | ⟨hnone, -⟩
      · exact (hne ((show ∀ c ∈ [ExitCode.success, .io], c ∈ committedCodes by decide) code hmem)).elim
      · cases hnone
  | _ => exact hinside.2 rfl

end Failures

section Processes

variable {cli : CommandLine} {around : Surroundings} {w : World}

lemma run_effective {command : Command} (h : cli.effective around = some command) :
    cli.run around w =
      let ended := runSubcommand around cli.reporterKind cli.json cli.showProgress command w
      ⟨ended.1, ended.2, closingLine cli.reporterKind ended.1⟩ := by
  rw [CommandLine.effective] at h
  split at h
  · cases h
  · rename_i hpill
    rw [CommandLine.run, if_neg hpill]
    cases hcommand : cli.command with
    | some given =>
      rw [hcommand] at h
      cases h
      rfl
    | none =>
      rw [hcommand] at h
      simp only at h
      split at h
      · rename_i hci
        simp only [runCommand, hci, if_true]
        cases hresolved : EnvConfig.resolveFromEnv around.texts around.environment with
        | error e =>
          rw [hresolved] at h
          cases h
        | ok operation =>
          rw [hresolved] at h
          cases h
          cases operation with
          | encrypt args => rfl
          | decrypt args => rfl
      · cases h

lemma run_ineffective (h : cli.effective around = none) :
    ∃ code ∈ cli.exitCodes around, (cli.run around w).outcome = .exit code ∧ (cli.run around w).world.fs = w.fs := by
  rw [CommandLine.exitCodes, h]
  rw [CommandLine.effective] at h
  by_cases hpill : cli.takesRedpill = true
  · simp only [CommandLine.run, hpill, if_true]
    refine ⟨runRedpill around.answer cli.quiet, ?_, rfl, trivial⟩
    cases hquiet : cli.quiet with
    | true => exact List.mem_singleton_self _
    | false =>
      rw [runRedpill, if_neg Bool.false_ne_true, if_neg Bool.false_ne_true]
      split
      · decide
      · decide
  · rw [if_neg hpill] at h
    simp only [hpill, CommandLine.run]
    refine ⟨.invalidArgs, List.mem_singleton_self _, ?_⟩
    cases hcommand : cli.command with
    | some given =>
      rw [hcommand] at h
      cases h
    | none =>
      rw [hcommand] at h
      simp only at h
      cases hci : cli.ci with
      | false => exact ⟨rfl, rfl⟩
      | true =>
        rw [hci, if_pos rfl] at h
        simp only [runCommand, if_true]
        cases hresolved : EnvConfig.resolveFromEnv around.texts around.environment with
        | error e => exact ⟨rfl, rfl⟩
        | ok operation =>
          rw [hresolved] at h
          cases h

end Processes

/-- A process only changes files that its command names as outputs, whatever it is told to do and however it ends; a
command without an output changes nothing. -/
theorem run_framed (cli : CommandLine) (around : Surroundings) (w : World) :
    Framed (cli.writes around) w.fs (cli.run around w).world.fs ∧
      (cli.writes around = ∅ → (cli.run around w).world.fs = w.fs) := by
  cases heffective : cli.effective around with
  | none =>
    obtain ⟨code, -, -, hfs⟩ := run_ineffective (w := w) heffective
    rw [hfs]
    exact ⟨Framed.refl _ _, fun _ => rfl⟩
  | some command =>
    rw [run_effective heffective, CommandLine.writes, heffective]
    exact (runSubcommand_abides around cli.reporterKind cli.json cli.showProgress command w).2

lemma run_stops (cli : CommandLine) (around : Surroundings) (w : World) :
    Stops (cli.exitCodes around) cli.live around.Carries (cli.run around w).outcome := by
  cases heffective : cli.effective around with
  | none =>
    obtain ⟨code, hcode, hrun, -⟩ := run_ineffective (w := w) heffective
    rw [hrun]
    exact Or.inl (.exit hcode)
  | some command =>
    rw [run_effective heffective, CommandLine.exitCodes, heffective]
    exact (runSubcommand_abides around cli.reporterKind cli.json cli.showProgress command w).1

lemma ciMode_iff (kind : ReporterKind) : kind.ciMode = true ↔ kind = .ci := by
  cases kind <;> simp [ReporterKind.ciMode]

lemma closingLine_eq_some {kind : ReporterKind} {outcome : Outcome} {line : OutcomeLine} :
    closingLine kind outcome = some line ↔ kind = .ci ∧ ∃ code, outcome = .exit code ∧ line = code.outcomeLine := by
  cases outcome with
  | exit code =>
    rw [closingLine]
    by_cases hkind : kind = .ci
    · rw [if_pos ((ciMode_iff kind).mpr hkind), Option.some.injEq]
      constructor
      · rintro rfl
        exact ⟨hkind, code, rfl, rfl⟩
      · rintro ⟨-, code', h, rfl⟩
        cases h
        rfl
    · rw [if_neg fun h => hkind ((ciMode_iff kind).mp h)]
      constructor
      · intro h
        cases h
      · rintro ⟨h, -⟩
        exact (hkind h).elim
  | _ => simp [closingLine]

lemma exit_mem_exitCodes {cli : CommandLine} {around : Surroundings} {w : World} {code : ExitCode}
    (h : (cli.run around w).outcome = .exit code) : code ∈ cli.exitCodes around := by
  have hstops := run_stops cli around w
  rw [h] at hstops
  rcases hstops with ⟨⟨hmem⟩⟩ | ⟨hnone, -⟩
  · exact hmem
  · cases hnone

/-- A process that is carried to its end returns with one of the exit codes of its command or panics, and only where it
redraws a terminal can it fail to return. Under `--ci` the log of a process that has returned is closed by a line with
its exit code. -/
theorem run_permitted (cli : CommandLine) (around : Surroundings) (w : World) :
    (around.Carries → Permitted (cli.exitCodes around) cli.live (cli.run around w).outcome) ∧
      ∀ line, (cli.run around w).line = some line ↔
        cli.takesRedpill = false ∧ cli.reporterKind = .ci ∧
          ∃ code ∈ cli.exitCodes around, (cli.run around w).outcome = .exit code ∧ line = code.outcomeLine := by
  refine ⟨?_, fun line => ?_⟩
  · intro hcarries
    rcases run_stops cli around w with hpermitted | ⟨-, hnot⟩
    · exact hpermitted
    · exact (hnot hcarries).elim
  · have hline : (cli.run around w).line =
        if cli.takesRedpill then none else closingLine cli.reporterKind (cli.run around w).outcome := by
      rw [CommandLine.run]
      split <;> rfl
    rw [hline]
    cases hpill : cli.takesRedpill with
    | true => simp
    | false =>
      rw [if_neg Bool.false_ne_true, closingLine_eq_some]
      constructor
      · rintro ⟨hkind, code, hcode, hl⟩
        exact ⟨rfl, hkind, code, exit_mem_exitCodes hcode, hcode, hl⟩
      · rintro ⟨-, hkind, code, -, hcode, hl⟩
        exact ⟨hkind, code, hcode, hl⟩

section Sample

/-- Every transfer meets a full disk. -/
def sampleSurroundings : Surroundings where
  externals := sampleExternals
  os := sampleOs
  stdin := .ok []
  answer := "b"
  stdoutFault := none
  joke := "this joke is picked at random"
  transfer := faultyEnv (.os "No space left on device (os error 28)")
  keygen := ⟨fun _ => some (Vector.replicate _ 0), 0o022, 0o600, writtenAtOnce⟩
  sweep := { sampleHost.sweep with transfer := fun _ => faultyEnv (.os "No space left on device (os error 28)") }
  kernel := fun _ => .count 0
  texts := ⟨String.quote, fun _ _ => .ok .auto, fun _ _ => .ok .aesXtsPlain64⟩
  environment := fun _ => none
  clapComplete := fun _ _ => ""
  inspectJson := fun _ => none
  infoJson := fun _ => none
  rendering := sampleHost.rendering
  arch := .x86_64
  aes := true
  vaes := false
  build := ⟨"0.1.0", "x86_64", "linux", "unknown"⟩

lemma sampleSurroundings_carries : sampleSurroundings.Carries where
  transfer := faultyEnv_carries _
  keygen := writtenAtOnce_returns
  sweep _ := faultyEnv_carries _

def sampleCommandLine (ci : Bool) (command : Command) : CommandLine :=
  ⟨false, false, false, false, ci, .text, false, some command⟩

def fullDiskLine (ci : Bool) : CommandLine := sampleCommandLine ci (.image (.encrypt sampleEncryptArgs))

def fullDiskProcess (ci : Bool) : Ended := (fullDiskLine ci).run sampleSurroundings sampleWorld

end Sample

/-- The failed transfer ends the process under `--ci`; elsewhere its live display goes on. -/
theorem run_permitted_disk_full :
    Permitted ((fullDiskLine true).exitCodes sampleSurroundings) (fullDiskLine true).live
        (fullDiskProcess true).outcome ∧
      (fullDiskProcess true).line = some ⟨false, "NC-007", "I/O error"⟩ ∧
      Permitted ((fullDiskLine false).exitCodes sampleSurroundings) (fullDiskLine false).live
        (fullDiskProcess false).outcome ∧
      (fullDiskProcess false).outcome = .hang := by
  have hio : (fullDiskProcess true).outcome = .exit .io := by decide +kernel
  obtain ⟨hci, hline⟩ := run_permitted (fullDiskLine true) sampleSurroundings sampleWorld
  obtain ⟨hlive, -⟩ := run_permitted (fullDiskLine false) sampleSurroundings sampleWorld
  rw [← fullDiskProcess] at hci hline hlive
  have hclosed : (fullDiskProcess true).line = some ⟨false, "NC-007", "I/O error"⟩ :=
    (hline _).mpr ⟨rfl, rfl, .io, by decide, hio, by decide +kernel⟩
  have hhang : (fullDiskProcess false).outcome = .hang := by decide +kernel
  exact ⟨hci sampleSurroundings_carries, hclosed, hlive sampleSurroundings_carries, hhang⟩

/-- Nobody watches: a process that is carried to its end returns or panics, also where a transfer fails that an
interactive display would wait for, for ever. -/
theorem run_unattended_returns (cli : CommandLine) (around : Surroundings) (w : World) (hcarries : around.Carries)
    (hcli : cli.quiet = true ∨ cli.ci = true ∨ cli.logFormat = .json) :
    (∃ code ∈ cli.exitCodes around, (cli.run around w).outcome = .exit code) ∨
      ∃ panic, (cli.run around w).outcome = .panic panic := by
  have hlive : cli.live = false := by
    rw [CommandLine.live, CommandLine.showProgress, CommandLine.json, CommandLine.reporterKind, buildReporter]
    rcases hcli with h | h | h
    · rw [h]
      rfl
    · rw [h]
      cases cli.quiet with
      | true => rfl
      | false => exact Bool.and_false _
    · rw [h]
      cases cli.quiet <;> rfl
  rcases run_stops cli around w with hpermitted | ⟨-, hnot⟩
  · cases hrun : (cli.run around w).outcome with
    | exit code => exact Or.inl ⟨code, exit_mem_exitCodes hrun, rfl⟩
    | panic p => exact Or.inr ⟨p, rfl⟩
    | hang =>
      rw [hrun, hlive] at hpermitted
      cases hpermitted with
      | hang h => cases h
    | unscheduled =>
      rw [hrun] at hpermitted
      cases hpermitted
  · exact (hnot hcarries).elim

/-- Without `--ci` this command hangs. -/
theorem run_unattended_returns_disk_full :
    ∃ code ∈ (fullDiskLine true).exitCodes sampleSurroundings, (fullDiskProcess true).outcome = .exit code := by
  have hio : (fullDiskProcess true).outcome = .exit .io := by decide +kernel
  rcases run_unattended_returns (fullDiskLine true) sampleSurroundings sampleWorld sampleSurroundings_carries
    (Or.inr (Or.inl rfl)) with hcode | ⟨p, hp⟩
  · exact hcode
  · rw [← fullDiskProcess, hio] at hp
    cases hp

/-- A process that ends with an exit code other than those for success, for a failed compatibility check and for an I/O
error has left every file as it was. -/
theorem run_failed_untouched (cli : CommandLine) (around : Surroundings) (w : World) (code : ExitCode)
    (hcode : (cli.run around w).outcome = .exit code) (hsuccess : code ≠ .success) (hluks : code ≠ .luksCompat)
    (hio : code ≠ .io) : (cli.run around w).world.fs = w.fs := by
  have hne : code ∉ committedCodes := by simp [committedCodes, hsuccess, hluks, hio]
  cases heffective : cli.effective around with
  | none =>
    obtain ⟨-, -, -, hfs⟩ := run_ineffective (w := w) heffective
    exact hfs
  | some command =>
    rw [run_effective heffective] at hcode ⊢
    exact runSubcommand_failed around cli.reporterKind cli.json cli.showProgress command hcode hne

/-- The one byte of the key is refused, and the output, that exists, keeps its own. -/
def refusedEncryption : CommandLine :=
  sampleCommandLine true (.image (.encrypt { sampleEncryptArgs with keyFile := "short.img", output := "key.bin" }))

theorem run_failed_untouched_short :
    (refusedEncryption.run sampleSurroundings sampleWorld).outcome = .exit .keyValidation ∧
      (refusedEncryption.run sampleSurroundings sampleWorld).world.fs = sampleFs ∧
      sampleFs.Regular "key.bin" sampleKey := by
  have hrefused : (refusedEncryption.run sampleSurroundings sampleWorld).outcome = .exit .keyValidation := by
    decide +kernel
  exact ⟨hrefused, run_failed_untouched refusedEncryption sampleSurroundings sampleWorld .keyValidation hrefused
    (by decide) (by decide) (by decide), 1, rfl, rfl⟩

end NocapCrypt.Cli
