import NocapCrypt.Cli.ImageRuns

/-! The `image` commands check everything before they open their output: a run that one of the checks ends leaves
every file as it was. -/

namespace NocapCrypt.Cli

open NocapCrypt.Library.Commands NocapCrypt.Core NocapCrypt.BlockIo NocapCrypt.KeyMgmt NocapCrypt.Worker Cmd

def Untouched (fs : Fs) (w : World) : Prop := w.fs = fs

lemma eventBlind_untouched (fs : Fs) : EventBlind (Untouched fs) := fun _ _ h => h

def keyRead (X : Externals) (os : Os) (fs : Fs) (path : Path) (format : KeyFormatArg) : Except KeyLoadError Bytes :=
  match os.refuses .readKeyFile (fs.read path) with
  | .error e => .error (.io e)
  | .ok raw => keyOf X.codecs format raw

section Checks

variable (X : Externals) (os : Os) (fs : Fs)

lemma ensures_keyRead {transfers : Bool} (path : Path) (format : KeyFormatArg) :
    Ensures (Untouched fs) (Orderly transfers) (loadKeyFile X os path format)
      fun loaded => keyRead X os fs path format = loaded := by
  have hread : Ensures (Untouched fs) (Orderly transfers) (os.read .readKeyFile path)
      fun answer => os.refuses .readKeyFile (fs.read path) = answer :=
    Ensures.query fun w hw => ⟨_, rfl, by rw [show w.fs = fs from hw]⟩
  refine hread.bind fun answer hanswer => ?_
  rw [keyRead, hanswer]
  cases answer with
  | error e => exact Ensures.pure rfl
  | ok raw => exact Ensures.pure rfl

lemma ensures_accepted (cipher : CipherArg) (keySize : Option UInt16) (keyFile : Path) (keyFormat : KeyFormatArg) :
    Ensures (Untouched fs) (Orderly true) (resolveSpecAndKey X os cipher keySize keyFile keyFormat)
      fun r => resolveCipherSpec cipher keySize = .ok r.1 ∧ keyRead X os fs keyFile keyFormat = .ok r.2 ∧
        ∃ report, validateKey X.scores r.1 r.2 = .ok report := by
  have hI := eventBlind_untouched fs
  refine (ensures_orFail hI _ (by decide) _).bind fun spec hspec => ?_
  refine (ensures_keyRead X os fs keyFile keyFormat).bind fun loaded hloaded => ?_
  refine (ensures_orFail hI _ (by decide) loaded).bind fun key hkey => ?_
  refine (ensures_orFail hI _ (by decide) _).bind fun report hreport => ?_
  exact Ensures.pure ⟨hspec, hloaded.trans hkey, report, hreport⟩

lemma ensures_inputLen (path : Path) : Ensures (Untouched fs) (Orderly true) (statInputLen os path)
    fun n => os.refuses .stat (fs.metadataLen path) = .ok n := by
  have hstat : Ensures (Untouched fs) (Orderly true) (os.metadataLen path)
      fun len => os.refuses .stat (fs.metadataLen path) = len :=
    Ensures.query fun w hw => ⟨_, rfl, by rw [show w.fs = fs from hw]⟩
  refine hstat.bind fun len hlen => ?_
  exact (ensures_orFail (eventBlind_untouched fs) _ (by decide) len).imp fun n hn => hlen.trans hn

lemma ensures_inputFile (path : Path) : Ensures (Untouched fs) (Orderly true) (openInputFile os path)
    fun file => os.refuses .openInput (fs.openRead path) = .ok file.file := by
  have hopen : Ensures (Untouched fs) (Orderly true) (os.openRead path) fun opened =>
      (os.refuses .openInput (fs.openRead path)).map (fun i => ⟨i, os.direct .openInput⟩) = opened :=
    Ensures.query fun w hw => ⟨_, rfl, by rw [show w.fs = fs from hw]⟩
  refine hopen.bind fun opened hopened => ?_
  refine (ensures_orFail (eventBlind_untouched fs) _ (by decide) opened).imp fun file hfile => ?_
  rw [hfile] at hopened
  cases hr : os.refuses .openInput (fs.openRead path) with
  | error e =>
    rw [hr] at hopened
    cases hopened
  | ok i =>
    rw [hr] at hopened
    cases hopened
    rfl

/-- All that is asked before the output is opened. -/
structure Checked (cipher : CipherArg) (keySize : Option UInt16) (keyFile : Path) (keyFormat : KeyFormatArg)
    (input : Path) (spec : CipherSpec) (key : Bytes) (engine : SectorEngine) (n : ℕ) (inputFile : SectorFile) :
    Prop where
  spec_eq : resolveCipherSpec cipher keySize = .ok spec
  key_eq : keyRead X os fs keyFile keyFormat = .ok key
  valid : ∃ report, validateKey X.scores spec key = .ok report
  engine_eq : SectorEngine.new X.primitives spec key = .ok (.ok engine)
  len_eq : os.refuses .stat (fs.metadataLen input) = .ok n
  input_eq : os.refuses .openInput (fs.openRead input) = .ok inputFile.file

end Checks

section Writing

variable (X : Externals) (os : Os) (reporter : Reporter)

/-- `run_encrypt_impl` from the opening of its output on. -/
def writeEncrypted (args : EncryptArgs) (showProgress : Bool) (env : Environment) (spec : CipherSpec) (key : Bytes)
    (engine : SectorEngine) (inputLen outputSize : ℕ) (info : DispatchInfo) (concurrency : Concurrency)
    (inputFile : SectorFile) : Cmd ExitCode := do
  let outputFile ← openOutputFile os args.output outputSize
  narrateSampleIvIfApplicable reporter inputLen
  let ranges ← orPanic (chunkRanges outputSize info.chunkSectors)
  transferAndReportTiming reporter
    ⟨inputFile, outputFile, engine, ranges, inputLen, outputSize, concurrency, true⟩ "encrypt" showProgress env
  scoreCiphertext X os reporter args.output inputLen
  compatCheck X spec key args.dryRunCryptsetupCompat

/-- `run_decrypt_impl` from the opening of its output on. -/
def writeDecrypted (args : DecryptArgs) (showProgress : Bool) (env : Environment) (engine : SectorEngine)
    (inputLen : ℕ) (info : DispatchInfo) (concurrency : Concurrency) (inputFile : SectorFile) : Cmd ExitCode := do
  let outputFile ← openOutputFile os args.output inputLen
  narrateSampleIvIfApplicable reporter inputLen
  let ranges ← orPanic (chunkRanges inputLen info.chunkSectors)
  transferAndReportTiming reporter
    ⟨inputFile, outputFile, engine, ranges, inputLen, inputLen, concurrency, false⟩ "decrypt" showProgress env
  pure .success

lemma reaches_writeEncrypted (fs : Fs) (args : EncryptArgs) (showProgress : Bool) (env : Environment) :
    Reaches (Untouched fs) (Orderly true) (runEncryptImpl X os reporter args showProgress env)
      fun rest => ∃ spec key engine n size info concurrency inputFile,
        Checked X os fs args.cipher args.keySize args.keyFile args.keyFormat args.input spec key engine n inputFile ∧
        alignedOutputSize n args.alignBlockSize.toNat args.alignExtraBlock.toNat = .ok size ∧
        0 < info.chunkSectors ∧
        rest = writeEncrypted X os reporter args showProgress env spec key engine n size info concurrency
          inputFile := by
  have hI := eventBlind_untouched fs
  apply Reaches.bind (ensures_reportAll hI _)
  intro _ _
  apply Reaches.bind (ensures_accepted X os fs args.cipher args.keySize args.keyFile args.keyFormat)
  rintro ⟨spec, key⟩ ⟨hspec, hkey, hvalid⟩
  apply Reaches.bind (ensures_reportAll hI _)
  intro _ _
  apply Reaches.bind (ensures_reportAll hI _)
  intro _ _
  apply Reaches.bind (ensures_reportAll hI _)
  intro _ _
  apply Reaches.bind (ensures_report hI _)
  intro _ _
  apply Reaches.bind (ensures_buildEngine X hI (resolveCipherSpec_supported hspec) key)
  intro engine hengine
  apply Reaches.bind (ensures_inputLen os fs args.input)
  intro n hn
  apply Reaches.bind (ensures_orFail hI _ (by decide) _)
  intro size hsize
  apply Reaches.bind (ensures_report hI _)
  intro _ _
  apply Reaches.bind (ensures_reportAll hI _)
  intro _ _
  apply Reaches.bind (ensures_resolveAndReportConcurrency os _ hI _ _ _ _)
  rintro ⟨info, concurrency⟩ hinfo
  apply Reaches.bind (ensures_inputFile os fs args.input)
  intro inputFile hinput
  apply Reaches.here
  exact ⟨spec, key, engine, n, size, info, concurrency, inputFile, ⟨hspec, hkey, hvalid, hengine, hn, hinput⟩,
    hsize, hinfo, rfl⟩

lemma reaches_writeDecrypted (fs : Fs) (args : DecryptArgs) (showProgress : Bool) (env : Environment) :
    Reaches (Untouched fs) (Orderly true) (runDecryptImpl X os reporter args showProgress env)
      fun rest => ∃ spec key engine n info concurrency inputFile,
        Checked X os fs args.cipher args.keySize args.keyFile args.keyFormat args.input spec key engine n inputFile ∧
        0 < info.chunkSectors ∧
        rest = writeDecrypted os reporter args showProgress env engine n info concurrency inputFile := by
  have hI := eventBlind_untouched fs
  apply Reaches.bind (ensures_reportAll hI _)
  intro _ _
  apply Reaches.bind (ensures_accepted X os fs args.cipher args.keySize args.keyFile args.keyFormat)
  rintro ⟨spec, key⟩ ⟨hspec, hkey, hvalid⟩
  apply Reaches.bind (ensures_reportAll hI _)
  intro _ _
  apply Reaches.bind (ensures_buildEngine X hI (resolveCipherSpec_supported hspec) key)
  intro engine hengine
  apply Reaches.bind (ensures_inputLen os fs args.input)
  intro n hn
  apply Reaches.bind (ensures_resolveAndReportConcurrency os _ hI _ _ _ _)
  rintro ⟨info, concurrency⟩ hinfo
  apply Reaches.bind (ensures_inputFile os fs args.input)
  intro inputFile hinput
  apply Reaches.here
  exact ⟨spec, key, engine, n, info, concurrency, inputFile, ⟨hspec, hkey, hvalid, hengine, hn, hinput⟩, hinfo, rfl⟩

end Writing

/-- How the steps from the opening of the output on may stop. -/
def Late : Outcome → Prop
  | .exit code => code = .io
  | .panic _ | .hang | .unscheduled => True

/-- What only depends on events that have been reported. -/
def Lasting (I : World → Prop) : Prop := ∀ w w', w.events <+: w'.events → I w → I w'

section Late

variable {α : Type} {I : World → Prop} (hI : Lasting I) (X : Externals) (os : Os) (reporter : Reporter)

include hI

lemma late_report (event : Event) : Ensures I Late (report event) fun _ => True := by
  apply Ensures.modify
  intro w hw
  exact hI w _ (List.prefix_append _ _) hw

lemma late_reportAll (events : List Event) : Ensures I Late (reportAll events) fun _ => True := by
  apply Ensures.modify
  intro w hw
  exact hI w _ (List.prefix_append _ _) hw

lemma late_orFail {ε : Type} (text : ε → String) (r : Except ε α) :
    Ensures I Late (orFail text .io r) fun _ => True := by
  cases r with
  | ok a => exact Ensures.pure trivial
  | error e =>
    apply (late_report hI _).bind
    intro _ _
    exact Ensures.throw rfl

lemma late_openOutputFile (path : Path) (size : ℕ) : Ensures I Late (openOutputFile os path size) fun _ => True := by
  have hcreate : Ensures I Late (os.createSparseOutput path size) fun _ => True := by
    have hopen : Ensures I Late (os.openWrite path true) fun _ => True := by
      intro w hw
      rw [Os.openWrite]
      cases os.refuses .openOutput (w.fs.openWrite path true) with
      | error e => exact ⟨hw, trivial⟩
      | ok r => exact ⟨hI w _ (List.prefix_refl _) hw, trivial⟩
    apply hopen.bind
    intro opened _
    cases opened with
    | error e => exact Ensures.pure trivial
    | ok file =>
      have hset : Ensures I Late (os.setLen file size) fun _ => True := by
        intro w hw
        rw [Os.setLen]
        cases os.refuses .setLen (w.fs.setLen file.file size) with
        | error e => exact ⟨hw, trivial⟩
        | ok fs => exact ⟨hI w _ (List.prefix_refl _) hw, trivial⟩
      apply hset.bind
      intro resized _
      cases resized with
      | error e => exact Ensures.pure trivial
      | ok u => exact Ensures.pure trivial
  apply hcreate.bind
  intro created _
  exact late_orFail hI _ created

lemma late_transfer (job : TransferJob) (phase : String) (showProgress : Bool) (env : Environment) :
    Ensures I Late (transferAndReportTiming reporter job phase showProgress env) fun _ => True := by
  have hdispatch : Ensures I Late (dispatch reporter job showProgress env) fun _ => True := by
    intro w hw
    rw [dispatch]
    obtain ⟨progress, hcases⟩ :=
      dispatchWithProgress_cases reporter job showProgress (env job w.fs.disk) w.fs.disk
    have hlasts : ∀ disk steps, I (w.transferred job disk steps) :=
      fun disk steps => hI w _ (List.prefix_append _ _) hw
    have hlate : ∀ stopped : Stopped,
        (stopped.outcome = .unscheduled ∨ stopped.outcome = .hang ∨ ∃ p, stopped.outcome = .panic p) →
        Late stopped.outcome := by
      rintro ⟨outcome, disk, steps⟩ (rfl | rfl | ⟨p, rfl⟩) <;> trivial
    rcases hcases with ⟨result, s, steps, -, hd⟩ | ⟨stopped, hd, ho | ho | ⟨-, p, -, ho, -⟩⟩
    · rw [hd]
      exact ⟨hlasts _ _, trivial⟩
    · rw [hd]
      exact ⟨hlasts _ _, hlate stopped (Or.inl ho)⟩
    · rw [hd]
      exact ⟨hlasts _ _, hlate stopped (Or.inr (Or.inl ho))⟩
    · rw [hd]
      exact ⟨hlasts _ _, hlate stopped (Or.inr (Or.inr ⟨p, ho⟩))⟩
  apply hdispatch.bind
  intro result _
  apply (late_orFail hI _ result).bind
  intro _ _
  exact late_report hI _

omit hI in
lemma late_orPanic (r : Except Panic α) : Ensures I Late (orPanic r) fun _ => True := by
  cases r with
  | ok a => exact Ensures.pure trivial
  | error p => exact Ensures.throw trivial

lemma late_writeEncrypted (args : EncryptArgs) (showProgress : Bool) (env : Environment) (spec : CipherSpec)
    (key : Bytes) (engine : SectorEngine) (n size : ℕ) (info : DispatchInfo) (concurrency : Concurrency)
    (inputFile : SectorFile) :
    Ensures I Late
      (writeEncrypted X os reporter args showProgress env spec key engine n size info concurrency inputFile)
      fun code => code = .success ∨ code = .luksCompat := by
  apply (late_openOutputFile hI os args.output size).bind
  intro outputFile _
  apply (late_reportAll hI _).bind
  intro _ _
  apply (late_orPanic _).bind
  intro ranges _
  apply (late_transfer hI reporter _ _ showProgress env).bind
  intro _ _
  have hscore : Ensures I Late (scoreCiphertext X os reporter args.output n) fun _ => True := by
    apply Ensures.ite
    · intro _
      apply (Ensures.query fun w _ => ⟨_, rfl, trivial⟩ : Ensures I Late (os.read .readOutput args.output)
        fun _ => True).bind
      intro ciphertext _
      cases ciphertext with
      | ok bytes =>
        apply (late_report hI _).bind
        intro _ _
        exact late_reportAll hI _
      | error e => exact Ensures.pure trivial
    · intro _
      exact Ensures.pure trivial
  apply hscore.bind
  intro _ _
  apply Ensures.ite
  · intro _
    apply (late_report hI _).bind
    intro _ _
    apply Ensures.pure
    split
    · exact Or.inr rfl
    · exact Or.inl rfl
  · intro _
    exact Ensures.pure (Or.inl rfl)

lemma late_writeDecrypted (args : DecryptArgs) (showProgress : Bool) (env : Environment) (engine : SectorEngine)
    (n : ℕ) (info : DispatchInfo) (concurrency : Concurrency) (inputFile : SectorFile) :
    Ensures I Late (writeDecrypted os reporter args showProgress env engine n info concurrency inputFile)
      fun code => code = .success ∨ code = .luksCompat := by
  apply (late_openOutputFile hI os args.output n).bind
  intro outputFile _
  apply (late_reportAll hI _).bind
  intro _ _
  apply (late_orPanic _).bind
  intro ranges _
  apply (late_transfer hI reporter _ _ showProgress env).bind
  intro _ _
  exact Ensures.pure (Or.inl rfl)

end Late

/-- The exit codes of the checks; `ExitCode::Io` where the key, the length or the input is refused. -/
def Rejected (X : Externals) (os : Os) (keyFile input : Path) (keyFormat : KeyFormatArg) (fs : Fs) : Outcome → Prop
  | .exit .unsupportedCipher | .exit .keyValidation | .exit .invalidArgs => True
  | .exit .io =>
      (∃ e, keyRead X os fs keyFile keyFormat = .error e) ∨
        (∃ e, os.refuses .stat (fs.metadataLen input) = .error e) ∨
        ∃ e, os.refuses .openInput (fs.openRead input) = .error e
  | _ => False

section Rejected

variable {X : Externals} {os : Os} {w : World}

lemma not_rejected_of_late {fs : Fs} {cipher : CipherArg} {keySize : Option UInt16} {keyFile input : Path}
    {keyFormat : KeyFormatArg} {spec : CipherSpec} {key : Bytes} {engine : SectorEngine} {n : ℕ}
    {inputFile : SectorFile}
    (hchecked : Checked X os fs cipher keySize keyFile keyFormat input spec key engine n inputFile)
    {rest : Cmd ExitCode} (hrest : Ensures (fun _ => True) Late rest fun code => code = .success ∨ code = .luksCompat)
    (w : World) : ¬ Rejected X os keyFile input keyFormat fs (finish rest w).1 := by
  intro hrejected
  have h := hrest w trivial
  rw [finish] at hrejected
  cases hr : rest w with
  | ok code w' =>
    rw [hr] at h hrejected
    rcases h.2 with rfl | rfl
    · exact hrejected
    · exact hrejected
  | error outcome w' =>
    rw [hr] at h hrejected
    cases outcome with
    | exit code =>
      obtain rfl : code = .io := h.2
      rcases hrejected with ⟨e, he⟩ | ⟨e, he⟩ | ⟨e, he⟩
      · rw [hchecked.key_eq] at he
        cases he
      · rw [hchecked.len_eq] at he
        cases he
      · rw [hchecked.input_eq] at he
        cases he
    | panic p => exact hrejected
    | hang => exact hrejected
    | unscheduled => exact hrejected

lemma untouched_of_reaches {c : Cmd ExitCode} {D : Cmd ExitCode → Prop} {R : Outcome → Prop}
    (h : Reaches (Untouched w.fs) (Orderly true) c D) (hD : ∀ rest w, D rest → ¬ R (finish rest w).1)
    (hrun : R (finish c w).1) : (finish c w).2.fs = w.fs := by
  rcases h w rfl with ⟨outcome, w', hc, hw', -⟩ | ⟨rest, w', hrest, -, hc⟩
  · rw [finish, hc]
    exact hw'
  · have heq : finish c w = finish rest w' := by rw [finish, hc, finish]
    rw [heq] at hrun
    exact (hD rest w' hrest hrun).elim

end Rejected

/-- A run that ends with one of the exit codes of the checks, or with `ExitCode::Io` because the key file, the
length of the input or the input itself was refused, leaves the file system as it was. -/
theorem rejected_run_untouched (X : Externals) (os : Os) (reporter : Reporter) (showProgress : Bool)
    (env : Environment) (w : World) :
    (∀ args : EncryptArgs,
      Rejected X os args.keyFile args.input args.keyFormat w.fs (runEncrypt X os reporter args showProgress env w).1 →
        (runEncrypt X os reporter args showProgress env w).2.fs = w.fs) ∧
      ∀ args : DecryptArgs,
        Rejected X os args.keyFile args.input args.keyFormat w.fs
            (runDecrypt X os reporter args showProgress env w).1 →
          (runDecrypt X os reporter args showProgress env w).2.fs = w.fs := by
  constructor
  · intro args
    apply untouched_of_reaches (reaches_writeEncrypted X os reporter w.fs args showProgress env)
    rintro rest w' ⟨spec, key, engine, n, size, info, concurrency, inputFile, hchecked, -, -, rfl⟩
    apply not_rejected_of_late hchecked
    exact late_writeEncrypted (fun _ _ _ h => h) X os reporter args showProgress env spec key engine n size info
      concurrency inputFile
  · intro args
    apply untouched_of_reaches (reaches_writeDecrypted X os reporter w.fs args showProgress env)
    rintro rest w' ⟨spec, key, engine, n, info, concurrency, inputFile, hchecked, -, rfl⟩
    apply not_rejected_of_late hchecked
    exact late_writeDecrypted (fun _ _ _ h => h) os reporter args showProgress env engine n info concurrency
      inputFile

/-- A zero block size is found before the output, an existing file, is opened. -/
theorem rejected_run_untouched_zero_block :
    (runEncrypt sampleExternals sampleOs { progressFlavor := .sterile }
      { sampleEncryptArgs with output := "short.img", alignBlockSize := 0 } false sampleEnv sampleWorld).2.fs =
        sampleFs := by
  have hcode : (runEncrypt sampleExternals sampleOs { progressFlavor := .sterile }
      { sampleEncryptArgs with output := "short.img", alignBlockSize := 0 } false sampleEnv sampleWorld).1 =
        .exit .invalidArgs := by
    decide +kernel
  apply (rejected_run_untouched sampleExternals sampleOs { progressFlavor := .sterile } false sampleEnv sampleWorld).1
  rw [hcode]
  exact trivial

end NocapCrypt.Cli
