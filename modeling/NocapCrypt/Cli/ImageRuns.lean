import NocapCrypt.Cli.Image
import NocapCrypt.Worker.SideBySide

/-! What a successful `image` command has read, and what it leaves in its output file. -/

namespace NocapCrypt.Cli

open NocapCrypt.Library.Image NocapCrypt.Library.Commands NocapCrypt.Core NocapCrypt.BlockIo NocapCrypt.KeyMgmt
  NocapCrypt.Worker Cmd

section Transfer

variable {reporter : Reporter} {job : TransferJob} {showProgress : Bool}

lemma coverage_lt_u64Size {size : ℕ} (h : size ≤ i64Max) : coverage size < u64Size := by
  have hlt := coverage_lt size
  norm_num [i64Max, u64Size, sectorSize, ivSectorSize] at *
  omega

lemma chunkRanges_total (size : ℕ) {chunk : ℕ} (h : 0 < chunk) :
    ∃ ranges, chunkRanges size chunk = .ok ranges := ⟨_, if_neg h.ne'⟩

/-- The outcome of a transfer is that of its worker, but for a display that does not end and for an environment that
does not take both to their end. -/
lemma dispatchWithProgress_cases (reporter : Reporter) (job : TransferJob) (showProgress : Bool) (env : TransferEnv)
    (disk : ℕ → Bytes) : ∃ progress,
    (∃ result s steps, processRanges (job.rangeJob progress) job.concurrency env.schedule (workerStart disk) =
        some (.ok result, s) ∧
      dispatchWithProgress reporter job showProgress env disk = .ok ⟨result, s.disk, steps⟩) ∨
    ∃ stopped, dispatchWithProgress reporter job showProgress env disk = .error stopped ∧
      (stopped.outcome = .unscheduled ∨ stopped.outcome = .hang ∨
        ∃ p p' s, stopped.outcome = .panic p' ∧
          processRanges (job.rangeJob progress) job.concurrency env.schedule (workerStart disk) =
            some (.error p, s)) := by
  rw [dispatchWithProgress]
  split
  · refine ⟨true, ?_⟩
    simp only
    split
    · exact Or.inr ⟨_, rfl, Or.inl rfl⟩
    · split
      · exact Or.inr ⟨_, rfl, Or.inl rfl⟩
      · split
        · exact Or.inr ⟨_, rfl, Or.inr (Or.inr ⟨_, _, _, rfl, ‹_›⟩)⟩
        · exact Or.inl ⟨_, _, _, ‹_›, rfl⟩
  · refine ⟨LiveProgress.starts job.progressTotalBytes showProgress, ?_⟩
    simp only
    split
    · exact Or.inr ⟨_, rfl, Or.inl rfl⟩
    · exact Or.inr ⟨_, rfl, Or.inr (Or.inr ⟨_, _, _, rfl, ‹_›⟩)⟩
    · split
      · exact Or.inr ⟨_, rfl, Or.inr (Or.inl rfl)⟩
      · exact Or.inl ⟨_, _, _, ‹_›, rfl⟩

lemma TransferEnv.Carries.returns {env : TransferEnv} {disk : ℕ → Bytes} (h : env.Carries job disk) (progress : Bool) :
    ∃ out, processRanges (job.rangeJob progress) job.concurrency env.schedule (workerStart disk) = some out := by
  have halike := processRanges_alike (job.rangeJob true) true progress job.concurrency env.schedule
    (s := workerStart disk) (t := workerStart disk) ⟨rfl, rfl⟩
  change Option.Rel _ (processRanges (job.rangeJob true) _ _ _) (processRanges (job.rangeJob progress) _ _ _) at halike
  obtain ⟨out, hout⟩ := Option.isSome_iff_exists.mp h.1
  rw [hout] at halike
  generalize processRanges (job.rangeJob progress) _ _ _ = returned at halike ⊢
  cases halike with
  | some _ => exact ⟨_, rfl⟩

lemma TransferEnv.Carries.reports {env : TransferEnv} {disk : ℕ → Bytes} (h : env.Carries job disk)
    (counter : ℕ → ℕ) : ∃ steps, CiProgress.run job.progressTotalBytes counter
      (fun t => decide (movesMade job.concurrency env.schedule < t)) env.ciPolls = some steps := by
  rw [CiProgress.run]
  split
  · exact ⟨[], rfl⟩
  · obtain ⟨poll, hpoll, hlt⟩ := h.2
    exact CiProgress.loop_terminates _ counter _ 0 ⟨poll, hpoll, decide_eq_true hlt⟩

/-- Nothing but a display can keep a transfer from its end that is carried to it. -/
lemma dispatchWithProgress_carried {env : TransferEnv} {disk : ℕ → Bytes} {stopped : Stopped}
    (hcarries : env.Carries job disk)
    (h : dispatchWithProgress reporter job showProgress env disk = .error stopped) :
    stopped.outcome ≠ .unscheduled := by
  rw [dispatchWithProgress] at h
  split at h
  · obtain ⟨⟨returned, s⟩, hret⟩ := hcarries.returns true
    obtain ⟨steps, hsteps⟩ :=
      hcarries.reports (counterAt (job.rangeJob true) job.concurrency env.schedule (workerStart disk))
    simp only [hret, hsteps] at h
    split at h
    · cases h
      exact fun ho => by cases ho
    · cases h
  · obtain ⟨⟨returned, s⟩, hret⟩ := hcarries.returns (LiveProgress.starts job.progressTotalBytes showProgress)
    simp only [hret] at h
    cases returned with
    | error p =>
      cases h
      exact fun ho => by cases ho
    | ok result =>
      simp only at h
      split at h
      · cases h
        exact fun ho => by cases ho
      · cases h

lemma dispatchWithProgress_ok {env : TransferEnv} {disk : ℕ → Bytes} {t : Transferred}
    (h : dispatchWithProgress reporter job showProgress env disk = .ok t) :
    ∃ progress s, processRanges (job.rangeJob progress) job.concurrency env.schedule (workerStart disk) =
      some (.ok t.result, s) ∧ t.disk = s.disk := by
  obtain ⟨progress, hcases⟩ := dispatchWithProgress_cases reporter job showProgress env disk
  rw [h] at hcases
  rcases hcases with ⟨result, s, steps, hret, ht⟩ | ⟨stopped, ht, -⟩
  · cases ht
    exact ⟨progress, s, hret, rfl⟩
  · cases ht

lemma dispatchWithProgress_orderly {env : TransferEnv} {disk : ℕ → Bytes} {size chunk : ℕ} {stopped : Stopped}
    (hranges : chunkRanges size chunk = .ok job.ranges) (hsize : size ≤ i64Max)
    (h : dispatchWithProgress reporter job showProgress env disk = .error stopped) :
    Orderly true stopped.outcome := by
  obtain ⟨progress, hcases⟩ := dispatchWithProgress_cases reporter job showProgress env disk
  rw [h] at hcases
  rcases hcases with ⟨result, s, steps, -, ht⟩ | ⟨stopped', ht, ho | ho | ⟨p, -, s, -, hret⟩⟩
  · cases ht
  · cases ht
    rw [ho]
    exact ⟨rfl, by decide⟩
  · cases ht
    rw [ho]
    exact ⟨rfl, by decide⟩
  · have hc := covers_of_coverage (job.rangeJob progress) hranges (coverage_lt_u64Size hsize)
    obtain ⟨result, hr⟩ := processRanges_no_panic hc hret
    cases hr

lemma wraps_eq_false {size chunk : ℕ} (hranges : chunkRanges size chunk = .ok job.ranges) (hsize : size ≤ i64Max) :
    job.wraps = false := by
  have hfit := coverage_lt_u64Size hsize
  rw [TransferJob.wraps, Bool.or_eq_false_iff, sum_byteLen hranges, List.any_eq_false]
  refine ⟨?_, decide_eq_false (Nat.not_le_of_lt hfit)⟩
  intro r hr
  obtain ⟨i, hi, rfl⟩ := List.mem_iff_getElem.mp hr
  have hb := (chunkRanges_partition hranges).bounded i _ (List.getElem?_eq_getElem hi)
  have hm := Nat.mul_le_mul_right sectorSize hb
  simpa using hm.trans_lt hfit

lemma ensures_dispatch {size chunk : ℕ} (hranges : chunkRanges size chunk = .ok job.ranges) (hsize : size ≤ i64Max)
    (env : Environment) (b : Bool) :
    Ensures (Wrapped b) (Orderly true) (dispatch reporter job showProgress env) fun _ => True := by
  intro w hw
  have hleft : ∀ disk steps, Wrapped b (w.transferred job disk steps) := by
    intro disk steps
    simp only [Wrapped, World.transferred, wraps_eq_false hranges hsize, Bool.or_false]
    exact hw
  rw [dispatch]
  cases hr : dispatchWithProgress reporter job showProgress (env job w.fs.disk) w.fs.disk with
  | error stopped => exact ⟨hleft _ _, dispatchWithProgress_orderly hranges hsize hr⟩
  | ok t => exact ⟨hleft _ _, trivial⟩

variable {env : Environment}

lemma ensures_transfer {size chunk : ℕ} (hranges : chunkRanges size chunk = .ok job.ranges)
    (hsize : size ≤ i64Max) (phase : String) (b : Bool) :
    Ensures (Wrapped b) (Orderly true) (transferAndReportTiming reporter job phase showProgress env) fun _ => True := by
  refine (ensures_dispatch hranges hsize env b).bind fun result _ => ?_
  refine (ensures_orFail (eventBlind_wrapped b) _ (by decide) result).bind fun _ _ => ?_
  exact ensures_report (eventBlind_wrapped b) _

lemma transferAndReportTiming_ok {phase : String} {w w' : World} {u : Unit}
    (h : transferAndReportTiming reporter job phase showProgress env w = .ok u w') :
    ∃ progress s, processRanges (job.rangeJob progress) job.concurrency (env job w.fs.disk).schedule
      (workerStart w.fs.disk) = some (.ok (.ok ()), s) ∧
        w'.fs = w.fs.store job.outputFile.file (s.disk job.outputFile.file) := by
  obtain ⟨result, w₁, hd, h⟩ := bind_eq_ok.mp h
  rw [dispatch] at hd
  split at hd
  · cases hd
  · rename_i t ht
    cases hd
    obtain ⟨⟨⟩, w₂, hok, h⟩ := bind_eq_ok.mp h
    obtain ⟨hresult, rfl⟩ := orFail_eq_ok.mp hok
    rw [report_eq_ok] at h
    obtain ⟨progress, s, hret, hdisk⟩ := dispatchWithProgress_ok ht
    rw [hresult] at hret
    exact ⟨progress, s, hret, by rw [h, World.transferred, hdisk]⟩

end Transfer

/-- The input is read as it was before the output was made, also where both paths name one file. -/
lemma input_of_createSparseOutput {os : Os} {input output : Path} {inputFile outputFile : SectorFile} {n size : ℕ}
    {w w₁ : World} (hin : w.fs.lookup input = some inputFile.file)
    (hopen : os.createSparseOutput output size w = .ok (.ok outputFile) w₁) (hn : n ≤ size)
    (hheld : n ≤ (w.fs.disk inputFile.file).length) :
    window (w₁.fs.disk inputFile.file) 0 n = window (w.fs.disk inputFile.file) 0 n := by
  obtain ⟨fs₁, ho, hs, -⟩ := Os.createSparseOutput_ok hopen
  obtain ⟨-, -, hnode, hkeep, -⟩ := Fs.openWrite_setLen ho hs
  obtain ⟨-, hsame, hother⟩ := hkeep input inputFile.file hin
  by_cases heq : inputFile.file = outputFile.file
  · have hout : w₁.fs.disk outputFile.file = resize (fs₁.disk outputFile.file) size := by
      rw [Fs.disk, hnode]
      rfl
    rw [heq, hout, ← heq, hsame, window_resize hn hheld]
  · rw [Fs.disk, hother heq]
    rfl

lemma output_of_transfer {os : Os} {reporter : Reporter} {showProgress : Bool} {env : Environment}
    {input output : Path} {inputFile outputFile : SectorFile} {engine : SectorEngine} {ranges : List SectorRange}
    {n size chunk : ℕ} {concurrency : Concurrency} {encrypt : Bool} {phase : String} {w w₁ w₂ w₃ : World} {u : Unit}
    (hin : w.fs.lookup input = some inputFile.file)
    (hopen : os.createSparseOutput output size w = .ok (.ok outputFile) w₁)
    (hranges : chunkRanges size chunk = .ok ranges)
    (ht : transferAndReportTiming reporter ⟨inputFile, outputFile, engine, ranges, n, size, concurrency, encrypt⟩
      phase showProgress env w₂ = .ok u w₃) (hsame : w₂.fs = w₁.fs) (hn : n ≤ size)
    (hheld : n ≤ (w.fs.disk inputFile.file).length) :
    size ≤ i64Max ∧ w₃.fs.Regular output
      (engine.cryptSectors encrypt 0 (resize (window (w.fs.disk inputFile.file) 0 n) (coverage size))) := by
  obtain ⟨fs₁, ho, hs, -⟩ := Os.createSparseOutput_ok hopen
  obtain ⟨hlen, hlook, hnode, -, -⟩ := Fs.openWrite_setLen ho hs
  obtain ⟨progress, s, hret, hfs⟩ := transferAndReportTiming_ok ht
  rw [hsame] at hret hfs
  have hout : w₁.fs.disk outputFile.file = resize (fs₁.disk outputFile.file) size := by
    rw [Fs.disk, hnode]
    rfl
  have hdata := input_of_createSparseOutput hin hopen hn hheld
  have hc := covers_of_coverage (TransferJob.rangeJob ⟨inputFile, outputFile, engine, ranges, n, size,
    concurrency, encrypt⟩ progress) hranges (coverage_lt_u64Size hlen)
  have hdisk := disk_of_processRanges hc hret
  refine ⟨hlen, outputFile.file, ?_, ?_⟩
  · rw [hfs, Fs.store_lookup, hlook]
  · rw [hfs, Fs.store_node_self, hdisk]
    simp only [TransferJob.rangeJob, workerStart, Function.update_self]
    rw [overwrite_zero_of_length_le]
    · rw [reference, padded, hdata]
      rfl
    · rw [reference_length, hout, resize_length]
      exact le_coverage size

/-- `resolve_spec_and_key` accepts its arguments, and `engine` is made of the spec and the key. -/
structure Accepted (X : Externals) (fs : Fs) (cipher : CipherArg) (keySize : Option UInt16) (keyFile : Path)
    (keyFormat : KeyFormatArg) (spec : CipherSpec) (key : Bytes) (engine : SectorEngine) : Prop where
  spec_eq : resolveCipherSpec cipher keySize = .ok spec
  key_eq : keyIn X fs keyFile keyFormat = .ok key
  valid : ∃ report, validateKey X.scores spec key = .ok report
  engine_eq : SectorEngine.new X.primitives spec key = .ok (.ok engine)

section Preamble

variable {X : Externals} {os : Os} {w w' : World} {cipher : CipherArg} {keySize : Option UInt16} {keyFile path : Path}
  {keyFormat : KeyFormatArg} {spec : CipherSpec} {key : Bytes}

lemma resolveSpecAndKey_ok (h : resolveSpecAndKey X os cipher keySize keyFile keyFormat w = .ok (spec, key) w') :
    w' = w ∧ resolveCipherSpec cipher keySize = .ok spec ∧ keyIn X w.fs keyFile keyFormat = .ok key ∧
      ∃ report, validateKey X.scores spec key = .ok report := by
  obtain ⟨spec₁, w₁, h₁, k₁⟩ := bind_eq_ok.mp h
  obtain ⟨hspec, rfl⟩ := orFail_eq_ok.mp h₁
  obtain ⟨loaded, w₂, h₂, k₂⟩ := bind_eq_ok.mp k₁
  obtain ⟨rfl, hkey⟩ := loadKeyFile_ok h₂
  obtain ⟨key₁, w₃, h₃, k₃⟩ := bind_eq_ok.mp k₂
  obtain ⟨hloaded, rfl⟩ := orFail_eq_ok.mp h₃
  obtain ⟨validated, w₄, h₄, k₄⟩ := bind_eq_ok.mp k₃
  obtain ⟨hvalid, rfl⟩ := orFail_eq_ok.mp h₄
  obtain ⟨he, rfl⟩ := pure_eq_ok.mp k₄
  cases he
  exact ⟨rfl, hspec, hkey _ hloaded, validated, hvalid⟩

lemma buildEngine_ok {engine : SectorEngine} (h : buildEngine X spec key w = .ok engine w') :
    w' = w ∧ SectorEngine.new X.primitives spec key = .ok (.ok engine) := by
  obtain ⟨built, w₁, h₁, h₂⟩ := bind_eq_ok.mp h
  obtain ⟨hnew, rfl⟩ := orPanic_eq_ok.mp h₁
  obtain ⟨rfl, rfl⟩ := orFail_eq_ok.mp h₂
  exact ⟨rfl, hnew⟩

lemma statInputLen_ok {n : ℕ} (h : statInputLen os path w = .ok n w') :
    w' = w ∧ w.fs.metadataLen path = .ok n := by
  obtain ⟨len, w₁, h₁, h₂⟩ := bind_eq_ok.mp h
  obtain ⟨hlen, rfl⟩ := Os.metadataLen_eq_ok.mp h₁
  obtain ⟨rfl, rfl⟩ := orFail_eq_ok.mp h₂
  exact ⟨rfl, (Os.refuses_ok hlen).2⟩

lemma resolveAndReportConcurrency_ok {n : ℕ} {threshold : UInt64} {pin : Bool} {maxWorkers : Option UInt64}
    {info : DispatchInfo} {concurrency : Concurrency}
    (h : resolveAndReportConcurrency os path n threshold pin maxWorkers w = .ok (info, concurrency) w') :
    w'.fs = w.fs := by
  obtain ⟨⟨⟩, w₁, h₁, h₂⟩ := bind_eq_ok.mp h
  rw [report_eq_ok] at h₁
  obtain ⟨-, rfl⟩ := pure_eq_ok.mp h₂
  rw [h₁]

lemma openInputFile_ok {file : SectorFile} (h : openInputFile os path w = .ok file w') :
    w' = w ∧ w.fs.lookup path = some file.file := by
  obtain ⟨opened, w₁, h₁, h₂⟩ := bind_eq_ok.mp h
  obtain ⟨hopen, rfl⟩ := Os.openRead_eq_ok.mp h₁
  obtain ⟨rfl, rfl⟩ := orFail_eq_ok.mp h₂
  cases hr : os.refuses .openInput (w'.fs.openRead path) with
  | error e =>
    rw [hr] at hopen
    cases hopen
  | ok i =>
    rw [hr] at hopen
    cases hopen
    exact ⟨rfl, Fs.openRead_ok (Os.refuses_ok hr).2⟩

lemma openOutputFile_ok {size : ℕ} {file : SectorFile} (h : openOutputFile os path size w = .ok file w') :
    os.createSparseOutput path size w = .ok (.ok file) w' := by
  obtain ⟨opened, w₁, h₁, h₂⟩ := bind_eq_ok.mp h
  obtain ⟨rfl, rfl⟩ := orFail_eq_ok.mp h₂
  exact h₁

lemma scoreCiphertext_ok {reporter : Reporter} {n : ℕ} {u : Unit}
    (h : scoreCiphertext X os reporter path n w = .ok u w') : w'.fs = w.fs := by
  rw [scoreCiphertext] at h
  split at h
  · obtain ⟨read, w₁, h₁, h₂⟩ := bind_eq_ok.mp h
    obtain ⟨-, rfl⟩ := Os.read_eq_ok.mp h₁
    cases read with
    | ok ciphertext =>
      simp only [report_bind, reportAll_eq_ok] at h₂
      rw [h₂]
    | error e =>
      obtain ⟨-, rfl⟩ := pure_eq_ok.mp h₂
      rfl
  · obtain ⟨-, rfl⟩ := pure_eq_ok.mp h
    rfl

lemma compatCheck_ok {spec : CipherSpec} {key : Bytes} {code : ExitCode} {dryRun : Bool}
    (h : compatCheck X spec key dryRun w = .ok code w') : w'.fs = w.fs := by
  rw [compatCheck] at h
  split at h
  · rw [report_bind] at h
    obtain ⟨-, rfl⟩ := pure_eq_ok.mp h
    rfl
  · obtain ⟨-, rfl⟩ := pure_eq_ok.mp h
    rfl

end Preamble

section Orderly

variable (X : Externals) (os : Os) (reporter : Reporter) (b : Bool) (path : Path)

section Checks

variable {I : World → Prop} (hI : EventBlind I)

include hI

lemma ensures_resolveSpecAndKey (cipher : CipherArg) (keySize : Option UInt16) (keyFile : Path)
    (keyFormat : KeyFormatArg) :
    Ensures I (Orderly true) (resolveSpecAndKey X os cipher keySize keyFile keyFormat) fun r => r.1.Supported := by
  refine (ensures_orFail hI _ (by decide) _).bind fun spec hspec => ?_
  refine (ensures_loadKeyFile X os keyFile keyFormat).bind fun loaded _ => ?_
  refine (ensures_orFail hI _ (by decide) loaded).bind fun key _ => ?_
  refine (ensures_orFail hI _ (by decide) _).bind fun _ _ => ?_
  exact Ensures.pure (resolveCipherSpec_supported hspec)

lemma ensures_buildEngine {spec : CipherSpec} (hspec : spec.Supported) (key : Bytes) :
    Ensures I (Orderly true) (buildEngine X spec key)
      fun engine => SectorEngine.new X.primitives spec key = .ok (.ok engine) := by
  refine (ensures_orPanic (SectorEngine.new_total X.primitives hspec key)).bind fun built hbuilt => ?_
  refine (ensures_orFail hI _ (by decide) built).imp fun engine hengine => ?_
  rw [hbuilt, hengine]

lemma ensures_statInputLen : Ensures I (Orderly true) (statInputLen os path) fun _ => True := by
  refine (ensures_metadataLen os path).bind fun len _ => ?_
  exact (ensures_orFail hI _ (by decide) len).imp fun _ _ => trivial

lemma ensures_resolveAndReportConcurrency (n : ℕ) (threshold : UInt64) (pin : Bool) (maxWorkers : Option UInt64) :
    Ensures I (Orderly true) (resolveAndReportConcurrency os path n threshold pin maxWorkers)
      fun r => 0 < r.1.chunkSectors := by
  refine (ensures_report hI _).bind fun _ _ => ?_
  exact Ensures.pure (by decide : 0 < chunkDispatchBytes / sectorSize)

lemma ensures_openInputFile : Ensures I (Orderly true) (openInputFile os path) fun _ => True := by
  refine (ensures_openRead os path).bind fun opened _ => ?_
  exact (ensures_orFail hI _ (by decide) opened).imp fun _ _ => trivial

end Checks

lemma ensures_openOutputFile (size : ℕ) :
    Ensures (Wrapped b) (Orderly true) (openOutputFile os path size) fun _ => size ≤ i64Max := by
  refine (ensures_createSparseOutput (fun _ _ h => h) os path size).bind fun opened hsize => ?_
  exact (ensures_orFail (eventBlind_wrapped b) _ (by decide) opened).imp fun file hfile => hsize file hfile

lemma ensures_scoreCiphertext (n : ℕ) :
    Ensures (Wrapped b) (Orderly true) (scoreCiphertext X os reporter path n) fun _ => True := by
  refine Ensures.ite (fun _ => ?_) (fun _ => Ensures.pure trivial)
  refine (ensures_read os .readOutput path).bind fun ciphertext _ => ?_
  cases ciphertext with
  | ok bytes =>
    exact (ensures_report (eventBlind_wrapped b) _).bind fun _ _ => ensures_reportAll (eventBlind_wrapped b) _
  | error e => exact Ensures.pure trivial

lemma ensures_compatCheck (spec : CipherSpec) (key : Bytes) (dryRun : Bool) :
    Ensures (Wrapped b) (Orderly true) (compatCheck X spec key dryRun) fun _ => True := by
  refine Ensures.ite (fun _ => ?_) (fun _ => Ensures.pure trivial)
  exact (ensures_report (eventBlind_wrapped b) _).bind fun _ _ => Ensures.pure trivial

lemma ensures_runEncryptImpl (args : EncryptArgs) (showProgress : Bool) (env : Environment) :
    Ensures (Wrapped b) (Orderly true) (runEncryptImpl X os reporter args showProgress env) fun _ => True := by
  have hI := eventBlind_wrapped b
  refine (ensures_reportAll hI _).bind fun _ _ => ?_
  refine (ensures_resolveSpecAndKey X os hI _ _ _ _).bind fun ⟨spec, key⟩ hspec => ?_
  refine (ensures_reportAll hI _).bind fun _ _ => ?_
  refine (ensures_reportAll hI _).bind fun _ _ => ?_
  refine (ensures_reportAll hI _).bind fun _ _ => ?_
  refine (ensures_report hI _).bind fun _ _ => ?_
  refine (ensures_buildEngine X hI hspec key).bind fun engine _ => ?_
  refine (ensures_statInputLen os args.input hI).bind fun inputLen _ => ?_
  refine (ensures_orFail hI _ (by decide) _).bind fun outputSize _ => ?_
  refine (ensures_report hI _).bind fun _ _ => ?_
  refine (ensures_reportAll hI _).bind fun _ _ => ?_
  refine (ensures_resolveAndReportConcurrency os _ hI _ _ _ _).bind fun ⟨info, concurrency⟩ hinfo => ?_
  refine (ensures_openInputFile os args.input hI).bind fun inputFile _ => ?_
  refine (ensures_openOutputFile os b args.output outputSize).bind fun outputFile hsize => ?_
  refine (ensures_reportAll hI _).bind fun _ _ => ?_
  refine (ensures_orPanic (chunkRanges_total _ hinfo)).bind fun ranges hranges => ?_
  refine (ensures_transfer hranges hsize _ b).bind fun _ _ => ?_
  refine (ensures_scoreCiphertext X os reporter b args.output inputLen).bind fun _ _ => ?_
  exact ensures_compatCheck X b spec key _

lemma ensures_runDecryptImpl (args : DecryptArgs) (showProgress : Bool) (env : Environment) :
    Ensures (Wrapped b) (Orderly true) (runDecryptImpl X os reporter args showProgress env) fun _ => True := by
  have hI := eventBlind_wrapped b
  refine (ensures_reportAll hI _).bind fun _ _ => ?_
  refine (ensures_resolveSpecAndKey X os hI _ _ _ _).bind fun ⟨spec, key⟩ hspec => ?_
  refine (ensures_reportAll hI _).bind fun _ _ => ?_
  refine (ensures_buildEngine X hI hspec key).bind fun engine _ => ?_
  refine (ensures_statInputLen os args.input hI).bind fun inputLen _ => ?_
  refine (ensures_resolveAndReportConcurrency os _ hI _ _ _ _).bind fun ⟨info, concurrency⟩ hinfo => ?_
  refine (ensures_openInputFile os args.input hI).bind fun inputFile _ => ?_
  refine (ensures_openOutputFile os b args.output inputLen).bind fun outputFile hsize => ?_
  refine (ensures_reportAll hI _).bind fun _ _ => ?_
  refine (ensures_orPanic (chunkRanges_total _ hinfo)).bind fun ranges hranges => ?_
  refine (ensures_transfer hranges hsize _ b).bind fun _ _ => ?_
  exact Ensures.pure trivial

end Orderly

section Success

variable {X : Externals} {os : Os} {reporter : Reporter} {showProgress : Bool} {env : Environment} {w w' : World}

lemma metadataLen_lookup {fs : Fs} {path : Path} {i n : ℕ} (h : fs.metadataLen path = .ok n)
    (hi : fs.lookup path = some i) : n = (fs.node i).metadataLen ∧ n ≤ (fs.disk i).length := by
  simp only [Fs.metadataLen, hi] at h
  cases h
  refine ⟨rfl, ?_⟩
  rw [Fs.disk]
  cases fs.node i with
  | regular bytes => exact le_refl _
  | blockDevice sectors => exact Nat.zero_le _

lemma regular_input {fs : Fs} {path : Path} {bytes : Bytes} {i n : ℕ} (h : fs.Regular path bytes)
    (hi : fs.lookup path = some i) (hn : n = (fs.node i).metadataLen) :
    n = bytes.length ∧ window (fs.disk i) 0 n = bytes := by
  obtain ⟨j, hj, hnode⟩ := h
  rw [hi] at hj
  cases hj
  rw [hnode] at hn
  obtain rfl : n = bytes.length := hn
  refine ⟨rfl, ?_⟩
  rw [Fs.disk, hnode]
  exact window_all bytes

theorem runEncrypt_success {args : EncryptArgs}
    (h : runEncrypt X os reporter args showProgress env w = (.exit .success, w')) :
    ∃ spec key engine i n size,
      Accepted X w.fs args.cipher args.keySize args.keyFile args.keyFormat spec key engine ∧
      w.fs.lookup args.input = some i ∧ n = (w.fs.node i).metadataLen ∧
      alignedOutputSize n args.alignBlockSize.toNat args.alignExtraBlock.toNat = .ok size ∧ size ≤ i64Max ∧
      w'.fs.Regular args.output
        (engine.cryptSectors true 0 (resize (window (w.fs.disk i) 0 n) (coverage size))) := by
  have hrun := success_of_ensures (ensures_runEncryptImpl X os reporter _ args showProgress env) h
  obtain ⟨⟨spec, key⟩, w₁, h₁, k₁⟩ := bind_eq_ok.mp ((reportAll_bind _ _ _).symm.trans hrun)
  obtain ⟨rfl, hspec, hkey, hvalid⟩ := resolveSpecAndKey_ok h₁
  simp only [narrateCipherIntro, reportAll_bind, report_bind] at k₁
  obtain ⟨engine, w₂, h₂, k₂⟩ := bind_eq_ok.mp k₁
  obtain ⟨rfl, hengine⟩ := buildEngine_ok h₂
  obtain ⟨n, w₃, h₃, k₃⟩ := bind_eq_ok.mp k₂
  obtain ⟨rfl, hlen⟩ := statInputLen_ok h₃
  obtain ⟨size, w₄, h₄, k₄⟩ := bind_eq_ok.mp k₃
  obtain ⟨hsize, rfl⟩ := orFail_eq_ok.mp h₄
  rw [report_bind, reportAll_bind] at k₄
  obtain ⟨⟨info, concurrency⟩, w₅, h₅, k₅⟩ := bind_eq_ok.mp k₄
  have hfs : w₅.fs = w.fs := (resolveAndReportConcurrency_ok h₅).trans rfl
  obtain ⟨inputFile, w₆, h₆, k₆⟩ := bind_eq_ok.mp k₅
  obtain ⟨rfl, hinput⟩ := openInputFile_ok h₆
  obtain ⟨outputFile, w₇, h₇, k₇⟩ := bind_eq_ok.mp k₆
  rw [narrateSampleIvIfApplicable, reportAll_bind] at k₇
  obtain ⟨ranges, w₈, h₈, k₈⟩ := bind_eq_ok.mp k₇
  obtain ⟨hranges, rfl⟩ := orPanic_eq_ok.mp h₈
  obtain ⟨u, w₉, h₉, k₉⟩ := bind_eq_ok.mp k₈
  obtain ⟨u', w₁₀, h₁₀, k₁₀⟩ := bind_eq_ok.mp k₉
  have hlast : w'.fs = w₁₀.fs := compatCheck_ok k₁₀
  rw [hfs] at hinput
  obtain ⟨hn, hheld⟩ := metadataLen_lookup hlen hinput
  obtain ⟨hfits, hout⟩ := output_of_transfer (hfs ▸ hinput) (openOutputFile_ok h₇) hranges h₉ rfl
    (le_alignedOutputSize hsize) (hfs ▸ hheld)
  refine ⟨spec, key, engine, inputFile.file, n, size, ⟨hspec, hkey, hvalid, hengine⟩, hinput, hn, hsize, hfits, ?_⟩
  rwa [hlast, scoreCiphertext_ok h₁₀, ← hfs]

theorem runDecrypt_success {args : DecryptArgs}
    (h : runDecrypt X os reporter args showProgress env w = (.exit .success, w')) :
    ∃ spec key engine i n,
      Accepted X w.fs args.cipher args.keySize args.keyFile args.keyFormat spec key engine ∧
      w.fs.lookup args.input = some i ∧ n = (w.fs.node i).metadataLen ∧ n ≤ i64Max ∧
      w'.fs.Regular args.output
        (engine.cryptSectors false 0 (resize (window (w.fs.disk i) 0 n) (coverage n))) := by
  have hrun := success_of_ensures (ensures_runDecryptImpl X os reporter _ args showProgress env) h
  obtain ⟨⟨spec, key⟩, w₁, h₁, k₁⟩ := bind_eq_ok.mp ((reportAll_bind _ _ _).symm.trans hrun)
  obtain ⟨rfl, hspec, hkey, hvalid⟩ := resolveSpecAndKey_ok h₁
  simp only [narrateCipherIntro, reportAll_bind] at k₁
  obtain ⟨engine, w₂, h₂, k₂⟩ := bind_eq_ok.mp k₁
  obtain ⟨rfl, hengine⟩ := buildEngine_ok h₂
  obtain ⟨n, w₃, h₃, k₃⟩ := bind_eq_ok.mp k₂
  obtain ⟨rfl, hlen⟩ := statInputLen_ok h₃
  obtain ⟨⟨info, concurrency⟩, w₄, h₄, k₄⟩ := bind_eq_ok.mp k₃
  have hfs : w₄.fs = w.fs := (resolveAndReportConcurrency_ok h₄).trans rfl
  obtain ⟨inputFile, w₅, h₅, k₅⟩ := bind_eq_ok.mp k₄
  obtain ⟨rfl, hinput⟩ := openInputFile_ok h₅
  obtain ⟨outputFile, w₆, h₆, k₆⟩ := bind_eq_ok.mp k₅
  rw [narrateSampleIvIfApplicable, reportAll_bind] at k₆
  obtain ⟨ranges, w₇, h₇, k₇⟩ := bind_eq_ok.mp k₆
  obtain ⟨hranges, rfl⟩ := orPanic_eq_ok.mp h₇
  obtain ⟨u, w₈, h₈, k₈⟩ := bind_eq_ok.mp k₇
  obtain ⟨-, rfl⟩ := pure_eq_ok.mp k₈
  rw [hfs] at hinput
  obtain ⟨hn, hheld⟩ := metadataLen_lookup hlen hinput
  obtain ⟨hfits, hout⟩ := output_of_transfer (hfs ▸ hinput) (openOutputFile_ok h₆) hranges h₈ rfl (le_refl n)
    (hfs ▸ hheld)
  refine ⟨spec, key, engine, inputFile.file, n, ⟨hspec, hkey, hvalid, hengine⟩, hinput, hn, hfits, ?_⟩
  rwa [← hfs]

end Success

section Sample

def sampleEncryptArgs : EncryptArgs :=
  ⟨"plain.img", "cipher.img", "key.bin", .raw, .aesCbcEssivSha256, none, 512, 0, none, 268435456, false, false⟩

def sampleDecryptArgs (input : Path) : DecryptArgs :=
  ⟨input, "output.img", "key.bin", .raw, .aesCbcEssivSha256, none, none, 268435456, false⟩

def sampleEnv : Environment := fun _ _ => ⟨sampleSchedule, [], []⟩

def sampleEncryption : Outcome × World :=
  runEncrypt sampleExternals sampleOs { progressFlavor := .sterile } sampleEncryptArgs false sampleEnv sampleWorld

def sampleDecryption (input : Path) (env : Environment) (w : World) : Outcome × World :=
  runDecrypt sampleExternals sampleOs { progressFlavor := .sterile } (sampleDecryptArgs input) false env w

lemma sampleEncryption_succeeds : sampleEncryption = (.exit .success, sampleEncryption.2) :=
  eq_success (by decide +kernel)

end Sample

end NocapCrypt.Cli
