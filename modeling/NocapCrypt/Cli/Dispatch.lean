import NocapCrypt.Cli.CiProgress
import NocapCrypt.Cli.Command
import NocapCrypt.Cli.Progress
import NocapCrypt.Worker.Counting
import NocapCrypt.Worker.FailureContainment
import NocapCrypt.Worker.ScheduleIndependence

/-! One transfer and its progress display: `dispatch_with_progress` of
`crates/nocap-crypt-cli/src/cmd/image.rs`. -/

namespace NocapCrypt.Cli

open NocapCrypt.Library.Image NocapCrypt.Library.Runs NocapCrypt.Core NocapCrypt.BlockIo NocapCrypt.Worker

/-- The trait `Reporter` with its defaults. `corporateJoke` is the line that is picked at random. -/
structure Reporter where
  narrates : Bool := false
  bootBanner : Option String := none
  corporateJoke : Option String := none
  progressFlavor : ProgressFlavor := .meme
  ciMode : Bool := false
  deriving DecidableEq, Repr

structure TransferJob where
  inputFile : SectorFile
  outputFile : SectorFile
  engine : SectorEngine
  ranges : List SectorRange
  realDataLen : ℕ
  progressTotalBytes : ℕ
  concurrency : Concurrency
  encrypt : Bool

def TransferJob.rangeJob (job : TransferJob) (progress : Bool) : RangeJob :=
  ⟨job.inputFile, job.outputFile, job.engine, job.ranges, job.realDataLen, job.encrypt, progress⟩

/-- The environment of one transfer. The display thread polls when the worker has made `samples[0]`,
`samples[1]`, ... moves, and after that goes on polling a worker that has returned. -/
structure TransferEnv where
  schedule : Schedule
  samples : List ℕ
  ciPolls : List CiPoll

/-- What the kernel, the scheduler and the displays do in each transfer that a process may set up. -/
abbrev Environment := TransferJob → (ℕ → Bytes) → TransferEnv

structure Transferred where
  result : Except IoError Unit
  disk : ℕ → Bytes
  ciSteps : List CiStep

/-- A transfer that does not return to its command, with what it has written and reported by then. -/
structure Stopped where
  outcome : Outcome
  disk : ℕ → Bytes
  ciSteps : List CiStep

def workerStart (disk : ℕ → Bytes) : Shared := ⟨disk, 0, []⟩

/-- What the display thread loads in its tick `k`. -/
def displayLoad (job : TransferJob) (env : TransferEnv) (disk : ℕ → Bytes) (k : ℕ) : ℕ :=
  counterAt (job.rangeJob true) job.concurrency env.schedule (workerStart disk)
    (env.samples[k]?.getD (movesMade job.concurrency env.schedule))

/-- Does the `join` in `finish` return? A display that is still polling this long after the worker has
returned polls for ever (`display_joins_iff`). -/
def displayJoins (job : TransferJob) (flavor : ProgressFlavor) (env : TransferEnv) (disk : ℕ → Bytes) : Bool :=
  (LiveProgress.pollLoop job.progressTotalBytes flavor (displayLoad job env disk)
    (env.samples.length + totalMinAnimationTicks + 1) 0).isSome

/-- What a worker that has not returned has left on the disk. -/
def diskLeft (worker : RangeJob) (mode : Concurrency) (schedule : Schedule) (disk : ℕ → Bytes) : ℕ → Bytes :=
  match run (step worker mode) (start (workerStart disk)) schedule.moves with
  | some c => c.shared.disk
  | none => disk

def dispatchWithProgress (reporter : Reporter) (job : TransferJob) (showProgress : Bool) (env : TransferEnv)
    (disk : ℕ → Bytes) : Except Stopped Transferred :=
  if reporter.ciMode then
    let worker := job.rangeJob true
    match processRanges worker job.concurrency env.schedule (workerStart disk) with
    | none => .error ⟨.unscheduled, diskLeft worker job.concurrency env.schedule disk, []⟩
    | some (returned, s) =>
      match CiProgress.run job.progressTotalBytes
          (counterAt worker job.concurrency env.schedule (workerStart disk))
          (fun t => decide (movesMade job.concurrency env.schedule < t)) env.ciPolls with
      | none => .error ⟨.unscheduled, s.disk, []⟩
      | some steps =>
        match returned with
        | .error _ => .error ⟨.panic (.expect "worker thread panicked"), s.disk, steps⟩
        | .ok result => .ok ⟨result, s.disk, steps⟩
  else
    let progress := LiveProgress.starts job.progressTotalBytes showProgress
    let worker := job.rangeJob progress
    match processRanges worker job.concurrency env.schedule (workerStart disk) with
    | none => .error ⟨.unscheduled, diskLeft worker job.concurrency env.schedule disk, []⟩
    | some (.error p, s) => .error ⟨.panic p, s.disk, []⟩
    | some (.ok result, s) =>
      if progress && !displayJoins job reporter.progressFlavor env disk then .error ⟨.hang, s.disk, []⟩
      else .ok ⟨result, s.disk, []⟩

/-- The kernel and the scheduler take the worker to its return, and under `--ci` it is polled until after that. -/
def TransferEnv.Carries (env : TransferEnv) (job : TransferJob) (disk : ℕ → Bytes) : Prop :=
  (processRanges (job.rangeJob true) job.concurrency env.schedule (workerStart disk)).isSome = true ∧
    ∃ poll ∈ env.ciPolls, movesMade job.concurrency env.schedule < poll.check

instance (env : TransferEnv) (job : TransferJob) (disk : ℕ → Bytes) : Decidable (env.Carries job disk) :=
  inferInstanceAs (Decidable (_ ∧ _))

/-- No transfer that a command can set up is left without its end. -/
def Environment.Carries (env : Environment) : Prop :=
  ∀ job disk chunk, chunkRanges job.progressTotalBytes chunk = .ok job.ranges →
    coverage job.progressTotalBytes < u64Size → (env job disk).Carries job disk

/-- The first system call of every transfer fails. -/
def faultyEnv (e : IoError) : Environment := fun job _ =>
  let moves := faultyMoves e (job.rangeJob true)
  ⟨⟨moves, 0, none⟩, [], [⟨moves.length + 1, moves.length + 1, false⟩]⟩

lemma faultyEnv_carries (e : IoError) : (faultyEnv e).Carries := by
  intro job disk chunk hranges hfits
  have hcovers := covers_of_coverage (job.rangeJob true) hranges hfits
  refine ⟨processRanges_faulty e hcovers _, _, List.mem_singleton_self _, ?_⟩
  rw [movesMade_of_pool (by cases job.concurrency <;> trivial)]
  exact Nat.lt_succ_self _

/-- As `env`, but where that leaves a transfer without its end, the transfer fails. -/
def Environment.orFaulty (env : Environment) (e : IoError) : Environment := fun job disk =>
  if (env job disk).Carries job disk then env job disk else faultyEnv e job disk

lemma Environment.orFaulty_carries (env : Environment) (e : IoError) : (env.orFaulty e).Carries := by
  intro job disk chunk hranges hfits
  rw [Environment.orFaulty]
  split
  · assumption
  · exact faultyEnv_carries e job disk chunk hranges hfits

/-- A transfer as the commands set it up: the ranges cover the total, which was accepted as a file length,
and the data is there, as long as the input was found to be. -/
structure Built (job : TransferJob) (chunk : ℕ) (disk : ℕ → Bytes) : Prop where
  ranges : chunkRanges job.progressTotalBytes chunk = .ok job.ranges
  fits : coverage job.progressTotalBytes < u64Size
  data : job.realDataLen ≤ job.progressTotalBytes
  held : job.realDataLen ≤ (disk job.inputFile.file).length

def sampleTransfer : TransferJob :=
  ⟨⟨0, false⟩, ⟨0, false⟩, sampleEngine, [⟨0, 1⟩], 512, 512, .synchronous, true⟩

def diskFullEnv : TransferEnv := ⟨sampleFaultSchedule, [], []⟩

lemma sampleTransfer_built : Built sampleTransfer 8 sampleStart.disk :=
  ⟨rfl, by decide, by decide, by decide +kernel⟩

section Live

variable {job : TransferJob} {chunk : ℕ} {env : TransferEnv} {disk : ℕ → Bytes} {s : Shared}
  {result : Except IoError Unit}

lemma joins_iff_of_coverage (hranges : chunkRanges job.progressTotalBytes chunk = .ok job.ranges)
    (hfits : coverage job.progressTotalBytes < u64Size) (htotal : 0 < job.progressTotalBytes)
    (flavor : ProgressFlavor)
    (hret : processRanges (job.rangeJob true) job.concurrency env.schedule (workerStart disk) =
      some (.ok result, s)) :
    (LiveProgress.Exits job.progressTotalBytes flavor (displayLoad job env disk) ↔ result = .ok ()) ∧
      (displayJoins job flavor env disk = true ↔ result = .ok ()) := by
  let final := counterAt (job.rangeJob true) job.concurrency env.schedule (workerStart disk)
    (movesMade job.concurrency env.schedule)
  have hsettled : ∀ t, movesMade job.concurrency env.schedule ≤ t →
      counterAt (job.rangeJob true) job.concurrency env.schedule (workerStart disk) t = final := by
    intro t ht
    simp only [final, counterAt, min_eq_right ht, min_self]
  have hmono : Monotone (counterAt (job.rangeJob true) job.concurrency env.schedule (workerStart disk)) :=
    fun _ _ h => counterAt_mono (job.rangeJob true) hranges hfits rfl rfl hret h
  have hle : ∀ k, displayLoad job env disk k ≤ final := by
    intro k
    rcases Nat.le_total (env.samples[k]?.getD (movesMade job.concurrency env.schedule))
      (movesMade job.concurrency env.schedule) with h | h
    · exact hmono h
    · exact (hsettled _ h).le
  have hfinal : ∀ k, env.samples.length ≤ k → displayLoad job env disk k = final := by
    intro k hk
    rw [displayLoad, List.getElem?_eq_none hk]
    rfl
  have hreach := le_counterAt_iff (job.rangeJob true) hranges htotal hfits rfl rfl hret (le_refl _)
  have hok : (Except.ok result : Except Panic (Except IoError Unit)) = .ok (.ok ()) ↔ result = .ok () := by
    rw [Except.ok.injEq]
  obtain ⟨hexits, hjoins⟩ := LiveProgress.exits_iff_final job.progressTotalBytes flavor hle hfinal
  exact ⟨hexits.trans (hreach.trans hok), hjoins.trans (hreach.trans hok)⟩

lemma display_joins_iff (hjob : Built job chunk disk) (htotal : 0 < job.progressTotalBytes) (flavor : ProgressFlavor)
    (hret : processRanges (job.rangeJob true) job.concurrency env.schedule (workerStart disk) =
      some (.ok result, s)) :
    (LiveProgress.Exits job.progressTotalBytes flavor (displayLoad job env disk) ↔ result = .ok ()) ∧
      (displayJoins job flavor env disk = true ↔ result = .ok ()) :=
  joins_iff_of_coverage hjob.ranges hjob.fits htotal flavor hret

lemma dispatch_live (htotal : 0 < job.progressTotalBytes) (reporter : Reporter)
    (hret : processRanges (job.rangeJob true) job.concurrency env.schedule (workerStart disk) =
      some (.ok result, s)) :
    dispatchWithProgress { reporter with ciMode := false } job true env disk =
      if displayJoins job reporter.progressFlavor env disk = true then .ok ⟨result, s.disk, []⟩
      else .error ⟨.hang, s.disk, []⟩ := by
  have hstarts : LiveProgress.starts job.progressTotalBytes true = true := by
    simp [LiveProgress.starts, htotal.ne']
  simp only [dispatchWithProgress, hstarts, hret, Bool.false_eq_true, if_false, Bool.true_and]
  cases displayJoins job reporter.progressFlavor env disk <;> rfl

/-- The display of a transfer ends, and lets the command go on, exactly if no read or write of the transfer
fails; after a failure the counter stays below the total and the `join` never returns. -/
theorem live_progress_exits_iff (job : TransferJob) (chunk : ℕ) (disk : ℕ → Bytes)
    (hjob : Built job chunk disk) (htotal : 0 < job.progressTotalBytes) (reporter : Reporter)
    (env : TransferEnv) (result : Except IoError Unit) (s : Shared)
    (hret : processRanges (job.rangeJob true) job.concurrency env.schedule (workerStart disk) =
      some (.ok result, s)) :
    (LiveProgress.Exits job.progressTotalBytes reporter.progressFlavor (displayLoad job env disk) ↔
        FaultFree job.concurrency env.schedule) ∧
      (FaultFree job.concurrency env.schedule →
        dispatchWithProgress { reporter with ciMode := false } job true env disk = .ok ⟨.ok (), s.disk, []⟩) ∧
      (¬ FaultFree job.concurrency env.schedule →
        dispatchWithProgress { reporter with ciMode := false } job true env disk = .error ⟨.hang, s.disk, []⟩) := by
  have hc := covers_of_coverage (job.rangeJob true) hjob.ranges hjob.fits
  have hfree : result = .ok () ↔ FaultFree job.concurrency env.schedule := by
    rw [← processRanges_ok_iff (s := workerStart disk) hc hjob.held hret, Except.ok.injEq]
  obtain ⟨hexits, hjoins⟩ := display_joins_iff hjob htotal reporter.progressFlavor hret
  have hdispatch := dispatch_live htotal reporter hret
  refine ⟨hexits.trans hfree, ?_, ?_⟩
  · intro h
    rw [hdispatch, if_pos (hjoins.mpr (hfree.mpr h)), hfree.mpr h]
  · intro h
    rw [hdispatch, if_neg (fun hj => h (hfree.mp (hjoins.mp hj)))]

theorem live_progress_exits_iff_disk_full :
    ¬ LiveProgress.Exits 512 .sterile (displayLoad sampleTransfer diskFullEnv sampleStart.disk) := by
  obtain ⟨s, hret⟩ : ∃ s, processRanges (sampleTransfer.rangeJob true) .synchronous diskFullEnv.schedule
      (workerStart sampleStart.disk) = some (.ok (.error (.os "No space left on device (os error 28)")), s) :=
    exists_shared (by decide +kernel)
  obtain ⟨hexits, -⟩ := live_progress_exits_iff sampleTransfer 8 sampleStart.disk sampleTransfer_built (by decide)
    { progressFlavor := .sterile } diskFullEnv _ s hret
  intro h
  exact absurd (hexits.mp h).2 (by decide)

theorem dispatch_hangs_on_write_fault :
    ∃ e s, processRanges (sampleTransfer.rangeJob true) sampleTransfer.concurrency diskFullEnv.schedule
        (workerStart sampleStart.disk) = some (.ok (.error e), s) ∧
      ∀ reporter : Reporter, ¬ LiveProgress.Exits sampleTransfer.progressTotalBytes reporter.progressFlavor
          (displayLoad sampleTransfer diskFullEnv sampleStart.disk) ∧
        dispatchWithProgress { reporter with ciMode := false } sampleTransfer true diskFullEnv sampleStart.disk =
          .error ⟨.hang, s.disk, []⟩ := by
  obtain ⟨s, hret⟩ : ∃ s, processRanges (sampleTransfer.rangeJob true) .synchronous diskFullEnv.schedule
      (workerStart sampleStart.disk) = some (.ok (.error (.os "No space left on device (os error 28)")), s) :=
    exists_shared (by decide +kernel)
  refine ⟨_, s, hret, ?_⟩
  intro reporter
  obtain ⟨hexits, hjoins⟩ := display_joins_iff sampleTransfer_built (by decide) reporter.progressFlavor hret
  refine ⟨fun h => by simpa using hexits.mp h, ?_⟩
  rw [dispatch_live (by decide) reporter hret, if_neg (fun h => by simpa using hjoins.mp h)]

end Live

/-- Under `--ci` the percentages never fall, the run ends with the one report that is made once the worker
has been seen finished, and this report says 100 exactly if the transfer succeeded. -/
theorem ci_progress_reports (job : TransferJob) (chunk : ℕ) (disk : ℕ → Bytes)
    (hjob : Built job chunk disk) (htotal : 0 < job.progressTotalBytes) (reporter : Reporter)
    (showProgress : Bool) (env : TransferEnv) (hpolls : CiProgress.Ordered env.ciPolls)
    (result : Except IoError Unit) (s : Shared)
    (hret : processRanges (job.rangeJob true) job.concurrency env.schedule (workerStart disk) =
      some (.ok result, s)) :
    (∀ out, dispatchWithProgress { reporter with ciMode := true } job showProgress env disk = .ok out →
      out.result = result ∧ (out.ciSteps.filterMap CiStep.report).Pairwise (· ≤ ·) ∧
        ∃ before last, out.ciSteps = before ++ [⟨true, some last⟩] ∧ (∀ st ∈ before, st.finished = false) ∧
          (last = 100 ↔ result = .ok ())) ∧
      ((∃ poll ∈ env.ciPolls, movesMade job.concurrency env.schedule < poll.check) →
        ∃ out, dispatchWithProgress { reporter with ciMode := true } job showProgress env disk = .ok out) := by
  have hmono : Monotone (counterAt (job.rangeJob true) job.concurrency env.schedule (workerStart disk)) :=
    fun _ _ h => counterAt_mono (job.rangeJob true) hjob.ranges hjob.fits rfl rfl hret h
  have hrun : CiProgress.run job.progressTotalBytes
      (counterAt (job.rangeJob true) job.concurrency env.schedule (workerStart disk))
      (fun t => decide (movesMade job.concurrency env.schedule < t)) env.ciPolls =
      CiProgress.loop job.progressTotalBytes
        (counterAt (job.rangeJob true) job.concurrency env.schedule (workerStart disk))
        (fun t => decide (movesMade job.concurrency env.schedule < t)) 0 env.ciPolls := if_neg htotal.ne'
  constructor
  · intro out h
    simp only [dispatchWithProgress, if_true, hret, hrun] at h
    split at h
    · cases h
    · rename_i steps hloop
      cases h
      obtain ⟨before, poll, hpoll, hfin, hbefore, rfl⟩ := CiProgress.loop_stops hloop
      refine ⟨rfl, CiProgress.reports_sorted hmono hpolls hloop, before, _, rfl, hbefore, ?_⟩
      have hload := (of_decide_eq_true hfin).le.trans (hpolls.1 poll hpoll)
      rw [CiProgress.percent_eq_iff htotal,
        le_counterAt_iff (job.rangeJob true) hjob.ranges htotal hjob.fits rfl rfl hret hload, Except.ok.injEq]
  · rintro ⟨poll, hpoll, hlt⟩
    obtain ⟨steps, hloop⟩ := CiProgress.loop_terminates job.progressTotalBytes
      (counterAt (job.rangeJob true) job.concurrency env.schedule (workerStart disk))
      (fun t => decide (movesMade job.concurrency env.schedule < t)) 0 ⟨poll, hpoll, decide_eq_true hlt⟩
    refine ⟨⟨result, s.disk, steps⟩, ?_⟩
    simp only [dispatchWithProgress, if_true, hret, hrun, hloop]

def paddedTransfer : TransferJob :=
  ⟨⟨0, false⟩, ⟨0, false⟩, sampleEngine, [⟨0, 1⟩, ⟨1, 1⟩, ⟨2, 1⟩], 768, 1536, .globalPool, false⟩

/-- Polls after the first counted range, after the second, and when the worker has returned. -/
def interleavedEnv : TransferEnv :=
  ⟨interleavedSchedule, [], [⟨11, 12, false⟩, ⟨14, 15, false⟩, ⟨17, 17, false⟩]⟩

theorem ci_progress_reports_to_the_end :
    ∃ out, dispatchWithProgress { ciMode := true } paddedTransfer false interleavedEnv paddedStart.disk = .ok out ∧
      (out.ciSteps.filterMap CiStep.report).Pairwise (· ≤ ·) ∧
      ∃ before, out.ciSteps = before ++ [⟨true, some 100⟩] ∧
        before = [⟨false, some (100 / 3)⟩, ⟨false, some (200 / 3)⟩] := by
  obtain ⟨s, hret, -⟩ := interleaved_returns
  obtain ⟨hreports, hends⟩ := ci_progress_reports paddedTransfer 1 paddedStart.disk
    ⟨rfl, by decide, by decide, by decide +kernel⟩ (by decide) {} false interleavedEnv
    (by simp [CiProgress.Ordered, interleavedEnv]) _ s hret
  obtain ⟨out, hout⟩ := hends ⟨⟨17, 17, false⟩, by simp [interleavedEnv], by decide⟩
  obtain ⟨-, hsorted, before, last, hsteps, -, hlast⟩ := hreports out hout
  obtain rfl := hlast.mpr rfl
  refine ⟨out, hout, hsorted, before, hsteps, ?_⟩
  have hloads :
      (dispatchWithProgress { ciMode := true } paddedTransfer false interleavedEnv paddedStart.disk).toOption.map
        Transferred.ciSteps = some ([⟨false, some (100 / 3)⟩, ⟨false, some (200 / 3)⟩] ++ [⟨true, some 100⟩]) := by
    decide +kernel
  rw [hout] at hloads
  exact List.append_cancel_right (hsteps.symm.trans (Option.some.inj hloads))

end NocapCrypt.Cli
