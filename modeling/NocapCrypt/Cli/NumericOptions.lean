import NocapCrypt.Cli.Align
import NocapCrypt.Cli.Bench
import NocapCrypt.Cli.Inspect

/-! The commands with raw integers among their arguments: where a missing guard lets one of them panic or wrap. -/

namespace NocapCrypt.Cli

open NocapCrypt.Library.Commands NocapCrypt.Core NocapCrypt.BlockIo NocapCrypt.KeyMgmt NocapCrypt.Luks
  NocapCrypt.Entropy NocapCrypt.Worker Cmd

/-- Nothing has been written and nothing has wrapped. -/
def Reading (fs : Fs) (w : World) : Prop := w.fs = fs ∧ w.wrapped = false

lemma eventBlind_reading (fs : Fs) : EventBlind (Reading fs) := fun _ _ h => h

lemma metadataLen_le {fs : Fs} {path : Path} {n : ℕ} (hfiles : ∀ i, (fs.disk i).length ≤ i64Max)
    (h : fs.metadataLen path = .ok n) : n ≤ i64Max := by
  cases hi : fs.lookup path with
  | none => simp [Fs.metadataLen, hi] at h
  | some i => exact (metadataLen_lookup h hi).2.trans (hfiles i)

section Clean

variable {α : Type} {transfers : Bool} {w w₁ : World}

lemma clean_of_reading {c : Cmd ExitCode} {Q : ExitCode → Prop}
    (h : Ensures (Reading w.fs) (Orderly transfers) c Q) (hw : w.wrapped = false) : Clean transfers (finish c w) :=
  clean_of_ensures h (fun _ h => h.2) ⟨rfl, hw⟩

lemma clean_bind {Q : α → Prop} {x : Cmd α} {f : α → Cmd ExitCode}
    (hx : Ensures (Reading w.fs) (Orderly transfers) x Q)
    (hf : ∀ a, Q a → Ensures (Wrapped false) (Orderly transfers) (f a) fun _ => True) (hw : w.wrapped = false) :
    Clean transfers (finish (x >>= f) w) := by
  have h := hx w ⟨rfl, hw⟩
  cases hr : x w with
  | ok a w₁ =>
    rw [hr] at h
    have hrun : finish (x >>= f) w = finish (f a) w₁ := by
      rw [finish, bind_ok hr]
      rfl
    rw [hrun]
    exact clean_of_ensures (hf a h.2) (fun _ h => h) h.1.2
  | error outcome w₁ =>
    rw [hr] at h
    rw [finish, bind_error hr]
    exact ⟨h.2.1, h.1.2⟩

lemma not_clean_of_panic {c : Cmd ExitCode} {p : Panic} (h : c w = .error (.panic p) w₁) :
    ¬ Clean transfers (finish c w) := by
  rintro ⟨hreturns, -⟩
  rw [finish, h] at hreturns
  exact hreturns

/-- Once an operation has wrapped, nothing takes that back. -/
lemma not_clean_of_wrapped {c : Cmd ExitCode} {Q : ExitCode → Prop}
    (h : Ensures (Wrapped true) (Orderly transfers) c Q) (hw : w.wrapped = true) :
    ¬ Clean transfers (finish c w) := by
  rintro ⟨-, hfalse⟩
  have hc := h w hw
  rw [finish] at hfalse
  cases hr : c w with
  | ok code w' =>
    rw [hr] at hc hfalse
    exact Bool.noConfusion (hc.1.symm.trans hfalse)
  | error outcome w' =>
    rw [hr] at hc hfalse
    exact Bool.noConfusion (hc.1.symm.trans hfalse)

end Clean

section Align

variable {os : Os} {transfers : Bool} {w : World}

lemma ensures_alignUp {I : World → Prop} {value alignment : ℕ} (hv : value ≤ i64Max) (ha : 0 < alignment)
    (hu : alignment < u64Size) : Ensures I (Orderly transfers) (alignUp value alignment) fun _ => True := by
  refine (ensures_orPanic ⟨value % alignment, if_neg ha.ne'⟩).bind fun rem hrem => ?_
  obtain rfl : value % alignment = rem := by simpa [checkedRem, ha.ne'] using hrem
  refine Ensures.ite (fun _ => Ensures.pure trivial) (fun _ => ?_)
  exact (ensures_wrapping (alignUp_sum_lt hv ha hu)).imp fun _ _ => trivial

lemma ensures_statPath (fs : Fs) (path : Path) : Ensures (Reading fs) (Orderly transfers) (statPath os path)
    fun n => os.refuses .stat (fs.metadataLen path) = .ok n := by
  have hstat : Ensures (Reading fs) (Orderly transfers) (os.metadataLen path)
      fun r => os.refuses .stat (fs.metadataLen path) = r := by
    refine Ensures.query fun w hw => ⟨_, rfl, ?_⟩
    rw [hw.1]
  refine hstat.bind fun len hlen => ?_
  apply (ensures_orFail (eventBlind_reading fs) _ (by decide) len).imp
  rintro n rfl
  exact hlen

theorem runCheck_clean (args : AlignCheckArgs) (hw : w.wrapped = false) : Clean false (runCheck os args w) := by
  have hI := eventBlind_reading w.fs
  refine clean_of_reading (Q := fun _ => True) ?_ hw
  refine (ensures_statPath w.fs args.path).bind fun fileSize _ => ?_
  refine (ensures_report hI _).bind fun _ _ => ?_
  exact (ensures_report hI _).bind fun _ _ => Ensures.pure trivial

lemma runFix_clean_iff {args : AlignFixArgs} (hfiles : ∀ i, (w.fs.disk i).length ≤ i64Max) (hw : w.wrapped = false) :
    Clean false (runFix os args w) ↔
      ∀ n, os.refuses .stat (w.fs.metadataLen args.path) = .ok n → 0 < args.alignment.toNat := by
  have hI := eventBlind_wrapped false
  constructor
  · intro hclean n hn
    by_contra hzero
    have hpanic : runFixImpl os args w = .error (.panic .remainderByZero) w := by
      refine (bind_ok (statPath_ok hn)).trans (bind_error ?_)
      rw [Nat.eq_zero_of_not_pos hzero]
      rfl
    exact not_clean_of_panic hpanic hclean
  · intro h
    refine clean_bind (ensures_statPath w.fs args.path) (fun fileSize hstat => ?_) hw
    have hsize : fileSize ≤ i64Max := metadataLen_le hfiles (Os.refuses_ok hstat).2
    refine (ensures_alignUp hsize (h fileSize hstat) args.alignment.toNat_lt).bind fun target _ => ?_
    refine Ensures.ite (fun _ => ?_) (fun _ => ?_)
    · exact (ensures_report hI _).bind fun _ _ => Ensures.pure trivial
    · refine (ensures_openWrite (fun _ _ h => h) os args.path false).bind fun opened _ => ?_
      refine (ensures_orFail hI _ (by decide) opened).bind fun file _ => ?_
      refine (ensures_setLen (fun _ _ h => h) os file target).bind fun resized _ => ?_
      refine (ensures_orFail hI _ (by decide) resized).bind fun _ _ => ?_
      exact (ensures_report hI _).bind fun _ _ => Ensures.pure trivial

end Align

section Streams

variable {scores : Scores} {os : Os} {transfers : Bool} {w : World} {reader : Except IoError Bytes}
  {windowSize : UInt64}

lemma ensures_analyze {I : World → Prop} (hI : EventBlind I) (hwindow : 0 < windowSize.toNat)
    (hlen : ∀ bytes, reader = .ok bytes → bytes.length < u64Size) :
    Ensures I (Orderly transfers) (analyze scores reader windowSize) fun _ => ∃ bytes, reader = .ok bytes := by
  refine (ensures_orPanic (analyzeStream_total scores reader hwindow.ne')).bind fun analyzed hanalyzed => ?_
  refine (ensures_orFail hI _ (by decide) analyzed).bind fun analysis hanalysis => ?_
  rw [hanalysis] at hanalyzed
  obtain ⟨bytes, hbytes, htotal⟩ := analyzeStream_ok hanalyzed
  refine (ensures_wrapping (htotal ▸ hlen bytes hbytes)).bind fun _ _ => ?_
  exact Ensures.pure ⟨bytes, hbytes⟩

lemma analyze_panics (hwindow : windowSize.toNat = 0) :
    analyze scores reader windowSize w = .error (.panic (.assertion "window_size must be nonzero")) w := by
  have hstream : analyzeStream scores reader windowSize.toNat =
      .error (.assertion "window_size must be nonzero") := if_pos hwindow
  rw [analyze, hstream]
  rfl

lemma analyze_ok (scores : Scores) (w : World) {bytes : Bytes} (hwindow : 0 < windowSize.toNat)
    (hlen : bytes.length < u64Size) :
    ∃ analysis, analyze scores (.ok bytes) windowSize w = .ok analysis w := by
  obtain ⟨analyzed, hstream⟩ := analyzeStream_total scores (.ok bytes) hwindow.ne'
  cases analyzed with
  | error e => simp [analyzeStream, hwindow.ne', Except.map] at hstream
  | ok analysis =>
    obtain ⟨read, hread, htotal⟩ := analyzeStream_ok hstream
    cases hread
    refine ⟨analysis, ?_⟩
    rw [analyze, hstream, orPanic_bind, orFail_bind, bind_ok (wrapping_of_lt (htotal ▸ hlen))]
    rfl

lemma ensures_openFile (fs : Fs) (path : Path) : Ensures (Reading fs) (Orderly transfers) (os.openFile path)
    fun r => os.refuses .openInput (fs.openRead path) = r := by
  refine Ensures.query fun w hw => ⟨_, rfl, ?_⟩
  rw [hw.1]

lemma ensures_fileLen {I : World → Prop} (file : ℕ) : Ensures I (Orderly transfers) (os.fileLen file)
    fun r => ∀ n, r = .ok n → os.fault .stat = none :=
  Ensures.query fun _ _ => ⟨_, rfl, fun _ h => (Os.refuses_ok h).1⟩

lemma ensures_stream (fs : Fs) (file : ℕ) : Ensures (Reading fs) (Orderly transfers) (os.stream file)
    fun r => ∀ bytes, r = .ok bytes → os.fault .readInput = none ∧ bytes = fs.disk file := by
  refine Ensures.query fun w hw => ⟨_, rfl, ?_⟩
  intro bytes h
  obtain ⟨hfault, hbytes⟩ := Os.refuses_ok h
  rw [hw.1] at hbytes
  exact ⟨hfault, (Except.ok.inj hbytes).symm⟩

lemma ensures_inspectReports {I : World → Prop} (hI : EventBlind I) {toStringPretty : InspectPayload → Option String}
    (args : InspectArgs) (json : Bool) (fileSize : ℕ) (analysis : StreamEntropyReport) (luks : Option LuksVersion)
    (rem : ℕ) : Ensures I (Orderly transfers) (inspectReports toStringPretty args json fileSize analysis luks rem)
      fun _ => True := by
  rw [inspectReports]
  refine Ensures.ite (fun _ => ?_) (fun _ => ?_)
  · dsimp only
    split
    · exact (ensures_report hI _).bind fun _ _ => Ensures.pure trivial
    · exact Ensures.pure trivial
  · refine (ensures_report hI _).bind fun _ _ => ?_
    refine (ensures_report hI _).bind fun _ _ => ?_
    exact (ensures_report hI _).bind fun _ _ => Ensures.pure trivial

lemma runInspect_clean_iff {toStringPretty : InspectPayload → Option String} {args : InspectArgs} {json : Bool}
    (hfiles : ∀ i, (w.fs.disk i).length ≤ i64Max) (hw : w.wrapped = false) :
    Clean false (runInspect scores os toStringPretty args json w) ↔
      ∀ i, os.refuses .openInput (w.fs.openRead args.input) = .ok i → os.fault .stat = none →
        0 < args.windowSize.toNat ∧ (os.fault .readInput = none → 0 < args.sectorSize.toNat) := by
  have hI := eventBlind_reading w.fs
  constructor
  · intro hclean i hopen hstat
    have hopened : os.openFile args.input w = .ok (.ok i) w := by rw [Os.openFile, hopen]
    have hlen : os.fileLen i w = .ok (.ok (w.fs.node i).metadataLen) w := by
      rw [Os.fileLen, Os.refuses, hstat]
    have hwindow : 0 < args.windowSize.toNat := by
      by_contra hzero
      have hpanic : runInspectImpl scores os toStringPretty args json w =
          .error (.panic (.assertion "window_size must be nonzero")) w := by
        apply (bind_ok hopened).trans
        apply (bind_ok rfl).trans
        apply (bind_ok hlen).trans
        apply (bind_ok rfl).trans
        apply (bind_ok rfl).trans
        exact bind_error (analyze_panics (Nat.eq_zero_of_not_pos hzero))
      exact not_clean_of_panic hpanic hclean
    refine ⟨hwindow, ?_⟩
    intro hread
    by_contra hzero
    have hstream : os.stream i w = .ok (.ok (w.fs.disk i)) w := by rw [Os.stream, Os.refuses, hread]
    obtain ⟨analysis, hanalysis⟩ := analyze_ok scores w hwindow
      ((hfiles i).trans_lt (by decide : i64Max < u64Size))
    have hrem : checkedRem (w.fs.node i).metadataLen args.sectorSize.toNat = .error .remainderByZero :=
      if_pos (Nat.eq_zero_of_not_pos hzero)
    have hpanic : runInspectImpl scores os toStringPretty args json w = .error (.panic .remainderByZero) w := by
      apply (bind_ok hopened).trans
      apply (bind_ok rfl).trans
      apply (bind_ok hlen).trans
      apply (bind_ok rfl).trans
      apply (bind_ok hstream).trans
      apply (bind_ok hanalysis).trans
      apply (bind_ok rfl).trans
      apply bind_error
      rw [hrem]
      rfl
    exact not_clean_of_panic hpanic hclean
  · intro h
    refine clean_of_reading (Q := fun _ => True) ?_ hw
    refine (ensures_openFile w.fs args.input).bind fun opened hopened => ?_
    refine (ensures_orFail hI _ (by decide) opened).bind fun file hfile => ?_
    refine (ensures_fileLen file).bind fun len hlen => ?_
    refine (ensures_orFail hI _ (by decide) len).bind fun fileSize hsize => ?_
    obtain ⟨hwindow, hsector⟩ := h file (hopened.trans hfile) (hlen fileSize hsize)
    refine (ensures_stream w.fs file).bind fun reader hreader => ?_
    have hfits : ∀ bytes, reader = .ok bytes → bytes.length < u64Size := by
      intro bytes hbytes
      rw [(hreader bytes hbytes).2]
      exact (hfiles file).trans_lt (by decide)
    refine (ensures_analyze hI hwindow hfits).bind fun analysis hread => ?_
    obtain ⟨bytes, hbytes⟩ := hread
    have hnonzero := hsector (hreader bytes hbytes).1
    refine (ensures_read os .readHead args.input).bind fun head _ => ?_
    refine (ensures_orPanic ⟨fileSize % args.sectorSize.toNat, if_neg hnonzero.ne'⟩).bind fun rem _ => ?_
    exact ensures_inspectReports hI args json fileSize analysis _ rem

def Opens (os : Os) (fs : Fs) (input : Option Path) : Prop :=
  ∀ path, input = some path → path ≠ "-" → ∃ i, os.refuses .openInput (fs.openRead path) = .ok i

lemma entropyReader_ok (stdin : Except IoError Bytes) {input : Option Path} (h : Opens os w.fs input) :
    ∃ reader, entropyReader os stdin input w = .ok reader w := by
  cases input with
  | none => exact ⟨stdin, rfl⟩
  | some path =>
    rw [entropyReader]
    by_cases hpath : path = "-"
    · rw [if_neg (not_not_intro hpath)]
      exact ⟨stdin, rfl⟩
    · obtain ⟨i, hi⟩ := h path rfl hpath
      rw [if_pos hpath]
      refine ⟨os.refuses .readInput (.ok (w.fs.disk i)), ?_⟩
      have hopened : os.openFile path w = .ok (.ok i) w := by rw [Os.openFile, hi]
      rw [bind_ok hopened]
      rfl

lemma ensures_entropyReader {fs : Fs} {stdin : Except IoError Bytes} (hfiles : ∀ i, (fs.disk i).length ≤ i64Max)
    (hstdin : ∀ bytes, stdin = .ok bytes → bytes.length < u64Size) (input : Option Path) :
    Ensures (Reading fs) (Orderly transfers) (entropyReader os stdin input)
      fun reader => Opens os fs input ∧ ∀ bytes, reader = .ok bytes → bytes.length < u64Size := by
  cases input with
  | none =>
    refine Ensures.pure ⟨?_, hstdin⟩
    intro path h
    cases h
  | some path =>
    rw [entropyReader]
    refine Ensures.ite (fun hpath => ?_) (fun hpath => Ensures.pure ⟨?_, hstdin⟩)
    · refine (ensures_openFile fs path).bind fun opened hopened => ?_
      refine (ensures_orFail (eventBlind_reading fs) _ (by decide) opened).bind fun file hfile => ?_
      refine (ensures_stream fs file).imp fun reader hreader => ⟨?_, ?_⟩
      · rintro q hq -
        cases hq
        exact ⟨file, hopened.trans hfile⟩
      · intro bytes hbytes
        rw [(hreader bytes hbytes).2]
        exact (hfiles file).trans_lt (by decide)
    · intro q hq hne
      cases hq
      exact (hpath hne).elim

lemma runEntropy_clean_iff {stdin : Except IoError Bytes} {args : EntropyArgs}
    (hfiles : ∀ i, (w.fs.disk i).length ≤ i64Max) (hstdin : ∀ bytes, stdin = .ok bytes → bytes.length < u64Size)
    (hw : w.wrapped = false) :
    Clean false (runEntropy scores os stdin args w) ↔ (Opens os w.fs args.input → 0 < args.windowSize.toNat) := by
  have hI := eventBlind_reading w.fs
  constructor
  · intro hclean hopens
    by_contra hzero
    obtain ⟨reader, hreader⟩ := entropyReader_ok stdin hopens
    have hpanic : runEntropyImpl scores os stdin args w =
        .error (.panic (.assertion "window_size must be nonzero")) w := by
      apply (bind_ok hreader).trans
      exact bind_error (analyze_panics (Nat.eq_zero_of_not_pos hzero))
    exact not_clean_of_panic hpanic hclean
  · intro h
    refine clean_of_reading (Q := fun _ => True) ?_ hw
    refine (ensures_entropyReader hfiles hstdin args.input).bind fun reader hreader => ?_
    refine (ensures_analyze hI (h hreader.1) hreader.2).bind fun analysis _ => ?_
    refine (ensures_report hI _).bind fun _ _ => ?_
    refine (ensures_report hI _).bind fun _ _ => ?_
    split
    · refine Ensures.ite (fun _ => ?_) (fun _ => Ensures.pure trivial)
      exact ensures_fail hI _ (by decide)
    · exact Ensures.pure trivial

end Streams

section Bench

variable {X : Externals} {os : Os} {env : BenchEnv} {flavor : ProgressFlavor} {live json : Bool}
  {rendering : BenchReport} {args : BenchArgs} {w : World}

lemma runBench_clean_iff (hw : w.wrapped = false) :
    Clean true (runBench X os env flavor live rendering args json w) ↔
      ∀ spec, resolveCipherSpec args.cipher args.keySize = .ok spec →
        (env.random spec.requiredKeyBytes).isSome = true ∧ args.dataLenMb.toNat < 2 ^ 44 := by
  obtain ⟨total, htotal, hsectors, hfits⟩ := dataLenBytes_eq args.dataLenMb.toNat w
  cases hspec : resolveCipherSpec args.cipher args.keySize with
  | error e =>
    have hrun : runBenchImpl X os env flavor live rendering args json w =
        .error (.exit .unsupportedCipher) { w with events := w.events ++ [.error e.text] } := by
      rw [runBenchImpl, hspec]
      rfl
    constructor
    · intro _ spec h
      cases h
    · intro _
      rw [runBench, finish, hrun]
      exact ⟨trivial, hw⟩
  | ok spec =>
    have hsupported := resolveCipherSpec_supported hspec
    have hguard : (∀ s, (Except.ok spec : Except CipherSpecError CipherSpec) = .ok s →
        (env.random s.requiredKeyBytes).isSome = true ∧ args.dataLenMb.toNat < 2 ^ 44) ↔
        (env.random spec.requiredKeyBytes).isSome = true ∧ args.dataLenMb.toNat < 2 ^ 44 := by
      simp
    rw [hguard]
    cases hkey : env.random spec.requiredKeyBytes with
    | none =>
      have hpanic : runBenchImpl X os env flavor live rendering args json w =
          .error (.panic (.expect "OS CSPRNG failed to fill key material")) w := by
        rw [runBenchImpl, hspec, orFail_bind, generateKey, hkey]
        rfl
      refine ⟨fun h => (not_clean_of_panic hpanic h).elim, ?_⟩
      rintro ⟨h, -⟩
      cases h
    | some key =>
      have hrun : runBench X os env flavor live rendering args json w =
          finish (benchWorkers X os env flavor live rendering args json spec key.toList total)
            { w with wrapped := w.wrapped || decide (2 ^ 44 ≤ args.dataLenMb.toNat) } := by
        rw [runBench, runBenchImpl, finish, hspec, orFail_bind, generateKey, hkey, orPanic_bind, bind_ok htotal]
        rfl
      have hrest := fun b => ensures_benchWorkers X os env flavor live b rendering args json hsupported key.toList
        hsectors hfits
      rw [hrun, hw, Bool.false_or]
      constructor
      · intro hclean
        refine ⟨rfl, ?_⟩
        by_contra hlarge
        refine not_clean_of_wrapped (hrest true) ?_ hclean
        exact decide_eq_true (Nat.le_of_not_lt hlarge)
      · rintro ⟨-, hsmall⟩
        refine clean_of_ensures (hrest false) (fun _ h => h) ?_
        exact decide_eq_false (Nat.not_le_of_lt hsmall)

end Bench

/-- What surrounds a process: third-party code, the operating system, the standard input and the threads. -/
structure Host where
  externals : Externals
  os : Os
  stdin : Except IoError Bytes
  reporter : Reporter
  transfer : Environment
  sweep : BenchEnv
  inspectJson : InspectPayload → Option String
  rendering : BenchReport

inductive NumericCommand where
  | alignFix (args : AlignFixArgs)
  | inspect (args : InspectArgs) (json : Bool)
  | entropy (args : EntropyArgs)
  | imageEncrypt (args : EncryptArgs) (showProgress : Bool)
  | bench (args : BenchArgs) (json showProgress : Bool)

namespace NumericCommand

def transfers : NumericCommand → Bool
  | .alignFix _ | .inspect _ _ | .entropy _ => false
  | .imageEncrypt _ _ | .bench _ _ _ => true

def run (host : Host) : NumericCommand → World → Outcome × World
  | .alignFix args => runFix host.os args
  | .inspect args json => runInspect host.externals.scores host.os host.inspectJson args json
  | .entropy args => runEntropy host.externals.scores host.os host.stdin args
  | .imageEncrypt args showProgress =>
      runEncrypt host.externals host.os host.reporter args showProgress host.transfer
  | .bench args json showProgress =>
      runBench host.externals host.os host.sweep host.reporter.progressFlavor (showProgress && !host.reporter.ciMode)
        host.rendering args json

/-- No command gets as far as an unguarded use of a value that it cannot take. -/
def Guarded (host : Host) (fs : Fs) : NumericCommand → Prop
  | .alignFix args =>
      ∀ n, host.os.refuses .stat (fs.metadataLen args.path) = .ok n → 0 < args.alignment.toNat
  | .inspect args _ =>
      ∀ i, host.os.refuses .openInput (fs.openRead args.input) = .ok i → host.os.fault .stat = none →
        0 < args.windowSize.toNat ∧ (host.os.fault .readInput = none → 0 < args.sectorSize.toNat)
  | .entropy args => Opens host.os fs args.input → 0 < args.windowSize.toNat
  | .imageEncrypt _ _ => True
  | .bench args _ _ =>
      ∀ spec, resolveCipherSpec args.cipher args.keySize = .ok spec →
        (host.sweep.random spec.requiredKeyBytes).isSome = true ∧ args.dataLenMb.toNat < 2 ^ 44

end NumericCommand

/-- `image encrypt` checks its alignment options before it uses them; the other commands use theirs as they
are given, so that zero alignments, sector sizes and windows panic and a large `--data-len-mb` wraps. -/
theorem numeric_options_clean_iff (host : Host) (command : NumericCommand) (w : World) (hw : w.wrapped = false)
    (hfiles : ∀ i, (w.fs.disk i).length ≤ i64Max)
    (hstdin : ∀ bytes, host.stdin = .ok bytes → bytes.length < u64Size) :
    Clean command.transfers (command.run host w) ↔ command.Guarded host w.fs := by
  cases command with
  | alignFix args => exact runFix_clean_iff hfiles hw
  | inspect args json => exact runInspect_clean_iff hfiles hw
  | entropy args => exact runEntropy_clean_iff hfiles hstdin hw
  | imageEncrypt args showProgress =>
    refine iff_of_true ?_ trivial
    exact clean_of_ensures (ensures_runEncryptImpl host.externals host.os host.reporter false args showProgress
      host.transfer) (fun _ h => h) hw
  | bench args json showProgress => exact runBench_clean_iff hw

section Sample

def sampleHost : Host :=
  ⟨sampleExternals, sampleOs, .ok [], { progressFlavor := .sterile }, sampleEnv,
    ⟨fun _ => some (Vector.replicate _ 0), "/tmp/nocap-crypt-bench-1",
      fun _ _ _ => ⟨⟨[], 0, none⟩, [], []⟩, fun _ _ => true⟩,
    fun _ => none, ⟨fun _ => none, fun _ => ""⟩⟩

lemma sampleFs_bounded (i : ℕ) : (sampleFs.disk i).length ≤ i64Max := by
  simp only [Fs.disk, sampleFs]
  split_ifs <;> decide +kernel

end Sample

theorem numeric_options_clean_iff_inspect :
    Clean false (NumericCommand.run sampleHost (.inspect ⟨"plain.img", 4096, 512⟩ false) sampleWorld) := by
  have hstdin : ∀ bytes, sampleHost.stdin = .ok bytes → bytes.length < u64Size := by
    rintro bytes ⟨⟩
    decide
  apply (numeric_options_clean_iff sampleHost (.inspect ⟨"plain.img", 4096, 512⟩ false) sampleWorld rfl
    sampleFs_bounded hstdin).mpr
  intro i _ _
  exact ⟨by decide, fun _ => by decide⟩

theorem numeric_options_crash :
    (NumericCommand.run sampleHost (.alignFix ⟨"plain.img", 0⟩) sampleWorld).1 = .panic .remainderByZero ∧
    ¬ Clean false (NumericCommand.run sampleHost (.alignFix ⟨"plain.img", 0⟩) sampleWorld) ∧
    ¬ Clean false (NumericCommand.run sampleHost (.inspect ⟨"plain.img", 4096, 0⟩ false) sampleWorld) ∧
    ¬ Clean false (NumericCommand.run sampleHost (.entropy ⟨some "plain.img", 0, none⟩) sampleWorld) ∧
    ¬ Clean true (NumericCommand.run sampleHost (.bench ⟨.aesXtsPlain64, none, 2 ^ 44, "1", 8, 42⟩ false false)
      sampleWorld) := by
  decide +kernel

end NocapCrypt.Cli
