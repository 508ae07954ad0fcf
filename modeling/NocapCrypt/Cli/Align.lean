import NocapCrypt.Cli.Safety

/-! `align check` and `align fix`: `crates/nocap-crypt-cli/src/cmd/align.rs` and
`crates/nocap-crypt-blockio/src/alignment.rs`. -/

namespace NocapCrypt.Cli

open NocapCrypt.Library.Image NocapCrypt.Library.Commands NocapCrypt.BlockIo Cmd

/-- `value.is_multiple_of(alignment)`; only zero is a multiple of zero. -/
def isAligned (value alignment : ℕ) : Bool := if alignment = 0 then value == 0 else value % alignment == 0

def alignUp (value alignment : ℕ) : Cmd ℕ := do
  let rem ← orPanic (checkedRem value alignment)
  if rem = 0 then pure value else wrapping (value + (alignment - rem))

structure AlignmentReport where
  requiredAlignment : ℕ
  fileSize : ℕ
  fileSizeAligned : Bool
  offset : ℕ
  offsetAligned : Bool

def AlignmentReport.passes (report : AlignmentReport) : Bool := report.fileSizeAligned && report.offsetAligned

def checkAlignment (fileSize offset alignment : ℕ) : AlignmentReport :=
  ⟨alignment, fileSize, isAligned fileSize alignment, offset, isAligned offset alignment⟩

structure AlignCheckArgs where
  path : Path
  alignment : UInt64
  offset : UInt64

structure AlignFixArgs where
  path : Path
  alignment : UInt64

def alignedText (aligned : Bool) : String := if aligned then "aligned" else "NOT aligned"

section Run

variable (os : Os)

def statPath (path : Path) : Cmd ℕ := do
  let len ← os.metadataLen path
  orFail (fun e => s!"stat {path}: {e.text}") .io len

def runCheckImpl (args : AlignCheckArgs) : Cmd ExitCode := do
  let fileSize ← statPath os args.path
  let checked := checkAlignment fileSize args.offset.toNat args.alignment.toNat
  report (.alignmentStatus args.path checked.passes args.alignment.toNat)
  let sizeText := alignedText checked.fileSizeAligned
  let offsetText := alignedText checked.offsetAligned
  report (.message s!"file_size={checked.fileSize} ({sizeText}), offset={checked.offset} ({offsetText})")
  pure (if checked.passes then .success else .alignmentFailed)

def runCheck (args : AlignCheckArgs) : World → Outcome × World := finish (runCheckImpl os args)

def runFixImpl (args : AlignFixArgs) : Cmd ExitCode := do
  let fileSize ← statPath os args.path
  let target ← alignUp fileSize args.alignment.toNat
  if target = fileSize then do
    report (.message s!"{args.path} already aligned to {args.alignment} bytes")
    pure .success
  else do
    let opened ← os.openWrite args.path false
    let file ← orFail (fun e => s!"opening {args.path}: {e.text}") .io opened
    let resized ← os.setLen file target
    orFail IoError.text .io resized
    report (.message
      s!"padded {args.path} from {fileSize} to {target} bytes (sparse hole, alignment={args.alignment})")
    pure .success

def runFix (args : AlignFixArgs) : World → Outcome × World := finish (runFixImpl os args)

end Run

section AlignUp

lemma alignUp_sum_lt {value alignment : ℕ} (hv : value ≤ i64Max) (ha : 0 < alignment) (hu : alignment < u64Size) :
    value + (alignment - value % alignment) < u64Size := by
  rcases Nat.lt_or_ge value alignment with hlt | hge
  · rw [Nat.mod_eq_of_lt hlt, Nat.add_sub_cancel' hlt.le]
    exact hu
  · have hmod := Nat.mod_lt value ha
    norm_num [i64Max, u64Size] at *
    omega

/-- `align_up` does not wrap for the length of a file; it gives the next multiple. -/
lemma alignUp_eq {value alignment : ℕ} (hv : value ≤ i64Max) (ha : 0 < alignment) (hu : alignment < u64Size)
    (w : World) : alignUp value alignment w = .ok (divCeil value alignment * alignment) w := by
  have hdiv := Nat.div_add_mod' value alignment
  have hlt := Nat.mod_lt value ha
  rw [alignUp, checkedRem, if_neg ha.ne', orPanic_bind, divCeil]
  split
  · rename_i h0
    rw [pure_eq_ok, Nat.add_zero]
    exact ⟨by omega, rfl⟩
  · rw [wrapping_of_lt (alignUp_sum_lt hv ha hu), Nat.add_mul, Nat.one_mul]
    congr 1
    omega

lemma alignUp_lt {value alignment : ℕ} (hv : value ≤ i64Max) (ha : 0 < alignment) (hu : alignment < u64Size) :
    divCeil value alignment * alignment < u64Size := by
  have hdiv := Nat.div_add_mod' value alignment
  have hsum := alignUp_sum_lt hv ha hu
  have hlt := Nat.mod_lt value ha
  rw [divCeil, Nat.add_mul]
  split
  · rw [Nat.zero_mul]
    omega
  · rw [Nat.one_mul]
    omega

lemma alignUp_least {value alignment m : ℕ} (ha : 0 < alignment) (hm : value ≤ m) (hd : alignment ∣ m) :
    divCeil value alignment * alignment ≤ m := by
  obtain ⟨k, rfl⟩ := hd
  rw [Nat.mul_comm alignment k] at hm ⊢
  exact Nat.mul_le_mul_right alignment ((divCeil_le_iff ha).mpr hm)

end AlignUp

section Check

variable {os : Os} {w : World}

lemma statPath_ok {path : Path} {n : ℕ} (h : os.refuses .stat (w.fs.metadataLen path) = .ok n) :
    statPath os path w = .ok n w := by
  rw [statPath, bind_ok (Os.metadataLen_eq_ok.mpr ⟨h, rfl⟩)]
  rfl

lemma statPath_error {path : Path} {e : IoError} (h : os.refuses .stat (w.fs.metadataLen path) = .error e) :
    ∃ events, statPath os path w = .error (.exit .io) { w with events := events } := by
  refine ⟨w.events ++ [.error s!"stat {path}: {e.text}"], ?_⟩
  rw [statPath, bind_ok (Os.metadataLen_eq_ok.mpr ⟨h, rfl⟩)]
  rfl

lemma isAligned_iff {value alignment : ℕ} : isAligned value alignment = true ↔ alignment ∣ value := by
  rw [isAligned]
  split
  · rename_i h
    rw [h, beq_iff_eq, Nat.zero_dvd]
  · rw [beq_iff_eq, Nat.dvd_iff_mod_eq_zero]

lemma runCheck_success {args : AlignCheckArgs} {size : ℕ} (hos : os.fault .stat = none)
    (hlen : w.fs.metadataLen args.path = .ok size) (hs : args.alignment.toNat ∣ size)
    (ho : args.alignment.toNat ∣ args.offset.toNat) : (runCheck os args w).1 = .exit .success := by
  have hstat : statPath os args.path w = .ok size w := by
    have hread : os.metadataLen args.path w = .ok (.ok size) w := by rw [Os.metadataLen, Os.refuses, hos, hlen]
    rw [statPath, bind_ok hread]
    rfl
  have hpass : (checkAlignment size args.offset.toNat args.alignment.toNat).passes = true := by
    rw [AlignmentReport.passes, Bool.and_eq_true]
    exact ⟨isAligned_iff.mpr hs, isAligned_iff.mpr ho⟩
  rw [runCheck, finish, runCheckImpl, bind_ok hstat]
  simp only [report_bind, hpass, if_true]
  rfl

end Check

section Fix

variable {os : Os} {w : World} {args : AlignFixArgs} {i : ℕ} {bytes : Bytes}

/-- `align fix` on a regular file either leaves everything as it is, with success only if the length is aligned,
or pads the file to the next multiple. -/
lemma runFix_cases (hl : w.fs.lookup args.path = some i) (hn : w.fs.node i = .regular bytes)
    (hv : bytes.length ≤ i64Max) (ha : 0 < args.alignment.toNat) :
    (runFix os args w).2.fs = w.fs ∧
        ((runFix os args w).1 = .exit .success → args.alignment.toNat ∣ bytes.length) ∨
      (runFix os args w).1 = .exit .success ∧
        divCeil bytes.length args.alignment.toNat * args.alignment.toNat ≤ i64Max ∧ (runFix os args w).2.fs =
        w.fs.store i (resize bytes (divCeil bytes.length args.alignment.toNat * args.alignment.toNat)) := by
  have hlen : w.fs.metadataLen args.path = .ok bytes.length := Fs.Regular.metadataLen ⟨i, hl, hn⟩
  have hup := alignUp_eq hv ha args.alignment.toNat_lt
  generalize htarget : divCeil bytes.length args.alignment.toNat * args.alignment.toNat = target at hup ⊢
  rw [runFix, finish]
  cases hstat : os.refuses .stat (w.fs.metadataLen args.path) with
  | error e =>
    obtain ⟨events, he⟩ := statPath_error hstat
    rw [runFixImpl, bind_error he]
    exact Or.inl ⟨rfl, fun h => by cases h⟩
  | ok n =>
    obtain rfl : n = bytes.length := by
      rw [hlen] at hstat
      exact (Except.ok.inj (Os.refuses_ok hstat).2).symm
    rw [runFixImpl, bind_ok (statPath_ok hstat), bind_ok (hup w)]
    by_cases he : target = bytes.length
    · rw [if_pos he, report_bind]
      exact Or.inl ⟨rfl, fun _ => he ▸ htarget ▸ Nat.dvd_mul_left _ _⟩
    · rw [if_neg he]
      have hopen : w.fs.openWrite args.path false = .ok (i, w.fs) := by rw [Fs.openWrite, hl]
      cases ho : os.refuses .openOutput (w.fs.openWrite args.path false) with
      | error e =>
        have hrun : os.openWrite args.path false w = .ok (.error e) w := by rw [Os.openWrite, ho]
        rw [bind_ok hrun]
        exact Or.inl ⟨rfl, fun h => by cases h⟩
      | ok r =>
        obtain rfl : r = (i, w.fs) := by
          rw [hopen] at ho
          exact (Except.ok.inj (Os.refuses_ok ho).2).symm
        have hrun : os.openWrite args.path false w = .ok (.ok ⟨i, os.direct .openOutput⟩) w := by rw [Os.openWrite, ho]
        rw [bind_ok hrun, orFail_bind]
        cases hs : os.refuses .setLen (w.fs.setLen i target) with
        | error e =>
          have hset : os.setLen ⟨i, os.direct .openOutput⟩ target w = .ok (.error e) w := by rw [Os.setLen, hs]
          rw [bind_ok hset]
          exact Or.inl ⟨rfl, fun h => by cases h⟩
        | ok fs =>
          have hset : os.setLen ⟨i, os.direct .openOutput⟩ target w = .ok (.ok ()) { w with fs := fs } := by
            rw [Os.setLen, hs]
          obtain ⟨hmax, bytes', hn', rfl⟩ := Fs.setLen_ok (Os.refuses_ok hs).2
          rw [hn] at hn'
          cases hn'
          rw [bind_ok hset, orFail_bind, report_bind]
          exact Or.inr ⟨rfl, hmax, rfl⟩

/-- A successful `align fix` leaves the file padded with zeros to an aligned length. -/
lemma runFix_success (hl : w.fs.lookup args.path = some i) (hn : w.fs.node i = .regular bytes)
    (hv : bytes.length ≤ i64Max) (ha : 0 < args.alignment.toNat) (hs : (runFix os args w).1 = .exit .success) :
    ∃ added, (runFix os args w).2.fs.lookup args.path = some i ∧
      (runFix os args w).2.fs.node i = .regular (bytes ++ List.replicate added 0) ∧
      bytes.length + added ≤ i64Max ∧ args.alignment.toNat ∣ bytes.length + added := by
  rcases runFix_cases hl hn hv ha with ⟨hfs, hdvd⟩ | ⟨-, hmax, hfs⟩
  · refine ⟨0, ?_⟩
    rw [hfs, List.replicate_zero, List.append_nil]
    exact ⟨hl, hn, hv, hdvd hs⟩
  · have hle := le_divCeil_mul bytes.length ha
    refine ⟨divCeil bytes.length args.alignment.toNat * args.alignment.toNat - bytes.length, ?_⟩
    rw [hfs, Fs.store_lookup, Fs.store_node_self, resize_of_le hle, Nat.add_sub_cancel' hle]
    exact ⟨hl, rfl, hmax, Nat.dvd_mul_left _ _⟩

lemma runFix_aligned (hl : w.fs.lookup args.path = some i) (hn : w.fs.node i = .regular bytes)
    (hv : bytes.length ≤ i64Max) (ha : 0 < args.alignment.toNat) (hd : args.alignment.toNat ∣ bytes.length) :
    (runFix os args w).2.fs = w.fs := by
  rcases runFix_cases hl hn hv ha with ⟨hfs, -⟩ | ⟨-, -, hfs⟩
  · exact hfs
  · have htarget : divCeil bytes.length args.alignment.toNat * args.alignment.toNat = bytes.length :=
      (alignUp_least ha (le_refl _) hd).antisymm (le_divCeil_mul _ ha)
    rw [hfs, htarget, resize_self, Fs.store_self hn]

/-- What `align fix` reports as a success passes `align check`, and only zeros have been added. -/
theorem align_fix_check_agree (alignment : UInt64) (ha : 1 ≤ alignment) :
    (∀ value ≤ i64Max, ∀ w, ∃ target, alignUp value alignment.toNat w = .ok target w ∧ target < u64Size ∧
      value ≤ target ∧ alignment.toNat ∣ target ∧ ∀ m, value ≤ m → alignment.toNat ∣ m → target ≤ m) ∧
    ∀ (os : Os) (path : Path) (w w' : World) (outcome : Outcome) (bytes : Bytes), w.fs.Regular path bytes →
      bytes.length ≤ i64Max → runFix os ⟨path, alignment⟩ w = (outcome, w') →
      (outcome = .exit .success → (∃ added, w'.fs.Regular path (bytes ++ List.replicate added 0)) ∧
        ∀ os' : Os, (os'.fault .stat = none → (runCheck os' ⟨path, alignment, 0⟩ w').1 = .exit .success) ∧
          (runFix os' ⟨path, alignment⟩ w').2.fs = w'.fs) ∧
      (outcome ≠ .exit .success → w'.fs = w.fs) := by
  have hpos : 0 < alignment.toNat := UInt64.le_iff_toNat_le.mp ha
  refine ⟨?_, ?_⟩
  · intro value hv w
    refine ⟨_, alignUp_eq hv hpos alignment.toNat_lt w, ?_, le_divCeil_mul value hpos, Nat.dvd_mul_left _ _, ?_⟩
    · exact alignUp_lt hv hpos alignment.toNat_lt
    · intro m hm hd
      exact alignUp_least hpos hm hd
  · rintro os path w w' outcome bytes ⟨i, hl, hn⟩ hv hrun
    obtain rfl : (runFix os ⟨path, alignment⟩ w).1 = outcome := congrArg Prod.fst hrun
    obtain rfl : (runFix os ⟨path, alignment⟩ w).2 = w' := congrArg Prod.snd hrun
    refine ⟨?_, ?_⟩
    · intro hs
      obtain ⟨added, hl', hn', hmax, hd⟩ := runFix_success hl hn hv hpos hs
      have hlen : (bytes ++ List.replicate added 0).length = bytes.length + added := by simp
      rw [← hlen] at hmax hd
      refine ⟨⟨added, i, hl', hn'⟩, ?_⟩
      intro os'
      refine ⟨?_, runFix_aligned hl' hn' hmax hpos hd⟩
      intro hstat
      exact runCheck_success hstat (Fs.Regular.metadataLen ⟨i, hl', hn'⟩) hd (dvd_zero _)
    · intro hs
      let args : AlignFixArgs := ⟨path, alignment⟩
      have hl' : w.fs.lookup args.path = some i := hl
      have hpos' : 0 < args.alignment.toNat := hpos
      rcases runFix_cases hl' hn hv hpos' with ⟨hfs, -⟩ | ⟨hsuccess, -⟩
      · exact hfs
      · exact (hs hsuccess).elim

theorem align_fix_check_agree_short :
    (∃ added, (runFix sampleOs ⟨"short.img", 4096⟩ sampleWorld).2.fs.Regular "short.img"
      (0 :: List.replicate added 0)) ∧
    (runCheck sampleOs ⟨"short.img", 4096, 0⟩ (runFix sampleOs ⟨"short.img", 4096⟩ sampleWorld).2).1 =
      .exit .success := by
  have hsuccess : (runFix sampleOs ⟨"short.img", 4096⟩ sampleWorld).1 = .exit .success := by decide +kernel
  obtain ⟨hfixed, -⟩ := (align_fix_check_agree 4096 (by decide)).2 sampleOs "short.img" sampleWorld _ _ [0]
    ⟨2, rfl, rfl⟩ (by decide) rfl
  obtain ⟨hregular, hagain⟩ := hfixed hsuccess
  exact ⟨hregular, (hagain sampleOs).1 rfl⟩

end Fix

end NocapCrypt.Cli
