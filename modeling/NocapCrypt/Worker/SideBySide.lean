import NocapCrypt.Worker.Counting

/-! Two calls of the dispatcher under one schedule. Neither a counter that only one of them is given nor what the
files and the keys hold makes them part. -/

namespace NocapCrypt.Worker

open NocapCrypt.Library.Image NocapCrypt.Library.Runs NocapCrypt.Core NocapCrypt.BlockIo

/-- The phase without the contents of its buffer. -/
def Phase.blank : Phase → Phase
  | .reading filled buf => .reading filled (List.replicate buf.length 0)
  | .transforming buf => .transforming (List.replicate buf.length 0)
  | .writing written buf => .writing written (List.replicate buf.length 0)
  | phase => phase

section Blank

lemma Phase.blank_active (phase : Phase) : phase.blank.active = phase.active := by
  cases phase <;> rfl

lemma Phase.blank_eq_finished {phase : Phase} : phase.blank = .finished ↔ phase = .finished := by
  cases phase <;> simp [Phase.blank]

lemma admits_blank (mode : Concurrency) (ranges : ℕ) (task : ℕ → Phase) (i : ℕ) :
    admits mode ranges (fun j => (task j).blank) i = admits mode ranges task i := by
  cases mode <;> simp only [admits, Phase.blank_active, Phase.blank_eq_finished]

lemma outcome_blank (job : RangeJob) (c : Tasks Shared Phase) (reported : ℕ) :
    outcome job ⟨c.shared, fun i => (c.task i).blank⟩ reported = outcome job c reported := by
  simp only [outcome, allFinished, noneActive, Phase.blank_active, Phase.blank_eq_finished]
  cases c.task reported <;> rfl

end Blank

section Simulation

variable {job job' : RangeJob} {R : Shared → Shared → Prop} {P : Phase → Phase → Prop}

/-- The two jobs have the same ranges and take related steps. -/
structure Follows (job job' : RangeJob) (R : Shared → Shared → Prop) (P : Phase → Phase → Prop) : Prop where
  ranges : job.ranges = job'.ranges
  waiting : P .waiting .waiting
  blank : ∀ p q, P p q → p.blank = q.blank
  moves : ∀ i s t p q m, R s t → P p q →
    Option.Rel (fun a b => R a.1 b.1 ∧ P a.2 b.2) (processOneRange job i s p m) (processOneRange job' i t q m)

lemma Follows.admits_eq (h : Follows job job' R P) (mode : Concurrency) {c d : Tasks Shared Phase}
    (hcd : Tasks.Linked R P c d) (i : ℕ) :
    admits mode job.ranges.length c.task i = admits mode job'.ranges.length d.task i := by
  have hblank : (fun j => (c.task j).blank) = fun j => (d.task j).blank := funext fun j => h.blank _ _ (hcd.2 j)
  rw [← admits_blank, hblank, admits_blank, h.ranges]

lemma Follows.outcome_eq (h : Follows job job' R P) {c d : Tasks Shared Phase} (hcd : Tasks.Linked R P c d)
    (reported : ℕ) : outcome job c reported = outcome job' d reported := by
  have hblank : (fun j => (c.task j).blank) = fun j => (d.task j).blank := funext fun j => h.blank _ _ (hcd.2 j)
  have hranges : ∀ s t : Shared, outcome job ⟨s, fun j => (d.task j).blank⟩ reported =
      outcome job' ⟨t, fun j => (d.task j).blank⟩ reported := by
    intro s t
    simp only [outcome, allFinished, noneActive, h.ranges]
    rfl
  rw [← outcome_blank job, hblank, hranges c.shared d.shared, outcome_blank]

lemma Follows.run_linked (h : Follows job job' R P) (mode : Concurrency) {s t : Shared} (hst : R s t)
    (moves : List (ℕ × Move)) :
    Option.Rel (Tasks.Linked R P) (run (step job mode) (start s) moves) (run (step job' mode) (start t) moves) := by
  apply run_simulates
  · intro c d e hcd
    rw [step, step, h.admits_eq mode hcd]
    split
    · exact Tasks.move_simulates h.moves hcd e.1 e.2
    · exact .none
  · exact ⟨hst, fun _ => h.waiting⟩

theorem Follows.processRanges_rel (h : Follows job job' R P) (mode : Concurrency) (schedule : Schedule) {s t : Shared}
    (hst : R s t) :
    Option.Rel (fun a b => a.1 = b.1 ∧ R a.2 b.2) (processRanges job mode schedule s)
      (processRanges job' mode schedule t) := by
  have hreturns : Option.Rel (fun a b => a.1 = b.1 ∧ R a.2 b.2)
      ((run (step job mode) (start s) schedule.moves).bind fun c =>
        (outcome job c schedule.reported).map fun r => (r, c.shared))
      ((run (step job' mode) (start t) schedule.moves).bind fun d =>
        (outcome job' d schedule.reported).map fun r => (r, d.shared)) := by
    have hrun := h.run_linked mode hst schedule.moves
    generalize run (step job mode) (start s) schedule.moves = x at hrun ⊢
    generalize run (step job' mode) (start t) schedule.moves = y at hrun ⊢
    cases hrun with
    | none => exact .none
    | @some c d hcd =>
      rw [Option.bind_some, Option.bind_some, h.outcome_eq hcd]
      cases outcome job' d schedule.reported with
      | none => exact .none
      | some r => exact .some ⟨rfl, hcd.1⟩
  rw [processRanges.eq_def, processRanges.eq_def]
  cases mode with
  | synchronous => exact hreturns
  | globalPool => exact hreturns
  | fixed n =>
    cases schedule.poolError with
    | none => exact hreturns
    | some e => exact .some ⟨rfl, hst⟩

lemma Follows.counterAt_eq (h : Follows job job' R P) (hcounter : ∀ s t, R s t → s.counter = t.counter)
    (mode : Concurrency) (schedule : Schedule) {s t : Shared} (hst : R s t) (moves : ℕ) :
    counterAt job mode schedule s moves = counterAt job' mode schedule t moves := by
  have hrun := h.run_linked mode hst (schedule.moves.take (min moves (movesMade mode schedule)))
  rw [counterAt, counterAt]
  generalize run (step job mode) (start s) _ = x at hrun ⊢
  generalize run (step job' mode) (start t) _ = y at hrun ⊢
  cases hrun with
  | none => exact hcounter s t hst
  | some hcd => exact hcounter _ _ hcd.1

end Simulation

section Uncounted

/-- The counter apart. -/
def Alike (s t : Shared) : Prop := s.disk = t.disk ∧ s.ciphered = t.ciphered

variable (job : RangeJob) (p q : Bool)

lemma processOneRange_alike (i : ℕ) {s t : Shared} (h : Alike s t) (phase : Phase) (move : Move) :
    Option.Rel (fun a b => Alike a.1 b.1 ∧ a.2 = b.2) (processOneRange { job with progress := p } i s phase move)
      (processOneRange { job with progress := q } i t phase move) := by
  obtain ⟨disk, counter, ciphered⟩ := s
  obtain ⟨disk', counter', ciphered'⟩ := t
  obtain ⟨rfl, rfl⟩ := h
  rw [processOneRange, processOneRange]
  dsimp only
  cases job.ranges[i]? with
  | none => exact .none
  | some range =>
    dsimp only
    split
    · exact .some ⟨⟨rfl, rfl⟩, rfl⟩
    · split
      · exact .some ⟨⟨rfl, rfl⟩, rfl⟩
      · exact .some ⟨⟨rfl, rfl⟩, rfl⟩
    · split
      · exact .some ⟨⟨rfl, rfl⟩, rfl⟩
      · exact .some ⟨⟨rfl, rfl⟩, rfl⟩
    · split
      · exact .some ⟨⟨rfl, rfl⟩, rfl⟩
      · exact .some ⟨⟨rfl, rfl⟩, rfl⟩
    · refine .some ⟨?_, rfl⟩
      cases p <;> cases q <;> exact ⟨rfl, rfl⟩
    · exact .none

lemma follows_alike : Follows { job with progress := p } { job with progress := q } Alike Eq where
  ranges := rfl
  waiting := rfl
  blank := fun _ _ h => congrArg Phase.blank h
  moves := by
    rintro i s t phase - move h rfl
    exact processOneRange_alike job p q i h phase move

/-- Nothing but the counter depends on whether one was passed. -/
theorem processRanges_alike (mode : Concurrency) (schedule : Schedule) {s t : Shared} (h : Alike s t) :
    Option.Rel (fun a b => a.1 = b.1 ∧ Alike a.2 b.2)
      (processRanges { job with progress := p } mode schedule s)
      (processRanges { job with progress := q } mode schedule t) :=
  (follows_alike job p q).processRanges_rel mode schedule h

end Uncounted

section Contents

/-- Files of the same lengths, and as much counted. -/
structure SameLengths (s t : Shared) : Prop where
  disk : ∀ i, (s.disk i).length = (t.disk i).length
  counter : s.counter = t.counter

lemma overwrite_lengths {file file' buf buf' : Bytes} (h : file.length = file'.length)
    (hbuf : buf.length = buf'.length) (offset : ℕ) :
    (overwrite file offset buf).length = (overwrite file' offset buf').length := by
  rcases Nat.eq_zero_or_pos buf.length with hzero | hpos
  · have hnil : buf = [] := List.length_eq_zero_iff.mp hzero
    have hnil' : buf' = [] := List.length_eq_zero_iff.mp (hbuf ▸ hzero)
    rw [hnil, hnil', overwrite_nil, overwrite_nil, h]
  · rw [overwrite_length file offset hpos, overwrite_length file' offset (hbuf ▸ hpos), h, hbuf]

lemma readPass_lengths (direct : Bool) {file file' : Bytes} (h : file.length = file'.length) (offset len : ℕ)
    (answer : Answer) :
    (∃ e, readPass direct file offset len answer = .error e ∧ readPass direct file' offset len answer = .error e) ∨
      ∃ bytes bytes', readPass direct file offset len answer = .ok bytes ∧
        readPass direct file' offset len answer = .ok bytes' ∧ bytes.length = bytes'.length := by
  rw [readPass, readPass, readAt_eq, readAt_eq]
  cases answer with
  | fault e => exact Or.inl ⟨e, rfl, rfl⟩
  | count n =>
    have hlen : (window file offset (min n len)).length = (window file' offset (min n len)).length := by
      rw [window_length, window_length, h]
    simp only [Platform.readAt, bind, Except.bind, hlen]
    split
    · exact Or.inl ⟨_, rfl, rfl⟩
    · exact Or.inr ⟨_, _, rfl, rfl, hlen⟩

lemma writePass_lengths (direct : Bool) {file file' buf buf' : Bytes} (h : file.length = file'.length) (offset : ℕ)
    (hbuf : buf.length = buf'.length) (answer : Answer) :
    (∃ e, writePass direct file offset buf answer = .error e ∧ writePass direct file' offset buf' answer = .error e) ∨
      ∃ n out out', writePass direct file offset buf answer = .ok (n, out) ∧
        writePass direct file' offset buf' answer = .ok (n, out') ∧ out.length = out'.length := by
  rw [writePass, writePass, writeAt_eq, writeAt_eq]
  cases answer with
  | fault e => exact Or.inl ⟨e, rfl, rfl⟩
  | count n =>
    simp only [Platform.writeAt, bind, Except.bind, ← hbuf]
    split
    · exact Or.inl ⟨_, rfl, rfl⟩
    · have htake : (buf.take n).length = (buf'.take n).length := by rw [List.length_take, List.length_take, hbuf]
      exact Or.inr ⟨_, _, _, rfl, rfl, overwrite_lengths h htake offset⟩

lemma cryptRange_lengths (engine engine' : SectorEngine) (encrypt : Bool) (first : ℕ) {buf buf' : Bytes}
    (h : buf.length = buf'.length) :
    (∃ p, engine.cryptRange encrypt first buf = .error p ∧ engine'.cryptRange encrypt first buf' = .error p) ∨
      ∃ out out', engine.cryptRange encrypt first buf = .ok out ∧ engine'.cryptRange encrypt first buf' = .ok out' ∧
        out.length = out'.length := by
  by_cases hd : sectorSize ∣ buf.length
  · have hd' : sectorSize ∣ buf'.length := h ▸ hd
    refine Or.inr ⟨_, _, engine.cryptRange_eq encrypt first hd, engine'.cryptRange_eq encrypt first hd', ?_⟩
    rw [SectorEngine.cryptSectors_length, SectorEngine.cryptSectors_length, h]
  · have hm : buf.length % sectorSize ≠ 0 := fun hm => hd (Nat.dvd_of_mod_eq_zero hm)
    have hm' : buf'.length % sectorSize ≠ 0 := h ▸ hm
    refine Or.inl ⟨.assertion "buffer must be sector-aligned", ?_, ?_⟩
    · cases encrypt <;> exact if_pos hm
    · cases encrypt <;> exact if_pos hm'

lemma Phase.blank_cases {p q : Phase} (h : p.blank = q.blank) :
    (p = q ∧ ∀ n buf, p ≠ .reading n buf ∧ p ≠ .transforming buf ∧ p ≠ .writing n buf) ∨
      (∃ filled buf buf', buf.length = buf'.length ∧ p = .reading filled buf ∧ q = .reading filled buf') ∨
      (∃ buf buf', buf.length = buf'.length ∧ p = .transforming buf ∧ q = .transforming buf') ∨
      ∃ written buf buf', buf.length = buf'.length ∧ p = .writing written buf ∧ q = .writing written buf' := by
  cases p <;> cases q <;> simp_all [Phase.blank]

lemma blank_buffer {buf buf' : Bytes} (h : buf.length = buf'.length) (written : ℕ) :
    (Phase.transforming buf).blank = (Phase.transforming buf').blank ∧
      (Phase.reading written buf).blank = (Phase.reading written buf').blank ∧
      (Phase.writing written buf).blank = (Phase.writing written buf').blank := by
  simp only [Phase.blank, h, and_self]

variable (job : RangeJob) (engine engine' : SectorEngine)

/-- Under other keys and over files with other contents, a range takes the same course. -/
lemma processOneRange_lengths (i : ℕ) {s t : Shared} (h : SameLengths s t) {p q : Phase} (hpq : p.blank = q.blank)
    (move : Move) :
    Option.Rel (fun a b => SameLengths a.1 b.1 ∧ a.2.blank = b.2.blank)
      (processOneRange { job with engine := engine } i s p move)
      (processOneRange { job with engine := engine' } i t q move) := by
  rw [processOneRange, processOneRange]
  dsimp only
  cases job.ranges[i]? with
  | none => exact .none
  | some range =>
    dsimp only
    rcases Phase.blank_cases hpq with ⟨rfl, hplain⟩ | ⟨filled, buf, buf', hbuf, rfl, rfl⟩ |
      ⟨buf, buf', hbuf, rfl, rfl⟩ | ⟨written, buf, buf', hbuf, rfl, rfl⟩
    · cases p with
      | reading filled buf => exact ((hplain filled buf).1 rfl).elim
      | transforming buf => exact ((hplain 0 buf).2.1 rfl).elim
      | writing written buf => exact ((hplain written buf).2.2 rfl).elim
      | waiting =>
        cases move with
        | compute => exact .some ⟨h, rfl⟩
        | kernel answer => exact .none
      | counting =>
        cases move with
        | compute =>
          refine .some ⟨?_, rfl⟩
          dsimp only
          split
          · exact ⟨h.disk, by rw [h.counter]⟩
          · exact h
        | kernel answer => exact .none
      | finished => exact .none
      | failed written e => exact .none
      | panicked panic => exact .none
    · cases move with
      | compute => exact .none
      | kernel answer =>
        dsimp only
        rcases readPass_lengths job.input.directIoActive (h.disk job.input.file) (range.byteOffset + filled)
          (range.available job.dataLen - filled) answer with ⟨e, hs, ht⟩ | ⟨bytes, bytes', hs, ht, hbytes⟩
        · rw [hs, ht]
          exact .some ⟨h, rfl⟩
        · rw [hs, ht]
          have hfilled : (overwrite buf filled bytes).length = (overwrite buf' filled bytes').length :=
            overwrite_lengths hbuf hbytes filled
          refine .some ⟨h, ?_⟩
          dsimp only
          rw [hbytes]
          split
          · exact (blank_buffer hfilled _).2.1
          · exact (blank_buffer hfilled 0).1
    · cases move with
      | kernel answer => exact .none
      | compute =>
        dsimp only
        rcases cryptRange_lengths engine engine' job.encrypt range.firstSector hbuf with
          ⟨panic, hs, ht⟩ | ⟨out, out', hs, ht, hout⟩
        · rw [hs, ht]
          exact .some ⟨h, rfl⟩
        · rw [hs, ht]
          have hempty : out = [] ↔ out' = [] := by
            rw [← List.length_eq_zero_iff, hout, List.length_eq_zero_iff]
          refine .some ⟨⟨h.disk, h.counter⟩, ?_⟩
          dsimp only
          by_cases hnil : out = []
          · rw [if_pos hnil, if_pos (hempty.mp hnil)]
          · rw [if_neg hnil, if_neg fun h => hnil (hempty.mpr h)]
            exact (blank_buffer hout 0).2.2
    · cases move with
      | compute => exact .none
      | kernel answer =>
        have hdrop : (buf.drop written).length = (buf'.drop written).length := by
          rw [List.length_drop, List.length_drop, hbuf]
        dsimp only
        rcases writePass_lengths job.output.directIoActive (h.disk job.output.file) (range.byteOffset + written)
          hdrop answer with ⟨e, hs, ht⟩ | ⟨n, file, file', hs, ht, hfile⟩
        · rw [hs, ht]
          exact .some ⟨h, rfl⟩
        · rw [hs, ht]
          refine .some ⟨⟨?_, h.counter⟩, ?_⟩
          · intro k
            dsimp only
            by_cases hk : k = job.output.file
            · rw [hk, Function.update_self, Function.update_self, hfile]
            · rw [Function.update_of_ne hk, Function.update_of_ne hk, h.disk k]
          · dsimp only
            rw [hbuf]
            split
            · exact (blank_buffer hbuf _).2.2
            · rfl

lemma follows_lengths : Follows { job with engine := engine } { job with engine := engine' } SameLengths
    (fun p q => p.blank = q.blank) where
  ranges := rfl
  waiting := rfl
  blank := fun _ _ h => h
  moves := fun i _ _ _ _ move h hpq => processOneRange_lengths job engine engine' i h hpq move

end Contents

end NocapCrypt.Worker
