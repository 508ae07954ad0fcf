import NocapCrypt.Worker.Footprint

/-! Invariants of whole runs of the dispatcher, for every interleaving of its ranges. -/

namespace NocapCrypt.Worker

open NocapCrypt.Library.Image NocapCrypt.Library.Runs NocapCrypt.Core NocapCrypt.BlockIo

variable {job : RangeJob} {total : ℕ} {d₀ : ℕ → Bytes} {mode : Concurrency}

lemma step_some {c c' : Tasks Shared Phase} {e : ℕ × Move} (h : step job mode c e = some c') :
    admits mode job.ranges.length c.task e.1 = true ∧ ∃ r s t, job.ranges[e.1]? = some r ∧
      RangeStep job r c.shared (c.task e.1) e.2 s t ∧ c' = ⟨s, Function.update c.task e.1 t⟩ := by
  rw [step] at h
  split at h
  · rename_i ha
    obtain ⟨s, t, hs, rfl⟩ := Tasks.move_some h
    obtain ⟨r, hr, hstep⟩ := processOneRange_some hs
    exact ⟨ha, r, s, t, hr, hstep, rfl⟩
  · cases h

section Sound

def Sound (job : RangeJob) (total : ℕ) (d₀ : ℕ → Bytes) (c : Tasks Shared Phase) : Prop :=
  Frame job total d₀ c.shared.disk ∧
    ∀ i r, job.ranges[i]? = some r → PhaseInv job total d₀ r c.shared.disk (c.task i)

lemma landed_start (r : SectorRange) : Landed job total d₀ d₀ r 0 := by
  intro j _
  rw [if_neg (Nat.not_lt_zero j)]

lemma sound_start (s : Shared) : Sound job total s.disk (start s) :=
  ⟨⟨fun _ _ => rfl, fun _ _ => rfl, le_refl _⟩, fun _ r _ => landed_start r⟩

theorem sound_step (hc : Covers job total) {c c' : Tasks Shared Phase} {e : ℕ × Move}
    (hi : Sound job total d₀ c) (h : step job mode c e = some c') : Sound job total d₀ c' := by
  rw [step] at h
  split at h
  · let G : Shared → Prop := fun s => Frame job total d₀ s.disk
    let P : ℕ → Shared → Phase → Prop := fun i s t =>
      ∀ r, job.ranges[i]? = some r → PhaseInv job total d₀ r s.disk t
    refine Tasks.move_invariant (G := G) (P := P) ?_ ?_ hi h
    · intro i s t m s' t' hG hP hm
      obtain ⟨r, hr, hstep⟩ := processOneRange_some hm
      obtain ⟨hf, hp, -⟩ := rangeStep_inv (hc.placed hr) hG (hP r hr) hstep
      refine ⟨hf, ?_⟩
      intro r' hr'
      rw [hr] at hr'
      exact Option.some.inj hr' ▸ hp
    · intro i j s t u m s' t' hij hG hP hQ hm r' hr'
      obtain ⟨r, hr, hstep⟩ := processOneRange_some hm
      obtain ⟨-, -, hout⟩ := rangeStep_inv (hc.placed hr) hG (hP r hr) hstep
      apply (hQ r' hr').congr
      intro b hlo hhi
      apply hout b
      -- the windows of `r` and `r'` are disjoint, so `b` is outside the one that was written
      rcases hc.separated hij hr hr' with hsep | hsep
      · exact Or.inr (hsep.trans hlo)
      · exact Or.inl (hhi.trans_le hsep)
  · cases h

theorem run_sound (hc : Covers job total) {s : Shared} {c : Tasks Shared Phase} {moves : List (ℕ × Move)}
    (h : run (step job mode) (start s) moves = some c) : Sound job total s.disk c :=
  run_invariant (fun _ _ _ => sound_step hc) (sound_start s) h

lemma Sound.not_panicked {c : Tasks Shared Phase} (hs : Sound job total d₀ c) {i : ℕ} {r : SectorRange}
    (hr : job.ranges[i]? = some r) (p : Panic) : c.task i ≠ .panicked p := by
  intro hp
  have h := hs.2 i r hr
  rw [hp] at h
  exact h

def written (r : SectorRange) : Phase → ℕ
  | .writing w _ | .failed w _ => w
  | .counting | .finished => r.byteLen
  | _ => 0

@[simp] lemma written_waiting (r : SectorRange) : written r .waiting = 0 := rfl

@[simp] lemma written_finished (r : SectorRange) : written r .finished = r.byteLen := rfl

lemma PhaseInv.written_le {r : SectorRange} {d : ℕ → Bytes} {t : Phase} (h : PhaseInv job total d₀ r d t) :
    written r t ≤ r.byteLen := by
  cases t with
  | writing w buf => exact h.2.1.le
  | failed w e => exact h.2.le
  | _ => simp [written]

lemma PhaseInv.landed {r : SectorRange} {d : ℕ → Bytes} {t : Phase} (h : PhaseInv job total d₀ r d t) :
    Landed job total d₀ d r (written r t) := by
  cases t with
  | waiting => exact h
  | reading filled buf => exact h.1
  | transforming buf => exact h.1
  | writing w buf => exact h.1
  | counting => exact h
  | finished => exact h
  | failed w e => exact h.1
  | panicked p => exact h.elim

/-- In every reachable state each byte of the output is the original one or the reference one. -/
theorem Sound.cell_or (hc : Covers job total) {c : Tasks Shared Phase} (hs : Sound job total d₀ c) (b : ℕ) :
    cell (c.shared.disk job.output.file) b = cell (d₀ job.output.file) b ∨
      b < total * sectorSize ∧ cell (c.shared.disk job.output.file) b = cell (reference job total d₀) b := by
  by_cases hb : b < total * sectorSize
  · obtain ⟨i, r, hr, hlo, hhi⟩ := hc.owner hb
    have hl := (hs.2 i r hr).landed (b - r.byteOffset) (by omega)
    rw [Nat.add_sub_cancel' hlo] at hl
    split at hl
    · exact Or.inr ⟨hb, hl⟩
    · exact Or.inl hl
  · exact Or.inl (hs.1.beyond b (Nat.le_of_not_lt hb))

end Sound

section Extent

structure Extent (job : RangeJob) (d₀ : ℕ → Bytes) (c : Tasks Shared Phase) : Prop where
  reached : ∀ i r, job.ranges[i]? = some r → 0 < written r (c.task i) →
    r.byteOffset + written r (c.task i) ≤ (c.shared.disk job.output.file).length
  within : ∀ b, b < (c.shared.disk job.output.file).length →
    b < (d₀ job.output.file).length ∨ ∃ i r, job.ranges[i]? = some r ∧ 0 < written r (c.task i) ∧
      b < r.byteOffset + written r (c.task i)

lemma rangeStep_written {r : SectorRange} {s s' : Shared} {t t' : Phase} {m : Move} (hr : Placed r total)
    (hi : PhaseInv job total d₀ r s.disk t) (h : RangeStep job r s t m s' t') :
    (s'.disk = s.disk ∧ written r t' = written r t) ∨
      (written r t < written r t' ∧ (s'.disk job.output.file).length =
        max (s.disk job.output.file).length (r.byteOffset + written r t')) := by
  cases h with
  | startReading _ => exact Or.inl ⟨rfl, rfl⟩
  | startPadding _ => exact Or.inl ⟨rfl, rfl⟩
  | readFault _ => exact Or.inl ⟨rfl, rfl⟩
  | readSome _ _ => exact Or.inl ⟨rfl, rfl⟩
  | readLast _ _ => exact Or.inl ⟨rfl, rfl⟩
  | transform _ _ => exact Or.inl ⟨rfl, rfl⟩
  | transformEmpty hcrypt =>
    obtain ⟨-, rfl⟩ := hi
    exact (cryptRange_window_ne hr hcrypt).elim
  | transformPanic _ => exact Or.inl ⟨rfl, rfl⟩
  | writeFault _ => exact Or.inl ⟨rfl, rfl⟩
  | writeSome hwrite hlt =>
    obtain ⟨hl, -, rfl⟩ := hi
    obtain ⟨hn, -, -, -, -, hlen⟩ := writePass_cells hr hl hwrite
    refine Or.inr ⟨Nat.lt_add_of_pos_right hn, ?_⟩
    simpa only [Function.update_self, written] using hlen
  | writeLast hwrite hge =>
    obtain ⟨hl, hlt, rfl⟩ := hi
    obtain ⟨-, hle, -, -, -, hlen⟩ := writePass_cells hr hl hwrite
    rw [window_reference_length hr] at hge
    rw [le_antisymm hle hge] at hlen
    refine Or.inr ⟨hlt, ?_⟩
    simpa only [Function.update_self, written] using hlen
  | count => split <;> exact Or.inl ⟨rfl, rfl⟩

lemma extent_start (s : Shared) : Extent job s.disk (start s) :=
  ⟨fun _ _ _ h => (lt_irrefl 0 h).elim, fun _ h => Or.inl h⟩

lemma extent_step (hc : Covers job total) {c c' : Tasks Shared Phase} {e : ℕ × Move}
    (hs : Sound job total d₀ c) (hi : Extent job d₀ c) (h : step job mode c e = some c') :
    Extent job d₀ c' := by
  obtain ⟨-, r, s, t, hr, hstep, rfl⟩ := step_some h
  have hw := rangeStep_written (hc.placed hr) (hs.2 e.1 r hr) hstep
  have hmono : (c.shared.disk job.output.file).length ≤ (s.disk job.output.file).length := by
    rcases hw with ⟨hd, -⟩ | ⟨-, hl⟩
    · rw [hd]
    · rw [hl]
      exact le_max_left _ _
  refine ⟨?_, ?_⟩
  · intro i r' hr' hpos
    by_cases hie : i = e.1
    · subst hie
      rw [hr] at hr'
      cases hr'
      simp only [Function.update_self] at hpos ⊢
      rcases hw with ⟨hd, hw⟩ | ⟨-, hl⟩
      · rw [hw, hd]
        exact hi.reached e.1 r hr (hw ▸ hpos)
      · rw [hl]
        exact le_max_right _ _
    · simp only [Function.update_of_ne hie] at hpos ⊢
      exact (hi.reached i r' hr' hpos).trans hmono
  · intro b hb
    have hold : b < (c.shared.disk job.output.file).length → b < (d₀ job.output.file).length ∨
        ∃ i r, job.ranges[i]? = some r ∧ 0 < written r (Function.update c.task e.1 t i) ∧
          b < r.byteOffset + written r (Function.update c.task e.1 t i) := by
      intro hb
      rcases hi.within b hb with hb | ⟨i, r', hr', hpos, hb⟩
      · exact Or.inl hb
      · refine Or.inr ⟨i, r', hr', ?_⟩
        by_cases hie : i = e.1
        · subst hie
          rw [hr] at hr'
          cases hr'
          rw [Function.update_self]
          rcases hw with ⟨-, hw⟩ | ⟨hw, -⟩ <;> omega
        · rw [Function.update_of_ne hie]
          exact ⟨hpos, hb⟩
    rcases hw with ⟨hd, -⟩ | ⟨hlt, hl⟩
    · exact hold (hd ▸ hb)
    · simp only [hl, lt_max_iff] at hb
      rcases hb with hb | hb
      · exact hold hb
      · refine Or.inr ⟨e.1, r, hr, ?_⟩
        simp only [Function.update_self]
        exact ⟨Nat.zero_lt_of_lt hlt, hb⟩

lemma run_extent (hc : Covers job total) {s : Shared} {c : Tasks Shared Phase} {moves : List (ℕ × Move)}
    (h : run (step job mode) (start s) moves = some c) : Extent job s.disk c := by
  have hboth : Sound job total s.disk c ∧ Extent job s.disk c :=
    run_invariant (I := fun c => Sound job total s.disk c ∧ Extent job s.disk c)
      (fun _ _ _ hi he => ⟨sound_step hc hi.1 he, extent_step hc hi.1 hi.2 he⟩)
      ⟨sound_start s, extent_start s⟩ h
  exact hboth.2

end Extent

lemma allFinished_iff {c : Tasks Shared Phase} :
    allFinished job c = true ↔ ∀ i < job.ranges.length, c.task i = .finished := by
  simp [allFinished]

theorem disk_of_allFinished (hc : Covers job total) {s : Shared} {c : Tasks Shared Phase}
    {moves : List (ℕ × Move)} (h : run (step job mode) (start s) moves = some c)
    (hfin : ∀ i < job.ranges.length, c.task i = .finished) :
    c.shared.disk = Function.update s.disk job.output.file
      (overwrite (s.disk job.output.file) 0 (reference job total s.disk)) := by
  have hs := run_sound hc h
  have hx := run_extent hc h
  have hdone : ∀ i r, job.ranges[i]? = some r → c.task i = .finished :=
    fun i r hr => hfin i (List.getElem?_eq_some_iff.mp hr).1
  funext f
  by_cases hf : f = job.output.file
  · subst hf
    rw [Function.update_self]
    have hlen : (c.shared.disk job.output.file).length =
        max (s.disk job.output.file).length (total * sectorSize) := by
      refine le_antisymm ?_ (max_le hs.1.grows ?_)
      · by_contra hlt
        rcases hx.within _ (Nat.lt_of_not_le hlt) with hb | ⟨i, r, hr, -, hb⟩
        · omega
        · have hfits := (hc.placed hr).fits
          rw [hdone i r hr, written_finished] at hb
          omega
      · rcases Nat.eq_zero_or_pos (total * sectorSize) with h0 | hpos
        · omega
        · obtain ⟨i, r, hr, hlo, hhi⟩ := hc.owner (Nat.sub_lt hpos Nat.one_pos)
          have hw : written r (c.task i) = r.byteLen := by rw [hdone i r hr, written_finished]
          have hreach := hx.reached i r hr (hw ▸ (hc.placed hr).pos)
          omega
    have href : (overwrite (s.disk job.output.file) 0 (reference job total s.disk)).length =
        max (s.disk job.output.file).length (total * sectorSize) := by
      rcases Nat.eq_zero_or_pos (total * sectorSize) with h0 | hpos
      · rw [overwrite_length_of_le (by rw [reference_length]; omega), h0, Nat.max_zero]
      · rw [overwrite_length _ _ (by rwa [reference_length]), reference_length, Nat.zero_add]
    apply ext_cell (hlen.trans href.symm)
    intro b _
    rw [cell_overwrite, reference_length, Nat.zero_add, Nat.sub_zero]
    split
    · rename_i hb
      obtain ⟨i, r, hr, hlo, hhi⟩ := hc.owner hb.2
      have hl := (hs.2 i r hr).landed (b - r.byteOffset) (by omega)
      rw [hdone i r hr, written_finished, if_pos (by omega), Nat.add_sub_cancel' hlo] at hl
      exact hl
    · rename_i hb
      exact hs.1.beyond b (by omega)
  · rw [Function.update_of_ne hf]
    exact hs.1.others f hf

section Counter

def rangeBytes (job : RangeJob) (i : ℕ) : ℕ := (job.ranges[i]?.map SectorRange.byteLen).getD 0

lemma rangeBytes_eq {i : ℕ} {r : SectorRange} (hr : job.ranges[i]? = some r) : rangeBytes job i = r.byteLen := by
  simp [rangeBytes, hr]

def completed (job : RangeJob) (task : ℕ → Phase) : Finset ℕ :=
  (Finset.range job.ranges.length).filter fun i => task i = .finished

lemma mem_completed {task : ℕ → Phase} {i : ℕ} :
    i ∈ completed job task ↔ i < job.ranges.length ∧ task i = .finished := by simp [completed]

lemma rangeStep_not_finished {r : SectorRange} {s s' : Shared} {t t' : Phase} {m : Move}
    (h : RangeStep job r s t m s' t') : t ≠ .finished := by
  cases h <;> simp

lemma rangeStep_counter {r : SectorRange} {s s' : Shared} {t t' : Phase} {m : Move}
    (h : RangeStep job r s t m s' t') :
    (t' = .finished ∧ s'.counter = if job.progress then (s.counter + r.byteLen) % u64Size else s.counter) ∨
      (t' ≠ .finished ∧ s'.counter = s.counter) := by
  cases h with
  | count =>
    refine Or.inl ⟨rfl, ?_⟩
    cases job.progress <;> rfl
  | _ => exact Or.inr ⟨by simp, rfl⟩

lemma completed_update_finished {task : ℕ → Phase} {i : ℕ} (hi : i < job.ranges.length) :
    completed job (Function.update task i .finished) = insert i (completed job task) := by
  ext j
  rw [mem_completed, Finset.mem_insert, mem_completed]
  by_cases hj : j = i
  · subst hj
    simp [hi]
  · simp [hj]

lemma completed_update_of_ne {task : ℕ → Phase} {i : ℕ} {t : Phase} (hold : task i ≠ .finished)
    (hnew : t ≠ .finished) : completed job (Function.update task i t) = completed job task := by
  ext j
  rw [mem_completed, mem_completed]
  by_cases hj : j = i
  · subst hj
    simp [hold, hnew]
  · simp [hj]

def counted (job : RangeJob) (task : ℕ → Phase) : ℕ :=
  if job.progress then ∑ i ∈ completed job task, rangeBytes job i else 0

theorem counter_step {n : ℕ} {c c' : Tasks Shared Phase} {e : ℕ × Move}
    (hi : c.shared.counter % u64Size = (n + counted job c.task) % u64Size)
    (h : step job mode c e = some c') :
    c'.shared.counter % u64Size = (n + counted job c'.task) % u64Size := by
  obtain ⟨-, r, s, t, hr, hstep, rfl⟩ := step_some h
  have hold := rangeStep_not_finished hstep
  rcases rangeStep_counter hstep with ⟨rfl, hcnt⟩ | ⟨hne, hcnt⟩
  · have hlt := (List.getElem?_eq_some_iff.mp hr).1
    have hnot : e.1 ∉ completed job c.task := fun hm => hold (mem_completed.mp hm).2
    simp only [hcnt, counted, completed_update_finished hlt, Finset.sum_insert hnot, rangeBytes_eq hr] at hi ⊢
    cases hp : job.progress
    · simpa [hp] using hi
    · simp only [hp, if_true, Nat.mod_mod] at hi ⊢
      rw [Nat.add_mod, hi, ← Nat.add_mod]
      congr 1
      omega
  · simp only [hcnt, counted, completed_update_of_ne hold hne] at hi ⊢
    exact hi

lemma run_counter {s : Shared} {c : Tasks Shared Phase} {moves : List (ℕ × Move)}
    (h : run (step job mode) (start s) moves = some c) :
    c.shared.counter % u64Size = (s.counter + counted job c.task) % u64Size := by
  refine run_invariant
    (I := fun c => c.shared.counter % u64Size = (s.counter + counted job c.task) % u64Size)
    (fun _ _ _ => counter_step) ?_ h
  have he : completed job (start s).task = ∅ := by
    ext i
    simp [mem_completed, start]
  change s.counter % u64Size = (s.counter + counted job (start s).task) % u64Size
  simp [counted, he]

end Counter

section Failure

/-- The system call that move `m` of range `i` makes in state `c` fails. -/
def CallFails (job : RangeJob) (c : Tasks Shared Phase) (i : ℕ) (m : Move) : Prop :=
  ∃ r answer error, job.ranges[i]? = some r ∧ m = .kernel answer ∧
    ((∃ filled buf, c.task i = .reading filled buf ∧
        readPass job.input.directIoActive (c.shared.disk job.input.file) (r.byteOffset + filled)
          (r.available job.dataLen - filled) answer = .error error) ∨
      ∃ written buf, c.task i = .writing written buf ∧
        writePass job.output.directIoActive (c.shared.disk job.output.file) (r.byteOffset + written)
          (buf.drop written) answer = .error error)

/-- Some read or write of range `i` fails in the course of `moves`. -/
def RangeFails (job : RangeJob) (mode : Concurrency) (s : Shared) (moves : List (ℕ × Move)) (i : ℕ) : Prop :=
  ∃ es m fs c, moves = es ++ (i, m) :: fs ∧ run (step job mode) (start s) es = some c ∧ CallFails job c i m

def Phase.isFailed : Phase → Bool
  | .failed _ _ => true
  | _ => false

lemma rangeStep_not_failed {r : SectorRange} {s s' : Shared} {t t' : Phase} {m : Move}
    (h : RangeStep job r s t m s' t') : t.isFailed = false := by
  cases h <;> rfl

lemma rangeStep_failed_iff {r : SectorRange} {c : Tasks Shared Phase} {s' : Shared} {t' : Phase} {i : ℕ} {m : Move}
    (hr : job.ranges[i]? = some r) (h : RangeStep job r c.shared (c.task i) m s' t') :
    t'.isFailed = true ↔ CallFails job c i m := by
  constructor
  · intro hf
    generalize ht : c.task i = t at h
    cases h with
    | readFault he => exact ⟨r, _, _, hr, rfl, Or.inl ⟨_, _, ht, he⟩⟩
    | writeFault he => exact ⟨r, _, _, hr, rfl, Or.inr ⟨_, _, ht, he⟩⟩
    | _ => cases hf
  · rintro ⟨r', answer, error, hr', rfl, ⟨filled, buf, ht, he⟩ | ⟨written, buf, ht, he⟩⟩
    · rw [hr] at hr'
      cases hr'
      rw [ht] at h
      cases h with
      | readFault _ => rfl
      | readSome hok _ => rw [he] at hok; cases hok
      | readLast hok _ => rw [he] at hok; cases hok
    · rw [hr] at hr'
      cases hr'
      rw [ht] at h
      cases h with
      | writeFault _ => rfl
      | writeSome hok _ => rw [he] at hok; cases hok
      | writeLast hok _ => rw [he] at hok; cases hok

lemma rangeFails_concat {s : Shared} {moves : List (ℕ × Move)} {e : ℕ × Move} {c : Tasks Shared Phase} {i : ℕ}
    (h : run (step job mode) (start s) moves = some c) :
    RangeFails job mode s (moves ++ [e]) i ↔
      RangeFails job mode s moves i ∨ e.1 = i ∧ CallFails job c i e.2 := by
  constructor
  · rintro ⟨es, m, fs, c', heq, hrun, hfail⟩
    rcases List.eq_nil_or_concat fs with rfl | ⟨fs, f, rfl⟩
    · obtain ⟨rfl, he⟩ := List.append_inj' heq rfl
      cases he
      rw [h] at hrun
      cases hrun
      exact Or.inr ⟨rfl, hfail⟩
    · rw [List.concat_eq_append, ← List.cons_append, ← List.append_assoc] at heq
      exact Or.inl ⟨es, m, fs, c', (List.append_inj' heq rfl).1, hrun, hfail⟩
  · rintro (⟨es, m, fs, c', rfl, hrun, hfail⟩ | ⟨rfl, hfail⟩)
    · exact ⟨es, m, fs ++ [e], c', by simp, hrun, hfail⟩
    · exact ⟨moves, e.2, [], c, rfl, h, hfail⟩

theorem isFailed_iff_rangeFails {s : Shared} {moves : List (ℕ × Move)} {c : Tasks Shared Phase}
    (h : run (step job mode) (start s) moves = some c) (i : ℕ) :
    (c.task i).isFailed = true ↔ RangeFails job mode s moves i := by
  induction moves using List.reverseRecOn generalizing c with
  | nil =>
    cases h
    constructor
    · intro hf
      cases hf
    · rintro ⟨es, m, fs, c', heq, -, -⟩
      simp at heq
  | append_singleton moves e ih =>
    obtain ⟨u, hu, hstep⟩ := run_concat_some _ h
    rw [rangeFails_concat hu, ← ih hu]
    obtain ⟨-, r, s', t', hr, hrs, rfl⟩ := step_some hstep
    by_cases hie : i = e.1
    · subst hie
      simp only [Function.update_self, rangeStep_failed_iff hr hrs, rangeStep_not_failed hrs, true_and,
        Bool.false_eq_true, false_or]
    · simp only [Function.update_of_ne hie, Ne.symm hie, false_and, or_false]

end Failure

/-- In `Fixed` mode the scoped pool has to be built first. -/
def PoolBuilt (mode : Concurrency) (schedule : Schedule) : Prop :=
  match mode, schedule.poolError with
  | .fixed _, some _ => False
  | _, _ => True

section Returned

variable {schedule : Schedule} {s s' : Shared} {c : Tasks Shared Phase} {r : Except Panic (Except IoError Unit)}

lemma processRanges_cases (h : processRanges job mode schedule s = some (r, s')) :
    (¬ PoolBuilt mode schedule ∧ (∃ e, r = .ok (.error e)) ∧ s' = s) ∨
      (PoolBuilt mode schedule ∧ ∃ c, run (step job mode) (start s) schedule.moves = some c ∧
        outcome job c schedule.reported = some r ∧ s' = c.shared) := by
  unfold processRanges at h
  split at h
  · rename_i k e he
    cases h
    exact Or.inl ⟨by simp [PoolBuilt, he], ⟨e, rfl⟩, rfl⟩
  · rename_i hnot
    obtain ⟨c, hrun, h⟩ := Option.bind_eq_some_iff.mp h
    obtain ⟨r', ho, h⟩ := Option.map_eq_some_iff.mp h
    cases h
    refine Or.inr ⟨?_, c, hrun, ho, rfl⟩
    unfold PoolBuilt
    split
    · rename_i he
      exact hnot _ _ rfl he
    · trivial

lemma processRanges_finished (hp : PoolBuilt mode schedule)
    (hrun : run (step job mode) (start s) schedule.moves = some c)
    (hfin : ∀ i < job.ranges.length, c.task i = .finished) :
    processRanges job mode schedule s = some (.ok (.ok ()), c.shared) := by
  have ho : outcome job c schedule.reported = some (.ok (.ok ())) := by
    rw [outcome, if_pos (allFinished_iff.mpr hfin)]
  unfold processRanges
  split
  · rename_i he
    simp [PoolBuilt, he] at hp
  · rw [hrun, Option.bind_some, ho]
    rfl

lemma run_waiting {moves : List (ℕ × Move)} (h : run (step job mode) (start s) moves = some c) :
    ∀ i, job.ranges.length ≤ i → c.task i = .waiting := by
  refine run_invariant (I := fun c => ∀ i, job.ranges.length ≤ i → c.task i = .waiting) ?_ (fun _ _ => rfl) h
  intro c e c' hi hstep i hge
  obtain ⟨-, r, s', t, hr, -, rfl⟩ := step_some hstep
  have hlt := (List.getElem?_eq_some_iff.mp hr).1
  exact (Function.update_of_ne (by omega) _ _).trans (hi i hge)

lemma outcome_cases (hc : Covers job total) {moves : List (ℕ × Move)}
    (hrun : run (step job mode) (start s) moves = some c) {reported : ℕ} (ho : outcome job c reported = some r) :
    (r = .ok (.ok ()) ∧ ∀ i < job.ranges.length, c.task i = .finished) ∨
      ∃ w e, r = .ok (.error e) ∧ reported < job.ranges.length ∧ c.task reported = .failed w e := by
  have hlt : c.task reported ≠ .waiting → reported < job.ranges.length := by
    intro hne
    by_contra hge
    exact hne (run_waiting hrun reported (Nat.le_of_not_lt hge))
  rw [outcome] at ho
  split at ho
  · rename_i hfin
    exact Or.inl ⟨(Option.some.inj ho).symm, allFinished_iff.mp hfin⟩
  · split at ho
    · rename_i p hp
      have hr := List.getElem?_eq_getElem (hlt (by simp [hp]))
      exact ((run_sound hc hrun).not_panicked hr p hp).elim
    · rename_i w e hf
      split at ho
      · exact Or.inr ⟨w, e, (Option.some.inj ho).symm, hlt (by simp [hf]), hf⟩
      · cases ho
    · cases ho

theorem disk_of_processRanges (hc : Covers job total)
    (h : processRanges job mode schedule s = some (.ok (.ok ()), s')) :
    s'.disk = Function.update s.disk job.output.file
      (overwrite (s.disk job.output.file) 0 (reference job total s.disk)) := by
  rcases processRanges_cases h with ⟨-, ⟨e, he⟩, -⟩ | ⟨-, c, hrun, ho, rfl⟩
  · cases he
  · rcases outcome_cases hc hrun ho with ⟨-, hfin⟩ | ⟨w, e, he, -, -⟩
    · exact disk_of_allFinished hc hrun hfin
    · cases he

lemma processRanges_no_panic (hc : Covers job total) (h : processRanges job mode schedule s = some (r, s')) :
    ∃ result, r = .ok result := by
  rcases processRanges_cases h with ⟨-, ⟨e, rfl⟩, -⟩ | ⟨-, c, hrun, ho, -⟩
  · exact ⟨_, rfl⟩
  · rcases outcome_cases hc hrun ho with ⟨rfl, -⟩ | ⟨w, e, rfl, -, -⟩ <;> exact ⟨_, rfl⟩

end Returned

end NocapCrypt.Worker
