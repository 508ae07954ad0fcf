import Mathlib

/-! Runs of partial step functions, and families of tasks that share one state. -/

namespace NocapCrypt.Library.Runs

section Run

variable {S E : Type} (step : S → E → Option S)

def run : S → List E → Option S
  | s, [] => some s
  | s, e :: es => (step s e).bind fun s' => run s' es

@[simp] lemma run_nil (s : S) : run step s [] = some s := rfl

lemma run_cons (s : S) (e : E) (es : List E) :
    run step s (e :: es) = (step s e).bind fun s' => run step s' es := rfl

lemma run_append (s : S) (es fs : List E) :
    run step s (es ++ fs) = (run step s es).bind fun s' => run step s' fs := by
  induction es generalizing s with
  | nil => rfl
  | cons e es ih =>
    rw [List.cons_append, run_cons, run_cons]
    cases step s e with
    | none => rfl
    | some s' => exact ih s'

lemma run_append_some {s t : S} {es fs : List E} (h : run step s (es ++ fs) = some t) :
    ∃ u, run step s es = some u ∧ run step u fs = some t := by
  rw [run_append] at h
  exact Option.bind_eq_some_iff.mp h

lemma run_concat_some {s t : S} {es : List E} {e : E} (h : run step s (es ++ [e]) = some t) :
    ∃ u, run step s es = some u ∧ step u e = some t := by
  obtain ⟨u, hu, he⟩ := run_append_some step h
  rw [run_cons] at he
  obtain ⟨t', ht, he⟩ := Option.bind_eq_some_iff.mp he
  rw [run_nil] at he
  exact ⟨u, hu, ht.trans he⟩

variable {step}

theorem run_invariant_of {C : E → Prop} {I : S → Prop}
    (hstep : ∀ s e s', C e → I s → step s e = some s' → I s')
    {s t : S} {es : List E} (hc : ∀ e ∈ es, C e) (hs : I s) (h : run step s es = some t) : I t := by
  induction es generalizing s with
  | nil => exact Option.some.inj h ▸ hs
  | cons e es ih =>
    obtain ⟨s', he, h⟩ := Option.bind_eq_some_iff.mp h
    exact ih (fun e he => hc e (List.mem_cons_of_mem _ he)) (hstep s e s' (hc e List.mem_cons_self) hs he) h

theorem run_invariant {I : S → Prop} (hstep : ∀ s e s', I s → step s e = some s' → I s')
    {s t : S} {es : List E} (hs : I s) (h : run step s es = some t) : I t :=
  run_invariant_of (C := fun _ => True) (fun s e s' _ => hstep s e s') (fun _ _ => trivial) hs h

theorem run_relation {R : S → S → Prop} (hrefl : ∀ s, R s s) (htrans : ∀ s t u, R s t → R t u → R s u)
    (hstep : ∀ s e s', step s e = some s' → R s s') {s t : S} {es : List E}
    (h : run step s es = some t) : R s t := by
  refine run_invariant (I := R s) ?_ (hrefl s) h
  intro u e u' hu he
  exact htrans _ _ _ hu (hstep u e u' he)

theorem run_length_le {I : S → Prop} {m : S → ℕ} (hI : ∀ s e s', I s → step s e = some s' → I s')
    (hstep : ∀ s e s', I s → step s e = some s' → m s' < m s)
    {s t : S} {es : List E} (hs : I s) (h : run step s es = some t) : es.length + m t ≤ m s := by
  induction es generalizing s with
  | nil => simp [Option.some.inj h]
  | cons e es ih =>
    obtain ⟨s', he, h⟩ := Option.bind_eq_some_iff.mp h
    have hh := ih (hI s e s' hs he) h
    have hm := hstep s e s' hs he
    rw [List.length_cons]
    omega

/-- Every step that the events take from `s` on meets `P`. -/
def Along (step : S → E → Option S) (P : S → E → Prop) : S → List E → Prop
  | _, [] => True
  | s, e :: es => P s e ∧ ∀ s', step s e = some s' → Along step P s' es

lemma along_cons {P : S → E → Prop} {s s' : S} {e : E} (es : List E) (h : step s e = some s') :
    Along step P s (e :: es) ↔ P s e ∧ Along step P s' es := by
  simp [Along, h]

lemma along_stuck {P : S → E → Prop} {s : S} {e : E} (es : List E) (h : step s e = none) :
    Along step P s (e :: es) ↔ P s e := by
  simp [Along, h]

instance Along.decide (P : S → E → Prop) [∀ s e, Decidable (P s e)] : ∀ s es, Decidable (Along step P s es)
  | _, [] => isTrue trivial
  | s, e :: es =>
    match h : step s e with
    | none => decidable_of_iff _ (along_stuck es h).symm
    | some s' =>
      have := Along.decide P s' es
      decidable_of_iff _ (along_cons es h).symm

lemma Along.mono {P Q : S → E → Prop} (hPQ : ∀ s e s', step s e = some s' → P s e → Q s e) {s t : S} {es : List E}
    (h : Along step P s es) (hrun : run step s es = some t) : Along step Q s es := by
  induction es generalizing s with
  | nil => trivial
  | cons e es ih =>
    obtain ⟨s', he, hrun⟩ := Option.bind_eq_some_iff.mp hrun
    refine ⟨hPQ s e s' he h.1, ?_⟩
    intro s'' he'
    rw [he] at he'
    cases he'
    exact ih (h.2 s' he) hrun

theorem run_invariant_along {P : S → E → Prop} {I : S → Prop}
    (hstep : ∀ s e s', P s e → I s → step s e = some s' → I s') {s t : S} {es : List E}
    (hp : Along step P s es) (hs : I s) (h : run step s es = some t) : I t := by
  induction es generalizing s with
  | nil => exact Option.some.inj h ▸ hs
  | cons e es ih =>
    obtain ⟨s', he, h⟩ := Option.bind_eq_some_iff.mp h
    exact ih (hp.2 s' he) (hstep s e s' hp.1 hs he) h

end Run

section Simulation

variable {S T E : Type} {step : S → E → Option S} {step' : T → E → Option T} {R : S → T → Prop}

theorem run_simulates (hstep : ∀ s t e, R s t → Option.Rel R (step s e) (step' t e)) {s : S} {t : T} (h : R s t)
    (es : List E) : Option.Rel R (run step s es) (run step' t es) := by
  induction es generalizing s t with
  | nil => exact .some h
  | cons e es ih =>
    have he := hstep s t e h
    rw [run_cons, run_cons]
    cases hs : step s e with
    | none =>
      cases ht : step' t e with
      | none => exact .none
      | some t' =>
        rw [hs, ht] at he
        cases he
    | some s' =>
      cases ht : step' t e with
      | none =>
        rw [hs, ht] at he
        cases he
      | some t' =>
        rw [hs, ht] at he
        cases he with
        | some h' => exact ih h'

end Simulation

/-! Tasks `0, 1, 2, ...` with private states `τ` over a shared state `σ`. -/

structure Tasks (σ τ : Type) where
  shared : σ
  task : ℕ → τ

section Tasks

variable {σ τ μ : Type}

/-- Task `i` makes move `m`; only the shared state and the state of task `i` change. -/
def Tasks.move (act : ℕ → σ → τ → μ → Option (σ × τ)) (c : Tasks σ τ) (i : ℕ) (m : μ) :
    Option (Tasks σ τ) :=
  (act i c.shared (c.task i) m).map fun r => ⟨r.1, Function.update c.task i r.2⟩

variable {act : ℕ → σ → τ → μ → Option (σ × τ)}

lemma Tasks.move_some {c c' : Tasks σ τ} {i : ℕ} {m : μ} (h : c.move act i m = some c') :
    ∃ s t, act i c.shared (c.task i) m = some (s, t) ∧ c' = ⟨s, Function.update c.task i t⟩ := by
  obtain ⟨⟨s, t⟩, ha, rfl⟩ := Option.map_eq_some_iff.mp h
  exact ⟨s, t, ha, rfl⟩

/-- One move under a global invariant `G` and a private one `P`: the mover restores both, and no move
of another task disturbs a private one. -/
theorem Tasks.move_invariant {G : σ → Prop} {P : ℕ → σ → τ → Prop}
    (own : ∀ i s t m s' t', G s → P i s t → act i s t m = some (s', t') → G s' ∧ P i s' t')
    (other : ∀ i j s t u m s' t', i ≠ j → G s → P i s t → P j s u → act i s t m = some (s', t') → P j s' u)
    {c c' : Tasks σ τ} {i : ℕ} {m : μ} (hc : G c.shared ∧ ∀ j, P j c.shared (c.task j))
    (h : c.move act i m = some c') : G c'.shared ∧ ∀ j, P j c'.shared (c'.task j) := by
  obtain ⟨s, t, ha, rfl⟩ := Tasks.move_some h
  obtain ⟨hG, hP⟩ := own i _ _ m s t hc.1 (hc.2 i) ha
  refine ⟨hG, ?_⟩
  intro j
  by_cases hj : j = i
  · subst hj
    simpa using hP
  · simpa [hj] using other i j _ _ _ m s t (Ne.symm hj) hc.1 (hc.2 i) (hc.2 j) ha

end Tasks

section Linked

variable {σ σ' τ τ' μ : Type} {R : σ → σ' → Prop} {P : τ → τ' → Prop}

/-- Two families of tasks, with their shared states in relation `R` and their private ones in relation `P`. -/
def Tasks.Linked (R : σ → σ' → Prop) (P : τ → τ' → Prop) (c : Tasks σ τ) (d : Tasks σ' τ') : Prop :=
  R c.shared d.shared ∧ ∀ i, P (c.task i) (d.task i)

variable {act : ℕ → σ → τ → μ → Option (σ × τ)} {act' : ℕ → σ' → τ' → μ → Option (σ' × τ')}

theorem Tasks.move_simulates
    (hact : ∀ i s t p q m, R s t → P p q →
      Option.Rel (fun a b => R a.1 b.1 ∧ P a.2 b.2) (act i s p m) (act' i t q m))
    {c : Tasks σ τ} {d : Tasks σ' τ'} (h : Linked R P c d) (i : ℕ) (m : μ) :
    Option.Rel (Linked R P) (c.move act i m) (d.move act' i m) := by
  have hmove := hact i _ _ _ _ m h.1 (h.2 i)
  rw [Tasks.move, Tasks.move]
  cases hc : act i c.shared (c.task i) m with
  | none =>
    cases hd : act' i d.shared (d.task i) m with
    | none => exact .none
    | some b =>
      rw [hc, hd] at hmove
      cases hmove
  | some a =>
    cases hd : act' i d.shared (d.task i) m with
    | none =>
      rw [hc, hd] at hmove
      cases hmove
    | some b =>
      rw [hc, hd] at hmove
      cases hmove with
      | some hab =>
        refine .some ⟨hab.1, ?_⟩
        intro j
        by_cases hj : j = i
        · subst hj
          simpa only [Function.update_self] using hab.2
        · simpa only [Function.update_of_ne hj] using h.2 j

end Linked

end NocapCrypt.Library.Runs
