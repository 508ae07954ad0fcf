import NocapCrypt.Library.Commands

/-! Two runs side by side: what holds of the ends of two commands that start in related states. -/

namespace NocapCrypt.Library.Relational

open NocapCrypt.Library.Commands EStateM

variable {ε σ τ α β α' β' : Type}

/-- Both ends return, with `Q`, or both stop early, with `E`. -/
def Ends (E : ε → σ → ε → τ → Prop) (Q : α → σ → β → τ → Prop) :
    EStateM.Result ε σ α → EStateM.Result ε τ β → Prop
  | .ok a s, .ok b t => Q a s b t
  | .error e s, .error f t => E e s f t
  | .ok _ _, .error _ _ | .error _ _, .ok _ _ => False

def Agree (E : ε → σ → ε → τ → Prop) (R : σ → τ → Prop) (c : EStateM ε σ α) (d : EStateM ε τ β)
    (Q : α → σ → β → τ → Prop) : Prop :=
  ∀ s t, R s t → Ends E Q (c s) (d t)

namespace Agree

variable {E : ε → σ → ε → τ → Prop} {R R' : σ → τ → Prop} {c : EStateM ε σ α} {d : EStateM ε τ β}
  {Q Q' : α → σ → β → τ → Prop}

lemma pure {a : α} {b : β} (h : ∀ s t, R s t → Q a s b t) :
    Agree E R (pure a : EStateM ε σ α) (pure b : EStateM ε τ β) Q := fun s t hR => h s t hR

lemma throw {e f : ε} (h : ∀ s t, R s t → E e s f t) :
    Agree E R (throw e : EStateM ε σ α) (throw f : EStateM ε τ β) Q := fun s t hR => h s t hR

lemma modify {f : σ → σ} {g : τ → τ} {Q : PUnit → σ → PUnit → τ → Prop}
    (h : ∀ s t, R s t → Q ⟨⟩ (f s) ⟨⟩ (g t)) :
    Agree E R (modify f : EStateM ε σ PUnit) (modify g : EStateM ε τ PUnit) Q := fun s t hR => h s t hR

lemma query (h : ∀ s t, R s t → ∃ a b, c s = .ok a s ∧ d t = .ok b t ∧ Q a s b t) : Agree E R c d Q := by
  intro s t hR
  obtain ⟨a, b, hc, hd, hQ⟩ := h s t hR
  rw [hc, hd]
  exact hQ

lemma imp (h : Agree E R c d Q) (hR : ∀ s t, R' s t → R s t) (hQ : ∀ a s b t, Q a s b t → Q' a s b t) :
    Agree E R' c d Q' := by
  intro s t hs
  have hcd := h s t (hR s t hs)
  cases hc : c s with
  | ok a s' =>
    cases hd : d t with
    | ok b t' =>
      rw [hc, hd] at hcd
      exact hQ a s' b t' hcd
    | error f t' =>
      rw [hc, hd] at hcd
      exact hcd
  | error e s' =>
    cases hd : d t with
    | ok b t' =>
      rw [hc, hd] at hcd
      exact hcd
    | error f t' =>
      rw [hc, hd] at hcd
      exact hcd

lemma assuming {p : Prop} (h : p → Agree E R c d Q) : Agree E (fun s t => p ∧ R s t) c d Q :=
  fun s t hs => h hs.1 s t hs.2

lemma bind {f : α → EStateM ε σ α'} {g : β → EStateM ε τ β'} {S : α' → σ → β' → τ → Prop}
    (h : Agree E R c d Q) (hfg : ∀ a b, Agree E (fun s t => Q a s b t) (f a) (g b) S) :
    Agree E R (c >>= f) (d >>= g) S := by
  intro s t hR
  have hcd := h s t hR
  cases hc : c s with
  | ok a s' =>
    rw [bind_ok hc]
    cases hd : d t with
    | ok b t' =>
      rw [hc, hd] at hcd
      rw [bind_ok hd]
      exact hfg a b s' t' hcd
    | error e t' =>
      rw [hc, hd] at hcd
      exact hcd.elim
  | error e s' =>
    rw [bind_error hc]
    cases hd : d t with
    | ok b t' =>
      rw [hc, hd] at hcd
      exact hcd.elim
    | error e' t' =>
      rw [hc, hd] at hcd
      rw [bind_error hd]
      exact hcd

lemma ite {p : Prop} [Decidable p] {c' : EStateM ε σ α} {d' : EStateM ε τ β} (hc : p → Agree E R c d Q)
    (hd : ¬ p → Agree E R c' d' Q) : Agree E R (if p then c else c') (if p then d else d') Q := by
  split
  · exact hc ‹_›
  · exact hd ‹_›

end Agree

end NocapCrypt.Library.Relational
