import Mathlib

/-! Commands over a state that may stop early: inversion of a finished run, and pre- and postconditions, also
for computations that only return a value or an error. -/

namespace NocapCrypt.Library.Commands

open EStateM

variable {ε σ α β : Type}

lemma bind_eq_ok {x : EStateM ε σ α} {f : α → EStateM ε σ β} {s s' : σ} {b : β} :
    (x >>= f) s = .ok b s' ↔ ∃ a s₁, x s = .ok a s₁ ∧ f a s₁ = .ok b s' := by
  change EStateM.bind x f s = _ ↔ _
  rw [EStateM.bind]
  cases x s with
  | ok a s₁ =>
    constructor
    · intro h
      exact ⟨a, s₁, rfl, h⟩
    · rintro ⟨a', s₂, h, hf⟩
      cases h
      exact hf
  | error e s₁ =>
    constructor
    · intro h
      cases h
    · rintro ⟨a', s₂, h, -⟩
      cases h

lemma bind_ok {x : EStateM ε σ α} {f : α → EStateM ε σ β} {s s₁ : σ} {a : α} (h : x s = .ok a s₁) :
    (x >>= f) s = f a s₁ := by
  change EStateM.bind x f s = _
  rw [EStateM.bind, h]

lemma bind_error {x : EStateM ε σ α} {f : α → EStateM ε σ β} {s s₁ : σ} {e : ε} (h : x s = .error e s₁) :
    (x >>= f) s = .error e s₁ := by
  change EStateM.bind x f s = _
  rw [EStateM.bind, h]

lemma pure_eq_ok {s s' : σ} {a b : α} : (pure a : EStateM ε σ α) s = .ok b s' ↔ a = b ∧ s = s' := by
  change EStateM.Result.ok a s = .ok b s' ↔ _
  rw [EStateM.Result.ok.injEq]

lemma throw_ne_ok {s s' : σ} {e : ε} {b : α} : (throw e : EStateM ε σ α) s ≠ .ok b s' := by
  intro h
  cases h

/-- `c` keeps the state invariant `I`, returns only values that satisfy `Q` and stops early only with
exceptions that satisfy `E`. -/
def Ensures (I : σ → Prop) (E : ε → Prop) (c : EStateM ε σ α) (Q : α → Prop) : Prop :=
  ∀ s, I s → match c s with
    | .ok a s' => I s' ∧ Q a
    | .error e s' => I s' ∧ E e

namespace Ensures

variable {I : σ → Prop} {E : ε → Prop} {Q : α → Prop}

lemma pure {a : α} (h : Q a) : Ensures I E (pure a : EStateM ε σ α) Q := fun _ hs => ⟨hs, h⟩

lemma throw {e : ε} (h : E e) : Ensures I E (throw e : EStateM ε σ α) Q := fun _ hs => ⟨hs, h⟩

lemma bind {x : EStateM ε σ α} {f : α → EStateM ε σ β} {R : β → Prop} (hx : Ensures I E x Q)
    (hf : ∀ a, Q a → Ensures I E (f a) R) : Ensures I E (x >>= f) R := by
  intro s hs
  have h := hx s hs
  cases hr : x s with
  | ok a s₁ =>
    rw [hr] at h
    rw [bind_ok hr]
    exact hf a h.2 s₁ h.1
  | error e s₁ =>
    rw [hr] at h
    rw [bind_error hr]
    exact h

lemma imp {Q' : α → Prop} {c : EStateM ε σ α} (h : Ensures I E c Q) (hq : ∀ a, Q a → Q' a) :
    Ensures I E c Q' := by
  intro s hs
  have hc := h s hs
  cases hr : c s with
  | ok a s₁ =>
    rw [hr] at hc
    exact ⟨hc.1, hq a hc.2⟩
  | error e s₁ =>
    rw [hr] at hc
    exact hc

lemma weaken {E' : ε → Prop} {c : EStateM ε σ α} (h : Ensures I E c Q) (he : ∀ e, E e → E' e) :
    Ensures I E' c Q := by
  intro s hs
  have hc := h s hs
  cases hr : c s with
  | ok a s₁ =>
    rw [hr] at hc
    exact hc
  | error e s₁ =>
    rw [hr] at hc
    exact ⟨hc.1, he e hc.2⟩

lemma anyhow {c : EStateM ε σ α} (h : Ensures I E c Q) : Ensures I (fun _ => True) c Q := h.weaken fun _ _ => trivial

lemma ite {p : Prop} [Decidable p] {c d : EStateM ε σ α} (hc : p → Ensures I E c Q)
    (hd : ¬ p → Ensures I E d Q) : Ensures I E (if p then c else d) Q := by
  split
  · exact hc ‹_›
  · exact hd ‹_›

lemma modify {f : σ → σ} (h : ∀ s, I s → I (f s)) : Ensures I E (modify f : EStateM ε σ PUnit) fun _ => True :=
  fun s hs => ⟨h s hs, trivial⟩

lemma query {c : EStateM ε σ α} (h : ∀ s, I s → ∃ a, c s = .ok a s ∧ Q a) : Ensures I E c Q := by
  intro s hs
  obtain ⟨a, hc, hq⟩ := h s hs
  rw [hc]
  exact ⟨hs, hq⟩

end Ensures

/-- `x` is a value that satisfies `Q` or an error that satisfies `E`. -/
def Yields (E : ε → Prop) (x : Except ε α) (Q : α → Prop) : Prop :=
  match x with
  | .ok a => Q a
  | .error e => E e

namespace Yields

variable {E : ε → Prop} {Q : α → Prop} {x : Except ε α}

lemma bind {f : α → Except ε β} {R : β → Prop} (hx : Yields E x Q) (hf : ∀ a, Q a → Yields E (f a) R) :
    Yields E (x >>= f) R := by
  cases x with
  | ok a => exact hf a hx
  | error e => exact hx

lemma map {f : α → β} {R : β → Prop} (hx : Yields E x Q) (hf : ∀ a, Q a → R (f a)) : Yields E (f <$> x) R := by
  cases x with
  | ok a => exact hf a hx
  | error e => exact hx

lemma any (x : Except ε α) : Yields (fun _ => True) x fun _ => True := by
  cases x <;> trivial

lemma of_ok {a : α} (hx : Yields E x Q) (h : x = .ok a) : Q a := by
  subst h
  exact hx

lemma of_error {e : ε} (hx : Yields E x Q) (h : x = .error e) : E e := by
  subst h
  exact hx

end Yields

/-- From a state with `I`, `c` stops early with an exception in `E` and `I` still true, or it goes on from a
state with `I` as one of the commands in `D`. -/
def Reaches (I : σ → Prop) (E : ε → Prop) (c : EStateM ε σ α) (D : EStateM ε σ α → Prop) : Prop :=
  ∀ s, I s → (∃ e s', c s = .error e s' ∧ I s' ∧ E e) ∨ ∃ d s', D d ∧ I s' ∧ c s = d s'

namespace Reaches

variable {I : σ → Prop} {E : ε → Prop} {Q : α → Prop}

lemma here {c : EStateM ε σ α} {D : EStateM ε σ α → Prop} (h : D c) : Reaches I E c D :=
  fun s hs => Or.inr ⟨c, s, h, hs, rfl⟩

lemma imp {c : EStateM ε σ α} {D D' : EStateM ε σ α → Prop} (h : Reaches I E c D) (hd : ∀ d, D d → D' d) :
    Reaches I E c D' := by
  intro s hs
  rcases h s hs with hstop | ⟨d, s', hD, hs', he⟩
  · exact Or.inl hstop
  · exact Or.inr ⟨d, s', hd d hD, hs', he⟩

lemma bind {x : EStateM ε σ α} {f : α → EStateM ε σ β} {D : EStateM ε σ β → Prop} (hx : Ensures I E x Q)
    (hf : ∀ a, Q a → Reaches I E (f a) D) : Reaches I E (x >>= f) D := by
  intro s hs
  have h := hx s hs
  cases hr : x s with
  | ok a s₁ =>
    rw [hr] at h
    rw [bind_ok hr]
    exact hf a h.2 s₁ h.1
  | error e s₁ =>
    rw [hr] at h
    rw [bind_error hr]
    exact Or.inl ⟨e, s₁, rfl, h⟩

end Reaches

end NocapCrypt.Library.Commands
