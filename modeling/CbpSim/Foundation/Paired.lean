/-
  Foundation/Paired.lean --- two fallible computations side by side.

  `Paired X R x y` compares a computation with another one that may stop for
  reasons of its own: both return values that are in `R`, or one of them stopped
  for a reason that `X` excuses, or the two reasons go together.  A function gets
  one such lemma; its callers compose them with the rules below.
-/
import CbpSim.Foundation.Outcome

set_option autoImplicit false

namespace CbpSim.Foundation

variable {ε ε' α α' β β' σ σ' : Type}

/-- The reasons that excuse the left side, those that excuse the right side, and the
pairs of reasons that go together. -/
structure Excuses (ε ε' : Type) where
  left : ε → Prop
  right : ε' → Prop
  both : ε → ε' → Prop

/-- Nothing is excused: the two sides stop for the same reason. -/
def Excuses.none : Excuses ε ε where
  left _ := False
  right _ := False
  both := Eq

/-- `x` and `y` return values of `R`, up to the excuses. -/
def Paired (X : Excuses ε ε') (R : α → β → Prop) (x : Except ε α) (y : Except ε' β) : Prop :=
  match x, y with
  | .ok a, .ok b => R a b
  | .error e, .ok _ => X.left e
  | .ok _, .error e' => X.right e'
  | .error e, .error e' => X.left e ∨ X.right e' ∨ X.both e e'

variable {X : Excuses ε ε'} {R S : α → β → Prop} {x : Except ε α} {y : Except ε' β}

@[simp] theorem paired_ok {a : α} {b : β} : Paired X R (.ok a) (.ok b) ↔ R a b := Iff.rfl

theorem Paired.error {e : ε} {e' : ε'} (h : X.both e e') : Paired X R (.error e) (.error e') :=
  Or.inr (Or.inr h)

/-- A computation beside itself. -/
theorem Paired.refl (x : Except ε α) : Paired .none Eq x x := by
  cases x with
  | ok a => rfl
  | error e => exact Paired.error rfl

/-- What both sides return is related. -/
theorem Paired.of_ok (h : Paired X R x y) {a : α} {b : β} (hx : x = .ok a) (hy : y = .ok b) :
    R a b := by
  subst hx hy
  exact h

/-- Beside a value, a computation ends in what is related to it. -/
theorem Paired.of_ends {b : β} (h : Ends x X.left fun a => R a b) :
    Paired X R x (.ok b : Except ε' β) := by
  cases x with
  | ok a => exact h
  | error e => exact h

/-- Without excuses the right side returns when the left side does. -/
theorem Paired.exists_ok {y : Except ε β} (h : Paired .none R x y) {a : α} (hx : x = .ok a) :
    ∃ b, y = .ok b ∧ R a b := by
  subst hx
  cases y with
  | ok b => exact ⟨b, rfl, h⟩
  | error e => exact False.elim h

/-- Without excuses the right side stops where the left side does. -/
theorem Paired.eq_error {y : Except ε β} (h : Paired .none R x y) {e : ε} (hx : x = .error e) :
    y = .error e := by
  subst hx
  cases y with
  | ok b => exact False.elim h
  | error e' =>
    rcases h with h | h | h
    · exact False.elim h
    · exact False.elim h
    · rw [show e = e' from h]

/-- The rule of consequence. -/
theorem Paired.imp (h : Paired X R x y) (hRS : ∀ a b, R a b → S a b) : Paired X S x y := by
  cases x with
  | ok a =>
    cases y with
    | ok b => exact hRS a b h
    | error e' => exact h
  | error e =>
    cases y with
    | ok b => exact h
    | error e' => exact h

/-- The rule of composition. -/
theorem Paired.bind {T : α' → β' → Prop} {f : α → Except ε α'} {g : β → Except ε' β'}
    (h : Paired X R x y) (hfg : ∀ a b, R a b → Paired X T (f a) (g b)) :
    Paired X T (x >>= f) (y >>= g) := by
  cases x with
  | ok a =>
    cases y with
    | ok b => exact hfg a b h
    | error e' =>
      -- the right side has stopped, and is excused whatever the left side does now
      change Paired X T (f a) (.error e')
      cases f a with
      | ok a' => exact h
      | error e => exact Or.inr (Or.inl h)
  | error e =>
    cases y with
    | ok b =>
      change Paired X T (.error e) (g b)
      cases g b with
      | ok b' => exact h
      | error e' => exact Or.inl h
    | error e' => exact h

/-- The rule of the conditional, for one condition. -/
theorem Paired.ite {c : Prop} [Decidable c] {x' : Except ε α} {y' : Except ε' β}
    (h : c → Paired X R x y) (h' : ¬ c → Paired X R x' y') :
    Paired X R (if c then x else x') (if c then y else y') := by
  split
  · exact h ‹c›
  · exact h' ‹¬ c›

/-- A side that does what the other one does, and changes the value. -/
theorem Paired.of_map {f : α → β} {x : Except ε α} {y : Except ε β} (heq : y = x.map f)
    (hR : ∀ a, x = .ok a → R a (f a)) : Paired .none R x y := by
  subst heq
  cases x with
  | ok a => exact hR a rfl
  | error e => exact Paired.error rfl

/-- Two computations that look the same through `f` and `g`. -/
theorem Paired.of_map_eq {γ : Type} {f : α → γ} {g : β → γ} {x : Except ε α} {y : Except ε β}
    (h : x.map f = y.map g) (hR : ∀ a b, x = .ok a → y = .ok b → f a = g b → R a b) :
    Paired .none R x y := by
  cases x with
  | ok a =>
    cases y with
    | ok b => exact hR a b rfl rfl (Except.ok.inj h)
    | error e => cases h
  | error e =>
    cases y with
    | ok b => cases h
    | error e' =>
      cases h
      exact Paired.error rfl

/-- The same reasons, renamed on both sides. -/
theorem Paired.mapError {f : ε → α'} {g : ε → β'} {X : Excuses α' β'} {y : Except ε β}
    (h : Paired .none R x y) (hboth : ∀ e, X.both (f e) (g e)) :
    Paired X R (x.mapError f) (y.mapError g) := by
  cases x with
  | ok a =>
    obtain ⟨b, rfl, hR⟩ := h.exists_ok rfl
    exact hR
  | error e =>
    rw [h.eq_error rfl]
    exact Paired.error (hboth e)

/-- The loop rule: an invariant on both states that a step on each side keeps. -/
theorem Paired.foldlM {step : σ → α → Except ε σ} {step' : σ' → α → Except ε' σ'}
    {I : σ → σ' → Prop} {inputs : List α}
    (kept : ∀ s s' a, a ∈ inputs → I s s' → Paired X I (step s a) (step' s' a)) {s : σ} {s' : σ'}
    (start : I s s') : Paired X I (inputs.foldlM step s) (inputs.foldlM step' s') := by
  induction inputs generalizing s s' with
  | nil => exact start
  | cons a inputs ih =>
    rw [List.foldlM_cons, List.foldlM_cons]
    apply Paired.bind (kept s s' a List.mem_cons_self start)
    intro t t' ht
    apply ih _ ht
    intro u u' b hb
    exact kept u u' b (List.mem_cons_of_mem a hb)

end CbpSim.Foundation
