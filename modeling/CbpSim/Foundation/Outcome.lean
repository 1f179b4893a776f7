/-
  Foundation/Outcome.lean --- how a fallible computation may end.

  `Ends x E Q` is the postcondition of a computation that may abort: a value it
  returns is in `Q`, a reason it stops for is in `E`.  A function gets one such
  lemma; its callers compose them with the rules below and do not open it.
-/
import CbpSim.Foundation.Run

set_option autoImplicit false

namespace CbpSim.Foundation

variable {ε ε' σ α β : Type}

/-- `x` returns a value of `Q`, or stops for a reason of `E`. -/
def Ends (x : Except ε α) (E : ε → Prop) (Q : α → Prop) : Prop :=
  match x with
  | .ok a => Q a
  | .error e => E e

variable {E E' : ε → Prop} {Q R : α → Prop}

@[simp] theorem ends_ok {a : α} : Ends (.ok a) E Q ↔ Q a := Iff.rfl

@[simp] theorem ends_error {e : ε} : Ends (.error e : Except ε α) E Q ↔ E e := Iff.rfl

theorem Ends.of_ok {x : Except ε α} {a : α} (h : Ends x E Q) (hx : x = .ok a) : Q a := by
  subst hx
  exact h

theorem Ends.of_error {x : Except ε α} {e : ε} (h : Ends x E Q) (hx : x = .error e) : E e := by
  subst hx
  exact h

theorem ends_iff {x : Except ε α} :
    Ends x E Q ↔ (∀ a, x = .ok a → Q a) ∧ ∀ e, x = .error e → E e := by
  cases x with
  | ok a => simp
  | error e => simp

/-- The rule of consequence. -/
theorem Ends.mono {x : Except ε α} (h : Ends x E Q) (hE : ∀ e, E e → E' e)
    (hQ : ∀ a, Q a → R a) : Ends x E' R := by
  cases x with
  | ok a => exact hQ a h
  | error e => exact hE e h

theorem Ends.imp {x : Except ε α} (h : Ends x E Q) (hQ : ∀ a, Q a → R a) : Ends x E R :=
  h.mono (fun _ he => he) hQ

/-- What was returned is remembered. -/
theorem Ends.returns {x : Except ε α} (h : Ends x E Q) : Ends x E fun a => x = .ok a := by
  cases x with
  | ok a => rfl
  | error e => exact h

/-- Every reason is admitted. -/
theorem Ends.of_any {x : Except ε α} (hE : ∀ e, E e) : Ends x E fun _ => True := by
  cases x with
  | ok a => trivial
  | error e => exact hE e

/-- The rule of conjunction. -/
theorem Ends.and {x : Except ε α} (h : Ends x E Q) (h' : Ends x E' R) :
    Ends x (fun e => E e ∧ E' e) (fun a => Q a ∧ R a) := by
  cases x with
  | ok a => exact ⟨h, h'⟩
  | error e => exact ⟨h, h'⟩

/-- Two facts about a value, of which the second says why the computation may stop. -/
theorem Ends.and_right {x : Except ε α} (h : Ends x E Q) (h' : Ends x E' R) :
    Ends x E' fun a => Q a ∧ R a :=
  (h.and h').mono (fun _ he => he.2) fun _ ha => ha

/-- The rule of composition. -/
theorem Ends.bind {x : Except ε α} {f : α → Except ε β} {S : β → Prop} (h : Ends x E Q)
    (hf : ∀ a, Q a → Ends (f a) E S) : Ends (x >>= f) E S := by
  cases x with
  | ok a => exact hf a h
  | error e => exact h

/-- The rule of the conditional. -/
theorem Ends.ite {c : Prop} [Decidable c] {x y : Except ε α} (hx : c → Ends x E Q)
    (hy : ¬ c → Ends y E Q) : Ends (if c then x else y) E Q := by
  split
  · exact hx ‹c›
  · exact hy ‹¬ c›

/-- Renaming the reasons. -/
theorem ends_mapError {f : ε → ε'} {E : ε' → Prop} {x : Except ε α} :
    Ends (x.mapError f) E Q ↔ Ends x (fun e => E (f e)) Q := by
  cases x with
  | ok a => exact Iff.rfl
  | error e => exact Iff.rfl

/-- The loop rule along the inputs: an invariant of the inputs so far and the state that
every step keeps, or stops the loop for a reason of `E`. -/
theorem Ends.foldlM_along {step : σ → α → Except ε σ} {I : List α → σ → Prop} {inputs : List α}
    (kept : ∀ done a rest s, done ++ a :: rest = inputs → I done s →
      Ends (step s a) E (I (done ++ [a]))) {s : σ} (start : I [] s) :
    Ends (inputs.foldlM step s) E (I inputs) := by
  have hgo : ∀ rest done s, done ++ rest = inputs → I done s →
      Ends (rest.foldlM step s) E (I inputs) := by
    intro rest
    induction rest with
    | nil =>
      intro done s hinputs hs
      rw [List.append_nil] at hinputs
      exact hinputs ▸ hs
    | cons a rest ih =>
      intro done s hinputs hs
      rw [List.foldlM_cons]
      apply Ends.bind (kept done a rest s hinputs hs)
      intro s' hs'
      apply ih (done ++ [a]) s' _ hs'
      rw [List.append_assoc]
      exact hinputs
  exact hgo inputs [] s rfl start

/-- The loop rule: an invariant that every step keeps, or stops the loop for a
reason of `E`. -/
theorem Ends.foldlM {step : σ → α → Except ε σ} {I : σ → Prop} {inputs : List α}
    (kept : ∀ s a, a ∈ inputs → I s → Ends (step s a) E I) {s : σ} (start : I s) :
    Ends (inputs.foldlM step s) E I := by
  apply Ends.foldlM_along (I := fun _ => I) _ start
  intro done a rest s hinputs
  exact kept s a (hinputs ▸ List.mem_append_right _ List.mem_cons_self)

/-! ## Checking an outcome -/

instance Ends.decidable {x : Except ε α} [DecidablePred E] [DecidablePred Q] :
    Decidable (Ends x E Q) :=
  match x with
  | .ok a => inferInstanceAs (Decidable (Q a))
  | .error e => inferInstanceAs (Decidable (E e))

theorem ends_iff_of_ok {x : Except ε α} :
    Ends x (fun _ => True) Q ↔ ∀ a, x = .ok a → Q a := by
  rw [ends_iff]
  exact and_iff_left fun _ _ => trivial

theorem exists_of_isOk {x : Except ε α} (h : x.isOk = true) : ∃ a, x = .ok a := by
  cases x with
  | ok a => exact ⟨a, rfl⟩
  | error e => cases h

/-- What a computation returns, observed. -/
theorem exists_of_observe {x : Except ε α} {f : α → β} {b : β}
    (h : x.toOption.map f = some b) : ∃ a, x = .ok a ∧ f a = b := by
  cases x with
  | ok a => exact ⟨a, rfl, Option.some.inj h⟩
  | error e => cases h

/-- A computation that stops for a reason that is not admitted. -/
theorem not_runs_of_error {x : Except ε α} (h : Ends x (fun e => ¬ E e) fun _ => False) :
    ¬ ((∀ a, x = .ok a → Q a) ∧ ∀ e, x = .error e → E e) := by
  rintro ⟨-, herror⟩
  cases x with
  | ok a => exact h
  | error e => exact h (herror e rfl)

/-! ## Two computations side by side -/

/-- `x` and `y` return values that are in `R`, or stop for the same reason. -/
def Alike (R : α → β → Prop) (x : Except ε α) (y : Except ε β) : Prop :=
  match x, y with
  | .ok a, .ok b => R a b
  | .error e, .error e' => e = e'
  | _, _ => False

section Alike

variable {σ' γ δ α' : Type} {R : α → β → Prop} {x : Except ε α} {y : Except ε β}

theorem Alike.error (e : ε) : Alike R (.error e) (.error e) := rfl

/-- The rule of composition. -/
theorem Alike.bind {f : α → Except ε γ} {g : β → Except ε δ} {S : γ → δ → Prop} (h : Alike R x y)
    (hfg : ∀ a b, R a b → Alike S (f a) (g b)) : Alike S (x >>= f) (y >>= g) := by
  cases x with
  | ok a =>
    cases y with
    | ok b => exact hfg a b h
    | error e => exact False.elim h
  | error e =>
    cases y with
    | ok b => exact False.elim h
    | error e' => exact h

end Alike

end CbpSim.Foundation
