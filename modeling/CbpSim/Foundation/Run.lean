/-
  Foundation/Run.lean --- runs of a fallible step function.

  A machine here is a step function `σ → α → Except ε σ`: it consumes one input
  and either moves to a new state or aborts.  A run feeds it a list of inputs
  from left to right.  `List.foldlM` is the executable form; this file states
  once how a run decomposes and how an invariant travels along it, so that the
  machines of the development only ever prove what ONE step does.
-/
import Mathlib.Tactic

set_option autoImplicit false

namespace CbpSim.Foundation

variable {ε σ α β : Type}

/-! ## Peeling a computation apart -/

/-- A bind succeeds exactly when both halves do. -/
theorem bind_eq_ok {x : Except ε α} {f : α → Except ε β} {b : β} :
    (x >>= f) = .ok b ↔ ∃ a, x = .ok a ∧ f a = .ok b := by
  cases x with
  | error e => simp [bind, Except.bind]
  | ok a => simp [bind, Except.bind]

/-- A bind aborts in its first half, or in its second half after the first
returned. -/
theorem bind_eq_error {x : Except ε α} {f : α → Except ε β} {e : ε} :
    (x >>= f) = .error e ↔ x = .error e ∨ ∃ a, x = .ok a ∧ f a = .error e := by
  cases x with
  | error e' => simp [bind, Except.bind]
  | ok a => simp [bind, Except.bind]

/-- A computation that has returned feeds its value on. -/
theorem ok_bind {a : α} {f : α → Except ε β} : (Except.ok a >>= f) = f a := rfl

/-- A computation behind a check returns when the check is passed. -/
theorem guard_eq_ok {c : Prop} [Decidable c] {e : ε} {x : Except ε α} {a : α} :
    (if c then .error e else x) = .ok a ↔ ¬ c ∧ x = .ok a := by
  split
  · rename_i hc
    simp [hc]
  · rename_i hc
    simp [hc]

/-- `mapError` returns what the computation returns. -/
theorem mapError_eq_ok {ε' : Type} {f : ε → ε'} {x : Except ε α} {a : α} :
    x.mapError f = .ok a ↔ x = .ok a := by
  cases x with
  | error e => simp [Except.mapError]
  | ok b => simp [Except.mapError]

/-- Two continuations need to agree on what the first half returns only. -/
theorem bind_congr_ok {x : Except ε α} {f g : α → Except ε β}
    (h : ∀ a, x = .ok a → f a = g a) : (x >>= f) = (x >>= g) := by
  cases x with
  | error e => rfl
  | ok a => exact h a rfl

/-! ## Runs -/

/-- `step` takes `s` to `t` on the inputs, aborting nowhere. -/
def Run (step : σ → α → Except ε σ) (s : σ) (inputs : List α) (t : σ) : Prop :=
  inputs.foldlM step s = .ok t

variable {step : σ → α → Except ε σ}

@[simp] theorem run_nil {s t : σ} : Run step s [] t ↔ s = t := by
  simp [Run, pure, Except.pure]

theorem run_cons {s t : σ} {a : α} {inputs : List α} :
    Run step s (a :: inputs) t ↔ ∃ s', step s a = .ok s' ∧ Run step s' inputs t := by
  simp only [Run, List.foldlM_cons, bind_eq_ok]

theorem run_append {s t : σ} {front back : List α} :
    Run step s (front ++ back) t ↔ ∃ s', Run step s front s' ∧ Run step s' back t := by
  simp only [Run, List.foldlM_append, bind_eq_ok]

theorem run_concat {s t : σ} {a : α} {inputs : List α} :
    Run step s (inputs ++ [a]) t ↔ ∃ s', Run step s inputs s' ∧ step s' a = .ok t := by
  simp only [run_append, run_cons, run_nil, exists_eq_right]

/-- A run has one outcome. -/
theorem Run.unique {s t t' : σ} {inputs : List α}
    (h : Run step s inputs t) (h' : Run step s inputs t') : t = t' :=
  Except.ok.inj (h.symm.trans h')

/-- The run rule: what holds of the start and is kept by every step on an input
of the run holds of the end. -/
theorem Run.induct {P : σ → Prop} {s t : σ} {inputs : List α}
    (h : Run step s inputs t) (start : P s)
    (kept : ∀ s a s', a ∈ inputs → P s → step s a = .ok s' → P s') : P t := by
  induction inputs generalizing s with
  | nil => exact run_nil.mp h ▸ start
  | cons a inputs ih =>
    obtain ⟨s', hs, hrest⟩ := run_cons.mp h
    refine ih hrest (kept s a s' List.mem_cons_self start hs) ?_
    intro s a s' ha
    exact kept s a s' (List.mem_cons_of_mem _ ha)

/-- Only the steps on the inputs of a run matter. -/
theorem Run.congr {step' : σ → α → Except ε σ} {s t : σ} {inputs : List α}
    (h : Run step s inputs t) (same : ∀ a ∈ inputs, ∀ s, step' s a = step s a) :
    Run step' s inputs t := by
  induction inputs generalizing s with
  | nil => exact h
  | cons a inputs ih =>
    obtain ⟨s', hs, hrest⟩ := run_cons.mp h
    refine run_cons.mpr ⟨s', ?_, ih hrest fun b hb => same b (List.mem_cons_of_mem _ hb)⟩
    rw [same a List.mem_cons_self, hs]

/-- `P` holds of the state and the input of every step of the run. -/
def EveryStep (step : σ → α → Except ε σ) (s : σ) (inputs : List α) (P : σ → α → Prop) : Prop :=
  ∀ front a back u, inputs = front ++ a :: back → Run step s front u → P u a

@[simp] theorem everyStep_nil {P : σ → α → Prop} {s : σ} : EveryStep step s [] P := by
  intro front a back u heq
  simp at heq

theorem everyStep_cons {P : σ → α → Prop} {s : σ} {a : α} {inputs : List α} :
    EveryStep step s (a :: inputs) P ↔
      P s a ∧ ∀ s', step s a = .ok s' → EveryStep step s' inputs P := by
  constructor
  · intro h
    refine ⟨h [] a inputs s rfl (run_nil.mpr rfl), ?_⟩
    intro s' hs front b back u heq hrun
    exact h (a :: front) b back u (by rw [heq, List.cons_append]) (run_cons.mpr ⟨s', hs, hrun⟩)
  · rintro ⟨hhead, htail⟩ front b back u heq hrun
    cases front with
    | nil =>
      obtain ⟨rfl, rfl⟩ := List.cons.inj heq
      exact run_nil.mp hrun ▸ hhead
    | cons c front =>
      obtain ⟨rfl, rfl⟩ := List.cons.inj heq
      obtain ⟨s', hs, hrun⟩ := run_cons.mp hrun
      exact htail s' hs front b back u rfl hrun

/-- The steps of a front part of the run are steps of the run. -/
theorem EveryStep.front {P : σ → α → Prop} {s : σ} {front back : List α}
    (h : EveryStep step s (front ++ back) P) : EveryStep step s front P := by
  intro front' b back' u heq hrun
  exact h front' b (back' ++ back) u (by rw [heq, List.append_assoc, List.cons_append]) hrun

/-- The run rule for runs whose every step meets a condition. -/
theorem Run.induct_of_every {I : σ → Prop} {P : σ → α → Prop} {s t : σ} {inputs : List α}
    (h : Run step s inputs t) (every : EveryStep step s inputs P) (start : I s)
    (kept : ∀ u a v, I u → P u a → step u a = .ok v → I v) : I t := by
  induction inputs generalizing s with
  | nil => exact run_nil.mp h ▸ start
  | cons a inputs ih =>
    obtain ⟨s', hs, hrest⟩ := run_cons.mp h
    obtain ⟨hhead, htail⟩ := everyStep_cons.mp every
    exact ih hrest (htail s' hs) (kept s a s' start hhead hs)

/-- A list of inputs on which the machine aborts has a first input at which it
does. -/
theorem foldlM_eq_error {s : σ} {inputs : List α} {e : ε} :
    inputs.foldlM step s = .error e ↔
      ∃ front a back u, inputs = front ++ a :: back ∧ Run step s front u ∧
        step u a = .error e := by
  induction inputs generalizing s with
  | nil => simp [pure, Except.pure]
  | cons b inputs ih =>
    rw [List.foldlM_cons, bind_eq_error]
    constructor
    · rintro (h | ⟨s', hs, h⟩)
      · exact ⟨[], b, inputs, s, rfl, run_nil.mpr rfl, h⟩
      · obtain ⟨front, a, back, u, rfl, hrun, herr⟩ := ih.mp h
        exact ⟨b :: front, a, back, u, rfl, run_cons.mpr ⟨s', hs, hrun⟩, herr⟩
    · rintro ⟨front, a, back, u, heq, hrun, herr⟩
      cases front with
      | nil =>
        obtain ⟨rfl, rfl⟩ := List.cons.inj heq
        exact Or.inl (run_nil.mp hrun ▸ herr)
      | cons c front =>
        obtain ⟨rfl, rfl⟩ := List.cons.inj heq
        obtain ⟨s', hs, hrun⟩ := run_cons.mp hrun
        exact Or.inr ⟨s', hs, ih.mpr ⟨front, a, back, u, rfl, hrun, herr⟩⟩

/-! ## Checking a run -/

/-- What is decidable at a step can be checked by following the run. -/
instance EveryStep.decidable {P : σ → α → Prop} [∀ s a, Decidable (P s a)] :
    (s : σ) → (inputs : List α) → Decidable (EveryStep step s inputs P)
  | _, [] => .isTrue everyStep_nil
  | s, a :: inputs =>
    match hs : step s a with
    | .error _ =>
      decidable_of_iff (P s a) (by rw [everyStep_cons]; simp [hs])
    | .ok s' =>
      haveI := EveryStep.decidable (P := P) s' inputs
      decidable_of_iff (P s a ∧ EveryStep step s' inputs P) (by
        rw [everyStep_cons]
        simp [hs])

/-- What a run ends with can be observed by computing it. -/
theorem observe_eq_some {s : σ} {inputs : List α} {f : σ → β} {b : β} :
    (inputs.foldlM step s).toOption.map f = some b ↔ ∃ t, Run step s inputs t ∧ f t = b := by
  unfold Run
  cases inputs.foldlM step s with
  | error e => simp [Except.toOption]
  | ok t => simp [Except.toOption]

/-! ## What holds throughout a run -/

/-- `I` holds in every state that the run passes through, its ends included. -/
def Throughout (step : σ → α → Except ε σ) (s : σ) (inputs : List α) (I : σ → Prop) : Prop :=
  ∀ front back u, inputs = front ++ back → Run step s front u → I u

theorem Throughout.of_step {I : σ → Prop} {s u v : σ} {front back : List α} {a : α}
    (h : Throughout step s (front ++ a :: back) I) (hrun : Run step s front u)
    (hstep : step u a = .ok v) : I v := by
  apply h (front ++ [a]) back v
  · rw [List.append_assoc, List.singleton_append]
  · exact run_concat.mpr ⟨u, hrun, hstep⟩

/-- An invariant of every step holds throughout the run. -/
theorem throughout_of_every {I : σ → Prop} {P : σ → α → Prop} {s : σ} {inputs : List α}
    (every : EveryStep step s inputs P) (start : I s)
    (kept : ∀ u a v, I u → P u a → step u a = .ok v → I v) : Throughout step s inputs I := by
  rintro front back u rfl hrun
  exact hrun.induct_of_every every.front start kept

end CbpSim.Foundation
