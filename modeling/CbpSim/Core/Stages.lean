/-
  Core/Stages.lean --- the evaluation of a cycle calls the predictors and nothing
  else.

  What every call of a cycle does to the predictors, the loops of the cycle do:
  `Steady` collects what has to be known of the calls.  The evaluation stops in a
  call or at an assert of its own.
-/
import CbpSim.Core.Phases

set_option autoImplicit false

namespace CbpSim.Core

open CbpSim.Foundation

variable {P H : Type}

namespace Pipeline

variable {hk : Hooks P H} {E : Stop H → Prop} {R : P → P → Prop} {cycle : Nat}

/-- What the calls of a cycle, other than the resolution of an instruction, do to the
predictors. -/
structure Steady (hk : Hooks P H) (E : Stop H → Prop) (R : P → P → Prop) : Prop where
  refl (p : P) : R p p
  trans {p q r : P} : R p q → R q r → R p r
  abort (e : Abort) : ofEvaluation e = true → E (.abort e)
  decode (p : P) (seqNo piece pc : Nat) (info : DecodeInfo) (c : Nat) :
    Ends (hk.notifyInstrDecode p seqNo piece pc info c) (fun r => E (.hook r)) (R p)
  agen (p : P) (seqNo piece pc : Nat) (info : DecodeInfo) (va sz c : Nat) :
    Ends (hk.notifyAgenComplete p seqNo piece pc info va sz c) (fun r => E (.hook r)) (R p)
  commit (p : P) (seqNo piece pc : Nat) (predDir : Bool) (info : ExecuteInfo) (c : Nat) :
    Ends (hk.notifyInstrCommit p seqNo piece pc predDir info c) (fun r => E (.hook r)) (R p)
  update (p : P) (seqNo addr value latency : Nat) :
    Ends (hk.updatePredictor p seqNo addr value latency) (fun r => E (.hook r)) (R p)

theorem Steady.locate (steady : Steady hk E R) (p : Pipeline P) (seqNo piece : Nat) :
    Ends (lift (H := H) (p.locateEntryInWindow seqNo piece)) E fun _ => True := by
  apply ends_mapError.mpr
  unfold locateEntryInWindow
  split
  · apply Ends.ite
    · intro _
      trivial
    · intro _
      exact steady.abort _ rfl
  · exact steady.abort _ rfl

theorem Steady.notifyDecode (steady : Steady hk E R) (q : QueueEntry) (p : Pipeline P) :
    Ends (notifyDecode hk cycle q p) E fun p' => R p.hooks p'.hooks := by
  unfold Pipeline.notifyDecode
  apply Ends.bind (steady.locate p _ _)
  intro w _
  apply Ends.ite
  · intro _
    exact steady.abort _ rfl
  · intro _
    apply Ends.bind (Ends.call (steady.decode p.hooks _ _ _ _ _))
    intro hooks h
    exact h

theorem Steady.notifyAgen (steady : Steady hk E R) (q : QueueEntry) (p : Pipeline P) :
    Ends (notifyAgen hk cycle q p) E fun p' => R p.hooks p'.hooks := by
  unfold Pipeline.notifyAgen
  apply Ends.bind (steady.locate p _ _)
  intro w _
  apply Ends.ite
  · intro _
    exact steady.abort _ rfl
  · intro _
    apply Ends.ite
    · intro _
      exact steady.abort _ rfl
    · intro _
      apply Ends.ite
      · intro _
        exact steady.abort _ rfl
      · intro _
        split
        · apply Ends.bind (Ends.call (steady.agen p.hooks _ _ _ _ _ _ _))
          intro hooks h
          exact h
        · exact steady.abort _ rfl

theorem Steady.notifyCommit (steady : Steady hk E R) (cfg : Config) (w : WindowEntry)
    (p : Pipeline P) :
    Ends (notifyCommit cfg hk cycle w p) E fun p' => R p.hooks p'.hooks := by
  unfold Pipeline.notifyCommit
  apply Ends.bind (Ends.call (steady.commit p.hooks _ _ _ _ _ _))
  intro hooks h
  apply Ends.bind (Q := R p.hooks)
  · apply Ends.ite
    · intro _
      exact (Ends.call (steady.update hooks _ _ _ _)).imp fun _ => steady.trans h
    · intro _
      exact h
  · intro hooks' h'
    exact h'

theorem Steady.evalDecodeLoop (steady : Steady hk E R) (queue : List QueueEntry)
    (p : Pipeline P) :
    Ends (evalDecodeLoop hk cycle queue p) E fun x => R p.hooks x.2.hooks := by
  induction queue generalizing p with
  | nil => exact steady.refl _
  | cons q queue ih =>
    rw [Pipeline.evalDecodeLoop]
    apply Ends.ite
    · intro _
      exact steady.abort _ rfl
    · intro _
      apply Ends.ite
      · intro _
        apply Ends.bind (steady.notifyDecode q p)
        intro p' hp'
        exact (ih p').imp fun _ => steady.trans hp'
      · intro _
        exact steady.refl _

/-- The loop of the other two queues. -/
theorem Steady.evalQueue (steady : Steady hk E R) {late : Abort} (hlate : ofEvaluation late = true)
    {notify : QueueEntry → Pipeline P → Except (Stop H) (Pipeline P)}
    (hnotify : ∀ q p, Ends (notify q p) E fun p' => R p.hooks p'.hooks) (queue : List QueueEntry)
    (p : Pipeline P) :
    Ends (evalQueue notify late cycle queue p) E fun x => R p.hooks x.2.hooks := by
  induction queue generalizing p with
  | nil => exact steady.refl _
  | cons q queue ih =>
    rw [Pipeline.evalQueue]
    apply Ends.ite
    · intro _
      exact steady.abort _ hlate
    · intro _
      apply Ends.ite
      · intro _
        apply Ends.bind (hnotify q p)
        intro p' hp'
        exact (ih p').imp fun _ => steady.trans hp'
      · intro _
        apply Ends.bind (ih p)
        intro x hx
        exact hx

theorem Steady.evalRetireLoop (steady : Steady hk E R) (cfg : Config)
    (window : List WindowEntry) (p : Pipeline P) :
    Ends (evalRetireLoop cfg hk cycle window p) E fun x => R p.hooks x.2.hooks := by
  induction window generalizing p with
  | nil => exact steady.refl _
  | cons w window ih =>
    rw [Pipeline.evalRetireLoop]
    apply Ends.ite
    · intro _
      apply Ends.bind (steady.notifyCommit cfg w p)
      intro p' hp'
      exact (ih p').imp fun _ => steady.trans hp'
    · intro _
      exact steady.refl _

/-- The calls of `eval_exec`. -/
def SteadyResolve (hk : Hooks P H) (E : Stop H → Prop) (R : P → P → Prop) : Prop :=
  ∀ p seqNo piece pc predDir info c,
    Ends (hk.notifyInstrExecuteResolve p seqNo piece pc predDir info c) (fun r => E (.hook r)) (R p)

theorem Steady.notifyExecute (steady : Steady hk E R) (hresolve : SteadyResolve hk E R)
    (q : QueueEntry) (p : Pipeline P) :
    Ends (notifyExecute hk cycle q p) E fun p' => R p.hooks p'.hooks := by
  unfold Pipeline.notifyExecute
  apply Ends.bind (steady.locate p _ _)
  intro w _
  apply Ends.ite
  · intro _
    exact steady.abort _ rfl
  · intro _
    apply Ends.bind (Ends.call (hresolve p.hooks _ _ _ _ _ _))
    intro hooks h
    exact h

/-- The evaluation of a cycle. -/
theorem Steady.evalCycle (steady : Steady hk E R) (hresolve : SteadyResolve hk E R) (cfg : Config)
    (p : Pipeline P) :
    Ends (p.evalCycle cfg hk cycle) E fun p' => R p.hooks p'.hooks ∧ p'.evaluated = cycle + 1 := by
  unfold Pipeline.evalCycle
  apply Ends.bind (Q := fun p' => R p.hooks p'.hooks)
  · apply Ends.bind (steady.evalDecodeLoop p.DQ p)
    rintro ⟨queue, p'⟩ hp'
    exact hp'
  intro p₁ h₁
  apply Ends.bind (Q := fun p' => R p.hooks p'.hooks)
  · apply Ends.bind (steady.evalQueue rfl steady.notifyAgen p₁.AQ p₁)
    rintro ⟨queue, p'⟩ hp'
    exact steady.trans h₁ hp'
  intro p₂ h₂
  apply Ends.bind (Q := fun p' => R p.hooks p'.hooks)
  · apply Ends.bind (steady.evalQueue rfl (steady.notifyExecute hresolve) p₂.EQ p₂)
    rintro ⟨queue, p'⟩ hp'
    exact steady.trans h₂ hp'
  intro p₃ h₃
  apply Ends.bind (Q := fun p' => R p.hooks p'.hooks)
  · apply Ends.bind (steady.evalRetireLoop cfg p₃.window p₃)
    rintro ⟨window, p'⟩ hp'
    exact steady.trans h₃ hp'
  intro p₄ h₄
  exact ⟨h₄, rfl⟩

end Pipeline

end CbpSim.Core
