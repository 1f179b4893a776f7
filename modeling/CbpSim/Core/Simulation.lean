/-
  Core/Simulation.lean --- the simulator on a trace.

  `simulate` constructs the simulator and steps it through a trace.  Every state
  that it can reach is the result of some trace, so an invariant of the simulator
  is a statement about all traces.
-/
import CbpSim.Core.Phases

set_option autoImplicit false

namespace CbpSim.Core

open CbpSim.Foundation CbpSim.Lanes CbpSim.Memory

variable {P H : Type} {E : Stop H → Prop}

namespace Uarchsim

/-- The simulator, constructed and stepped through `insts`. -/
def simulate (u : Unset) (cfg : Config) (hk : Hooks P H) (p : P) (insts : List DbInst) :
    Except (Stop H) (Uarchsim P) := do
  let s ← lift (new u cfg p)
  insts.foldlM (step cfg hk) s

/-- What the constructor gives. -/
structure Initial (cfg : Config) (p : P) (s : Uarchsim P) : Prop where
  pipe : s.pipe =
    { window := [], DQ := [], AQ := [], EQ := [], hooks := p, events := [], evaluated := 0 }
  RF : s.res.RF = fun _ => 0
  windowCapacity : s.windowCapacity = cfg.windowSize
  windowSize : 0 < cfg.windowSize
  fetchCycle : s.fetchCycle = 0
  previousFetchCycle : s.previousFetchCycle = 0
  numFetched : s.numFetched = 0
  numFetchedBranch : s.numFetchedBranch = 0
  numUop : s.numUop = 0
  fetched : s.fetched = []

theorem cacheNew_ends (u : Memory.Unspecified) (size assoc blocksize latency : Nat) :
    Ends (Cache.new u size assoc blocksize latency) Elsewhere fun _ => True := by
  unfold Cache.new
  apply Ends.ite
  · intro _
    rfl
  · intro _
    apply Ends.ite
    · intro _
      rfl
    · intro _
      apply Ends.ite
      · intro _
        rfl
      · intro _
        trivial

theorem new_ends (u : Unset) (cfg : Config) (p : P) :
    Ends (new u cfg p) Elsewhere (Initial cfg p) := by
  unfold new
  apply Ends.bind (cacheNew_ends _ _ _ _ _)
  intro L3 _
  apply Ends.bind (cacheNew_ends _ _ _ _ _)
  intro L2 _
  apply Ends.bind (cacheNew_ends _ _ _ _ _)
  intro L1 _
  apply Ends.bind (cacheNew_ends _ _ _ _ _)
  intro IC _
  apply Ends.ite
  · intro _
    rfl
  · intro hsize
    apply Ends.ite
    · intro _
      rfl
    · intro _
      apply Ends.ite
      · intro _
        rfl
      · intro _
        apply (endCurrentBeginNewEpoch_ends _ _ _ _).imp
        rintro s ⟨i, c, BP, l, rfl⟩
        exact { pipe := rfl, RF := rfl, windowCapacity := rfl
                windowSize := Nat.pos_of_ne_zero hsize, fetchCycle := rfl
                previousFetchCycle := rfl, numFetched := rfl, numFetchedBranch := rfl
                numUop := rfl, fetched := rfl }

/-- The simulation rule along the trace: what holds of the constructed simulator, and is kept
by the step behind each part of the trace, holds at the end. -/
theorem simulate_ends_along {u : Unset} {cfg : Config} {hk : Hooks P H} {p : P}
    {insts : List DbInst} {I : List DbInst → Uarchsim P → Prop}
    (hE : ∀ e, Elsewhere e → E (.abort e)) (start : ∀ s, Initial cfg p s → I [] s)
    (kept : ∀ done inst rest s, done ++ inst :: rest = insts → I done s →
      Ends (s.step cfg hk inst) E (I (done ++ [inst]))) :
    Ends (simulate u cfg hk p insts) E (I insts) := by
  unfold simulate
  apply Ends.bind (Ends.lift (new_ends u cfg p) hE)
  intro s hs
  exact Ends.foldlM_along kept (start s hs)

/-- The simulation rule: what holds of the constructed simulator and is kept by
every step on an instruction of the trace holds at the end. -/
theorem simulate_ends {u : Unset} {cfg : Config} {hk : Hooks P H} {p : P} {insts : List DbInst}
    {I : Uarchsim P → Prop} (hE : ∀ e, Elsewhere e → E (.abort e))
    (start : ∀ s, Initial cfg p s → I s)
    (kept : ∀ s inst, inst ∈ insts → I s → Ends (s.step cfg hk inst) E I) :
    Ends (simulate u cfg hk p insts) E I := by
  unfold simulate
  apply Ends.bind (Ends.lift (new_ends u cfg p) hE)
  intro s hs
  exact Ends.foldlM kept (start s hs)

theorem Initial.caughtUp {cfg : Config} {p : P} {s : Uarchsim P} (h : Initial cfg p s) :
    Evaluated s.pipe s.previousFetchCycle := by
  rw [h.pipe, h.previousFetchCycle]
  exact Or.inr ⟨rfl, rfl⟩

end Uarchsim

/-- After a step the pipeline is evaluated up to the fetch cycle of the instruction. -/
theorem Fetches.caughtUp {cfg : Config} {hk : Hooks P H} {J : Pipeline P → Prop}
    {K : P → P → Prop} {s a s' : Uarchsim P} {inst : DbInst} {t : Timing} {x : Fetched P}
    {w : WindowEntry} (ha : Caught J s a) (h : Fetches cfg hk K a inst t x w s') :
    Evaluated s'.pipe s'.previousFetchCycle := by
  unfold Evaluated
  rw [h.evaluated, h.previousFetchCycle]
  exact ha.evaluated

/-- Whatever the evaluation of a cycle does, the cycle is evaluated then. -/
theorem evalKeeps_of_any (cfg : Config) (hk : Hooks P H) (hE : ∀ e, E e) :
    EvalKeeps cfg hk E fun _ => True := by
  intro cycle p _ _ _
  unfold Pipeline.evalCycle
  apply Ends.bind (Ends.of_any hE)
  intro p₁ _
  apply Ends.bind (Ends.of_any hE)
  intro p₂ _
  apply Ends.bind (Ends.of_any hE)
  intro p₃ _
  apply Ends.bind (Ends.of_any hE)
  intro p₄ _
  exact ⟨trivial, rfl⟩

/-! ## Small inputs -/

/-- An instruction on two registers. -/
def regInst (c : InstClass) (pc : Nat) (a b d : DbOperand) : DbInst where
  insnClass := c
  pc := pc
  isTaken := false
  nextPc := pc + 4
  A := a
  B := b
  C := {}
  D := d
  isLoad := c.isLoad
  isStore := c.isStore
  addr := 4096
  size := 8
  isLastPiece := true

/-- A general register. -/
def intReg (r : Nat) : DbOperand := { valid := true, isInt := true, logReg := r }

/-- Predictors that never predict: every branch is expected to fall through. -/
def idlePredictors : Hooks Unit Empty where
  notifyInstrFetch _ _ _ _ _ := .ok ()
  getCondDirPrediction _ _ _ _ _ _ _ := .ok (false, ())
  specUpdate _ _ _ _ _ _ _ _ := .ok ()
  notifyInstrDecode _ _ _ _ _ _ := .ok ()
  notifyAgenComplete _ _ _ _ _ _ _ _ := .ok ()
  notifyInstrExecuteResolve _ _ _ _ _ _ _ := .ok ()
  notifyInstrCommit _ _ _ _ _ _ _ := .ok ()
  getPrediction _ _ := .ok ({}, ())
  speculativeUpdate _ _ := .ok ()
  updatePredictor _ _ _ _ _ := .ok ()
  ittageGetPrediction _ _ := .ok (0, ())
  ittageUpdatePredictor _ _ _ := .ok ()
  ittageTrackOtherInst _ _ _ := .ok ()
  randR seed := (seed, seed)

end CbpSim.Core
