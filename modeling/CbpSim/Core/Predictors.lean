/-
  Core/Predictors.lean --- the simulator with its conditional branch predictor.

  Source: src/cond_branch_predictor_interface.cc.

  The hooks are instantiated with the interface of the conditional branch
  predictor.  The value predictor and the indirect-branch predictor have a state of
  their own and remain a parameter.
-/
import CbpSim.Core.Simulation
import CbpSim.Predictor.Interface

set_option autoImplicit false

namespace CbpSim.Core

open CbpSim.Foundation CbpSim.Predictor

variable {V G : Type}

/-- The value predictor and the indirect-branch predictor. -/
structure SidePredictors (V G : Type) where
  getPrediction (v : V) (request : PredictionRequest) : Except G (PredictionResult × V)
  speculativeUpdate (v : V) (update : SpeculativeUpdate) : Except G V
  updatePredictor (v : V) (seqNo addr value latency : Nat) : Except G V
  ittageGetPrediction (v : V) (pc : Nat) : Except G (Nat × V)
  ittageUpdatePredictor (v : V) (pc nextPc : Nat) : Except G V
  ittageTrackOtherInst (v : V) (pc nextPc : Nat) : Except G V
  randR (seed : Nat) : Nat × Nat

/-- The predictors behind the hooks.  `updates` is no member of the source: the
instructions that `update` was called for, with the history that it found. -/
structure Predictors (V : Type) where
  cond : CondBranchPredictor
  side : V
  updates : List (Nat × CbpHist)

/-- Why a hook stopped. -/
inductive PredictorStop (G : Type) where
  | cond (site : Abort)
  | side (reason : G)
  deriving DecidableEq, Repr

namespace Predictors

/-- The predictors before the first instruction. -/
def init (v : V) : Predictors V := { cond := .init, side := v, updates := [] }

/-- `pred_time_histories`. -/
def saved (p : Predictors V) : Nat → Option CbpHist := p.cond.tage.predTimeHistories

/-- What `update` finds for an instruction. -/
def found (p : Predictors V) (seqNo piece : Nat) (info : ExecuteInfo) : List (Nat × CbpHist) :=
  if info.decInfo.insnClass.isCondBr then
    (p.saved (instKey seqNo piece)).toList.map fun h => (seqNo, h)
  else []

/-- A hook of the conditional branch predictor. -/
def onCond (p : Predictors V) (x : Except Abort CondBranchPredictor) :
    Except (PredictorStop G) (Predictors V) := do
  let cond ← x.mapError .cond
  .ok { p with cond := cond }

/-- A hook of the other predictors. -/
def onSide (p : Predictors V) (x : Except G V) : Except (PredictorStop G) (Predictors V) := do
  let side ← x.mapError .side
  .ok { p with side := side }

end Predictors

/-- The interface as the simulator calls it. -/
def predictorHooks (cfg : Config) (side : SidePredictors V G) :
    Hooks (Predictors V) (PredictorStop G) where
  notifyInstrFetch p _ _ _ _ := .ok p
  getCondDirPrediction p seqNo piece pc _ _ _ := do
    let (dir, cond) ← (p.cond.getCondDirPrediction seqNo piece pc).mapError .cond
    .ok (dir, { p with cond := cond })
  specUpdate p _ _ pc c resolveDir predDir nextPc :=
    p.onCond (p.cond.specUpdate pc c resolveDir predDir nextPc)
  notifyInstrDecode p seqNo piece _ info _ := p.onCond (p.cond.notifyInstrDecode seqNo piece info)
  notifyAgenComplete p _ _ _ _ _ _ _ := .ok p
  notifyInstrExecuteResolve p seqNo piece pc predDir info _ := do
    let p' ← p.onCond (p.cond.notifyInstrExecuteResolve cfg seqNo piece pc predDir info)
    .ok { p' with updates := p.updates ++ p.found seqNo piece info }
  notifyInstrCommit p _ _ _ _ info _ := p.onCond (p.cond.notifyInstrCommit info)
  getPrediction p request := do
    let (result, v) ← (side.getPrediction p.side request).mapError .side
    .ok (result, { p with side := v })
  speculativeUpdate p update := p.onSide (side.speculativeUpdate p.side update)
  updatePredictor p seqNo addr value latency :=
    p.onSide (side.updatePredictor p.side seqNo addr value latency)
  ittageGetPrediction p pc := do
    let (target, v) ← (side.ittageGetPrediction p.side pc).mapError .side
    .ok (target, { p with side := v })
  ittageUpdatePredictor p pc nextPc := p.onSide (side.ittageUpdatePredictor p.side pc nextPc)
  ittageTrackOtherInst p pc nextPc := p.onSide (side.ittageTrackOtherInst p.side pc nextPc)
  randR := side.randR

/-- No value is predicted, and the indirect-branch predictor knows no target. -/
def idleSide : SidePredictors Unit Empty where
  getPrediction _ _ := .ok ({}, ())
  speculativeUpdate _ _ := .ok ()
  updatePredictor _ _ _ _ _ := .ok ()
  ittageGetPrediction _ _ := .ok (0, ())
  ittageUpdatePredictor _ _ _ := .ok ()
  ittageTrackOtherInst _ _ _ := .ok ()
  randR seed := (seed, seed)

/-! ## The conditional branch predictor -/

/-- The lookup in `pred_time_histories` succeeded, if the hook came to it. -/
def Found (e : Abort) : Prop := e ≠ .tageHistoryMissing

theorem getUniqueInstId_ends (seqNo piece : Nat) :
    Ends (getUniqueInstId seqNo piece) Found fun key => key = instKey seqNo piece := by
  unfold getUniqueInstId
  apply Ends.ite
  · intro _
    rfl
  · intro _
    exact Abort.noConfusion

namespace Cond

variable (p : CondBranchPredictor)

/-- A prediction saves the running history under the key of the instruction, unless
there is one already. -/
theorem getCondDirPrediction_ends (seqNo piece pc : Nat) :
    Ends (p.getCondDirPrediction seqNo piece pc) Found fun x =>
      x.2.tage.predTimeHistories = Function.update p.tage.predTimeHistories (instKey seqNo piece)
        (some ((p.tage.predTimeHistories (instKey seqNo piece)).getD p.tage.activeHist)) := by
  unfold CondBranchPredictor.getCondDirPrediction
  apply Ends.bind (Q := fun x => x.2.predTimeHistories = Function.update p.tage.predTimeHistories
    (instKey seqNo piece)
    (some ((p.tage.predTimeHistories (instKey seqNo piece)).getD p.tage.activeHist)))
  · unfold TageScL.predict
    apply Ends.bind (getUniqueInstId_ends seqNo piece)
    rintro _ rfl
    rfl
  · rintro ⟨info, tage⟩ htage
    apply Ends.bind (Q := fun _ => True)
    · unfold SampleCondPredictor.predict
      apply Ends.bind (getUniqueInstId_ends seqNo piece)
      intro _ _
      trivial
    · intro _ _
      exact htage

theorem specUpdate_ends (pc : Nat) (c : InstClass) (resolveDir predDir : Bool) (nextPc : Nat) :
    Ends (p.specUpdate pc c resolveDir predDir nextPc) Found fun p' =>
      p'.tage.predTimeHistories = p.tage.predTimeHistories := by
  unfold CondBranchPredictor.specUpdate
  split
  · exact Abort.noConfusion
  · apply Ends.ite
    · intro _
      exact TageScL.historyUpdate_predTimeHistories _ _ _ _ _
    · intro _
      exact TageScL.historyUpdate_predTimeHistories _ _ _ _ _

theorem notifyInstrDecode_ends (seqNo piece : Nat) (info : DecodeInfo) :
    Ends (p.notifyInstrDecode seqNo piece info) Found fun p' =>
      p'.tage.predTimeHistories = p.tage.predTimeHistories := by
  unfold CondBranchPredictor.notifyInstrDecode
  apply Ends.ite
  · intro _
    split
    · exact Abort.noConfusion
    · rfl
  · intro _
    apply Ends.ite
    · intro _
      apply Ends.bind (getUniqueInstId_ends seqNo piece)
      intro _ _
      rfl
    · intro _
      rfl

theorem notifyInstrCommit_ends (info : ExecuteInfo) :
    Ends (p.notifyInstrCommit info) Found fun p' =>
      p'.tage.predTimeHistories = p.tage.predTimeHistories := by
  unfold CondBranchPredictor.notifyInstrCommit
  apply Ends.ite
  · intro _
    split
    · exact Abort.noConfusion
    · rfl
  · intro _
    rfl

/-- `update` drops the history of the instruction. -/
theorem update_ends (t : TageScL) (cfg : Config) (seqNo piece pc : Nat)
    (resolveDir predDir : Bool) (nextPc : Nat) (isLdDependent : Bool) :
    Ends (t.update cfg seqNo piece pc resolveDir predDir nextPc isLdDependent)
      (fun e => e = .tageHistoryMissing → t.predTimeHistories (instKey seqNo piece) = none)
      fun t' => t'.predTimeHistories =
        Function.update t.predTimeHistories (instKey seqNo piece) none := by
  unfold TageScL.update
  apply Ends.bind ((getUniqueInstId_ends seqNo piece).mono (fun e he h => absurd h he)
    fun _ h => h)
  rintro _ rfl
  cases hhist : t.predTimeHistories (instKey seqNo piece) with
  | none => exact fun _ => rfl
  | some h =>
    unfold TageScL.updateWith
    dsimp only
    split
    · rfl
    · rfl

/-- The resolution of a conditional branch drops its history; it is missing only when
it was not saved. -/
theorem notifyInstrExecuteResolve_ends (cfg : Config) (seqNo piece pc : Nat) (predDir : Bool)
    (info : ExecuteInfo) :
    Ends (p.notifyInstrExecuteResolve cfg seqNo piece pc predDir info)
      (fun e => e = .tageHistoryMissing → info.decInfo.insnClass.isCondBr ∧
        p.tage.predTimeHistories (instKey seqNo piece) = none)
      fun p' => p'.tage.predTimeHistories =
        if info.decInfo.insnClass.isCondBr then
          Function.update p.tage.predTimeHistories (instKey seqNo piece) none
        else p.tage.predTimeHistories := by
  unfold CondBranchPredictor.notifyInstrExecuteResolve
  apply Ends.bind ((getUniqueInstId_ends seqNo piece).mono (fun e he h => absurd h he)
    fun _ h => h)
  intro _ _
  apply Ends.ite
  · intro hbr
    rw [if_neg]
    · rfl
    · intro hcond
      simp [InstClass.isBr_of_isCondBr hcond] at hbr
  · intro _
    apply Ends.ite
    · intro hcond
      rw [if_pos hcond]
      split
      · exact fun h => Abort.noConfusion h
      · apply Ends.bind ((update_ends p.tage cfg seqNo piece pc _ predDir info.nextPc _).mono
          (fun e he h => ⟨hcond, he h⟩) fun _ h => h)
        intro tage htage
        apply Ends.bind (Q := fun _ => True)
        · unfold SampleCondPredictor.update
          apply Ends.bind ((getUniqueInstId_ends seqNo piece).mono (fun e he h => absurd h he)
            fun _ h => h)
          intro _ _
          split
          · exact fun h => Abort.noConfusion h
          · trivial
        · intro _ _
          exact htage
    · intro hcond
      rw [if_neg hcond]
      apply Ends.ite
      · intro _
        rfl
      · intro _ h
        exact Abort.noConfusion h

end Cond

/-! ## The hooks -/

/-- The program did not stop at the lookup in `pred_time_histories`. -/
def HistoryFound (e : Stop (PredictorStop G)) : Prop := e ≠ .hook (.cond .tageHistoryMissing)

instance [DecidableEq G] : DecidablePred (HistoryFound (G := G)) := fun e =>
  inferInstanceAs (Decidable (e ≠ .hook (.cond .tageHistoryMissing)))

/-- The saved histories and the record of `update` stay. -/
def SameSaved (p p' : Predictors V) : Prop := p'.saved = p.saved ∧ p'.updates = p.updates

namespace Predictors

variable (p : Predictors V)

theorem onCond_ends {x : Except Abort CondBranchPredictor}
    (h : Ends x Found fun c => c.tage.predTimeHistories = p.cond.tage.predTimeHistories) :
    Ends (p.onCond x : Except (PredictorStop G) _) (fun r => HistoryFound (.hook r))
      (SameSaved p) := by
  unfold onCond
  apply Ends.bind (ends_mapError.mpr (h.mono (fun e he heq => he (by simpa using heq))
    fun _ h => h))
  intro cond hcond
  exact ⟨hcond, rfl⟩

theorem onSide_ends (x : Except G V) :
    Ends (p.onSide x) (fun r => HistoryFound (.hook r)) (SameSaved p) := by
  unfold onSide
  apply Ends.bind (ends_mapError.mpr (Ends.of_any fun r h => by simp at h))
  intro _ _
  exact ⟨rfl, rfl⟩

end Predictors

section Hooks

variable (cfg : Config) (side : SidePredictors V G)

theorem sideResult_ends {α : Type} (p : Predictors V) (x : Except G (α × V)) :
    Ends (do let (a, v) ← x.mapError PredictorStop.side; .ok (a, { p with side := v }) :
        Except (PredictorStop G) (α × Predictors V))
      (fun r => HistoryFound (.hook r)) fun y => SameSaved p y.2 := by
  apply Ends.bind (ends_mapError.mpr (Ends.of_any fun r h => by simp at h))
  rintro ⟨a, v⟩ _
  exact ⟨rfl, rfl⟩

/-- All hooks of `step` but the prediction of a direction leave the saved histories
alone. -/
theorem predictorHooks_quiet :
    Quiet (predictorHooks cfg side) (HistoryFound (G := G)) SameSaved where
  refl _ := ⟨rfl, rfl⟩
  trans h h' := ⟨h'.1.trans h.1, h'.2.trans h.2⟩
  notifyInstrFetch _ _ _ _ _ := ⟨rfl, rfl⟩
  getPrediction p request := sideResult_ends p (side.getPrediction p.side request)
  speculativeUpdate p _ := p.onSide_ends _
  specUpdate p _ _ pc c resolveDir predDir nextPc :=
    p.onCond_ends (Cond.specUpdate_ends p.cond pc c resolveDir predDir nextPc)
  ittageGetPrediction p pc := sideResult_ends p (side.ittageGetPrediction p.side pc)
  ittageUpdatePredictor p _ _ := p.onSide_ends _
  ittageTrackOtherInst p _ _ := p.onSide_ends _
  getCondDirPrediction p seqNo piece pc _ _ _ := by
    apply Ends.bind (ends_mapError.mpr ((Cond.getCondDirPrediction_ends p.cond seqNo piece pc).mono
      (fun e he heq => he (by simpa using heq)) fun _ h => h))
    intro _ _
    trivial

/-- The resolution of an instruction, as the simulator asks for it. -/
theorem executeResolve_ends (p : Predictors V) (seqNo piece pc : Nat) (predDir : Bool)
    (info : ExecuteInfo) (cycle : Nat) :
    Ends ((predictorHooks cfg side).notifyInstrExecuteResolve p seqNo piece pc predDir info cycle)
      (fun r => r = .cond .tageHistoryMissing → info.decInfo.insnClass.isCondBr ∧
        p.saved (instKey seqNo piece) = none)
      fun p' => p'.updates = p.updates ++ p.found seqNo piece info ∧
        p'.saved = if info.decInfo.insnClass.isCondBr then
            Function.update p.saved (instKey seqNo piece) none
          else p.saved := by
  apply Ends.bind (Q := fun p' : Predictors V => p'.saved =
    if info.decInfo.insnClass.isCondBr then Function.update p.saved (instKey seqNo piece) none
    else p.saved)
  · apply Ends.bind (ends_mapError.mpr ((Cond.notifyInstrExecuteResolve_ends p.cond cfg seqNo piece
      pc predDir info).mono (fun e he heq => he (by simpa using heq)) fun _ h => h))
    intro cond hcond
    exact hcond
  · intro p' hp'
    exact ⟨rfl, hp'⟩

theorem getCondDirPrediction_saves {p p' : Predictors V} {seqNo piece pc predCycle fetchCycle
    execCycle : Nat} {dir : Bool}
    (h : (predictorHooks cfg side).getCondDirPrediction p seqNo piece pc predCycle fetchCycle
      execCycle = .ok (dir, p')) :
    p'.updates = p.updates ∧ p'.saved = Function.update p.saved (instKey seqNo piece)
      (some ((p.saved (instKey seqNo piece)).getD p.cond.tage.activeHist)) := by
  obtain ⟨⟨dir', cond⟩, hcond, h⟩ := bind_eq_ok.mp h
  obtain ⟨-, rfl⟩ := Prod.mk.inj (Except.ok.inj h)
  exact ⟨rfl, (Cond.getCondDirPrediction_ends p.cond seqNo piece pc).of_ok (mapError_eq_ok.mp hcond)⟩

end Hooks

end CbpSim.Core
