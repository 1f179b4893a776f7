/-
  Predictor/Calls.lean --- the calls of the predictor object.

  Source: src/cbp2016_tage_sc_l.h, `predict`, `history_update`, `TrackOtherInst`,
  `update` and what they write of `active_hist`.

  A run makes the four calls in any order.  `predict` writes no field of the running
  history, and `update` the loop table and `WITHLOOP` only; `HistoryUpdate` mixes
  both, but nothing of the loop predictor flows into the other fields.  So these are
  a function of the arguments of the history-updating calls.
-/
import Mathlib.Data.List.Induction
import CbpSim.Foundation.Outcome
import CbpSim.Predictor.TageScL

set_option autoImplicit false

namespace CbpSim.Predictor

open CbpSim.Foundation

/-! ## Runs -/

/-- What a history-updating call says of a branch. -/
structure HistoryCall where
  pc : Nat
  brtype : Nat
  taken : Bool
  nextPc : Nat
  deriving DecidableEq, Repr

/-- A call of `CBP2016_TAGE_SC_L`. -/
inductive TageCall where
  | predict (seqNo piece pc : Nat)
  | historyUpdate (call : HistoryCall) (predTaken : Bool)
  | trackOtherInst (call : HistoryCall) (predTaken : Bool)
  | update (seqNo piece pc : Nat) (resolveDir predDir : Bool) (nextPc : Nat) (isLdDependent : Bool)
  deriving DecidableEq, Repr

/-- The history-updating calls, without the direction that was predicted. -/
def TageCall.history? : TageCall → Option HistoryCall
  | .historyUpdate call _ => some call
  | .trackOtherInst call _ => some call
  | _ => none

namespace TageScL

/-- One call. -/
def step (cfg : Config) (p : TageScL) : TageCall → Except Abort TageScL
  | .predict seqNo piece pc => do
    let (_, p) ← p.predict seqNo piece pc
    .ok p
  | .historyUpdate c predTaken => .ok (p.historyUpdate c.pc c.brtype predTaken c.taken c.nextPc)
  | .trackOtherInst c predTaken => .ok (p.trackOtherInst c.pc c.brtype predTaken c.taken c.nextPc)
  | .update seqNo piece pc resolveDir predDir nextPc isLdDependent =>
    p.update cfg seqNo piece pc resolveDir predDir nextPc isLdDependent

end TageScL

/-! ## The histories without the loop predictor -/

namespace CbpHist

/-- The fields that select table entries are the same. -/
structure SameHistories (h h' : CbpHist) : Prop where
  GHIST : h.GHIST = h'.GHIST
  ghist : h.ghist = h'.ghist
  phist : h.phist = h'.phist
  ptghist : h.ptghist = h'.ptghist
  chI : h.chI = h'.chI
  chT0 : h.chT0 = h'.chT0
  chT1 : h.chT1 = h'.chT1
  lShist : h.lShist = h'.lShist
  sSlhist : h.sSlhist = h'.sSlhist
  tSlhist : h.tSlhist = h'.tSlhist
  imHist : h.imHist = h'.imHist
  imliCount : h.imliCount = h'.imliCount

/-- The history with another loop table and another `WITHLOOP`. -/
def withLoopState (h : CbpHist) (ltable : Nat → LEntry) (withLoop : Int) : CbpHist :=
  { h with ltable := ltable, withLoop := withLoop }

/-- The history without the state of the loop predictor. -/
def forgetLoop (h : CbpHist) : CbpHist := h.withLoopState (fun _ => {}) 0

theorem sameHistories_iff {h h' : CbpHist} : h.SameHistories h' ↔ h.forgetLoop = h'.forgetLoop := by
  constructor
  · intro same
    unfold forgetLoop withLoopState
    rw [same.GHIST, same.ghist, same.phist, same.ptghist, same.chI, same.chT0, same.chT1,
      same.lShist, same.sSlhist, same.tSlhist, same.imHist, same.imliCount]
  · intro heq
    obtain ⟨GHIST, ghist, phist, ptghist, chI, chT0, chT1, lShist, sSlhist, tSlhist, imHist,
      imliCount, -, -⟩ := CbpHist.mk.inj heq
    exact ⟨GHIST, ghist, phist, ptghist, chI, chT0, chT1, lShist, sSlhist, tSlhist, imHist, imliCount⟩

/-! Every function on the histories that `HistoryUpdate` applies ignores the loop
state. -/

theorem forgetLoop_push (h : CbpHist) (dir : Bool) (pathBit : Nat) :
    (h.push dir pathBit).forgetLoop = h.forgetLoop.push dir pathBit := rfl

theorem forgetLoop_pushAll (n t path : Nat) (h : CbpHist) :
    (pushAll n t path h).forgetLoop = pushAll n t path h.forgetLoop := by
  induction n generalizing t path h with
  | zero => rfl
  | succ n ih => rw [pushAll, pushAll, ih, forgetLoop_push]

theorem forgetLoop_updateImHist (h : CbpHist) (taken : Bool) :
    (h.updateImHist taken).forgetLoop = h.forgetLoop.updateImHist taken := rfl

theorem forgetLoop_updateImliCount (h : CbpHist) (pc nextPc : Nat) (taken : Bool) :
    (h.updateImliCount pc nextPc taken).forgetLoop =
      h.forgetLoop.updateImliCount pc nextPc taken := by
  have hcount : h.forgetLoop.imliCount = h.imliCount := rfl
  unfold updateImliCount
  rw [hcount]
  split_ifs
  · rfl
  · rfl
  · rfl
  · rfl

theorem forgetLoop_updateLocal (h : CbpHist) (pc nextPc : Nat) (taken : Bool) :
    (h.updateLocal pc nextPc taken).forgetLoop = h.forgetLoop.updateLocal pc nextPc taken := rfl

theorem forgetLoop_updateGlobal (h : CbpHist) (pc brtype : Nat) (taken : Bool) (nextPc : Nat) :
    (h.updateGlobal pc brtype taken nextPc).forgetLoop =
      h.forgetLoop.updateGlobal pc brtype taken nextPc := by
  unfold updateGlobal
  dsimp only
  rw [← forgetLoop_pushAll]
  rfl

/-- `HistoryUpdate` without its part for the loop predictor. -/
def follow (h : CbpHist) (c : HistoryCall) : CbpHist :=
  let h :=
    if c.brtype &&& 1 != 0 then
      ((h.updateImHist c.taken).updateImliCount c.pc c.nextPc c.taken).updateLocal c.pc c.nextPc
        c.taken
    else h
  h.updateGlobal c.pc c.brtype c.taken c.nextPc

end CbpHist

/-! ## What a call does to the running history -/

namespace TageScL

open CbpHist (forgetLoop)

variable {cfg : Config} {p p' : TageScL}

theorem speculateLoop_forgetLoop (p : TageScL) (predTaken : Bool) :
    (p.speculateLoop predTaken).activeHist.forgetLoop = p.activeHist.forgetLoop := rfl

/-- A history-updating call follows the branch, whatever the loop predictor does. -/
theorem historyUpdate_forgetLoop (p : TageScL) (c : HistoryCall) (predTaken : Bool) :
    (p.historyUpdate c.pc c.brtype predTaken c.taken c.nextPc).activeHist.forgetLoop =
      p.activeHist.forgetLoop.follow c := by
  unfold historyUpdate CbpHist.follow
  dsimp only
  split
  · dsimp only [mapHist]
    rw [CbpHist.forgetLoop_updateGlobal, CbpHist.forgetLoop_updateLocal,
      CbpHist.forgetLoop_updateImliCount, speculateLoop_forgetLoop, CbpHist.forgetLoop_updateImHist]
  · dsimp only [mapHist]
    rw [CbpHist.forgetLoop_updateGlobal]

theorem updateWith_forgetLoop (p : TageScL) (cfg : Config) (pc : Nat)
    (resolveDir predTaken : Bool) (h : CbpHist) (isLdDependent : Bool) :
    (p.updateWith cfg pc resolveDir predTaken h isLdDependent).activeHist.forgetLoop =
      p.activeHist.forgetLoop := by
  unfold updateWith
  dsimp only
  split
  · rfl
  · rfl

/-- The other calls leave the histories alone. -/
theorem step_forgetLoop {call : TageCall} (h : p.step cfg call = .ok p') :
    p'.activeHist.forgetLoop =
      match call.history? with
      | some c => p.activeHist.forgetLoop.follow c
      | none => p.activeHist.forgetLoop := by
  cases call with
  | predict seqNo piece pc =>
    obtain ⟨⟨info, q⟩, hpredict, h⟩ := bind_eq_ok.mp h
    obtain rfl := Except.ok.inj h
    unfold predict at hpredict
    obtain ⟨key, -, hpredict⟩ := bind_eq_ok.mp hpredict
    obtain ⟨-, rfl⟩ := Prod.mk.inj (Except.ok.inj hpredict)
    rfl
  | historyUpdate c predTaken =>
    obtain rfl := Except.ok.inj h
    exact historyUpdate_forgetLoop p c predTaken
  | trackOtherInst c predTaken =>
    obtain rfl := Except.ok.inj h
    exact historyUpdate_forgetLoop p c predTaken
  | update seqNo piece pc resolveDir predDir nextPc isLdDependent =>
    obtain ⟨key, -, h⟩ := bind_eq_ok.mp h
    cases hsaved : p.predTimeHistories key with
    | none => simp [hsaved] at h
    | some hist =>
      simp only [hsaved] at h
      obtain rfl := Except.ok.inj h
      exact updateWith_forgetLoop _ cfg pc resolveDir _ hist isLdDependent

/-- **The histories are a function of the history-updating calls.** -/
theorem run_forgetLoop {calls : List TageCall} (hrun : Run (step cfg) p calls p') :
    p'.activeHist.forgetLoop =
      (calls.filterMap TageCall.history?).foldl CbpHist.follow p.activeHist.forgetLoop := by
  induction calls using List.reverseRecOn generalizing p' with
  | nil => rw [run_nil.mp hrun]; rfl
  | append_singleton calls call ih =>
    obtain ⟨q, hq, hstep⟩ := run_concat.mp hrun
    rw [step_forgetLoop hstep, List.filterMap_append, List.foldl_append, ← ih hq]
    cases hcall : call.history? with
    | none => simp [hcall]
    | some c => simp [hcall]

/-- **Global histories are independent of out-of-order execution.**  Two runs with the
same history-updating calls, in between which `predict` and `update` may come in any
order and predict anything, leave the same histories. -/
theorem run_sameHistories (cfg cfg' : Config) (p p' q q' : TageScL) (calls calls' : List TageCall)
    (start : p.activeHist.SameHistories q.activeHist)
    (hcalls : calls.filterMap TageCall.history? = calls'.filterMap TageCall.history?)
    (hrun : Run (step cfg) p calls p') (hrun' : Run (step cfg') q calls' q') :
    p'.activeHist.SameHistories q'.activeHist := by
  rw [CbpHist.sameHistories_iff] at start ⊢
  rw [run_forgetLoop hrun, run_forgetLoop hrun', start, hcalls]

/-- A branch that is resolved before its successor. -/
def resolvedEarly : List TageCall :=
  [.predict 1 0 64, .historyUpdate ⟨64, 1, true, 32⟩ false, .update 1 0 64 true false 32 false,
    .historyUpdate ⟨72, 1, false, 76⟩ true]

/-- The same branch, resolved after its successor and predicted otherwise. -/
def resolvedLate : List TageCall :=
  [.predict 1 0 64, .historyUpdate ⟨64, 1, true, 32⟩ true, .historyUpdate ⟨72, 1, false, 76⟩ false,
    .update 1 0 64 true false 32 false]

theorem run_sameHistories_resolved :
    ∃ p q : TageScL, Run (step {}) .init resolvedEarly p ∧ Run (step {}) .init resolvedLate q ∧
      p.activeHist.SameHistories q.activeHist := by
  obtain ⟨p, hp⟩ := exists_of_isOk
    (show (resolvedEarly.foldlM (step {}) .init).isOk = true by decide +kernel)
  obtain ⟨q, hq⟩ := exists_of_isOk
    (show (resolvedLate.foldlM (step {}) .init).isOk = true by decide +kernel)
  refine ⟨p, q, hp, hq, ?_⟩
  have start : init.activeHist.SameHistories init.activeHist := CbpHist.sameHistories_iff.mpr rfl
  have hcalls : resolvedEarly.filterMap TageCall.history? =
      resolvedLate.filterMap TageCall.history? := by decide
  exact run_sameHistories {} {} .init p .init q _ _ start hcalls hp hq

end TageScL

end CbpSim.Predictor
