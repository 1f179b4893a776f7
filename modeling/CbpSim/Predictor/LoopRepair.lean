/-
  Predictor/LoopRepair.lean --- the repair of the speculative loop state.

  Source: src/cbp2016_tage_sc_l.h, the recovery at the head of the second `update`.

  A branch is mispredicted when the direction that `predict` returned is wrong;
  `update` looks at the direction that a second prediction gives, on the saved
  history but with the tables of now.  Where the two directions agree, the loop
  state is repaired on mispredictions and left alone otherwise.
-/
import CbpSim.Predictor.TageScL

set_option autoImplicit false

namespace CbpSim.Predictor

open CbpSim.Foundation

/-- A conditional branch and how it resolves. -/
structure Branch where
  seqNo : Nat
  piece : Nat
  pc : Nat
  taken : Bool
  nextPc : Nat
  deriving DecidableEq, Repr

def Branch.key (x : Branch) : Nat := instKey x.seqNo x.piece

/-- What `predict` returned for a branch, and the running history at that time. -/
structure Predicted where
  branch : Branch
  returned : Bool
  hist : CbpHist

/-- The predictor, and the branches predicted so far. -/
structure BranchSession where
  tage : TageScL
  predicted : Nat → Option Predicted

/-- A call for a branch. -/
inductive BranchCall where
  | predict (x : Branch)
  | historyUpdate (x : Branch)
  | update (x : Branch) (isLdDependent : Bool)
  deriving DecidableEq, Repr

namespace BranchSession

def start : BranchSession where
  tage := .init
  predicted := fun _ => none

/-- What is remembered of the branch. -/
def savedFor (s : BranchSession) (x : Branch) : Except Refusal Predicted :=
  match s.predicted x.key with
  | some saved => if saved.branch = x then .ok saved else .error .order
  | none => .error .order

/-- One call.  Every branch is predicted once, before its other calls; they are
given the direction that `predict` returned. -/
def step (cfg : Config) (s : BranchSession) : BranchCall → Except Refusal BranchSession
  | .predict x =>
    if (s.predicted x.key).isSome then .error .order
    else do
      let (info, tage) ← (s.tage.predict x.seqNo x.piece x.pc).mapError .abort
      let saved := { branch := x, returned := info.predTaken, hist := s.tage.activeHist }
      .ok { tage := tage, predicted := Function.update s.predicted x.key (some saved) }
  | .historyUpdate x => do
    let saved ← s.savedFor x
    .ok { s with tage := s.tage.historyUpdate x.pc 1 saved.returned x.taken x.nextPc }
  | .update x isLdDependent => do
    let saved ← s.savedFor x
    let tage ← (s.tage.update cfg x.seqNo x.piece x.pc x.taken saved.returned x.nextPc
      isLdDependent).mapError .abort
    .ok { s with tage := tage }

/-- The second prediction for a branch. -/
def predictAgain (s : BranchSession) (saved : Predicted) : Prediction :=
  predictUsingGivenHist s.tage.tables saved.branch.pc saved.hist

/-- The saved loop state with the resolved direction applied to it. -/
def repaired (s : BranchSession) (saved : Predicted) : (Nat → LEntry) × Int :=
  let tage := { s.tage with lookup := (s.predictAgain saved).lookup }
  ((tage.restoreLoop saved.hist).resolveLoop saved.branch.taken saved.returned).activeHist.loopState

/-- `update` repairs the loop state if the branch was mispredicted, and leaves it
alone otherwise. -/
def Repairs (cfg : Config) (s : BranchSession) : BranchCall → Prop
  | .update x isLdDependent => ∀ saved s', s.savedFor x = .ok saved →
      s.step cfg (.update x isLdDependent) = .ok s' →
      (saved.returned = x.taken →
        s'.tage.activeHist.loopState = s.tage.activeHist.loopState) ∧
      (saved.returned ≠ x.taken → s'.tage.activeHist.loopState = s.repaired saved)
  | _ => True

/-- The tables still give the direction that `predict` returned. -/
def Steady (s : BranchSession) : BranchCall → Prop
  | .update x _ =>
    match s.savedFor x with
    | .ok saved => (s.predictAgain saved).predTaken = saved.returned
    | .error _ => True
  | _ => True

instance (s : BranchSession) (call : BranchCall) : Decidable (s.Steady call) :=
  match call with
  | .predict _ => inferInstanceAs (Decidable True)
  | .historyUpdate _ => inferInstanceAs (Decidable True)
  | .update x _ =>
    match h : s.savedFor x with
    | .ok saved =>
      decidable_of_iff ((s.predictAgain saved).predTaken = saved.returned) (by simp [Steady, h])
    | .error _ => .isTrue (by simp [Steady, h])

/-! ## The saved histories -/

/-- Every saved history is the running history at the branch's `predict`. -/
def Saves (s : BranchSession) : Prop :=
  ∀ key h, s.tage.predTimeHistories key = some h →
    ∃ saved, s.predicted key = some saved ∧ saved.hist = h

theorem savedFor_eq_ok {s : BranchSession} {x : Branch} {saved : Predicted} :
    s.savedFor x = .ok saved ↔ s.predicted x.key = some saved ∧ saved.branch = x := by
  unfold savedFor
  cases h : s.predicted x.key with
  | none => simp
  | some saved' =>
    dsimp only
    constructor
    · intro hget
      split at hget
      · rename_i hbranch
        obtain rfl := Except.ok.inj hget
        exact ⟨rfl, hbranch⟩
      · cases hget
    · rintro ⟨hget, hbranch⟩
      obtain rfl := Option.some.inj hget
      exact if_pos hbranch

variable {cfg : Config} {s s' : BranchSession}

theorem saves_start : start.Saves := by
  intro key h hget
  cases hget

theorem saves_step {call : BranchCall} (h : s.Saves) (hstep : s.step cfg call = .ok s') :
    s'.Saves := by
  cases call with
  | predict x =>
    simp only [step] at hstep
    split at hstep
    · cases hstep
    rename_i hfresh
    obtain ⟨⟨info, tage⟩, hpredict, hstep⟩ := bind_eq_ok.mp hstep
    obtain rfl := Except.ok.inj hstep
    obtain ⟨-, -, hhist⟩ := TageScL.predict_eq_ok (mapError_eq_ok.mp hpredict)
    -- a fresh branch has no saved history to keep
    have hnone : s.tage.predTimeHistories x.key = none := by
      cases hget : s.tage.predTimeHistories x.key with
      | none => rfl
      | some hist =>
        obtain ⟨saved, hsaved, -⟩ := h _ _ hget
        simp [hsaved] at hfresh
    intro key hist hget
    dsimp only at hget ⊢
    rw [hhist] at hget
    rcases eq_or_ne key x.key with rfl | hne
    · have hsaved : s.tage.activeHist = hist := by
        simpa [Branch.key, show s.tage.predTimeHistories (instKey x.seqNo x.piece) = none from hnone]
          using hget
      exact ⟨_, Function.update_self .., hsaved⟩
    · rw [show instKey x.seqNo x.piece = x.key from rfl, Function.update_of_ne hne] at hget
      rw [Function.update_of_ne hne]
      exact h key hist hget
  | historyUpdate x =>
    obtain ⟨saved, -, hstep⟩ := bind_eq_ok.mp hstep
    obtain rfl := Except.ok.inj hstep
    intro key hist hget
    rw [TageScL.historyUpdate_predTimeHistories] at hget
    exact h key hist hget
  | update x isLdDependent =>
    obtain ⟨saved, -, hstep⟩ := bind_eq_ok.mp hstep
    obtain ⟨tage, hupdate, hstep⟩ := bind_eq_ok.mp hstep
    obtain rfl := Except.ok.inj hstep
    obtain ⟨-, -, hhist, -⟩ := TageScL.update_eq_ok (mapError_eq_ok.mp hupdate)
    intro key hist hget
    dsimp only at hget ⊢
    rw [hhist] at hget
    rcases eq_or_ne key (instKey x.seqNo x.piece) with rfl | hne
    · simp at hget
    · rw [Function.update_of_ne hne] at hget
      exact h key hist hget

/-- A steady `update` repairs. -/
theorem repairs_of_steady {call : BranchCall} (h : s.Saves) (hsteady : s.Steady call) :
    s.Repairs cfg call := by
  cases call with
  | predict x => trivial
  | historyUpdate x => trivial
  | update x isLdDependent =>
    intro saved s' hfor hstep
    rw [Steady, hfor] at hsteady
    obtain ⟨hsaved, rfl⟩ := savedFor_eq_ok.mp hfor
    obtain ⟨saved', hfor', hstep⟩ := bind_eq_ok.mp hstep
    obtain rfl := Except.ok.inj (hfor.symm.trans hfor')
    obtain ⟨tage, hupdate, hstep⟩ := bind_eq_ok.mp hstep
    obtain rfl := Except.ok.inj hstep
    obtain ⟨hist, hget, -, hloop⟩ := TageScL.update_eq_ok (mapError_eq_ok.mp hupdate)
    obtain ⟨saved', hsaved', rfl⟩ := h _ _ hget
    obtain rfl := Option.some.inj (hsaved.symm.trans hsaved')
    have hsame : (predictUsingGivenHist s.tage.tables saved.branch.pc saved.hist).predTaken =
        saved.returned := hsteady
    dsimp only at hloop
    rw [hsame] at hloop
    constructor
    · intro hright
      rw [if_pos hright] at hloop
      exact hloop
    · intro hwrong
      rw [if_neg hwrong] at hloop
      exact hloop

/-- **The loop state is repaired exactly on mispredictions** in every run in which
the tables, at each `update`, still give the direction that `predict` returned. -/
theorem repairs_of_every_steady (cfg : Config) (calls : List BranchCall)
    (hsteady : EveryStep (step cfg) start calls Steady) :
    EveryStep (step cfg) start calls (Repairs cfg) := by
  intro front call back u heq hrun
  have hsaves : u.Saves := by
    apply hrun.induct saves_start
    intro s call s' _ hs hstep
    exact saves_step hs hstep
  exact repairs_of_steady hsaves (hsteady front call back u heq hrun)

end BranchSession

/-! ## Runs without training in between -/

namespace BranchSession

variable {cfg : Config} {s u : BranchSession}

/-- The branch is remembered, and a second prediction would return the same. -/
def Fresh (x : Branch) (s : BranchSession) : Prop :=
  ∃ saved, s.savedFor x = .ok saved ∧ (s.predictAgain saved).predTaken = saved.returned

theorem fresh_of_predict {x : Branch} (hstep : s.step cfg (.predict x) = .ok u) : u.Fresh x := by
  simp only [step] at hstep
  split at hstep
  · cases hstep
  obtain ⟨⟨info, tage⟩, hpredict, hstep⟩ := bind_eq_ok.mp hstep
  obtain rfl := Except.ok.inj hstep
  obtain ⟨hdir, htables, -⟩ := TageScL.predict_eq_ok (mapError_eq_ok.mp hpredict)
  refine ⟨_, savedFor_eq_ok.mpr ⟨Function.update_self .., rfl⟩, ?_⟩
  rw [predictAgain]
  dsimp only
  rw [htables, hdir]

theorem fresh_step {x : Branch} {call : BranchCall} (h : s.Fresh x)
    (hcall : ∀ y isLdDependent, call ≠ .update y isLdDependent) (hstep : s.step cfg call = .ok u) :
    u.Fresh x := by
  obtain ⟨saved, hfor, hdir⟩ := h
  obtain ⟨hsaved, hbranch⟩ := savedFor_eq_ok.mp hfor
  rw [predictAgain] at hdir
  cases call with
  | predict y =>
    simp only [step] at hstep
    split at hstep
    · cases hstep
    rename_i hfresh
    obtain ⟨⟨info, tage⟩, hpredict, hstep⟩ := bind_eq_ok.mp hstep
    obtain rfl := Except.ok.inj hstep
    obtain ⟨-, htables, -⟩ := TageScL.predict_eq_ok (mapError_eq_ok.mp hpredict)
    have hne : x.key ≠ y.key := by
      rintro heq
      rw [← heq, hsaved] at hfresh
      exact hfresh rfl
    refine ⟨saved, savedFor_eq_ok.mpr ⟨?_, hbranch⟩, ?_⟩
    · dsimp only
      rw [Function.update_of_ne hne]
      exact hsaved
    · rw [predictAgain]
      dsimp only
      rw [htables]
      exact hdir
  | historyUpdate y =>
    obtain ⟨saved', -, hstep⟩ := bind_eq_ok.mp hstep
    obtain rfl := Except.ok.inj hstep
    refine ⟨saved, savedFor_eq_ok.mpr ⟨hsaved, hbranch⟩, ?_⟩
    rw [predictAgain]
    dsimp only
    rw [TageScL.historyUpdate_tables]
    exact hdir
  | update y isLdDependent => exact absurd rfl (hcall y isLdDependent)

/-- An `update` is steady when no other one came after the branch's `predict`. -/
theorem steady_of_untrained {x : Branch} {calls : List BranchCall} {isLdDependent : Bool}
    (hcalls : ∀ call ∈ calls, ∀ y isLdDependent, call ≠ .update y isLdDependent)
    (hrun : Run (step cfg) s (.predict x :: calls) u) : u.Steady (.update x isLdDependent) := by
  obtain ⟨v, hstep, hrun⟩ := run_cons.mp hrun
  have hfresh : u.Fresh x := by
    apply hrun.induct (fresh_of_predict hstep)
    intro s call s' hmem hs hstep
    exact fresh_step hs (hcalls call hmem) hstep
  obtain ⟨saved, hfor, hdir⟩ := hfresh
  rw [Steady, hfor]
  exact hdir

/-! ## Two branches that share their table entries -/

/-- Two branches of one loop. -/
def loopBranch (seqNo : Nat) (taken : Bool) : Branch where
  seqNo := seqNo
  piece := 0
  pc := 64
  taken := taken
  nextPc := if taken then 32 else 68

theorem repairs_inOrder :
    EveryStep (step {}) start
      [.predict (loopBranch 1 true), .historyUpdate (loopBranch 1 true),
        .update (loopBranch 1 true) false, .predict (loopBranch 2 false),
        .historyUpdate (loopBranch 2 false), .update (loopBranch 2 false) false] (Repairs {}) :=
  repairs_of_every_steady _ _ (by decide +kernel)

/-- Both branches are predicted before either is resolved. -/
def overlapping : List BranchCall :=
  [.predict (loopBranch 1 true), .historyUpdate (loopBranch 1 true),
    .predict (loopBranch 2 false), .historyUpdate (loopBranch 2 false),
    .update (loopBranch 1 true) false]

/-- The second branch is predicted right, but the training of the first has turned
the tables: its `update` repairs, and the direction of a loop entry changes. -/
theorem repairs_fails_on_trained_tables :
    ¬ EveryStep (step {}) start (overlapping ++ [.update (loopBranch 2 false) false])
      (Repairs {}) := by
  intro h
  obtain ⟨u, hrun, hbefore⟩ := observe_eq_some.mp
    (show (overlapping.foldlM (step {}) start).toOption.map
        (fun s : BranchSession => ((s.tage.activeHist.ltable 1).dir,
          (s.savedFor (loopBranch 2 false)).toOption.map (·.returned))) =
      some (false, some false) by decide +kernel)
  obtain ⟨v, hrun', hafter⟩ := observe_eq_some.mp
    (show ((overlapping ++ [BranchCall.update (loopBranch 2 false) false]).foldlM (step {})
        start).toOption.map (fun s : BranchSession => (s.tage.activeHist.ltable 1).dir) = some true
      by decide +kernel)
  obtain ⟨u', hu', hstep⟩ := run_concat.mp hrun'
  obtain rfl := hrun.unique hu'
  obtain ⟨hdir, hreturned⟩ := Prod.mk.inj hbefore
  cases hfor : u.savedFor (loopBranch 2 false) with
  | error e =>
    rw [hfor] at hreturned
    cases hreturned
  | ok saved =>
    have hright : saved.returned = (loopBranch 2 false).taken := by
      rw [hfor] at hreturned
      exact Option.some.inj hreturned
    have hsame := (h overlapping _ [] u rfl hrun saved v hfor hstep).1 hright
    have hltable : v.tage.activeHist.ltable = u.tage.activeHist.ltable := (Prod.mk.inj hsame).1
    rw [hltable, hdir] at hafter
    cases hafter

end BranchSession

end CbpSim.Predictor
