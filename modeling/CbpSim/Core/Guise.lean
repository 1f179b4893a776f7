/-
  Core/Guise.lean --- the simulator with something else in place of its predictors.

  `recast` replaces the predictors, what was measured of them, and what was
  remembered of the fetched instructions.  The parts of `step` that call no hook
  commute with it: they neither read what it replaces nor, `writeBack` and the start
  of an epoch apart, write it.
-/
import CbpSim.Core.Course
import CbpSim.Foundation.Paired

set_option autoImplicit false

namespace CbpSim

/-- The parameters that decide which predictions are made, and how. -/
structure Predicting where
  vpEnable : Bool
  vpPerfect : Bool
  vpTrack : VpTracks
  perfectBranchPred : Bool
  perfectIndirectPred : Bool
  mispReductionPerc : Nat
  loadDependentBranches : Bool
  uIncrment : Int

/-- The configuration with these parameters. -/
def Config.predicting (cfg : Config) (x : Predicting) : Config :=
  { cfg with
    vpEnable := x.vpEnable
    vpPerfect := x.vpPerfect
    vpTrack := x.vpTrack
    perfectBranchPred := x.perfectBranchPred
    perfectIndirectPred := x.perfectIndirectPred
    mispReductionPerc := x.mispReductionPerc
    loadDependentBranches := x.loadDependentBranches
    uIncrment := x.uIncrment }

/-- The parameters of a configuration. -/
def Config.toPredicting (cfg : Config) : Predicting where
  vpEnable := cfg.vpEnable
  vpPerfect := cfg.vpPerfect
  vpTrack := cfg.vpTrack
  perfectBranchPred := cfg.perfectBranchPred
  perfectIndirectPred := cfg.perfectIndirectPred
  mispReductionPerc := cfg.mispReductionPerc
  loadDependentBranches := cfg.loadDependentBranches
  uIncrment := cfg.uIncrment

end CbpSim

namespace CbpSim.Core

open CbpSim.Foundation CbpSim.Lanes CbpSim.Memory

variable {P Q H : Type}

/-- The pipeline with other predictors. -/
def Pipeline.recast (p : Pipeline P) (q : Q) : Pipeline Q where
  window := p.window
  DQ := p.DQ
  AQ := p.AQ
  EQ := p.EQ
  hooks := q
  events := p.events
  evaluated := p.evaluated

/-- What stands in place of the predictors and of what they leave behind. -/
structure Guise (Q : Type) where
  hooks : Q
  BP : Bp
  numEligible : Nat
  fetched : List (Fetched Q)

namespace Uarchsim

/-- The simulator in another guise. -/
def recast (s : Uarchsim P) (g : Guise Q) : Uarchsim Q where
  pipe := s.pipe.recast g.hooks
  res := s.res
  windowCapacity := s.windowCapacity
  numFetched := s.numFetched
  numFetchedBranch := s.numFetchedBranch
  fetchCycle := s.fetchCycle
  previousFetchCycle := s.previousFetchCycle
  BP := g.BP
  numInst := s.numInst
  numUop := s.numUop
  cycle := s.cycle
  numInstsPerEpoch := s.numInstsPerEpoch
  numCyclesPerEpoch := s.numCyclesPerEpoch
  lastEpochEndCycle := s.lastEpochEndCycle
  numEligible := g.numEligible
  numCorrect := s.numCorrect
  numIncorrect := s.numIncorrect
  numLoad := s.numLoad
  numLoadSqmiss := s.numLoadSqmiss
  cyclesOnWrongPath := s.cyclesOnWrongPath
  statPfsIssuedToMem := s.statPfsIssuedToMem
  piece := s.piece
  fetched := g.fetched

/-- The guise that the simulator is in. -/
def guise (s : Uarchsim P) : Guise P where
  hooks := s.pipe.hooks
  BP := s.BP
  numEligible := s.numEligible
  fetched := s.fetched

end Uarchsim

/-- The eligible instructions are counted in the guise. -/
def Guise.count (g : Guise Q) (predictable : Bool) : Guise Q :=
  { g with numEligible := g.numEligible + predictable.toNat }

/-- The measurements of a new epoch start from nothing. -/
def Bp.newEpoch (b : Bp) : Bp := { b with measPerEpoch := b.measPerEpoch ++ [{}] }

/-- A new epoch is measured in the guise. -/
def Guise.newEpoch (g : Guise Q) : Guise Q := { g with BP := g.BP.newEpoch }

/-! ## The resources -/

namespace Resources

variable (cfg : Config) (x : Predicting)

theorem issuePrefetch_predicting (pf : Prefetch) (n cycle : Nat) (r : Resources) :
    issuePrefetch (cfg.predicting x) pf n cycle r = issuePrefetch cfg pf n cycle r := by
  induction n generalizing cycle r with
  | zero => rfl
  | succ n ih =>
    simp only [issuePrefetch, ih]
    rfl

theorem drainPrefetches_predicting (previousFetchCycle fetchCycle n : Nat) (r : Resources) :
    drainPrefetches (cfg.predicting x) previousFetchCycle fetchCycle n r =
      drainPrefetches cfg previousFetchCycle fetchCycle n r := by
  induction n generalizing r with
  | zero => rfl
  | succ n ih =>
    simp only [drainPrefetches, issuePrefetch_predicting, ih]

theorem execute_predicting (r : Resources) (fetchCycle : Nat) (inst : DbInst) :
    execute (cfg.predicting x) r fetchCycle inst = execute cfg r fetchCycle inst := rfl

end Resources

namespace Uarchsim

/-! ## The parts of a step -/

section Parts

variable (cfg : Config) (x : Predicting) (s : Uarchsim P) (g : Guise Q) (inst : DbInst)

theorem schedule_recast :
    schedule (cfg.predicting x) (s.recast g) inst =
      (schedule cfg s inst).map fun r => (r.1, r.2.recast g) := by
  unfold schedule
  simp only [Resources.execute_predicting, Resources.drainPrefetches_predicting]
  change (s.res.execute cfg s.fetchCycle inst >>= _) = _
  cases s.res.execute cfg s.fetchCycle inst with
  | error e => rfl
  | ok r =>
    obtain ⟨t, res⟩ := r
    simp only [ok_bind]
    change ((if cfg.prefetcherEnable then
      res.drainPrefetches cfg s.previousFetchCycle s.fetchCycle (res.prefetcher.queue.length + 1)
      else .ok (0, res)) >>= _) = _
    cases (if cfg.prefetcherEnable then
      res.drainPrefetches cfg s.previousFetchCycle s.fetchCycle (res.prefetcher.queue.length + 1)
      else .ok (0, res)) with
    | error e => rfl
    | ok r => rfl

/-- Only the count of the eligible instructions is written in the guise.  A value that
is not speculated on may be predictable on one side alone. -/
theorem writeBack_recast (t : Timing) (pred : PredictionResult) (predictable predictable' : Bool)
    (h : predictable = predictable' ∨ pred.speculate = false) :
    writeBack (cfg.predicting x) (s.recast g) inst t pred predictable' =
      (writeBack cfg s inst t pred predictable).map fun r =>
        (r.1, r.2.recast (g.count predictable')) := by
  have hcounts : ∀ squash : Bool, (predictable' && pred.speculate && squash) =
      (predictable && pred.speculate && squash) := by
    intro squash
    rcases h with rfl | h
    · rfl
    · rw [h, Bool.and_false, Bool.and_false]
  unfold writeBack
  simp only [hcounts]
  split
  · rfl
  · -- the register file and the store queue read nothing of the guise
    change (Resources.updateSQ cfg
      (if inst.D.valid && inst.D.logReg != rfZero then
        { s.res with
          RF := Function.update s.res.RF inst.D.logReg
            (if pred.speculate && pred.predictedValue == inst.D.value then s.fetchCycle
            else t.execCycle) }
      else s.res) inst t.execCycle s.pipe.backRetire >>= _) = _
    cases Resources.updateSQ cfg
      (if inst.D.valid && inst.D.logReg != rfZero then
        { s.res with
          RF := Function.update s.res.RF inst.D.logReg
            (if pred.speculate && pred.predictedValue == inst.D.value then s.fetchCycle
            else t.execCycle) }
      else s.res) inst t.execCycle s.pipe.backRetire with
    | error e => rfl
    | ok res => rfl

theorem bundle_recast :
    bundle (cfg.predicting x) (s.recast g) inst = (bundle cfg s inst).map fun r => r.recast g := by
  unfold bundle
  dsimp only
  rw [apply_ite (Except.map _), apply_ite (Except.map _)]
  rfl

theorem manageFetch_recast (squash : Bool) :
    manageFetch (cfg.predicting x) (s.recast g) inst squash =
      (manageFetch cfg s inst squash).map fun r => r.recast g := by
  have hwindow : (s.recast g).pipe.window = s.pipe.window := rfl
  unfold manageFetch
  rw [hwindow]
  cases s.pipe.window.head? with
  | none => rfl
  | some front =>
    dsimp only
    rw [bundle_recast]
    simp only [apply_ite (Except.map _)]
    rfl

theorem updatePredTaken_recast (misp : Bool) :
    updatePredTaken (s.recast g) inst misp =
      (updatePredTaken s inst misp).map fun r => r.recast g := by
  unfold updatePredTaken
  simp only [apply_ite (Except.map _)]
  rfl

/-- The instruction is the last one of its epoch. -/
def closesEpoch (cfg : Config) (s : Uarchsim P) (inst : DbInst) : Prop :=
  (updateBack (· + inst.isLastPiece.toNat) s.numInstsPerEpoch).getLast? = some cfg.epochSizeInsts

instance decidableClosesEpoch (cfg : Config) (s : Uarchsim P) (inst : DbInst) :
    Decidable (closesEpoch cfg s inst) :=
  inferInstanceAs (Decidable (_ = _))

theorem endCurrentBeginNewEpoch_recast (epochEndCycle : Nat) :
    endCurrentBeginNewEpoch (s.recast g) false false epochEndCycle =
      (endCurrentBeginNewEpoch s false false epochEndCycle).map fun r => r.recast g.newEpoch := by
  unfold endCurrentBeginNewEpoch
  by_cases hlater : epochEndCycle > s.lastEpochEndCycle
  · have hlater' : epochEndCycle > (s.recast g).lastEpochEndCycle := hlater
    simp only [Bool.false_eq_true, if_false, if_pos hlater, if_pos hlater', ok_bind]
    rfl
  · have hlater' : ¬ epochEndCycle > (s.recast g).lastEpochEndCycle := hlater
    simp only [Bool.false_eq_true, if_false, if_neg hlater, if_neg hlater']
    rfl

theorem endStep_recast (predictCycle : Nat) :
    endStep (cfg.predicting x) (s.recast g) inst predictCycle =
      (endStep cfg s inst predictCycle).map fun r =>
        r.recast (if closesEpoch cfg s inst then g.newEpoch else g) := by
  have hres : (s.recast g).res = s.res := rfl
  have hfetch : (s.recast g).fetchCycle = s.fetchCycle := rfl
  unfold endStep
  rw [hres, hfetch]
  dsimp only
  cases s.res.ldstLanes.advanceBaseCycle _ with
  | error e => rfl
  | ok ldst =>
    cases s.res.aluLanes.advanceBaseCycle _ with
    | error e => rfl
    | ok alu =>
      simp only [ok_bind]
      let s' : Uarchsim P :=
        { s with
          res := { s.res with ldstLanes := ldst, aluLanes := alu }
          piece := if inst.isLastPiece then 255 else s.piece
          numInstsPerEpoch := updateBack (· + inst.isLastPiece.toNat) s.numInstsPerEpoch }
      change (if closesEpoch cfg s inst then
          (s'.recast g).endCurrentBeginNewEpoch false false predictCycle
        else .ok (s'.recast g)) =
        Except.map _ (if closesEpoch cfg s inst then
          s'.endCurrentBeginNewEpoch false false predictCycle
        else .ok s')
      split
      · exact endCurrentBeginNewEpoch_recast s' g predictCycle
      · rfl

end Parts

/-- The constructor, for other predictors. -/
theorem new_recast (u : Unset) (cfg : Config) (x : Predicting) (p : P) (q : Q) :
    new u (cfg.predicting x) q =
      (new u cfg p).map fun r => r.recast { r.guise with hooks := q, fetched := [] } := by
  unfold new
  change (Cache.new (u.cache .L3) cfg.l3Size cfg.l3Assoc cfg.l3Blocksize cfg.l3Latency >>= _) = _
  cases Cache.new (u.cache .L3) cfg.l3Size cfg.l3Assoc cfg.l3Blocksize cfg.l3Latency with
  | error e => rfl
  | ok L3 =>
    simp only [ok_bind]
    change (Cache.new (u.cache .L2) cfg.l2Size cfg.l2Assoc cfg.l2Blocksize cfg.l2Latency >>= _) = _
    cases Cache.new (u.cache .L2) cfg.l2Size cfg.l2Assoc cfg.l2Blocksize cfg.l2Latency with
    | error e => rfl
    | ok L2 =>
      simp only [ok_bind]
      change (Cache.new (u.cache .L1) cfg.l1Size cfg.l1Assoc cfg.l1Blocksize cfg.l1Latency >>= _) = _
      cases Cache.new (u.cache .L1) cfg.l1Size cfg.l1Assoc cfg.l1Blocksize cfg.l1Latency with
      | error e => rfl
      | ok L1 =>
        simp only [ok_bind]
        change (Cache.new (u.cache .IC) cfg.icSize cfg.icAssoc cfg.icBlocksize 0 >>= _) = _
        cases Cache.new (u.cache .IC) cfg.icSize cfg.icAssoc cfg.icBlocksize 0 with
        | error e => rfl
        | ok IC =>
          simp only [ok_bind, apply_ite (Except.map _)]
          rfl

end Uarchsim

end CbpSim.Core
