/-
  Predictor/Interface.lean --- the hooks that the simulator calls.

  Source: src/cond_branch_predictor_interface.cc and
  src/my_cond_branch_predictor.h.

  `notify_instr_fetch` and `notify_agen_complete` do nothing.  The log of branches
  (`histories_log`), which no hook reads, is left out, and with it the length of
  the dependence chain that goes nowhere else.
-/
import Mathlib.Data.Finset.Basic
import CbpSim.Common.Structs
import CbpSim.Predictor.TageScL

set_option autoImplicit false

namespace CbpSim.Predictor

open CbpSim.Foundation

/-! ## The sample predictor -/

/-- `SampleHist`. -/
structure SampleHist where
  ghist : Nat := 0
  tagePred : Bool := false
  deriving DecidableEq, Repr

/-- `SampleCondPredictor`. -/
structure SampleCondPredictor where
  activeHist : SampleHist
  predTimeHistories : Nat → Option SampleHist

namespace SampleCondPredictor

def init : SampleCondPredictor where
  activeHist := {}
  predTimeHistories := fun _ => none

/-- `predict`: the direction TAGE-SC-L chose. -/
def predict (p : SampleCondPredictor) (seqNo piece _pc : Nat) (tagePred : Bool) :
    Except Abort (Bool × SampleCondPredictor) := do
  let activeHist := { p.activeHist with tagePred := tagePred }
  let key ← getUniqueInstId seqNo piece
  let saved := (p.predTimeHistories key).getD activeHist
  .ok (activeHist.tagePred,
    { activeHist := activeHist
      predTimeHistories := Function.update p.predTimeHistories key (some saved) })

/-- `history_update`. -/
def historyUpdate (p : SampleCondPredictor) (taken : Bool) : SampleCondPredictor :=
  let ghist := (p.activeHist.ghist <<< 1) % 2 ^ 64 ||| taken.toNat
  { p with activeHist := { p.activeHist with ghist := ghist } }

/-- `update`: nothing is trained. -/
def update (p : SampleCondPredictor) (seqNo piece : Nat) : Except Abort SampleCondPredictor := do
  let key ← getUniqueInstId seqNo piece
  match p.predTimeHistories key with
  | none => .error .sampleHistoryMissing
  | some _ => .ok { p with predTimeHistories := Function.update p.predTimeHistories key none }

end SampleCondPredictor

/-! ## The dependence graph -/

/-- `DependencyGraph`. -/
abbrev DependencyGraph := Nat → Option (Finset Nat)

namespace DependencyGraph

/-- `addDependency`. -/
def addDependency (graph : DependencyGraph) (dest src : Nat) : DependencyGraph :=
  Function.update graph dest (some (insert src ((graph dest).getD ∅)))

/-- `deleteDestination`. -/
def deleteDestination (graph : DependencyGraph) (dest : Nat) : DependencyGraph :=
  fun key => if key = dest then none else (graph key).map fun dependencies => dependencies.erase dest

end DependencyGraph

/-! ## The hooks -/

/-- The globals of the interface. -/
structure CondBranchPredictor where
  tage : TageScL
  impl : SampleCondPredictor
  depGraph : DependencyGraph
  registersInFlight : Nat → Option Bool

/-- `sources.empty() || (sources.size() == 1 && sources[0] == 64)`. -/
def onlyFlags (sources : List Nat) : Bool := sources.isEmpty || sources == [rfFlags]

/-- The loop over `sources` that looks for a register in flight. -/
def anyInFlight (registersInFlight : Nat → Option Bool) (sources : List Nat) : Bool :=
  sources.any fun src => (registersInFlight src).getD false

/-- What `registers_in_flight[src]` leaves behind: the key is there. -/
def touchRegisters (registersInFlight : Nat → Option Bool) (sources : List Nat) :
    Nat → Option Bool :=
  fun reg => if reg ∈ sources then some ((registersInFlight reg).getD false)
    else registersInFlight reg

namespace CondBranchPredictor

/-- The globals after `beginCondDirPredictor`. -/
def init : CondBranchPredictor where
  tage := .init
  impl := .init
  depGraph := fun _ => none
  registersInFlight := fun _ => none

/-- `get_cond_dir_prediction`. -/
def getCondDirPrediction (p : CondBranchPredictor) (seqNo piece pc : Nat) :
    Except Abort (Bool × CondBranchPredictor) := do
  let (info, tage) ← p.tage.predict seqNo piece pc
  let (prediction, impl) ← p.impl.predict seqNo piece pc info.predTaken
  .ok (prediction, { p with tage := tage, impl := impl })

/-- The type of branch that the predictor knows. -/
def brType : InstClass → Option Nat
  | .condBranch => some 1
  | .uncondDirectBranch => some 0
  | .uncondIndirectBranch => some 2
  | .callDirect => some 0
  | .callIndirect => some 2
  | .return => some 2
  | _ => none

/-- `spec_update`. -/
def specUpdate (p : CondBranchPredictor) (pc : Nat) (instClass : InstClass)
    (resolveDir predDir : Bool) (nextPc : Nat) : Except Abort CondBranchPredictor :=
  match brType instClass with
  | none => .error .specUpdateClass
  | some type =>
    if instClass == .condBranch then
      .ok { p with
        tage := p.tage.historyUpdate pc type predDir resolveDir nextPc
        impl := p.impl.historyUpdate resolveDir }
    else .ok { p with tage := p.tage.trackOtherInst pc type predDir resolveDir nextPc }

/-- `notify_instr_decode`. -/
def notifyInstrDecode (p : CondBranchPredictor) (seqNo piece : Nat) (info : DecodeInfo) :
    Except Abort CondBranchPredictor :=
  if info.insnClass.isLoad then
    match info.dstRegInfo with
    | none => .error .loadDestination
    | some dstReg =>
      .ok { p with
        registersInFlight := Function.update p.registersInFlight dstReg (some true)
        depGraph := info.srcRegInfo.foldl (·.addDependency dstReg ·)
          (p.depGraph.deleteDestination dstReg) }
  else if info.insnClass.isCondBr then do
    let _key ← getUniqueInstId seqNo piece
    .ok p
  else .ok p

/-- `is_LD_dependent` as it is passed to the predictor. -/
def isLdDependent (cfg : Config) (p : CondBranchPredictor) (sources : List Nat) : Bool :=
  cfg.loadDependentBranches && !onlyFlags sources && anyInFlight p.registersInFlight sources

/-- `notify_instr_execute_resolve`. -/
def notifyInstrExecuteResolve (cfg : Config) (p : CondBranchPredictor) (seqNo piece pc : Nat)
    (predDir : Bool) (info : ExecuteInfo) : Except Abort CondBranchPredictor := do
  let _key ← getUniqueInstId seqNo piece
  if !info.decInfo.insnClass.isBr then .ok p
  else if info.decInfo.insnClass.isCondBr then
    match info.taken with
    | none => .error .executeTaken
    | some resolveDir =>
      let sources := info.decInfo.srcRegInfo
      let tage ← p.tage.update cfg seqNo piece pc resolveDir predDir info.nextPc
        (p.isLdDependent cfg sources)
      let impl ← p.impl.update seqNo piece
      .ok { p with
        tage := tage
        impl := impl
        registersInFlight :=
          if onlyFlags sources then p.registersInFlight
          else touchRegisters p.registersInFlight sources }
  else if predDir then .ok p
  else .error .executePredDir

/-- `notify_instr_commit`. -/
def notifyInstrCommit (p : CondBranchPredictor) (info : ExecuteInfo) :
    Except Abort CondBranchPredictor :=
  if info.decInfo.insnClass.isLoad then
    match info.decInfo.dstRegInfo with
    | none => .error .loadDestination
    | some dstReg =>
      .ok { p with
        depGraph := p.depGraph.deleteDestination dstReg
        registersInFlight := Function.update p.registersInFlight dstReg none }
  else .ok p

end CondBranchPredictor

end CbpSim.Predictor
