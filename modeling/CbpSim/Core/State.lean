/-
  Core/State.lean --- the state of the simulator.

  Source: src/lib/uarchsim.h, src/lib/bp.h and the constructor of
  src/lib/uarchsim.cc.

  The predictors behind the notification interface are a parameter: a `Hooks P H`
  is their functions on a state `P`, which may stop the program with an `H`.  The
  state comes in three parts, one for each group of functions that works on it:
  the `Pipeline` of instructions in flight, the `Resources` that decide when an
  instruction executes, and the `Uarchsim` around them.

  Cycles and counters are naturals.  The activity trace and the output are left
  out.
-/
import CbpSim.Common.Parameters
import CbpSim.Common.Structs
import CbpSim.Foundation.Run
import CbpSim.Lanes.ResourceSchedule
import CbpSim.Memory.Cache
import CbpSim.Memory.Prefetcher

set_option autoImplicit false

namespace CbpSim.Core

open CbpSim.Foundation CbpSim.Lanes CbpSim.Memory

/-! ## The interface of the predictors -/

/-- `HitMissInfo`. -/
inductive HitMissInfo where
  | invalid
  | miss
  | l1dHit
  | l2Hit
  | l3Hit
  deriving DecidableEq, Repr

/-- `PredictionRequest`. -/
structure PredictionRequest where
  seqNo : Nat
  pc : Nat
  piece : Nat
  isCandidate : Bool
  cacheHit : HitMissInfo
  deriving DecidableEq, Repr

/-- `PredictionResult`. -/
structure PredictionResult where
  predictedValue : Nat := 0
  speculate : Bool := false
  deriving DecidableEq, Repr

/-- The arguments of `speculativeUpdate`. -/
structure SpeculativeUpdate where
  seqNo : Nat
  eligible : Bool
  predictionResult : Nat
  pc : Nat
  nextPc : Nat
  insnClass : InstClass
  piece : Nat
  src1 : Nat
  src2 : Nat
  src3 : Nat
  dst : Nat
  deriving DecidableEq, Repr

/-- The functions that the simulator calls. -/
structure Hooks (P H : Type) where
  notifyInstrFetch (p : P) (seqNo piece pc fetchCycle : Nat) : Except H P
  getCondDirPrediction (p : P) (seqNo piece pc predCycle fetchCycle execCycle : Nat) :
    Except H (Bool × P)
  specUpdate (p : P) (seqNo piece pc : Nat) (instClass : InstClass) (resolveDir predDir : Bool)
    (nextPc : Nat) : Except H P
  notifyInstrDecode (p : P) (seqNo piece pc : Nat) (info : DecodeInfo) (decodeCycle : Nat) :
    Except H P
  notifyAgenComplete (p : P) (seqNo piece pc : Nat) (info : DecodeInfo)
    (memVa memSz agenCycle : Nat) : Except H P
  notifyInstrExecuteResolve (p : P) (seqNo piece pc : Nat) (predDir : Bool) (info : ExecuteInfo)
    (executeCycle : Nat) : Except H P
  notifyInstrCommit (p : P) (seqNo piece pc : Nat) (predDir : Bool) (info : ExecuteInfo)
    (commitCycle : Nat) : Except H P
  /-- the value predictor -/
  getPrediction (p : P) (request : PredictionRequest) : Except H (PredictionResult × P)
  speculativeUpdate (p : P) (update : SpeculativeUpdate) : Except H P
  updatePredictor (p : P) (seqNo addr value latency : Nat) : Except H P
  /-- the indirect-branch predictor -/
  ittageGetPrediction (p : P) (pc : Nat) : Except H (Nat × P)
  ittageUpdatePredictor (p : P) (pc nextPc : Nat) : Except H P
  ittageTrackOtherInst (p : P) (pc nextPc : Nat) : Except H P
  /-- `rand_r`: the number and the next seed -/
  randR (seed : Nat) : Nat × Nat

/-- Why the simulator stopped: at a site of its own, or in a hook. -/
inductive Stop (H : Type) where
  | abort (site : Abort)
  | hook (reason : H)
  deriving DecidableEq, Repr

variable {P H : Type}

/-- A function without hooks, called by the simulator. -/
def lift {α : Type} (x : Except Abort α) : Except (Stop H) α := x.mapError .abort

/-- A hook, called by the simulator. -/
def call {α : Type} (x : Except H α) : Except (Stop H) α := x.mapError .hook

/-! ## The pipeline -/

/-- `window_t`. -/
structure WindowEntry where
  seqNo : Nat
  piece : Nat
  pc : Nat
  fetchCycle : Nat
  decodeCycle : Nat
  execCycle : Nat
  execInfo : ExecuteInfo
  retireCycle : Nat
  predTaken : Bool
  addr : Nat
  value : Nat
  latency : Nat
  deriving DecidableEq, Repr

/-- An entry of `DQ`, `AQ` or `EQ`. -/
structure QueueEntry where
  seqNo : Nat
  piece : Nat
  cycle : Nat
  deriving DecidableEq, Repr

/-- The stages that are notified, in the order in which a cycle evaluates them. -/
inductive Stage where
  | decode
  | agen
  | execute
  | commit
  deriving DecidableEq, Repr

/-- A notification that was delivered. -/
structure Event where
  stage : Stage
  seqNo : Nat
  piece : Nat
  pc : Nat
  cycle : Nat
  deriving DecidableEq, Repr

/-- The window and the queues, and the predictors they notify.  `events` and
`evaluated` are no members of the source: the notifications so far, and the number
of cycles evaluated so far. -/
structure Pipeline (P : Type) where
  window : List WindowEntry
  DQ : List QueueEntry
  AQ : List QueueEntry
  EQ : List QueueEntry
  hooks : P
  events : List Event
  evaluated : Nat

/-! ## The resources -/

/-- `store_queue_t`. -/
structure StoreQueue where
  execCycle : Nat
  retCycle : Nat
  deriving DecidableEq, Repr

/-- What decides when an instruction executes. -/
structure Resources where
  aluLanes : ResourceSchedule
  ldstLanes : ResourceSchedule
  RF : Nat → Nat
  SQ : Nat → Option StoreQueue
  L1 : Cache
  L2 : Cache
  L3 : Cache
  IC : Cache
  prefetcher : StridePrefetcher

/-! ## The branch predictor's measurements -/

/-- What `bp_t` counts in one epoch; its vectors grow together. -/
structure EpochMeasures where
  conddirN : Nat := 0
  conddirM : Nat := 0
  jumpdirN : Nat := 0
  jumpindN : Nat := 0
  jumpindM : Nat := 0
  jumpretN : Nat := 0
  jumpretM : Nat := 0
  notctrlN : Nat := 0
  notctrlM : Nat := 0
  cyclesOnWrongPath : Nat := 0
  deriving DecidableEq, Repr

/-- `bp_t`. -/
structure Bp where
  mispredCorrectionSeed : Nat
  measPerEpoch : List EpochMeasures
  deriving DecidableEq, Repr

/-- `v.back() = f(v.back())`. -/
def updateBack {α : Type} (f : α → α) (xs : List α) : List α :=
  xs.dropLast ++ (xs.getLast?.map f).toList

/-! ## The simulator -/

/-- An instruction that was fetched, with the cycles recorded for it and the state
of the predictors when its branch prediction was made. -/
structure Fetched (P : Type) where
  inst : DbInst
  seqNo : Nat
  piece : Nat
  fetchCycle : Nat
  decodeCycle : Nat
  laneCycle : Nat
  agenCycle : Nat
  execCycle : Nat
  retireCycle : Nat
  predictors : P

/-- `uarchsim_t`, and the `piece` that `step` keeps from call to call.  `fetched`
is no member of the source: the instructions fetched so far. -/
structure Uarchsim (P : Type) where
  pipe : Pipeline P
  res : Resources
  windowCapacity : Nat
  numFetched : Nat
  numFetchedBranch : Nat
  fetchCycle : Nat
  previousFetchCycle : Nat
  BP : Bp
  numInst : Nat
  numUop : Nat
  cycle : Nat
  numInstsPerEpoch : List Nat
  numCyclesPerEpoch : List Nat
  lastEpochEndCycle : Nat
  numEligible : Nat
  numCorrect : Nat
  numIncorrect : Nat
  numLoad : Nat
  numLoadSqmiss : Nat
  cyclesOnWrongPath : Nat
  statPfsIssuedToMem : Nat
  piece : Nat
  fetched : List (Fetched P)

/-- Values that the constructor leaves open, those of each cache its own. -/
structure Unset where
  cache : Level → Memory.Unspecified
  cyclesOnWrongPath : Nat

namespace Uarchsim

/-- `end_current_begin_new_epoch`. -/
def endCurrentBeginNewEpoch (s : Uarchsim P) (firstEpoch lastEpoch : Bool)
    (epochEndCycle : Nat) : Except Abort (Uarchsim P) := do
  let s ←
    (if firstEpoch then .ok s
    else if epochEndCycle > s.lastEpochEndCycle then
      .ok { s with
        numCyclesPerEpoch :=
          updateBack (fun _ => epochEndCycle - s.lastEpochEndCycle) s.numCyclesPerEpoch }
    else .error .epochEndCycle)
  let s := { s with lastEpochEndCycle := epochEndCycle }
  if lastEpoch then .ok s
  else
    .ok { s with
      numInstsPerEpoch := s.numInstsPerEpoch ++ [0]
      numCyclesPerEpoch := s.numCyclesPerEpoch ++ [0]
      BP := { s.BP with measPerEpoch := s.BP.measPerEpoch ++ [{}] } }

/-- The constructor, with the predictors in the state `p`. -/
def new (u : Unset) (cfg : Config) (p : P) : Except Abort (Uarchsim P) := do
  let L3 ← Cache.new (u.cache .L3) cfg.l3Size cfg.l3Assoc cfg.l3Blocksize cfg.l3Latency
  let L2 ← Cache.new (u.cache .L2) cfg.l2Size cfg.l2Assoc cfg.l2Blocksize cfg.l2Latency
  let L1 ← Cache.new (u.cache .L1) cfg.l1Size cfg.l1Assoc cfg.l1Blocksize cfg.l1Latency
  let IC ← Cache.new (u.cache .IC) cfg.icSize cfg.icAssoc cfg.icBlocksize 0
  if cfg.windowSize = 0 then .error .windowSize
  else if cfg.numLdstLanes = 0 then .error .numLdstLanes
  else if cfg.numAluLanes = 0 then .error .numAluLanes
  else
    let s : Uarchsim P :=
      { pipe := { window := [], DQ := [], AQ := [], EQ := [], hooks := p, events := []
                  evaluated := 0 }
        res :=
          { aluLanes := .new cfg.numAluLanes
            ldstLanes := .new cfg.numLdstLanes
            RF := fun _ => 0
            SQ := fun _ => none
            L1 := L1, L2 := L2, L3 := L3, IC := IC
            prefetcher := .new }
        windowCapacity := cfg.windowSize
        numFetched := 0
        numFetchedBranch := 0
        fetchCycle := 0
        previousFetchCycle := 0
        BP := { mispredCorrectionSeed := 0, measPerEpoch := [] }
        numInst := 0
        numUop := 0
        cycle := 0
        numInstsPerEpoch := []
        numCyclesPerEpoch := []
        lastEpochEndCycle := 0
        numEligible := 0
        numCorrect := 0
        numIncorrect := 0
        numLoad := 0
        numLoadSqmiss := 0
        cyclesOnWrongPath := u.cyclesOnWrongPath
        statPfsIssuedToMem := 0
        piece := 255
        fetched := [] }
    s.endCurrentBeginNewEpoch true false 0

end Uarchsim

end CbpSim.Core
