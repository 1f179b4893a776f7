/-
  Common/Parameters.lean --- the configuration of a run.

  Source: src/lib/parameters.h and src/lib/parameters.cc; the options of
  src/lib/cbp.cc overwrite the values given here.
-/
import Mathlib.Tactic

set_option autoImplicit false

namespace CbpSim

/-- `VPTracks`: the instructions that `VP_TRACK` selects for value prediction. -/
inductive VpTracks where
  | all
  | loadsOnly
  | loadsOnlyHitMiss
  | other (n : Nat)
  deriving DecidableEq, Repr

/-- The parameters, with the values they have when no option is given. -/
structure Config where
  vpEnable : Bool := false
  vpPerfect : Bool := false
  vpTrack : VpTracks := .all
  windowSize : Nat := 1024
  fetchWidth : Nat := 16
  fetchNumBranch : Nat := 16
  fetchStopAtIndirect : Bool := true
  fetchStopAtTaken : Bool := true
  fetchModelIcache : Bool := true
  perfectBranchPred : Bool := false
  perfectIndirectPred : Bool := true
  pipelineFillLatency : Nat := 10
  numLdstLanes : Nat := 8
  numAluLanes : Nat := 16
  prefetcherEnable : Bool := true
  perfectCache : Bool := false
  writeAllocate : Bool := true
  icSize : Nat := 2 ^ 17
  icAssoc : Nat := 8
  icBlocksize : Nat := 64
  l1Size : Nat := 2 ^ 17
  l1Assoc : Nat := 8
  l1Blocksize : Nat := 64
  l1Latency : Nat := 3
  l2Size : Nat := 2 ^ 22
  l2Assoc : Nat := 8
  l2Blocksize : Nat := 64
  l2Latency : Nat := 12
  l3Size : Nat := 2 ^ 25
  l3Assoc : Nat := 16
  l3Blocksize : Nat := 128
  l3Latency : Nat := 50
  mainMemoryLatency : Nat := 150
  defaultExecLatency : Nat := 1
  fpExecLatency : Nat := 3
  slowAluExecLatency : Nat := 4
  dqLatency : Nat := 2
  mispReductionPerc : Nat := 0
  epochSizeInsts : Nat := 1000000
  loadDependentBranches : Bool := false
  uIncrment : Int := 0
  deriving DecidableEq, Repr

/-- The pipeline and execution latencies that no option changes. -/
structure Config.DefaultLatencies (cfg : Config) : Prop where
  fill : cfg.pipelineFillLatency = 10
  dq : cfg.dqLatency = 2
  default : cfg.defaultExecLatency = 1
  fp : cfg.fpExecLatency = 3
  slowAlu : cfg.slowAluExecLatency = 4

end CbpSim
