/-
  Core/Step.lean --- fetching an instruction.

  Source: src/lib/uarchsim.cc, `step` and the functions it calls, and
  src/lib/bp.cc, `bp_t::predict`.

  `step` is cut where its comments cut it; a part works on the pipeline, on the
  resources or on the rest of the state, and says so by its type.
-/
import CbpSim.Core.Pipeline

set_option autoImplicit false

namespace CbpSim.Core

open CbpSim.Foundation CbpSim.Lanes CbpSim.Memory

variable {P H : Type}

/-! ## Scheduling -/

/-- One of the three checks of an operand.  `guard` is the operand whose register
is compared with `RFZERO`. -/
def operandReady (RF : Nat → Nat) (op guard : DbOperand) (execCycle : Nat) : Except Abort Nat :=
  if !op.valid then .ok execCycle
  else if ¬ op.logReg < rfSize then .error .stepRegister
  else if guard.logReg ≠ rfZero then .ok (max execCycle (RF op.logReg))
  else .ok execCycle

/-- The source registers: the second and the third check look at the register of
operand `A`. -/
def sourcesReady (RF : Nat → Nat) (inst : DbInst) (execCycle : Nat) : Except Abort Nat := do
  let execCycle ← operandReady RF inst.A inst.A execCycle
  let execCycle ← operandReady RF inst.B inst.A execCycle
  operandReady RF inst.C inst.A execCycle

/-- A slot of a lane.  The search stops before the last 64-bit cycle. -/
def scheduleLane (lanes : ResourceSchedule) (start : Nat) :
    Except Abort (ResourceSchedule × Nat) := do
  let (lanes, cycle) ← lanes.schedule start maxCycle
  if cycle < maxCycle then .ok (lanes, cycle) else .error .stepCycleRange

namespace Resources

/-- An access to `L1`. -/
def accessL1 (cfg : Config) (r : Resources) (cycle addr : Nat) (pf : Bool) :
    Except Abort (Nat × Resources) := do
  let (avail, levels) ← accessLevels cfg.mainMemoryLatency [r.L1, r.L2, r.L3] cycle addr pf
  match levels with
  | [l1, l2, l3] => .ok (avail, { r with L1 := l1, L2 := l2, L3 := l3 })
  | _ => .ok (avail, r)

/-- An access to `IC`. -/
def accessIC (cfg : Config) (r : Resources) (cycle addr : Nat) :
    Except Abort (Nat × Resources) := do
  let (avail, levels) ← accessLevels cfg.mainMemoryLatency [r.IC, r.L2, r.L3] cycle addr false
  match levels with
  | [ic, l2, l3] => .ok (avail, { r with IC := ic, L2 := l2, L3 := l3 })
  | _ => .ok (avail, r)

/-- `get_load_exec_cycle`. -/
def getLoadExecCycle (cfg : Config) (r : Resources) (fetchCycle : Nat) (inst : DbInst) :
    Except Abort (Nat × Resources) := do
  let execCycle ← sourcesReady r.RF inst (fetchCycle + cfg.pipelineFillLatency)
  let (lanes, execCycle) ← r.ldstLanes.trySchedule execCycle
  .ok (execCycle + 1, { r with ldstLanes := lanes })

/-- The switch of `get_value_prediction_req_for_track` for a load: the first cache that has
the block. -/
def searchCaches (r : Resources) (cycle addr : Nat) : Except Abort HitMissInfo := do
  let l1 ← r.L1.isHit cycle addr
  if l1 then .ok .l1dHit
  else do
    let l2 ← r.L2.isHit cycle addr
    if l2 then .ok .l2Hit
    else do
      let l3 ← r.L3.isHit cycle addr
      if l3 then .ok .l3Hit else .ok .miss

/-- `get_value_prediction_req_for_track`. -/
def getValuePredictionReq (cfg : Config) (r : Resources) (fetchCycle seqNo piece : Nat)
    (inst : DbInst) : Except Abort (PredictionRequest × Resources) :=
  let req : PredictionRequest :=
    { seqNo := seqNo, pc := inst.pc, piece := piece, isCandidate := false, cacheHit := .invalid }
  match cfg.vpTrack with
  | .all => .ok ({ req with isCandidate := true }, r)
  | .loadsOnly => .ok ({ req with isCandidate := inst.isLoad }, r)
  | .loadsOnlyHitMiss =>
    if !inst.isLoad then .ok (req, r)
    else do
      let (execCycle, r) ← r.getLoadExecCycle cfg fetchCycle inst
      let cacheHit ← r.searchCaches execCycle inst.addr
      .ok ({ req with isCandidate := true, cacheHit := cacheHit }, r)
  | .other _ => .error .stepTrack

end Resources

/-- What scheduling decides about an instruction. -/
structure Timing where
  laneCycle : Nat
  agenCycle : Nat
  execCycle : Nat
  latency : Nat
  sqMiss : Bool
  deriving DecidableEq, Repr

/-- The address of a byte of an access. -/
def byteAddr (inst : DbInst) (i : Nat) : Nat := (inst.addr + i) % 2 ^ 64

/-- The loop over the bytes of a load: the cycle at which the last one is there,
and whether one was not in the store queue. -/
def searchSQ (SQ : Nat → Option StoreQueue) (inst : DbInst) (execCycle dataCacheCycle : Nat) :
    Nat × Bool :=
  (List.range inst.size).foldl (fun (tempCycle, sqMiss) i =>
    match SQ (byteAddr inst i) with
    | some entry =>
      if execCycle < entry.retCycle then
        (max tempCycle (max execCycle entry.execCycle), sqMiss)
      else (max tempCycle dataCacheCycle, true)
    | none => (max tempCycle dataCacheCycle, true)) (0, false)

/-- The fixed latency of a class. -/
def fixedLatency (cfg : Config) (c : InstClass) : Nat :=
  if c = .fp then cfg.fpExecLatency
  else if c = .slowAlu then cfg.slowAluExecLatency
  else cfg.defaultExecLatency

namespace Resources

/-- The prefetcher looks ahead and is trained. -/
def trainPrefetcher (cfg : Config) (r : Resources) (fetchCycle : Nat) (inst : DbInst) :
    Except Abort Resources :=
  if cfg.prefetcherEnable then do
    let prefetcher := r.prefetcher.lookahead (inst.pc >>> 2) fetchCycle
    let prefetcher ← prefetcher.train (inst.pc >>> 2) inst.addr
    .ok { r with prefetcher := prefetcher }
  else .ok r

/-- The execution of a load that was given a lane at `laneCycle`. -/
def executeLoad (cfg : Config) (r : Resources) (fetchCycle laneCycle : Nat) (inst : DbInst) :
    Except Abort (Nat × Bool × Resources) := do
  let agenDone := laneCycle + 1
  let r ← r.trainPrefetcher cfg fetchCycle inst
  let (dataCacheCycle, r) ←
    (if cfg.perfectCache then .ok (agenDone + cfg.l1Latency, r)
    else r.accessL1 cfg agenDone inst.addr false)
  let execCycle := agenDone + 1
  let (tempCycle, sqMiss) := searchSQ r.SQ inst execCycle dataCacheCycle
  if ¬ tempCycle ≥ execCycle then .error .stepLoadCycle
  else if ¬ tempCycle - laneCycle ≥ 2 then .error .stepLoadLatency
  else .ok (tempCycle, sqMiss, r)

/-- "Schedule the instruction's execution cycle", without the value prediction. -/
def execute (cfg : Config) (r : Resources) (fetchCycle : Nat) (inst : DbInst) :
    Except Abort (Timing × Resources) := do
  let start ← sourcesReady r.RF inst (fetchCycle + cfg.pipelineFillLatency)
  let (laneCycle, r) ←
    (if inst.isLoad || inst.isStore then do
      let (lanes, cycle) ← scheduleLane r.ldstLanes start
      .ok (cycle, { r with ldstLanes := lanes })
    else do
      let (lanes, cycle) ← scheduleLane r.aluLanes start
      .ok (cycle, { r with aluLanes := lanes }))
  -- `UINT64_MAX` unless the class is a memory class
  let agenCycle := if inst.insnClass.isMem then laneCycle + 1 else maxCycle
  if inst.isLoad then do
    let (execCycle, sqMiss, r) ← r.executeLoad cfg fetchCycle laneCycle inst
    .ok ({ laneCycle := laneCycle, agenCycle := agenCycle, execCycle := execCycle
           latency := execCycle - laneCycle, sqMiss := sqMiss }, r)
  else
    let latency := fixedLatency cfg inst.insnClass
    .ok ({ laneCycle := laneCycle, agenCycle := agenCycle, execCycle := laneCycle + latency
           latency := latency, sqMiss := false }, r)

/-! ## Prefetches -/

/-- The search for a slot of a prefetch: one cycle after the other, `n` at most. -/
def issuePrefetch (cfg : Config) (pf : Prefetch) :
    Nat → Nat → Resources → Except Abort (Bool × Resources)
  | 0, _, r => .ok (false, r)
  | n + 1, cycle, r => do
    let (lanes, execCycle) ← r.ldstLanes.schedule cycle 0
    let r := { r with ldstLanes := lanes }
    if execCycle ≠ maxCycle then do
      let (_, r) ← r.accessL1 cfg execCycle pf.address true
      .ok (true, r)
    else issuePrefetch cfg pf n (cycle + 1) r

/-- "Drain prefetches from PF Queue"; also the number issued.  Each round takes a
prefetch out of the queue, whose length `n` bounds them. -/
def drainPrefetches (cfg : Config) (previousFetchCycle fetchCycle : Nat) :
    Nat → Resources → Except Abort (Nat × Resources)
  | 0, r => .ok (0, r)
  | n + 1, r =>
    match r.prefetcher.issue fetchCycle with
    | (none, prefetcher) => .ok (0, { r with prefetcher := prefetcher })
    | (some pf, prefetcher) => do
      let r := { r with prefetcher := prefetcher }
      let first := max previousFetchCycle pf.cycleGenerated
      let (issued, r) ← issuePrefetch cfg pf (fetchCycle + 1 - first) first r
      if issued then do
        let (count, r) ← drainPrefetches cfg previousFetchCycle fetchCycle n r
        .ok (count + 1, r)
      else .ok (0, { r with prefetcher := r.prefetcher.putBack pf })

/-- "Update SQ byte timestamps"; `retired` is the retire cycle of the youngest
instruction in the window. -/
def updateSQ (cfg : Config) (r : Resources) (inst : DbInst) (execCycle retired : Nat) :
    Except Abort Resources :=
  if !inst.isStore then .ok r
  else do
    let (dataCacheCycle, r) ←
      (if !cfg.writeAllocate || cfg.perfectCache then .ok (execCycle, r)
      else r.accessL1 cfg execCycle inst.addr false)
    let entry : StoreQueue :=
      { execCycle := execCycle, retCycle := max dataCacheCycle retired }
    .ok { r with
      SQ := (List.range inst.size).foldl
        (fun SQ i => Function.update SQ (byteAddr inst i) (some entry)) r.SQ }

end Resources

/-! ## Branch prediction -/

namespace Bp

/-- A change of the measurements of the current epoch. -/
def measure (b : Bp) (f : EpochMeasures → EpochMeasures) : Bp :=
  { b with measPerEpoch := updateBack f b.measPerEpoch }

/-- `update_cycles_on_wrong_path`. -/
def updateCyclesOnWrongPath (b : Bp) (cycles : Nat) : Bp :=
  b.measure fun m => { m with cyclesOnWrongPath := m.cyclesOnWrongPath + cycles }

/-- `flip_mispred`, and the next seed. -/
def flipMispred (cfg : Config) (hk : Hooks P H) (seed : Nat) : Bool × Nat :=
  if cfg.mispReductionPerc = 100 then (true, seed)
  else
    let (number, seed) := hk.randR seed
    (decide (number % 100 < cfg.mispReductionPerc), seed)

/-- The conditional branches of `predict`. -/
def predictCond (cfg : Config) (hk : Hooks P H) (b : Bp) (p : P) (seqNo piece : Nat)
    (inst : DbInst) (predCycle fetchCycle execCycle : Nat) :
    Except (Stop H) (Bool × Bp × P) := do
  let taken := inst.nextPc != (inst.pc + 4) % 2 ^ 64
  let (predTaken, p) ←
    call (hk.getCondDirPrediction p seqNo piece inst.pc predCycle fetchCycle execCycle)
  let misp := predTaken != taken
  let (flip, seed) :=
    if cfg.mispReductionPerc != 0 && misp then flipMispred cfg hk b.mispredCorrectionSeed
    else (false, b.mispredCorrectionSeed)
  let misp := misp && !flip
  let predTaken := if flip then taken else predTaken
  let p ← call (hk.specUpdate p seqNo piece inst.pc inst.insnClass taken predTaken inst.nextPc)
  let b := { b with mispredCorrectionSeed := seed }.measure fun m =>
    { m with conddirN := m.conddirN + 1, conddirM := m.conddirM + misp.toNat }
  .ok (misp, b, p)

/-- The calls and jumps to a fixed target of `predict`. -/
def predictDirect (cfg : Config) (hk : Hooks P H) (b : Bp) (p : P) (seqNo piece : Nat)
    (inst : DbInst) : Except (Stop H) (Bool × Bp × P) := do
  let p ← call (hk.specUpdate p seqNo piece inst.pc inst.insnClass true true inst.nextPc)
  let p ←
    (if cfg.perfectIndirectPred then .ok p
    else call (hk.ittageTrackOtherInst p inst.pc inst.nextPc))
  .ok (false, b.measure fun m => { m with jumpdirN := m.jumpdirN + 1 }, p)

/-- The calls, jumps and returns to a computed target of `predict`. -/
def predictIndirect (cfg : Config) (hk : Hooks P H) (b : Bp) (p : P) (seqNo piece : Nat)
    (inst : DbInst) : Except (Stop H) (Bool × Bp × P) := do
  let isRet := inst.insnClass == .return
  let (misp, p) ←
    (if cfg.perfectIndirectPred then .ok (false, p)
    else do
      let (predTarget, p) ← call (hk.ittageGetPrediction p inst.pc)
      let p ← call (hk.ittageUpdatePredictor p inst.pc inst.nextPc)
      .ok (predTarget != inst.nextPc, p))
  let p ← call (hk.specUpdate p seqNo piece inst.pc inst.insnClass true true inst.nextPc)
  let b := b.measure fun m =>
    { m with
      jumpindN := m.jumpindN + (!isRet).toNat
      jumpretN := m.jumpretN + isRet.toNat
      jumpindM := m.jumpindM + (!isRet && misp).toNat
      jumpretM := m.jumpretM + (isRet && misp).toNat }
  .ok (misp, b, p)

/-- `bp_t::predict`: is the instruction a mispredicted branch? -/
def predict (cfg : Config) (hk : Hooks P H) (b : Bp) (p : P) (seqNo piece : Nat) (inst : DbInst)
    (predCycle fetchCycle execCycle : Nat) : Except (Stop H) (Bool × Bp × P) :=
  match inst.insnClass with
  | .condBranch => predictCond cfg hk b p seqNo piece inst predCycle fetchCycle execCycle
  | .uncondDirectBranch | .callDirect => predictDirect cfg hk b p seqNo piece inst
  | .uncondIndirectBranch | .callIndirect | .return => predictIndirect cfg hk b p seqNo piece inst
  | _ =>
    let misp := inst.nextPc != (inst.pc + 4) % 2 ^ 64
    .ok (misp, b.measure fun m =>
      { m with notctrlN := m.notctrlN + 1, notctrlM := m.notctrlM + misp.toNat }, p)

end Bp

/-! ## What the window is told -/

/-- The registers of the valid operands. -/
def sources (inst : DbInst) : List Nat :=
  ([inst.A, inst.B, inst.C].filter DbOperand.valid).map DbOperand.logReg

/-- `populate_decode_info`. -/
def populateDecodeInfo (inst : DbInst) : Except Abort DecodeInfo :=
  if (sources inst).all (· < rfSize) && (!inst.D.valid || inst.D.logReg < rfSize) then
    .ok { insnClass := inst.insnClass
          srcRegInfo := sources inst
          dstRegInfo := if inst.D.valid then some inst.D.logReg else none }
  else .error .stepRegister

/-- `populate_exec_info`. -/
def populateExecInfo (inst : DbInst) : Except Abort ExecuteInfo := do
  let decInfo ← populateDecodeInfo inst
  let isMem := inst.isLoad || inst.isStore
  if inst.insnClass.isUncondBr && !inst.isTaken then .error .stepBranchTaken
  else
    .ok { decInfo := decInfo
          taken := if inst.insnClass.isBr then some inst.isTaken else none
          nextPc := inst.nextPc
          takenTarget := none
          memVa := if isMem then some inst.addr else none
          memSz := if isMem then some inst.size else none
          dstRegValue := if inst.D.valid then some inst.D.value else none }

/-- The retire cycle of the youngest instruction in the window. -/
def Pipeline.backRetire (p : Pipeline P) : Nat := (p.window.getLast?.map (·.retireCycle)).getD 0

namespace Uarchsim

/-! ## The parts of `step` -/

/-- The piece, and "advancing the pipe for the cycles skipped due to mispred/flush
etc". -/
def beginStep (cfg : Config) (hk : Hooks P H) (s : Uarchsim P) :
    Except (Stop H) (Uarchsim P) :=
  let s := { s with piece := if s.piece = 255 then 0 else s.piece + 1 }
  if ¬ s.previousFetchCycle ≤ s.fetchCycle then .error (.abort .stepFetchOrder)
  else do
    let pipe ← s.pipe.catchUp cfg hk s.previousFetchCycle s.fetchCycle
    .ok { s with pipe := pipe }

/-- The access to the instruction cache. -/
def fetchBlock (cfg : Config) (hk : Hooks P H) (s : Uarchsim P) (inst : DbInst) :
    Except (Stop H) (Uarchsim P) :=
  if cfg.fetchModelIcache then do
    let (nextFetchCycle, res) ← lift (s.res.accessIC cfg s.fetchCycle inst.pc)
    if ¬ nextFetchCycle ≥ s.fetchCycle then .error (.abort .stepIcache)
    else do
      let pipe ← s.pipe.catchUp cfg hk s.fetchCycle nextFetchCycle
      .ok { s with pipe := pipe, res := res, fetchCycle := nextFetchCycle }
  else .ok s

/-- "Predict at fetch time": the prediction, and `predictable`. -/
def predictValue (cfg : Config) (hk : Hooks P H) (s : Uarchsim P) (inst : DbInst) :
    Except (Stop H) (PredictionResult × Bool × Uarchsim P) :=
  let predictable := inst.D.valid && inst.D.logReg != rfFlags
  if !cfg.vpEnable then .ok ({}, predictable, s)
  else do
    let (req, res) ←
      lift (s.res.getValuePredictionReq cfg s.fetchCycle s.numUop s.piece inst)
    let s := { s with res := res }
    if cfg.vpPerfect then
      .ok ({ predictedValue := inst.D.value, speculate := predictable && req.isCandidate },
        predictable && req.isCandidate, s)
    else do
      let (pred, hooks) ← call (hk.getPrediction s.pipe.hooks req)
      let right := pred.predictedValue == inst.D.value
      let hooks ← call (hk.speculativeUpdate hooks
        { seqNo := s.numUop
          eligible := predictable
          predictionResult :=
            if predictable && pred.speculate && req.isCandidate then right.toNat else 2
          pc := inst.pc
          nextPc := inst.nextPc
          insnClass := inst.insnClass
          piece := s.piece
          src1 := if inst.A.valid then inst.A.logReg else 0xdeadbeef
          src2 := if inst.B.valid then inst.B.logReg else 0xdeadbeef
          src3 := if inst.C.valid then inst.C.logReg else 0xdeadbeef
          dst := if inst.D.valid then inst.D.logReg else 0xdeadbeef })
      .ok ({ pred with speculate := pred.speculate && req.isCandidate },
        predictable && req.isCandidate, { s with pipe := { s.pipe with hooks := hooks } })

/-- The execution of the instruction and the prefetches after it. -/
def schedule (cfg : Config) (s : Uarchsim P) (inst : DbInst) :
    Except Abort (Timing × Uarchsim P) := do
  let (t, res) ← s.res.execute cfg s.fetchCycle inst
  let (issued, res) ←
    (if cfg.prefetcherEnable then
      res.drainPrefetches cfg s.previousFetchCycle s.fetchCycle (res.prefetcher.queue.length + 1)
    else .ok (0, res))
  .ok (t,
    { s with
      res := res
      numLoad := s.numLoad + inst.isLoad.toNat
      numLoadSqmiss := s.numLoadSqmiss + t.sqMiss.toNat
      statPfsIssuedToMem := s.statPfsIssuedToMem + issued })

/-- "Update destination register timestamp" and what stands around it; `true` is a
squash. -/
def writeBack (cfg : Config) (s : Uarchsim P) (inst : DbInst) (t : Timing)
    (pred : PredictionResult) (predictable : Bool) : Except Abort (Bool × Uarchsim P) :=
  let writes := inst.D.valid && inst.D.logReg != rfZero
  let right := pred.predictedValue == inst.D.value
  let squash := writes && pred.speculate && !right
  if inst.D.valid && ¬ inst.D.logReg < rfSize then .error .stepRegister
  else do
    let res :=
      if writes then
        { s.res with
          RF := Function.update s.res.RF inst.D.logReg
            (if pred.speculate && right then s.fetchCycle else t.execCycle) }
      else s.res
    let res ← res.updateSQ cfg inst t.execCycle s.pipe.backRetire
    .ok (squash,
      { s with
        res := res
        numUop := s.numUop + 1
        numInst := s.numInst + inst.isLastPiece.toNat
        cycle := max s.cycle t.execCycle
        numEligible := s.numEligible + predictable.toNat
        numCorrect := s.numCorrect + (predictable && pred.speculate && !squash).toNat
        numIncorrect := s.numIncorrect + (predictable && pred.speculate && squash).toNat })

/-- "Manage window: dispatch". -/
def dispatch (cfg : Config) (hk : Hooks P H) (s : Uarchsim P) (inst : DbInst) (seqNo : Nat)
    (t : Timing) : Except (Stop H) (Uarchsim P) := do
  let execInfo ← lift (populateExecInfo inst)
  if ¬ s.fetchCycle < t.execCycle then .error (.abort .stepExecCycle)
  else
    let entry : WindowEntry :=
      { seqNo := seqNo
        piece := s.piece
        pc := inst.pc
        fetchCycle := s.fetchCycle
        decodeCycle := s.fetchCycle + cfg.dqLatency
        execCycle := t.execCycle
        execInfo := execInfo
        retireCycle := max t.execCycle s.pipe.backRetire
        predTaken := false
        addr := if inst.isLoad || inst.isStore then inst.addr else 0xdeadbeef
        value := if inst.D.valid && inst.D.logReg != rfFlags then inst.D.value else 0xdeadbeef
        latency := t.latency }
    let window := s.pipe.window ++ [entry]
    if ¬ window.length ≤ s.windowCapacity then .error (.abort .stepWindowSize)
    else do
      let hooks ← call (hk.notifyInstrFetch s.pipe.hooks seqNo s.piece inst.pc s.fetchCycle)
      let AQ :=
        if inst.insnClass.isMem then s.pipe.AQ ++ [⟨seqNo, s.piece, t.agenCycle⟩] else s.pipe.AQ
      if inst.insnClass.isMem && ¬ AQ.length ≤ s.windowCapacity then .error (.abort .stepAqSize)
      else
        .ok { s with
          pipe :=
            { s.pipe with
              window := window
              hooks := hooks
              DQ := s.pipe.DQ ++ [⟨seqNo, s.piece, s.fetchCycle + cfg.dqLatency⟩]
              AQ := AQ
              EQ := s.pipe.EQ ++ [⟨seqNo, s.piece, t.execCycle⟩] }
          previousFetchCycle := s.fetchCycle }

/-- Does a taken instruction count as a taken branch? -/
def takenBranch (inst : DbInst) : Bool :=
  inst.insnClass.isCondBr && inst.nextPc != (inst.pc + 4) % 2 ^ 64 || inst.insnClass.isUncondBr

/-- The fetch bundle constraints. -/
def bundle (cfg : Config) (s : Uarchsim P) (inst : DbInst) : Except Abort (Uarchsim P) :=
  let numFetched :=
    if cfg.fetchWidth > 0 then s.numFetched + inst.isLastPiece.toNat else s.numFetched
  let counts := cfg.fetchNumBranch > 0 && inst.insnClass.isBr
  let numFetchedBranch := if counts then s.numFetchedBranch + 1 else s.numFetchedBranch
  if cfg.fetchStopAtTaken && inst.isTaken && !takenBranch inst then .error .stepTakenBranch
  else
    let stop :=
      (cfg.fetchWidth > 0 && numFetched == cfg.fetchWidth) ||
        (counts && numFetchedBranch == cfg.fetchNumBranch) ||
        (cfg.fetchStopAtIndirect && inst.insnClass.isUncondIndBr) ||
        (cfg.fetchStopAtTaken && inst.isTaken)
    if stop then
      .ok { s with numFetched := 0, numFetchedBranch := 0, fetchCycle := s.fetchCycle + 1 }
    else .ok { s with numFetched := numFetched, numFetchedBranch := numFetchedBranch }

/-- "Manage fetch cycle". -/
def manageFetch (cfg : Config) (s : Uarchsim P) (inst : DbInst) (squash : Bool) :
    Except Abort (Uarchsim P) :=
  match s.pipe.window.head? with
  | none => .error .stepFrontRetire
  | some front =>
    if ¬ front.retireCycle > s.fetchCycle then .error .stepFrontRetire
    else if squash then
      if s.fetchCycle < s.pipe.backRetire then
        .ok { s with numFetched := 0, fetchCycle := s.pipe.backRetire }
      else .error .stepSquash
    else if s.pipe.window.length = s.windowCapacity then
      if s.fetchCycle < front.retireCycle then
        .ok { s with numFetched := 0, fetchCycle := front.retireCycle }
      else .ok s
    else bundle cfg s inst

/-- "Account for the effect of a mispredicted branch on the fetch cycle"; `true` is
a misprediction. -/
def predictBranch (cfg : Config) (hk : Hooks P H) (s : Uarchsim P) (inst : DbInst)
    (seqNo predictCycle execCycle : Nat) : Except (Stop H) (Bool × Uarchsim P) :=
  if cfg.perfectBranchPred then .ok (false, s)
  else do
    let (misp, BP, hooks) ← s.BP.predict cfg hk s.pipe.hooks seqNo s.piece inst predictCycle
      s.fetchCycle execCycle
    let s := { s with BP := BP, pipe := { s.pipe with hooks := hooks } }
    if !misp then .ok (false, s)
    else
      let fetchCycle := max s.fetchCycle execCycle
      if ¬ fetchCycle > predictCycle then .error (.abort .stepMispredict)
      else
        .ok (true,
          { s with
            numFetched := 0
            numFetchedBranch := 0
            fetchCycle := fetchCycle
            cyclesOnWrongPath := s.cyclesOnWrongPath + (fetchCycle - predictCycle)
            BP := s.BP.updateCyclesOnWrongPath (fetchCycle - predictCycle) })

/-- `update_pred_taken` on the instruction just dispatched. -/
def updatePredTaken (s : Uarchsim P) (inst : DbInst) (misp : Bool) : Except Abort (Uarchsim P) :=
  if !inst.insnClass.isBr then .ok s
  else if inst.insnClass.isUncondBr && !inst.isTaken then .error .stepBranchTaken
  else
    let predTaken := if inst.insnClass.isCondBr then inst.isTaken != misp else true
    .ok { s with
      pipe :=
        { s.pipe with
          window := updateBack (fun w => { w with predTaken := predTaken }) s.pipe.window } }

/-- The end of `step`: the base cycles of the lanes, the piece, the epoch. -/
def endStep (cfg : Config) (s : Uarchsim P) (inst : DbInst) (predictCycle : Nat) :
    Except Abort (Uarchsim P) := do
  let base := match s.res.prefetcher.getOldestPfCycle with
    | some oldest => min s.fetchCycle oldest
    | none => s.fetchCycle
  let ldstLanes ← s.res.ldstLanes.advanceBaseCycle base
  let aluLanes ← s.res.aluLanes.advanceBaseCycle base
  let s := { s with
    res := { s.res with ldstLanes := ldstLanes, aluLanes := aluLanes }
    piece := if inst.isLastPiece then 255 else s.piece
    numInstsPerEpoch := updateBack (· + inst.isLastPiece.toNat) s.numInstsPerEpoch }
  if s.numInstsPerEpoch.getLast? = some cfg.epochSizeInsts then
    s.endCurrentBeginNewEpoch false false predictCycle
  else .ok s

/-- What is remembered of the instruction. -/
def record (cfg : Config) (inst : DbInst) (t : Timing) (before dispatched : Uarchsim P) :
    Fetched P :=
  { inst := inst
    seqNo := before.numUop
    piece := before.piece
    fetchCycle := before.fetchCycle
    decodeCycle := before.fetchCycle + cfg.dqLatency
    laneCycle := t.laneCycle
    agenCycle := t.agenCycle
    execCycle := t.execCycle
    retireCycle := dispatched.pipe.backRetire
    predictors := dispatched.pipe.hooks }

/-- `step`. -/
def step (cfg : Config) (hk : Hooks P H) (s : Uarchsim P) (inst : DbInst) :
    Except (Stop H) (Uarchsim P) := do
  let s ← s.beginStep cfg hk
  let s ← s.fetchBlock cfg hk inst
  let (pred, predictable, s) ← s.predictValue cfg hk inst
  let (t, s₁) ← lift (s.schedule cfg inst)
  let (squash, s₂) ← lift (s₁.writeBack cfg inst t pred predictable)
  let s₃ ← s₂.dispatch cfg hk inst s.numUop t
  let fetched := s.fetched ++ [record cfg inst t s s₃]
  let s₄ ← lift (s₃.manageFetch cfg inst squash)
  let (misp, s₅) ← s₄.predictBranch cfg hk inst s.numUop s.fetchCycle t.execCycle
  let s₆ ← lift (s₅.updatePredTaken inst misp)
  let s₇ ← lift (s₆.endStep cfg inst s.fetchCycle)
  .ok { s₇ with fetched := fetched }

end Uarchsim

end CbpSim.Core
