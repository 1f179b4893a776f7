/-
  Core/Course.lean --- the course of a step.

  A step that returns goes through the states that its parts return.  `Course`
  names them, and `step_eq_ok` says that nothing else happens: what is proved of a
  part is proved of the course.  `Ran` is a run with the course of each step.  The last
  section tells which members each stretch of the course writes.
-/
import CbpSim.Core.Simulation
import CbpSim.Core.Sites

set_option autoImplicit false

namespace CbpSim.Core

open CbpSim.Foundation CbpSim.Lanes CbpSim.Memory

variable {P H : Type}

/-- The states that a step goes through, and what its parts decide. -/
structure Course (P : Type) where
  begun : Uarchsim P
  blocked : Uarchsim P
  before : Uarchsim P
  scheduled : Uarchsim P
  written : Uarchsim P
  dispatched : Uarchsim P
  managed : Uarchsim P
  predicted : Uarchsim P
  told : Uarchsim P
  ended : Uarchsim P
  pred : PredictionResult
  predictable : Bool
  timing : Timing
  squash : Bool
  misp : Bool

/-- What is remembered of the instruction. -/
def Course.fetched (cfg : Config) (inst : DbInst) (c : Course P) : Fetched P :=
  Uarchsim.record cfg inst c.timing c.before c.dispatched

/-- The step on `inst` from `s` goes through the first states of `c`, up to the
prediction of its branch. -/
structure Course.Leads (cfg : Config) (hk : Hooks P H) (s : Uarchsim P) (inst : DbInst)
    (c : Course P) : Prop where
  begun : s.beginStep cfg hk = .ok c.begun
  blocked : c.begun.fetchBlock cfg hk inst = .ok c.blocked
  before : c.blocked.predictValue cfg hk inst = .ok (c.pred, c.predictable, c.before)
  scheduled : c.before.schedule cfg inst = .ok (c.timing, c.scheduled)
  written : c.scheduled.writeBack cfg inst c.timing c.pred c.predictable =
    .ok (c.squash, c.written)
  dispatched : c.written.dispatch cfg hk inst c.before.numUop c.timing = .ok c.dispatched
  managed : c.dispatched.manageFetch cfg inst c.squash = .ok c.managed

/-- `c` is the course of the step on `inst` from `s` to `s'`. -/
structure Course.Of (cfg : Config) (hk : Hooks P H) (s : Uarchsim P) (inst : DbInst)
    (c : Course P) (s' : Uarchsim P) : Prop extends Course.Leads cfg hk s inst c where
  predicted : c.managed.predictBranch cfg hk inst c.before.numUop c.before.fetchCycle
    c.timing.execCycle = .ok (c.misp, c.predicted)
  told : c.predicted.updatePredTaken inst c.misp = .ok c.told
  ended : c.told.endStep cfg inst c.before.fetchCycle = .ok c.ended
  last : s' = { c.ended with fetched := c.before.fetched ++ [c.fetched cfg inst] }

theorem lift_eq_ok {α : Type} {x : Except Abort α} {a : α} :
    (lift x : Except (Stop H) α) = .ok a ↔ x = .ok a :=
  mapError_eq_ok

theorem call_eq_ok {α : Type} {x : Except H α} {a : α} :
    (call x : Except (Stop H) α) = .ok a ↔ x = .ok a :=
  mapError_eq_ok

namespace Uarchsim

/-- **A step is its course.** -/
theorem step_eq_ok {cfg : Config} {hk : Hooks P H} {s s' : Uarchsim P} {inst : DbInst} :
    s.step cfg hk inst = .ok s' ↔ ∃ c, Course.Of cfg hk s inst c s' := by
  unfold step
  simp only [bind_eq_ok, lift_eq_ok, Prod.exists, Except.ok.injEq]
  constructor
  · rintro ⟨begun, hbegun, blocked, hblocked, pred, predictable, before, hbefore, timing, scheduled,
      hscheduled, squash, written, hwritten, dispatched, hdispatched, managed, hmanaged, misp,
      predicted, hpredicted, told, htold, ended, hended, rfl⟩
    exact ⟨⟨begun, blocked, before, scheduled, written, dispatched, managed, predicted, told, ended,
      pred, predictable, timing, squash, misp⟩, ⟨⟨hbegun, hblocked, hbefore, hscheduled, hwritten,
      hdispatched, hmanaged⟩, hpredicted, htold, hended, rfl⟩⟩
  · rintro ⟨c, h⟩
    exact ⟨_, h.begun, _, h.blocked, _, _, _, h.before, _, _, h.scheduled, _, _, h.written, _,
      h.dispatched, _, h.managed, _, _, h.predicted, _, h.told, _, h.ended, h.last.symm⟩

/-- The course of a step, computed. -/
def course (cfg : Config) (hk : Hooks P H) (s : Uarchsim P) (inst : DbInst) :
    Except (Stop H) (Course P × Uarchsim P) := do
  let begun ← s.beginStep cfg hk
  let blocked ← begun.fetchBlock cfg hk inst
  let (pred, predictable, before) ← blocked.predictValue cfg hk inst
  let (timing, scheduled) ← lift (before.schedule cfg inst)
  let (squash, written) ← lift (scheduled.writeBack cfg inst timing pred predictable)
  let dispatched ← written.dispatch cfg hk inst before.numUop timing
  let managed ← lift (dispatched.manageFetch cfg inst squash)
  let (misp, predicted) ← managed.predictBranch cfg hk inst before.numUop before.fetchCycle
    timing.execCycle
  let told ← lift (predicted.updatePredTaken inst misp)
  let ended ← lift (told.endStep cfg inst before.fetchCycle)
  let c : Course P :=
    { begun, blocked, before, scheduled, written, dispatched, managed, predicted, told, ended, pred
      predictable, timing, squash, misp }
  .ok (c, { ended with fetched := before.fetched ++ [c.fetched cfg inst] })

theorem course_eq_ok {cfg : Config} {hk : Hooks P H} {s s' : Uarchsim P} {inst : DbInst}
    {c : Course P} (h : s.course cfg hk inst = .ok (c, s')) : Course.Of cfg hk s inst c s' := by
  unfold course at h
  simp only [bind_eq_ok, lift_eq_ok, Prod.exists] at h
  obtain ⟨begun, hbegun, blocked, hblocked, pred, predictable, before, hbefore, timing, scheduled,
    hscheduled, squash, written, hwritten, dispatched, hdispatched, managed, hmanaged, misp,
    predicted, hpredicted, told, htold, ended, hended, h⟩ := h
  cases h
  exact ⟨⟨hbegun, hblocked, hbefore, hscheduled, hwritten, hdispatched, hmanaged⟩, hpredicted,
    htold, hended, rfl⟩

/-! ## What a part changes -/

section Frames

variable {cfg : Config} {hk : Hooks P H} {inst : DbInst} {s a : Uarchsim P}

theorem beginStep_eq_ok (h : s.beginStep cfg hk = .ok a) :
    s.previousFetchCycle ≤ s.fetchCycle ∧ ∃ piece pipe,
      s.pipe.catchUp cfg hk s.previousFetchCycle s.fetchCycle = .ok pipe ∧
        a = { s with piece := piece, pipe := pipe } := by
  unfold beginStep at h
  obtain ⟨hle, h⟩ := guard_eq_ok.mp h
  obtain ⟨pipe, hpipe, heq⟩ := bind_eq_ok.mp h
  exact ⟨not_not.mp hle, _, pipe, hpipe, (Except.ok.inj heq).symm⟩

theorem fetchBlock_eq_ok (h : s.fetchBlock cfg hk inst = .ok a) :
    s.fetchCycle ≤ a.fetchCycle ∧ s.res.CachesOnly a.res ∧ ∃ pipe,
      s.pipe.catchUp cfg hk s.fetchCycle a.fetchCycle = .ok pipe ∧
        a = { s with pipe := pipe, res := a.res, fetchCycle := a.fetchCycle } := by
  unfold fetchBlock at h
  split at h
  · obtain ⟨⟨nextFetchCycle, res⟩, hres, h⟩ := bind_eq_ok.mp h
    have hstops := Resources.accessIC_stops cfg s.res s.fetchCycle inst.pc
    obtain ⟨-, hcaches⟩ := hstops.of_ok (lift_eq_ok.mp hres)
    obtain ⟨hle, h⟩ := guard_eq_ok.mp h
    obtain ⟨pipe, hpipe, heq⟩ := bind_eq_ok.mp h
    obtain rfl := Except.ok.inj heq
    exact ⟨not_not.mp hle, hcaches, pipe, hpipe, rfl⟩
  · obtain rfl := Except.ok.inj h
    refine ⟨le_rfl, .refl _, s.pipe, ?_, rfl⟩
    rw [Pipeline.catchUp, if_pos rfl]

theorem predictValue_eq_ok {pred : PredictionResult} {predictable : Bool}
    (h : s.predictValue cfg hk inst = .ok (pred, predictable, a)) :
    ∃ res hooks, (cfg.vpEnable = false → res = s.res ∧ hooks = s.pipe.hooks ∧ pred = {}) ∧
      (res = s.res ∨ ∃ req, s.res.getValuePredictionReq cfg s.fetchCycle s.numUop s.piece inst =
        .ok (req, res)) ∧
      a = { s with res := res, pipe := { s.pipe with hooks := hooks } } := by
  unfold predictValue at h
  dsimp only at h
  split at h
  · cases h
    exact ⟨_, _, fun _ => ⟨rfl, rfl, rfl⟩, Or.inl rfl, rfl⟩
  · rename_i hvp
    have hon : cfg.vpEnable ≠ false := by simpa using hvp
    obtain ⟨⟨req, res⟩, hreq, h⟩ := bind_eq_ok.mp h
    dsimp only at h
    split at h
    · cases h
      exact ⟨res, _, fun hoff => absurd hoff hon, Or.inr ⟨req, lift_eq_ok.mp hreq⟩, rfl⟩
    · obtain ⟨⟨pred', hooks⟩, -, h⟩ := bind_eq_ok.mp h
      obtain ⟨hooks', -, h⟩ := bind_eq_ok.mp h
      cases h
      exact ⟨res, hooks', fun hoff => absurd hoff hon, Or.inr ⟨req, lift_eq_ok.mp hreq⟩, rfl⟩

theorem schedule_eq_ok {t : Timing} (h : s.schedule cfg inst = .ok (t, a)) :
    ∃ res₁ issued res₂, s.res.execute cfg s.fetchCycle inst = .ok (t, res₁) ∧
      (if cfg.prefetcherEnable then
        res₁.drainPrefetches cfg s.previousFetchCycle s.fetchCycle
          (res₁.prefetcher.queue.length + 1)
      else .ok (0, res₁)) = .ok (issued, res₂) ∧
      a = { s with
        res := res₂
        numLoad := s.numLoad + inst.isLoad.toNat
        numLoadSqmiss := s.numLoadSqmiss + t.sqMiss.toNat
        statPfsIssuedToMem := s.statPfsIssuedToMem + issued } := by
  unfold schedule at h
  obtain ⟨⟨t', res₁⟩, hexecute, h⟩ := bind_eq_ok.mp h
  obtain ⟨⟨issued, res₂⟩, hdrain, h⟩ := bind_eq_ok.mp h
  cases h
  exact ⟨res₁, issued, res₂, hexecute, hdrain, rfl⟩

theorem writeBack_eq_ok {t : Timing} {pred : PredictionResult} {predictable squash : Bool}
    (h : s.writeBack cfg inst t pred predictable = .ok (squash, a)) :
    ∃ RF res m k i,
      Resources.updateSQ cfg { s.res with RF := RF } inst t.execCycle s.pipe.backRetire = .ok res ∧
      a = { s with
        res := res
        numUop := s.numUop + 1
        numInst := s.numInst + inst.isLastPiece.toNat
        cycle := max s.cycle t.execCycle
        numEligible := m
        numCorrect := k
        numIncorrect := i } := by
  unfold writeBack at h
  obtain ⟨-, h⟩ := guard_eq_ok.mp h
  obtain ⟨res, hres, h⟩ := bind_eq_ok.mp h
  cases h
  split at hres
  · exact ⟨_, res, _, _, _, hres, rfl⟩
  · exact ⟨s.res.RF, res, _, _, _, hres, rfl⟩

theorem dispatch_eq_ok {seqNo : Nat} {t : Timing} (h : s.dispatch cfg hk inst seqNo t = .ok a) :
    s.fetchCycle < t.execCycle ∧ ∃ hooks w AQ,
      hk.notifyInstrFetch s.pipe.hooks seqNo s.piece inst.pc s.fetchCycle = .ok hooks ∧
      populateExecInfo inst = .ok w.execInfo ∧
      w.seqNo = seqNo ∧ w.piece = s.piece ∧
      a = { s with
        pipe := { s.pipe with
          window := s.pipe.window ++ [w]
          hooks := hooks
          DQ := s.pipe.DQ ++ [⟨seqNo, s.piece, s.fetchCycle + cfg.dqLatency⟩]
          AQ := AQ
          EQ := s.pipe.EQ ++ [⟨seqNo, s.piece, t.execCycle⟩] }
        previousFetchCycle := s.fetchCycle } := by
  unfold dispatch at h
  obtain ⟨info, hinfo, h⟩ := bind_eq_ok.mp h
  obtain ⟨hlater, h⟩ := guard_eq_ok.mp h
  obtain ⟨-, h⟩ := guard_eq_ok.mp h
  obtain ⟨hooks, hhooks, h⟩ := bind_eq_ok.mp h
  obtain ⟨-, h⟩ := guard_eq_ok.mp h
  cases h
  exact ⟨not_not.mp hlater, hooks, _, _, call_eq_ok.mp hhooks, lift_eq_ok.mp hinfo, rfl, rfl, rfl⟩

theorem bundle_eq_ok (h : bundle cfg s inst = .ok a) :
    s.fetchCycle ≤ a.fetchCycle ∧
      a = { s with
        numFetched := a.numFetched
        numFetchedBranch := a.numFetchedBranch
        fetchCycle := a.fetchCycle } := by
  unfold bundle at h
  obtain ⟨-, h⟩ := guard_eq_ok.mp h
  generalize hstop : (_ || _ || _ || _ : Bool) = stop at h
  cases stop with
  | false =>
    cases h
    exact ⟨le_rfl, rfl⟩
  | true =>
    cases h
    exact ⟨Nat.le_succ _, rfl⟩

/-- `stop`, for the counters of the bundle as they are before the instruction. -/
def bundleStops (cfg : Config) (s : Uarchsim P) (inst : DbInst) : Bool :=
  (cfg.fetchWidth > 0 && s.numFetched + inst.isLastPiece.toNat == cfg.fetchWidth) ||
    (cfg.fetchNumBranch > 0 && inst.insnClass.isBr &&
      s.numFetchedBranch + 1 == cfg.fetchNumBranch) ||
    (cfg.fetchStopAtIndirect && inst.insnClass.isUncondIndBr) ||
    (cfg.fetchStopAtTaken && inst.isTaken)

/-- The bundle ends and the next one is empty, or the instruction is counted. -/
theorem bundle_cases (h : bundle cfg s inst = .ok a) :
    (bundleStops cfg s inst = true ∧ a.fetchCycle = s.fetchCycle + 1 ∧ a.numFetched = 0 ∧
        a.numFetchedBranch = 0) ∨
      (bundleStops cfg s inst = false ∧ a.fetchCycle = s.fetchCycle ∧
        a.numFetchedBranch = s.numFetchedBranch +
          (decide (cfg.fetchNumBranch > 0) && inst.insnClass.isBr).toNat ∧
        (0 < cfg.fetchWidth → a.numFetched = s.numFetched + inst.isLastPiece.toNat)) := by
  unfold bundle at h
  obtain ⟨-, h⟩ := guard_eq_ok.mp h
  have hstop : ((decide (cfg.fetchWidth > 0) &&
      (if cfg.fetchWidth > 0 then s.numFetched + inst.isLastPiece.toNat else s.numFetched) ==
        cfg.fetchWidth) ||
      ((decide (cfg.fetchNumBranch > 0) && inst.insnClass.isBr) &&
        (if (decide (cfg.fetchNumBranch > 0) && inst.insnClass.isBr) = true then
          s.numFetchedBranch + 1 else s.numFetchedBranch) == cfg.fetchNumBranch) ||
      (cfg.fetchStopAtIndirect && inst.insnClass.isUncondIndBr) ||
      (cfg.fetchStopAtTaken && inst.isTaken)) = bundleStops cfg s inst := by
    unfold bundleStops
    congr 3
    · by_cases hwidth : cfg.fetchWidth > 0
      · rw [if_pos hwidth]
      · simp [hwidth]
    · by_cases hbranch : (decide (cfg.fetchNumBranch > 0) && inst.insnClass.isBr) = true
      · rw [if_pos hbranch]
      · rw [Bool.not_eq_true] at hbranch
        rw [hbranch, Bool.false_and, Bool.false_and]
  rw [hstop] at h
  cases hstops : bundleStops cfg s inst with
  | true =>
    rw [hstops] at h
    cases h
    exact Or.inl ⟨rfl, rfl, rfl, rfl⟩
  | false =>
    rw [hstops] at h
    cases h
    refine Or.inr ⟨rfl, rfl, ?_, fun hwidth => if_pos hwidth⟩
    cases (decide (cfg.fetchNumBranch > 0) && inst.insnClass.isBr) with
    | true => rfl
    | false => rfl

/-- The next bundle is fetched one cycle later. -/
theorem bundle_fetchCycle (h : bundle cfg s inst = .ok a) :
    a.fetchCycle = s.fetchCycle + (bundleStops cfg s inst).toNat := by
  obtain ⟨hstops, hcycle, -⟩ | ⟨hstops, hcycle, -⟩ := bundle_cases h
  · rw [hcycle, hstops, Bool.toNat_true]
  · rw [hcycle, hstops, Bool.toNat_false, Nat.add_zero]

/-- A squash and a full window wait, and leave the number of branches; otherwise the bundle
decides. -/
theorem manageFetch_cases {squash : Bool} (h : s.manageFetch cfg inst squash = .ok a) :
    ((squash || s.pipe.window.length == s.windowCapacity) = true ∧
        s.fetchCycle < a.fetchCycle ∧ a.numFetched = 0 ∧
        a.numFetchedBranch = s.numFetchedBranch) ∨
      ((squash || s.pipe.window.length == s.windowCapacity) = false ∧
        bundle cfg s inst = .ok a) := by
  unfold manageFetch at h
  split at h
  · cases h
  · obtain ⟨hfront, h⟩ := guard_eq_ok.mp h
    cases squash with
    | true =>
      rw [if_pos rfl] at h
      split at h
      · rename_i hlt
        cases h
        exact Or.inl ⟨rfl, hlt, rfl, rfl⟩
      · cases h
    | false =>
      rw [if_neg Bool.false_ne_true] at h
      split at h
      · rename_i hfull
        rw [if_pos (not_not.mp hfront)] at h
        cases h
        exact Or.inl ⟨by rw [hfull, Bool.false_or, beq_self_eq_true], not_not.mp hfront, rfl, rfl⟩
      · rename_i hroom
        exact Or.inr ⟨by rw [Bool.false_or, beq_false_of_ne hroom], h⟩

theorem manageFetch_eq_ok {squash : Bool} (h : s.manageFetch cfg inst squash = .ok a) :
    s.fetchCycle ≤ a.fetchCycle ∧
      a = { s with
        numFetched := a.numFetched
        numFetchedBranch := a.numFetchedBranch
        fetchCycle := a.fetchCycle } := by
  unfold manageFetch at h
  split at h
  · cases h
  · split at h
    · cases h
    · split at h
      · split at h
        · rename_i hlt
          cases h
          exact ⟨hlt.le, rfl⟩
        · cases h
      · split at h
        · split at h
          · rename_i hlt
            cases h
            exact ⟨hlt.le, rfl⟩
          · cases h
            exact ⟨le_rfl, rfl⟩
        · exact bundle_eq_ok h

/-- A misprediction is told to the measurements, and fetching waits for the branch. -/
theorem predictBranch_eq_ok {seqNo predictCycle execCycle : Nat} {misp : Bool}
    (h : s.predictBranch cfg hk inst seqNo predictCycle execCycle = .ok (misp, a))
    (hperfect : cfg.perfectBranchPred = false) :
    ∃ BP hooks, s.BP.predict cfg hk s.pipe.hooks seqNo s.piece inst predictCycle s.fetchCycle
        execCycle = .ok (misp, BP, hooks) ∧
      (misp = false ∧ a = { s with BP := BP, pipe := { s.pipe with hooks := hooks } } ∨
        misp = true ∧ a = { s with
          BP := BP.updateCyclesOnWrongPath (max s.fetchCycle execCycle - predictCycle)
          pipe := { s.pipe with hooks := hooks }
          numFetched := 0
          numFetchedBranch := 0
          fetchCycle := max s.fetchCycle execCycle
          cyclesOnWrongPath :=
            s.cyclesOnWrongPath + (max s.fetchCycle execCycle - predictCycle) }) := by
  unfold predictBranch at h
  rw [if_neg (by simp [hperfect])] at h
  obtain ⟨⟨misp', BP, hooks⟩, hpredict, h⟩ := bind_eq_ok.mp h
  dsimp only at h
  split at h
  · rename_i hmisp
    cases h
    obtain rfl : misp' = false := by simpa using hmisp
    exact ⟨BP, hooks, hpredict, Or.inl ⟨rfl, rfl⟩⟩
  · rename_i hmisp
    obtain rfl : misp' = true := by simpa using hmisp
    obtain ⟨-, h⟩ := guard_eq_ok.mp h
    cases h
    exact ⟨BP, hooks, hpredict, Or.inr ⟨rfl, rfl⟩⟩

/-- With or without prediction the fetch cycle does not go back. -/
theorem predictBranch_frame {seqNo predictCycle execCycle : Nat} {misp : Bool}
    (h : s.predictBranch cfg hk inst seqNo predictCycle execCycle = .ok (misp, a)) :
    s.fetchCycle ≤ a.fetchCycle ∧ (misp = true → execCycle ≤ a.fetchCycle) ∧ ∃ hooks,
      a = { s with
        BP := a.BP
        pipe := { s.pipe with hooks := hooks }
        numFetched := a.numFetched
        numFetchedBranch := a.numFetchedBranch
        fetchCycle := a.fetchCycle
        cyclesOnWrongPath := a.cyclesOnWrongPath } := by
  cases hperfect : cfg.perfectBranchPred with
  | true =>
    unfold predictBranch at h
    rw [if_pos hperfect] at h
    obtain ⟨rfl, rfl⟩ := Prod.mk.inj (Except.ok.inj h)
    exact ⟨le_rfl, fun h => absurd h Bool.false_ne_true, _, rfl⟩
  | false =>
    obtain ⟨BP, hooks, -, ⟨rfl, rfl⟩ | ⟨rfl, rfl⟩⟩ := predictBranch_eq_ok h hperfect
    · exact ⟨le_rfl, fun h => absurd h Bool.false_ne_true, hooks, rfl⟩
    · exact ⟨le_max_left _ _, fun _ => le_max_right _ _, hooks, rfl⟩

theorem updatePredTaken_eq_ok {misp : Bool} (h : s.updatePredTaken inst misp = .ok a) :
    ∃ window, a = { s with pipe := { s.pipe with window := window } } ∧
      if inst.insnClass.isBr then
        window = updateBack (fun w => { w with
          predTaken := if inst.insnClass.isCondBr then inst.isTaken != misp else true })
            s.pipe.window
      else window = s.pipe.window := by
  unfold updatePredTaken at h
  split at h
  · rename_i hbr
    cases h
    refine ⟨_, rfl, ?_⟩
    rw [if_neg (by simpa using hbr)]
  · rename_i hbr
    obtain ⟨-, h⟩ := guard_eq_ok.mp h
    cases h
    refine ⟨_, rfl, ?_⟩
    rw [if_pos (by simpa using hbr)]

theorem endCurrentBeginNewEpoch_eq_ok {lastEpoch : Bool} {epochEndCycle : Nat}
    (h : s.endCurrentBeginNewEpoch false lastEpoch epochEndCycle = .ok a) :
    s.lastEpochEndCycle < epochEndCycle ∧
      a = { s with
        numInstsPerEpoch := s.numInstsPerEpoch ++ if lastEpoch then [] else [0]
        numCyclesPerEpoch :=
          updateBack (fun _ => epochEndCycle - s.lastEpochEndCycle) s.numCyclesPerEpoch ++
            if lastEpoch then [] else [0]
        BP := { s.BP with measPerEpoch := s.BP.measPerEpoch ++ if lastEpoch then [] else [{}] }
        lastEpochEndCycle := epochEndCycle } := by
  unfold endCurrentBeginNewEpoch at h
  rw [if_neg Bool.false_ne_true] at h
  by_cases hlt : epochEndCycle > s.lastEpochEndCycle
  · rw [if_pos hlt] at h
    cases lastEpoch with
    | true =>
      cases h
      refine ⟨hlt, ?_⟩
      simp
    | false =>
      cases h
      exact ⟨hlt, rfl⟩
  · rw [if_neg hlt] at h
    cases h

/-- The instruction is counted in its epoch, which may end with it. -/
theorem endStep_eq_ok {predictCycle : Nat} (h : s.endStep cfg inst predictCycle = .ok a) :
    ∃ ldst alu,
      let counted := updateBack (· + inst.isLastPiece.toNat) s.numInstsPerEpoch
      let s' := { s with
        res := { s.res with ldstLanes := ldst, aluLanes := alu }
        piece := if inst.isLastPiece then 255 else s.piece
        numInstsPerEpoch := counted }
      if counted.getLast? = some cfg.epochSizeInsts then
        s.lastEpochEndCycle < predictCycle ∧
          a = { s' with
            numInstsPerEpoch := counted ++ [0]
            numCyclesPerEpoch :=
              updateBack (fun _ => predictCycle - s.lastEpochEndCycle) s.numCyclesPerEpoch ++ [0]
            BP := { s.BP with measPerEpoch := s.BP.measPerEpoch ++ [{}] }
            lastEpochEndCycle := predictCycle }
      else a = s' := by
  unfold endStep at h
  obtain ⟨ldst, -, h⟩ := bind_eq_ok.mp h
  obtain ⟨alu, -, h⟩ := bind_eq_ok.mp h
  refine ⟨ldst, alu, ?_⟩
  dsimp only at h ⊢
  split at h
  · rename_i hends
    rw [if_pos hends]
    exact endCurrentBeginNewEpoch_eq_ok h
  · rename_i hends
    rw [if_neg hends]
    exact (Except.ok.inj h).symm

end Frames

/-! ## Runs -/

/-- A run from `s₀`, with the instructions and the course of each step. -/
inductive Ran (cfg : Config) (hk : Hooks P H) (s₀ : Uarchsim P) :
    List (DbInst × Course P) → Uarchsim P → Prop where
  | nil : Ran cfg hk s₀ [] s₀
  | snoc {log : List (DbInst × Course P)} {s s' : Uarchsim P} {inst : DbInst} {c : Course P} :
    Ran cfg hk s₀ log s → Course.Of cfg hk s inst c s' → Ran cfg hk s₀ (log ++ [(inst, c)]) s'

section Ran

variable {cfg : Config} {hk : Hooks P H} {s₀ s : Uarchsim P}

@[simp] theorem ran_nil : Ran cfg hk s₀ [] s ↔ s = s₀ := by
  constructor
  · generalize hlog : [] = log
    rintro (_ | ⟨_, _⟩)
    · rfl
    · simp at hlog
  · rintro rfl
    exact .nil

@[simp] theorem ran_concat {log : List (DbInst × Course P)} {inst : DbInst} {c : Course P} :
    Ran cfg hk s₀ (log ++ [(inst, c)]) s ↔
      ∃ s₁, Ran cfg hk s₀ log s₁ ∧ Course.Of cfg hk s₁ inst c s := by
  constructor
  · generalize hlog : log ++ [(inst, c)] = log'
    rintro (_ | ⟨hran, hc⟩)
    · simp at hlog
    · obtain ⟨rfl, hlast⟩ := List.append_inj' hlog rfl
      obtain ⟨rfl, rfl⟩ := Prod.mk.inj (List.singleton_inj.mp hlast)
      exact ⟨_, hran, hc⟩
  · rintro ⟨s₁, hran, hc⟩
    exact .snoc hran hc

/-- A run is a fold of steps. -/
theorem foldlM_eq_ok {insts : List DbInst} :
    insts.foldlM (step cfg hk) s₀ = .ok s ↔ ∃ log, Ran cfg hk s₀ log s ∧ log.map (·.1) = insts := by
  induction insts using List.reverseRecOn generalizing s with
  | nil =>
    simp only [List.foldlM_nil, List.map_eq_nil_iff]
    constructor
    · intro h
      cases h
      exact ⟨[], .nil, rfl⟩
    · rintro ⟨_, hran, rfl⟩
      rw [ran_nil.mp hran]
      rfl
  | append_singleton insts inst ih =>
    rw [List.foldlM_append, bind_eq_ok]
    constructor
    · rintro ⟨s₁, hs₁, h⟩
      obtain ⟨log, hran, hlog⟩ := ih.mp hs₁
      rw [List.foldlM_cons, bind_eq_ok] at h
      obtain ⟨s₂, hs₂, h⟩ := h
      cases h
      obtain ⟨c, hc⟩ := step_eq_ok.mp hs₂
      exact ⟨log ++ [(inst, c)], .snoc hran hc, by simp [hlog]⟩
    · rintro ⟨log, hran, hlog⟩
      obtain ⟨front, back, rfl, hfront, hback⟩ := List.map_eq_append_iff.mp hlog
      obtain ⟨⟨inst', c⟩, rfl, rfl⟩ := List.map_eq_singleton_iff.mp hback
      obtain ⟨s₁, hran, hc⟩ := ran_concat.mp hran
      refine ⟨s₁, ih.mpr ⟨front, hran, hfront⟩, ?_⟩
      rw [List.foldlM_cons, step_eq_ok.mpr ⟨c, hc⟩]
      rfl

/-- The books of the constructed simulator: an epoch has begun. -/
structure Opened (u : Unset) (s : Uarchsim P) : Prop where
  window : s.pipe.window = []
  fetchCycle : s.fetchCycle = 0
  cycle : s.cycle = 0
  numInst : s.numInst = 0
  numInstsPerEpoch : s.numInstsPerEpoch = [0]
  numCyclesPerEpoch : s.numCyclesPerEpoch = [0]
  lastEpochEndCycle : s.lastEpochEndCycle = 0
  measPerEpoch : s.BP.measPerEpoch = [{}]
  cyclesOnWrongPath : s.cyclesOnWrongPath = u.cyclesOnWrongPath

theorem new_opened {u : Unset} {p : P} (h : new u cfg p = .ok s) : Opened u s := by
  unfold new at h
  obtain ⟨L3, -, h⟩ := bind_eq_ok.mp h
  obtain ⟨L2, -, h⟩ := bind_eq_ok.mp h
  obtain ⟨L1, -, h⟩ := bind_eq_ok.mp h
  obtain ⟨IC, -, h⟩ := bind_eq_ok.mp h
  obtain ⟨-, h⟩ := guard_eq_ok.mp h
  obtain ⟨-, h⟩ := guard_eq_ok.mp h
  obtain ⟨-, h⟩ := guard_eq_ok.mp h
  cases h
  exact ⟨rfl, rfl, rfl, rfl, rfl, rfl, rfl, rfl, rfl⟩

/-- A simulation that returns is a run from the constructed simulator. -/
theorem simulate_eq_ok {u : Unset} {p : P} {insts : List DbInst} :
    simulate u cfg hk p insts = .ok s ↔
      ∃ s₀, new u cfg p = .ok s₀ ∧ ∃ log, Ran cfg hk s₀ log s ∧ log.map (·.1) = insts := by
  unfold simulate
  rw [bind_eq_ok]
  simp only [lift_eq_ok, foldlM_eq_ok]

end Ran

end Uarchsim

/-! ## What a step changes -/

section Changes

variable {cfg : Config} {hk : Hooks P H} {s s' : Uarchsim P} {inst : DbInst} {c : Course P}

open Uarchsim

/-- Up to the fetch of the instruction. -/
theorem Course.Leads.before_eq (h : Course.Leads cfg hk s inst c) :
    s.fetchCycle ≤ c.before.fetchCycle ∧
      c.before = { s with
        piece := c.before.piece
        pipe := c.before.pipe
        res := c.before.res
        fetchCycle := c.before.fetchCycle } := by
  obtain ⟨-, _, _, -, hbegun⟩ := beginStep_eq_ok h.begun
  obtain ⟨hle, -, _, -, hblocked⟩ := fetchBlock_eq_ok h.blocked
  obtain ⟨_, _, -, -, hbefore⟩ := predictValue_eq_ok h.before
  have hcycle : c.begun.fetchCycle = s.fetchCycle := by rw [hbegun]
  have hcycle' : c.before.fetchCycle = c.blocked.fetchCycle := by rw [hbefore]
  refine ⟨(hcycle ▸ hle).trans_eq hcycle'.symm, ?_⟩
  rw [hbefore, hblocked, hbegun]

/-- The scheduling of the instruction and its write-back. -/
theorem Course.Leads.written_eq (h : Course.Leads cfg hk s inst c) :
    c.written = { c.before with
      res := c.written.res
      numLoad := c.before.numLoad + inst.isLoad.toNat
      numLoadSqmiss := c.before.numLoadSqmiss + c.timing.sqMiss.toNat
      statPfsIssuedToMem := c.written.statPfsIssuedToMem
      numUop := c.before.numUop + 1
      numInst := c.before.numInst + inst.isLastPiece.toNat
      cycle := max c.before.cycle c.timing.execCycle
      numEligible := c.written.numEligible
      numCorrect := c.written.numCorrect
      numIncorrect := c.written.numIncorrect } := by
  obtain ⟨_, _, _, -, -, hscheduled⟩ := schedule_eq_ok h.scheduled
  obtain ⟨_, _, _, _, _, -, hwritten⟩ := writeBack_eq_ok h.written
  rw [hwritten, hscheduled]

/-- The dispatch of the instruction and the end of its bundle. -/
theorem Course.Leads.managed_eq (h : Course.Leads cfg hk s inst c) :
    c.before.fetchCycle < c.timing.execCycle ∧ c.before.fetchCycle ≤ c.managed.fetchCycle ∧
      c.managed = { c.written with
        pipe := c.dispatched.pipe
        previousFetchCycle := c.before.fetchCycle
        numFetched := c.managed.numFetched
        numFetchedBranch := c.managed.numFetchedBranch
        fetchCycle := c.managed.fetchCycle } := by
  obtain ⟨hlater, _, _, _, -, -, -, -, hdispatched⟩ := dispatch_eq_ok h.dispatched
  obtain ⟨hle, hmanaged⟩ := manageFetch_eq_ok h.managed
  have hcycle : c.written.fetchCycle = c.before.fetchCycle := by rw [h.written_eq]
  have hcycle' : c.dispatched.fetchCycle = c.written.fetchCycle := by rw [hdispatched]
  rw [hcycle] at hlater hcycle'
  refine ⟨hlater, hcycle' ▸ hle, ?_⟩
  rw [hmanaged, hdispatched, hcycle]

/-- The prediction of the branch and the end of the step. -/
theorem Course.Of.last_eq (h : Course.Of cfg hk s inst c s') :
    c.managed.fetchCycle ≤ c.predicted.fetchCycle ∧
      s' = { c.managed with
        pipe := { c.managed.pipe with
          hooks := c.predicted.pipe.hooks
          window := c.told.pipe.window }
        res := { c.managed.res with
          ldstLanes := s'.res.ldstLanes
          aluLanes := s'.res.aluLanes }
        BP := s'.BP
        piece := s'.piece
        numFetched := c.predicted.numFetched
        numFetchedBranch := c.predicted.numFetchedBranch
        fetchCycle := c.predicted.fetchCycle
        cyclesOnWrongPath := c.predicted.cyclesOnWrongPath
        numInstsPerEpoch := s'.numInstsPerEpoch
        numCyclesPerEpoch := s'.numCyclesPerEpoch
        lastEpochEndCycle := s'.lastEpochEndCycle
        fetched := c.before.fetched ++ [c.fetched cfg inst] } := by
  obtain ⟨hle, -, hooks, hpredicted⟩ := predictBranch_frame h.predicted
  obtain ⟨window, htold, -⟩ := updatePredTaken_eq_ok h.told
  obtain ⟨ldst, alu, hended⟩ := endStep_eq_ok h.ended
  refine ⟨hle, ?_⟩
  rw [h.last]
  dsimp only at hended
  split at hended
  · rw [hended.2, htold, hpredicted]
  · rw [hended, htold, hpredicted]

end Changes

end CbpSim.Core
