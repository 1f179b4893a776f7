/-
  Core/IndirectTargets.lean --- the targets that the simulator predicts.

  Source: src/lib/bp.cc, the calls of ITTAGE in `bp_t::predict`; src/lib/ittage.h.

  ITTAGE is called for each jump when it is fetched, with its pc and its target, and
  by nobody else.  What it predicts is therefore decided by the trace: a run of the
  simulator counts the target mispredictions that ITTAGE alone has on the trace,
  whatever the timing and the other predictors are.
-/
import CbpSim.Core.EpochClasses
import CbpSim.Core.Shipped
import CbpSim.Core.WrongPath
import CbpSim.Predictor.IttageState

set_option autoImplicit false

namespace CbpSim.Core

open CbpSim.Foundation CbpSim.Predictor

variable {P H : Type}

/-! ## ITTAGE on a trace -/

/-- The calls of ITTAGE for an instruction. -/
def ittageCalls (inst : DbInst) : List Ipredictor.Call :=
  if inst.insnClass = .uncondDirectBranch ∨ inst.insnClass = .callDirect then
    [.trackOtherInst inst.pc inst.nextPc]
  else if inst.insnClass.isUncondIndBr then
    [.getPrediction inst.pc, .updatePredictor inst.pc inst.nextPc]
  else []

/-- ITTAGE after an instruction. -/
def ittageAfter (v : Ipredictor) (inst : DbInst) : Ipredictor :=
  (ittageCalls inst).foldl Ipredictor.step v

/-- Does ITTAGE predict another target for the instruction? -/
def targetMissed (v : Ipredictor) (inst : DbInst) : Bool :=
  inst.insnClass.isUncondIndBr && (v.getPrediction inst.pc).1 != inst.nextPc

/-- The mispredicted targets of some instructions of a trace. -/
def targetMisses (sel : DbInst → Bool) : Ipredictor → List DbInst → Nat
  | _, [] => 0
  | v, inst :: insts =>
    (sel inst && targetMissed v inst).toNat + targetMisses sel (ittageAfter v inst) insts

theorem targetMisses_concat (sel : DbInst → Bool) (v : Ipredictor) (insts : List DbInst)
    (inst : DbInst) :
    targetMisses sel v (insts ++ [inst]) = targetMisses sel v insts +
      (sel inst && targetMissed (insts.foldl ittageAfter v) inst).toNat := by
  induction insts generalizing v with
  | nil => exact Nat.add_comm _ _
  | cons first insts ih =>
    rw [List.cons_append, targetMisses, targetMisses, ih, List.foldl_cons, Nat.add_assoc]

/-! ## Predictors with ITTAGE among them -/

/-- ITTAGE is in the state `ittage` of the predictors, and changes when it is called. -/
structure Carries (hk : Hooks P H) (ittage : P → Ipredictor) : Prop where
  steady : Pipeline.Steady hk (fun _ => True) fun p p' => ittage p' = ittage p
  resolve : Pipeline.SteadyResolve hk (fun _ => True) fun p p' => ittage p' = ittage p
  notifyInstrFetch (p : P) (seqNo piece pc cycle : Nat) :
    Ends (hk.notifyInstrFetch p seqNo piece pc cycle) (fun _ => True) fun p' =>
      ittage p' = ittage p
  getPrediction (p : P) (request : PredictionRequest) :
    Ends (hk.getPrediction p request) (fun _ => True) fun x => ittage x.2 = ittage p
  speculativeUpdate (p : P) (update : SpeculativeUpdate) :
    Ends (hk.speculativeUpdate p update) (fun _ => True) fun p' => ittage p' = ittage p
  getCondDirPrediction (p : P) (seqNo piece pc predCycle fetchCycle execCycle : Nat) :
    Ends (hk.getCondDirPrediction p seqNo piece pc predCycle fetchCycle execCycle) (fun _ => True)
      fun x => ittage x.2 = ittage p
  specUpdate (p : P) (seqNo piece pc : Nat) (c : InstClass) (resolveDir predDir : Bool)
    (nextPc : Nat) :
    Ends (hk.specUpdate p seqNo piece pc c resolveDir predDir nextPc) (fun _ => True) fun p' =>
      ittage p' = ittage p
  ittageGetPrediction (p : P) (pc : Nat) :
    Ends (hk.ittageGetPrediction p pc) (fun _ => True) fun x =>
      x.1 = ((ittage p).getPrediction pc).1 ∧ ittage x.2 = ((ittage p).getPrediction pc).2
  ittageUpdatePredictor (p : P) (pc nextPc : Nat) :
    Ends (hk.ittageUpdatePredictor p pc nextPc) (fun _ => True) fun p' =>
      ittage p' = (ittage p).updatePredictor pc nextPc
  ittageTrackOtherInst (p : P) (pc nextPc : Nat) :
    Ends (hk.ittageTrackOtherInst p pc nextPc) (fun _ => True) fun p' =>
      ittage p' = (ittage p).trackOtherInst pc nextPc

theorem onCond_carries (p : Predictors Ipredictor) (x : Except Abort CondBranchPredictor) :
    Ends (p.onCond x : Except (PredictorStop Empty) _) (fun _ => True) fun p' =>
      p'.side = p.side := by
  unfold Predictors.onCond
  apply Ends.bind (Ends.of_any fun _ => trivial)
  intro _ _
  rfl

/-- The predictors of the repository. -/
theorem shippedHooks_carries (cfg : Config) (randR : Nat → Nat × Nat) :
    Carries (shippedHooks cfg randR) (·.side) where
  steady :=
    { refl := fun _ => rfl
      trans := fun h h' => h'.trans h
      abort := fun _ _ => trivial
      decode := fun p _ _ _ _ _ => onCond_carries p _
      agen := fun _ _ _ _ _ _ _ _ => rfl
      commit := fun p _ _ _ _ _ _ => onCond_carries p _
      update := fun _ _ _ _ _ => rfl }
  resolve := by
    intro p seqNo piece pc predDir info c
    apply Ends.bind (onCond_carries p _)
    intro p' hp'
    exact hp'
  notifyInstrFetch _ _ _ _ _ := rfl
  getPrediction _ _ := rfl
  speculativeUpdate _ _ := rfl
  getCondDirPrediction p seqNo piece pc _ _ _ := by
    apply Ends.bind (Ends.of_any fun _ => trivial)
    intro _ _
    rfl
  specUpdate p _ _ _ _ _ _ _ := onCond_carries p _
  ittageGetPrediction _ _ := ⟨rfl, rfl⟩
  ittageUpdatePredictor _ _ _ := rfl
  ittageTrackOtherInst _ _ _ := rfl

/-! ## A step -/

section Step

variable {cfg : Config} {hk : Hooks P H} {ittage : P → Ipredictor} {s s' : Uarchsim P}
  {inst : DbInst} {c : Course P}

open Uarchsim

/-- The cycles that are evaluated do not call ITTAGE. -/
theorem Carries.catchUp (carries : Carries hk ittage) (cfg : Config) {first last : Nat}
    {pipe pipe' : Pipeline P} (h : pipe.catchUp cfg hk first last = .ok pipe') :
    ittage pipe'.hooks = ittage pipe.hooks := by
  have hsteps : Ends (pipe.catchUp cfg hk first last) (fun _ => True)
      fun p' => ittage p'.hooks = ittage pipe.hooks :=
    Pipeline.catchUp_steps (R := fun p p' => ittage p'.hooks = ittage p.hooks) (fun _ => rfl)
      (fun h h' => h'.trans h)
      (fun cycle p => (carries.steady.evalCycle carries.resolve cfg p).imp fun _ h => h.1)
      first last pipe
  exact hsteps.of_ok h

/-- The prediction of a value does not call ITTAGE. -/
theorem Carries.predictValue (carries : Carries hk ittage) {a : Uarchsim P}
    {pred : PredictionResult} {predictable : Bool}
    (h : s.predictValue cfg hk inst = .ok (pred, predictable, a)) :
    ittage a.pipe.hooks = ittage s.pipe.hooks := by
  unfold Uarchsim.predictValue at h
  dsimp only at h
  split at h
  · cases h
    rfl
  · obtain ⟨⟨req, res⟩, -, h⟩ := bind_eq_ok.mp h
    dsimp only at h
    split at h
    · cases h
      rfl
    · obtain ⟨⟨pred', hooks⟩, hget, h⟩ := bind_eq_ok.mp h
      obtain ⟨hooks', hupdate, h⟩ := bind_eq_ok.mp h
      cases h
      have hgot := (carries.getPrediction _ _).of_ok (call_eq_ok.mp hget)
      have hupdated := (carries.speculativeUpdate _ _).of_ok (call_eq_ok.mp hupdate)
      exact hupdated.trans hgot

/-- Until its branch is predicted an instruction does not call ITTAGE. -/
theorem Carries.leads (carries : Carries hk ittage) (h : Course.Leads cfg hk s inst c) :
    ittage c.managed.pipe.hooks = ittage s.pipe.hooks := by
  obtain ⟨-, _, pipe, hcatch, hbegun⟩ := beginStep_eq_ok h.begun
  obtain ⟨-, -, pipe', hcatch', hblocked⟩ := fetchBlock_eq_ok h.blocked
  obtain ⟨-, hooks, w, AQ, hfetch, -, -, -, hdispatched⟩ := dispatch_eq_ok h.dispatched
  obtain ⟨-, hmanaged⟩ := manageFetch_eq_ok h.managed
  have hwritten : c.written.pipe = c.before.pipe := by rw [h.written_eq]
  calc ittage c.managed.pipe.hooks = ittage hooks := by rw [hmanaged, hdispatched]
    _ = ittage c.before.pipe.hooks := by
      rw [(carries.notifyInstrFetch _ _ _ _ _).of_ok hfetch, hwritten]
    _ = ittage c.blocked.pipe.hooks := carries.predictValue h.before
    _ = ittage c.begun.pipe.hooks := by rw [hblocked, carries.catchUp cfg hcatch']
    _ = ittage s.pipe.hooks := by rw [hbegun, carries.catchUp cfg hcatch]

/-- `bp_t::predict` calls ITTAGE for the jumps, and takes its word on the target. -/
theorem Carries.predict (carries : Carries hk ittage) (hindirect : cfg.perfectIndirectPred = false)
    {b b' : Bp} {p p' : P} {seqNo piece predCycle fetchCycle execCycle : Nat} {misp : Bool}
    (h : b.predict cfg hk p seqNo piece inst predCycle fetchCycle execCycle = .ok (misp, b', p')) :
    ittage p' = ittageAfter (ittage p) inst ∧
      (inst.insnClass.isUncondIndBr = true → misp = targetMissed (ittage p) inst) := by
  have direct : (inst.insnClass = .uncondDirectBranch ∨ inst.insnClass = .callDirect) →
      b.predictDirect cfg hk p seqNo piece inst = .ok (misp, b', p') →
      ittage p' = ittageAfter (ittage p) inst ∧
        (inst.insnClass.isUncondIndBr = true → misp = targetMissed (ittage p) inst) := by
    intro hclass h
    unfold Bp.predictDirect at h
    obtain ⟨q, hspec, h⟩ := bind_eq_ok.mp h
    rw [if_neg (by simp [hindirect])] at h
    obtain ⟨q', htrack, h⟩ := bind_eq_ok.mp h
    cases h
    have hq := (carries.specUpdate _ _ _ _ _ _ _ _).of_ok (call_eq_ok.mp hspec)
    have hq' := (carries.ittageTrackOtherInst _ _ _).of_ok (call_eq_ok.mp htrack)
    refine ⟨?_, ?_⟩
    · rw [hq', hq, ittageAfter, ittageCalls, if_pos hclass]
      rfl
    · rcases hclass with hclass | hclass <;> simp [hclass, InstClass.isUncondIndBr]
  have indirect : inst.insnClass.isUncondIndBr = true →
      b.predictIndirect cfg hk p seqNo piece inst = .ok (misp, b', p') →
      ittage p' = ittageAfter (ittage p) inst ∧
        (inst.insnClass.isUncondIndBr = true → misp = targetMissed (ittage p) inst) := by
    intro hclass h
    unfold Bp.predictIndirect at h
    rw [if_neg (by simp [hindirect])] at h
    obtain ⟨⟨misp', q⟩, hasked, h⟩ := bind_eq_ok.mp h
    obtain ⟨⟨target, q₁⟩, hget, hasked⟩ := bind_eq_ok.mp hasked
    obtain ⟨q₂, hupdate, hasked⟩ := bind_eq_ok.mp hasked
    obtain ⟨q₃, hspec, h⟩ := bind_eq_ok.mp h
    cases hasked
    cases h
    obtain ⟨htarget, hq₁⟩ := (carries.ittageGetPrediction _ _).of_ok (call_eq_ok.mp hget)
    have hq₂ := (carries.ittageUpdatePredictor _ _ _).of_ok (call_eq_ok.mp hupdate)
    have hq₃ := (carries.specUpdate _ _ _ _ _ _ _ _).of_ok (call_eq_ok.mp hspec)
    have hneither : ¬ (inst.insnClass = .uncondDirectBranch ∨ inst.insnClass = .callDirect) := by
      rintro (h | h) <;> simp [h, InstClass.isUncondIndBr] at hclass
    refine ⟨?_, ?_⟩
    · rw [hq₃, hq₂, hq₁, ittageAfter, ittageCalls, if_neg hneither, if_pos hclass]
      rfl
    · intro _
      rw [targetMissed, hclass, ← htarget, Bool.true_and]
  have neither : ¬ (inst.insnClass = .uncondDirectBranch ∨ inst.insnClass = .callDirect) →
      inst.insnClass.isUncondIndBr = false → ittage p' = ittage p →
      ittage p' = ittageAfter (ittage p) inst ∧
        (inst.insnClass.isUncondIndBr = true → misp = targetMissed (ittage p) inst) := by
    intro hdirect hclass hsame
    refine ⟨?_, fun h => absurd (hclass.symm.trans h) Bool.false_ne_true⟩
    rw [hsame, ittageAfter, ittageCalls, if_neg hdirect, if_neg (by simp [hclass])]
    rfl
  unfold Bp.predict at h
  split at h
  case h_1 hclass =>
    unfold Bp.predictCond at h
    obtain ⟨⟨dir, q⟩, hget, h⟩ := bind_eq_ok.mp h
    obtain ⟨q', hspec, h⟩ := bind_eq_ok.mp h
    cases h
    have hq := (carries.getCondDirPrediction _ _ _ _ _ _ _).of_ok (call_eq_ok.mp hget)
    have hq' := (carries.specUpdate _ _ _ _ _ _ _ _).of_ok (call_eq_ok.mp hspec)
    exact neither (by simp [hclass]) (by simp [hclass, InstClass.isUncondIndBr]) (hq'.trans hq)
  case h_2 hclass => exact direct (Or.inl hclass) h
  case h_3 hclass => exact direct (Or.inr hclass) h
  case h_4 hclass => exact indirect (by rw [hclass]; rfl) h
  case h_5 hclass => exact indirect (by rw [hclass]; rfl) h
  case h_6 hclass => exact indirect (by rw [hclass]; rfl) h
  case h_7 h₁ h₂ h₃ h₄ h₅ h₆ =>
    cases h
    refine neither (fun h => h.elim h₂ h₃) ?_ rfl
    simp only [InstClass.isUncondIndBr, Bool.or_eq_false_iff, beq_eq_false_iff_ne]
    exact ⟨⟨h₄, h₅⟩, h₆⟩

/-- What is counted in an epoch, summed up over the epochs. -/
def Bp.total (f : EpochMeasures → Nat) (b : Bp) : Nat := (b.measPerEpoch.map f).sum

/-- The targets that were mispredicted so far are those that ITTAGE alone mispredicts. -/
structure FollowsTargets (ittage : P → Ipredictor) (v : Ipredictor) (insts : List DbInst)
    (s : Uarchsim P) : Prop where
  state : ittage s.pipe.hooks = insts.foldl ittageAfter v
  epochs : s.BP.measPerEpoch ≠ []
  jumpind : s.BP.total (·.jumpindM) = targetMisses (fun i => i.insnClass != .return) v insts
  jumpret : s.BP.total (·.jumpretM) = targetMisses (fun i => i.insnClass == .return) v insts

/-- A step counts the target of its instruction. -/
theorem FollowsTargets.step {v : Ipredictor} {insts : List DbInst}
    (hs : FollowsTargets ittage v insts s) (carries : Carries hk ittage)
    (hperfect : cfg.perfectBranchPred = false) (hindirect : cfg.perfectIndirectPred = false)
    (h : Course.Of cfg hk s inst c s') : FollowsTargets ittage v (insts ++ [inst]) s' := by
  obtain ⟨BP, hooks, hpredict, hpredicted⟩ := predictBranch_eq_ok h.predicted hperfect
  obtain ⟨hafter, hmissed⟩ := carries.predict hindirect hpredict
  obtain ⟨cycles, fresh, hfresh, hmeasures⟩ := h.measures hperfect
  have hleads := carries.leads h.toLeads
  rw [hleads, hs.state] at hafter hmissed
  have hhooks : s'.pipe.hooks = hooks := by
    rw [h.last_eq.2]
    rcases hpredicted with ⟨-, hpredicted⟩ | ⟨-, hpredicted⟩
    · rw [hpredicted]
    · rw [hpredicted]
  have hcounted : (inst.insnClass.isUncondIndBr && c.misp) =
      targetMissed (insts.foldl ittageAfter v) inst := by
    cases hind : inst.insnClass.isUncondIndBr with
    | false =>
      rw [targetMissed, hind]
      rfl
    | true => rw [Bool.true_and, hmissed hind]
  -- a new epoch has counted nothing
  have total : ∀ {f : EpochMeasures → Nat} {n : Nat}, f {} = 0 →
      (∀ m : EpochMeasures, f { m.count inst.insnClass c.misp with
        cyclesOnWrongPath := (m.count inst.insnClass c.misp).cyclesOnWrongPath + cycles } =
          f m + n) → s'.BP.total f = s.BP.total f + n := by
    intro f n hzero hcount
    have hnone : (fresh.map f).sum = 0 := by
      rcases hfresh with rfl | rfl
      · rfl
      · simp [hzero]
    rw [Bp.total, hmeasures, List.map_append, List.sum_append, hnone, Nat.add_zero]
    exact sum_map_updateBack hcount hs.epochs
  refine ⟨?_, ?_, ?_, ?_⟩
  · rw [hhooks, hafter, List.foldl_append]
    rfl
  · rw [hmeasures]
    intro hnil
    have hlength := congrArg List.length (List.append_eq_nil_iff.mp hnil).1
    rw [length_updateBack] at hlength
    exact hs.epochs (List.length_eq_zero_iff.mp hlength)
  · rw [targetMisses_concat, ← hs.jumpind, ← hcounted]
    exact total rfl fun m => (m.counts inst.insnClass c.misp cycles).jumpindM
  · rw [targetMisses_concat, ← hs.jumpret, ← hcounted]
    exact total rfl fun m => (m.counts inst.insnClass c.misp cycles).jumpretM

end Step

/-! ## A run -/

section Run

open Uarchsim

variable {u : Unset} {cfg : Config} {randR : Nat → Nat × Nat} {p : Predictors Ipredictor}
  {s₀ s : Uarchsim (Predictors Ipredictor)}

/-- The calls of a run of the constructed simulator. -/
theorem FollowsTargets.ran {log : List (DbInst × Course (Predictors Ipredictor))}
    (hperfect : cfg.perfectBranchPred = false) (hindirect : cfg.perfectIndirectPred = false)
    (hnew : new u cfg p = .ok s₀) (hran : Ran cfg (shippedHooks cfg randR) s₀ log s) :
    FollowsTargets (·.side) p.side (log.map (·.1)) s := by
  induction hran with
  | nil =>
    have opened := new_opened hnew
    have initial := (new_ends u cfg p).of_ok hnew
    refine ⟨?_, ?_, ?_, ?_⟩
    · rw [initial.pipe]
      rfl
    · rw [opened.measPerEpoch]
      exact List.cons_ne_nil _ _
    · rw [Bp.total, opened.measPerEpoch]
      rfl
    · rw [Bp.total, opened.measPerEpoch]
      rfl
  | snoc _ hc ih =>
    rw [List.map_append]
    exact ih.step (shippedHooks_carries cfg randR) hperfect hindirect hc

end Run

open Uarchsim in
/-- **ITTAGE follows the trace.**  In a run with the predictors of the repository, ITTAGE
ends in the state that its calls for the trace alone leave, and the epochs together
count the targets of jumps and of returns that it mispredicts on the trace alone. -/
theorem simulate_followsTargets (u : Unset) (cfg : Config) (randR : Nat → Nat × Nat)
    (p : Predictors Ipredictor) (insts : List DbInst) (hperfect : cfg.perfectBranchPred = false)
    (hindirect : cfg.perfectIndirectPred = false) {s : Uarchsim (Predictors Ipredictor)}
    (hrun : simulate u cfg (shippedHooks cfg randR) p insts = .ok s) :
    FollowsTargets (·.side) p.side insts s := by
  obtain ⟨s₀, hnew, log, hran, rfl⟩ := simulate_eq_ok.mp hrun
  exact .ran hperfect hindirect hnew hran

/-- A call through a pointer, a return and the call again. -/
def callTwice : List DbInst :=
  [{ regInst .callIndirect 64 (intReg 1) {} {} with isTaken := true, nextPc := 4096 },
    { regInst .return 4096 (intReg 30) {} {} with isTaken := true, nextPc := 64 },
    { regInst .callIndirect 64 (intReg 1) {} {} with isTaken := true, nextPc := 4096 }]

open Uarchsim in
theorem simulate_followsTargets_callTwice :
    ∃ s, simulate ⟨fun _ => ⟨0, 0, 0⟩, 0⟩ { fetchModelIcache := false, perfectIndirectPred := false }
        (shippedHooks { fetchModelIcache := false, perfectIndirectPred := false }
          fun n => (n, n)) shippedInit callTwice = .ok s ∧
      FollowsTargets (·.side) shippedInit.side callTwice s := by
  obtain ⟨s, hs⟩ := exists_of_isOk (show (simulate ⟨fun _ => ⟨0, 0, 0⟩, 0⟩
    { fetchModelIcache := false, perfectIndirectPred := false }
    (shippedHooks { fetchModelIcache := false, perfectIndirectPred := false } fun n => (n, n))
    shippedInit callTwice).isOk = true by decide +kernel)
  exact ⟨s, hs, simulate_followsTargets _ _ _ _ _ rfl rfl hs⟩

/-! ## Targets that were never seen -/

/-- The targets of the jumps that ITTAGE predicts. -/
def jumpTargets (insts : List DbInst) : List Nat :=
  (insts.filter (·.insnClass.isUncondIndBr)).map (·.nextPc)

/-- ITTAGE knows the targets of the trace, and the default one. -/
theorem ittageAfter_sound {known : Nat → Prop} {v : Ipredictor} (h : v.Sound known)
    (inst : DbInst) :
    (ittageAfter v inst).Sound fun t =>
      known t ∨ inst.insnClass.isUncondIndBr = true ∧ t = inst.nextPc := by
  have hmono := h.mono fun t (ht : known t) =>
    (Or.inl ht : known t ∨ inst.insnClass.isUncondIndBr = true ∧ t = inst.nextPc)
  rw [ittageAfter, ittageCalls]
  split
  · exact hmono.historyUpdate _ _
  · split
    · rename_i hclass
      obtain ⟨hs, hl, -⟩ := hmono.getPrediction inst.pc
      exact (Ipredictor.Trained.updatePredictor ⟨hs, hl⟩ inst.pc (Or.inr ⟨hclass, rfl⟩)).1
    · exact hmono

theorem foldl_ittageAfter_sound (w : Ipredictor.Unset) (insts : List DbInst) :
    (insts.foldl ittageAfter (.reinit w)).Sound fun t => t = 0xdeadbeef ∨ t ∈ jumpTargets insts := by
  induction insts using List.reverseRecOn with
  | nil => exact Ipredictor.reinit_sound w (Or.inl rfl)
  | append_singleton insts inst ih =>
    rw [List.foldl_append]
    refine (ittageAfter_sound ih inst).mono ?_
    intro t ht
    rw [jumpTargets, List.filter_append, List.map_append, List.mem_append]
    rcases ht with (ht | ht) | ⟨hclass, rfl⟩
    · exact Or.inl ht
    · exact Or.inr (Or.inl ht)
    · exact Or.inr (Or.inr (by simp [hclass]))

/-- A target that is not known is mispredicted. -/
theorem targetMissed_of_new {known : Nat → Prop} {v : Ipredictor} (h : v.Sound known)
    {inst : DbInst} (hclass : inst.insnClass.isUncondIndBr = true) (hnew : ¬ known inst.nextPc)
    (hzero : inst.nextPc ≠ 0) : targetMissed v inst = true := by
  obtain ⟨-, -, hknown⟩ := h.getPrediction inst.pc
  rw [targetMissed, hclass, Bool.true_and, bne_iff_ne]
  intro heq
  rw [heq] at hknown
  exact hknown.elim hnew hzero

/-- The distinct targets that a new ITTAGE can only learn. -/
def learntTargets (insts : List DbInst) : Finset Nat :=
  (jumpTargets insts).toFinset \ {0, 0xdeadbeef}

theorem mem_learntTargets_concat {insts : List DbInst} {inst : DbInst} {t : Nat} :
    t ∈ learntTargets (insts ++ [inst]) ↔ t ∈ learntTargets insts ∨
      inst.insnClass.isUncondIndBr = true ∧ t = inst.nextPc ∧ t ≠ 0 ∧ t ≠ 0xdeadbeef := by
  have hone : ∀ i : DbInst, t ∈ jumpTargets [i] ↔ i.insnClass.isUncondIndBr = true ∧ t = i.nextPc := by
    intro i
    cases hclass : i.insnClass.isUncondIndBr <;> simp [jumpTargets, hclass]
  have happend : jumpTargets (insts ++ [inst]) = jumpTargets insts ++ jumpTargets [inst] := by
    rw [jumpTargets, List.filter_append, List.map_append]
    rfl
  simp only [learntTargets, happend, Finset.mem_sdiff, List.mem_toFinset, List.mem_append, hone,
    Finset.mem_insert, Finset.mem_singleton]
  tauto

/-- Each of them is mispredicted once. -/
theorem card_learntTargets_le (w : Ipredictor.Unset) (insts : List DbInst) :
    (learntTargets insts).card ≤ targetMisses (fun _ => true) (.reinit w) insts := by
  induction insts using List.reverseRecOn with
  | nil => exact le_rfl
  | append_singleton insts inst ih =>
    have hsound := foldl_ittageAfter_sound w insts
    rw [targetMisses_concat, Bool.true_and]
    cases hmissed : targetMissed (insts.foldl ittageAfter (.reinit w)) inst with
    | true =>
      have hsubset : learntTargets (insts ++ [inst]) ⊆
          insert inst.nextPc (learntTargets insts) := by
        intro t ht
        rcases mem_learntTargets_concat.mp ht with h | ⟨-, rfl, -⟩
        · exact Finset.mem_insert_of_mem h
        · exact Finset.mem_insert_self _ _
      calc (learntTargets (insts ++ [inst])).card
          ≤ (insert inst.nextPc (learntTargets insts)).card := Finset.card_le_card hsubset
        _ ≤ (learntTargets insts).card + 1 := Finset.card_insert_le _ _
        _ ≤ _ := Nat.add_le_add_right ih 1
    | false =>
      have hsubset : learntTargets (insts ++ [inst]) ⊆ learntTargets insts := by
        intro t ht
        rcases mem_learntTargets_concat.mp ht with h | ⟨hclass, rfl, hzero, hdefault⟩
        · exact h
        · -- it was predicted, so ITTAGE has seen it
          by_contra hnew
          have hunknown : ¬ (inst.nextPc = 0xdeadbeef ∨ inst.nextPc ∈ jumpTargets insts) := by
            rintro (h | h)
            · exact hdefault h
            · exact hnew (by simp [learntTargets, h, hzero, hdefault])
          have hmiss := targetMissed_of_new hsound hclass hunknown hzero
          exact Bool.false_ne_true (hmissed.symm.trans hmiss)
      exact (Finset.card_le_card hsubset).trans ih

/-- Jumps and returns together. -/
theorem targetMisses_add (v : Ipredictor) (insts : List DbInst) :
    targetMisses (fun i => i.insnClass != .return) v insts +
      targetMisses (fun i => i.insnClass == .return) v insts =
        targetMisses (fun _ => true) v insts := by
  induction insts generalizing v with
  | nil => rfl
  | cons inst insts ih =>
    rw [targetMisses, targetMisses, targetMisses, ← ih]
    cases hclass : inst.insnClass == .return with
    | false =>
      rw [bne, hclass]
      simp only [Bool.not_false, Bool.true_and, Bool.false_and, Bool.toNat_false]
      omega
    | true =>
      rw [bne, hclass]
      simp only [Bool.not_true, Bool.true_and, Bool.false_and, Bool.toNat_false]
      omega

open Uarchsim in
/-- **A target is learnt from a misprediction.**  In a run from a new ITTAGE the epochs
together count at least as many mispredicted targets as the jumps of the trace have
distinct ones, but for 0 and the default target. -/
theorem simulate_learns_targets (u : Unset) (cfg : Config) (randR : Nat → Nat × Nat)
    (w : Ipredictor.Unset) (insts : List DbInst) (hperfect : cfg.perfectBranchPred = false)
    (hindirect : cfg.perfectIndirectPred = false) {s : Uarchsim (Predictors Ipredictor)}
    (hrun : simulate u cfg (shippedHooks cfg randR) (.init (.reinit w)) insts = .ok s) :
    (learntTargets insts).card ≤ s.BP.total (·.jumpindM) + s.BP.total (·.jumpretM) := by
  obtain ⟨s₀, hnew, log, hran, rfl⟩ := simulate_eq_ok.mp hrun
  have h := FollowsTargets.ran hperfect hindirect hnew hran
  rw [h.jumpind, h.jumpret, targetMisses_add]
  exact card_learntTargets_le w _

open Uarchsim in
theorem simulate_learns_targets_callTwice :
    ∃ s, simulate ⟨fun _ => ⟨0, 0, 0⟩, 0⟩ { fetchModelIcache := false, perfectIndirectPred := false }
        (shippedHooks { fetchModelIcache := false, perfectIndirectPred := false }
          fun n => (n, n)) shippedInit callTwice = .ok s ∧
      (learntTargets callTwice).card = 2 ∧
      (learntTargets callTwice).card ≤ s.BP.total (·.jumpindM) + s.BP.total (·.jumpretM) := by
  obtain ⟨s, hs⟩ := exists_of_isOk (show (simulate ⟨fun _ => ⟨0, 0, 0⟩, 0⟩
    { fetchModelIcache := false, perfectIndirectPred := false }
    (shippedHooks { fetchModelIcache := false, perfectIndirectPred := false } fun n => (n, n))
    shippedInit callTwice).isOk = true by decide +kernel)
  exact ⟨s, hs, by decide, simulate_learns_targets _ _ _ Ipredictor.zeroed _ rfl rfl hs⟩

end CbpSim.Core
