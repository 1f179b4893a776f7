/-
  Core/Answers.lean --- predictors that give the same answers.

  Source: src/lib/bp.cc, `predict`; src/lib/my_value_predictor.cc;
  src/cond_branch_predictor_interface.cc.

  Two predictors that answer alike are the same predictor to the simulator.  Three
  uses: the value predictor and the indirect-branch predictor are not heard with the
  default parameters, the value predictor of the repository predicts nothing, and
  what lies outside the arrays of the branch predictor is never seen.
-/
import CbpSim.Core.Transparency
import CbpSim.Predictor.Footprint
import CbpSim.Predictor.Ittage

set_option autoImplicit false

namespace CbpSim.Core

open CbpSim.Foundation CbpSim.Predictor

variable {P Q H H' : Type}

/-! ## The predictions of a branch -/

/-- The same directions and the same targets are predicted. -/
structure Answers (X : Excuses (Stop H) (Stop H')) (cfg : Config) (hk : Hooks P H)
    (hk' : Hooks Q H') (R : P → Q → Prop) : Prop where
  direction {p : P} {q : Q} (h : R p q) (seqNo piece pc predCycle fetchCycle execCycle : Nat) :
    Paired X (fun a b => a.1 = b.1 ∧ R a.2 b.2)
      (call (hk.getCondDirPrediction p seqNo piece pc predCycle fetchCycle execCycle))
      (call (hk'.getCondDirPrediction q seqNo piece pc predCycle fetchCycle execCycle))
  specUpdate {p : P} {q : Q} (h : R p q) (seqNo piece pc : Nat) (c : InstClass)
    (resolveDir predDir : Bool) (nextPc : Nat) :
    Paired X R (call (hk.specUpdate p seqNo piece pc c resolveDir predDir nextPc))
      (call (hk'.specUpdate q seqNo piece pc c resolveDir predDir nextPc))
  target (hind : cfg.perfectIndirectPred = false) {p : P} {q : Q} (h : R p q) (pc : Nat) :
    Paired X (fun a b => a.1 = b.1 ∧ R a.2 b.2) (call (hk.ittageGetPrediction p pc))
      (call (hk'.ittageGetPrediction q pc))
  train (hind : cfg.perfectIndirectPred = false) {p : P} {q : Q} (h : R p q) (pc nextPc : Nat) :
    Paired X R (call (hk.ittageUpdatePredictor p pc nextPc))
      (call (hk'.ittageUpdatePredictor q pc nextPc))
  track (hind : cfg.perfectIndirectPred = false) {p : P} {q : Q} (h : R p q) (pc nextPc : Nat) :
    Paired X R (call (hk.ittageTrackOtherInst p pc nextPc))
      (call (hk'.ittageTrackOtherInst q pc nextPc))
  randR : hk.randR = hk'.randR

/-- The parameters of the branch predictions are those of `cfg`. -/
def SameBranches (x : Predicting) (cfg : Config) : Prop :=
  x.perfectBranchPred = cfg.perfectBranchPred ∧
    x.perfectIndirectPred = cfg.perfectIndirectPred ∧ x.mispReductionPerc = cfg.mispReductionPerc

section Branch

variable {X : Excuses (Stop H) (Stop H')} {cfg : Config} {x : Predicting} {hk : Hooks P H}
  {hk' : Hooks Q H'} {R : P → Q → Prop} {b : Bp} {p : P} {q : Q} {inst : DbInst}

/-- The branch is mispredicted on both sides or on none, and measured so. -/
def SameOutcome (R : P → Q → Prop) (r : Bool × Bp × P) (r' : Bool × Bp × Q) : Prop :=
  r.1 = r'.1 ∧ r.2.1 = r'.2.1 ∧ R r.2.2 r'.2.2

theorem Bp.predictCond_answers (answers : Answers X cfg hk hk' R) (hx : SameBranches x cfg)
    (h : R p q) (seqNo piece predCycle fetchCycle execCycle : Nat) :
    Paired X (SameOutcome R)
      (b.predictCond cfg hk p seqNo piece inst predCycle fetchCycle execCycle)
      (b.predictCond (cfg.predicting x) hk' q seqNo piece inst predCycle fetchCycle execCycle) := by
  have hflip : ∀ seed, flipMispred (cfg.predicting x) hk' seed = flipMispred cfg hk seed := by
    intro seed
    unfold flipMispred
    rw [answers.randR, ← hx.2.2]
    rfl
  apply Paired.bind (answers.direction h _ _ _ _ _ _)
  rintro ⟨dir, p'⟩ ⟨_, q'⟩ ⟨rfl, h'⟩
  have hperc : (cfg.predicting x).mispReductionPerc = cfg.mispReductionPerc := hx.2.2
  dsimp only
  rw [hperc, hflip]
  apply Paired.bind (answers.specUpdate h' _ _ _ _ _ _ _)
  intro p'' q'' h''
  exact ⟨rfl, rfl, h''⟩

theorem Bp.predictDirect_answers (answers : Answers X cfg hk hk' R) (hx : SameBranches x cfg)
    (h : R p q) (seqNo piece : Nat) :
    Paired X (SameOutcome R) (b.predictDirect cfg hk p seqNo piece inst)
      (b.predictDirect (cfg.predicting x) hk' q seqNo piece inst) := by
  have hind : (cfg.predicting x).perfectIndirectPred = cfg.perfectIndirectPred := hx.2.1
  unfold predictDirect
  rw [hind]
  apply Paired.bind (answers.specUpdate h _ _ _ _ _ _ _)
  intro p' q' h'
  apply Paired.bind (R := R)
  · apply Paired.ite
    · intro _
      exact h'
    · intro hoff
      exact answers.track (Bool.eq_false_of_not_eq_true hoff) h' _ _
  · intro p'' q'' h''
    exact ⟨rfl, rfl, h''⟩

theorem Bp.predictIndirect_answers (answers : Answers X cfg hk hk' R) (hx : SameBranches x cfg)
    (h : R p q) (seqNo piece : Nat) :
    Paired X (SameOutcome R) (b.predictIndirect cfg hk p seqNo piece inst)
      (b.predictIndirect (cfg.predicting x) hk' q seqNo piece inst) := by
  have hind : (cfg.predicting x).perfectIndirectPred = cfg.perfectIndirectPred := hx.2.1
  unfold predictIndirect
  rw [hind]
  apply Paired.bind (R := fun a b => a.1 = b.1 ∧ R a.2 b.2)
  · apply Paired.ite
    · intro _
      exact ⟨rfl, h⟩
    · intro hoff
      have hoff' := Bool.eq_false_of_not_eq_true hoff
      apply Paired.bind (answers.target hoff' h _)
      rintro ⟨target, p'⟩ ⟨_, q'⟩ ⟨rfl, h'⟩
      apply Paired.bind (answers.train hoff' h' _ _)
      intro p'' q'' h''
      exact ⟨rfl, h''⟩
  · rintro ⟨misp, p'⟩ ⟨_, q'⟩ ⟨rfl, h'⟩
    apply Paired.bind (answers.specUpdate h' _ _ _ _ _ _ _)
    intro p'' q'' h''
    exact ⟨rfl, rfl, h''⟩

theorem Bp.predict_answers (answers : Answers X cfg hk hk' R) (hx : SameBranches x cfg)
    (h : R p q) (seqNo piece predCycle fetchCycle execCycle : Nat) :
    Paired X (SameOutcome R)
      (b.predict cfg hk p seqNo piece inst predCycle fetchCycle execCycle)
      (b.predict (cfg.predicting x) hk' q seqNo piece inst predCycle fetchCycle execCycle) := by
  unfold predict
  split
  · exact predictCond_answers answers hx h _ _ _ _ _
  · exact predictDirect_answers answers hx h _ _
  · exact predictDirect_answers answers hx h _ _
  · exact predictIndirect_answers answers hx h _ _
  · exact predictIndirect_answers answers hx h _ _
  · exact predictIndirect_answers answers hx h _ _
  · exact ⟨rfl, rfl, h⟩

/-- The branch is charged the same cycles. -/
theorem predictBranch_answers {L : Likeness P Q} {s : Uarchsim P} {s' : Uarchsim Q}
    (answers : Answers X cfg hk hk' L.hooks) (habort : ∀ e, X.both (.abort e) (.abort e))
    (hBP : ∀ b b', L.BP b b' ↔ b = b') (hx : SameBranches x cfg) (h : Twin L s s') (inst : DbInst)
    (seqNo predictCycle execCycle : Nat) :
    Paired X (fun a b => a.1 = b.1 ∧ Twin L a.2 b.2)
      (s.predictBranch cfg hk inst seqNo predictCycle execCycle)
      (s'.predictBranch (cfg.predicting x) hk' inst seqNo predictCycle execCycle) := by
  obtain ⟨g, rfl, hg⟩ := h
  have hb : s.BP = g.BP := (hBP _ _).mp hg.BP
  have hperfect : (cfg.predicting x).perfectBranchPred = cfg.perfectBranchPred := hx.1
  unfold Uarchsim.predictBranch
  rw [hperfect]
  apply Paired.ite
  · intro _
    exact ⟨rfl, g, rfl, hg⟩
  · intro _
    have hsame : (s.recast g).BP = s.BP := hb.symm
    rw [hsame]
    apply Paired.bind (Bp.predict_answers answers hx hg.hooks seqNo s.piece predictCycle
      s.fetchCycle execCycle)
    rintro ⟨misp, b, p⟩ ⟨_, _, q⟩ ⟨rfl, rfl, hq⟩
    apply Paired.ite
    · intro _
      exact ⟨rfl, { g with hooks := q, BP := b }, rfl,
        { hg with hooks := hq, BP := (hBP _ _).mpr rfl }⟩
    · intro _
      apply Paired.ite
      · intro _
        exact Paired.error (habort _)
      · intro _
        exact ⟨rfl, { g with hooks := q, BP := b.updateCyclesOnWrongPath _ }, rfl,
          { hg with hooks := hq, BP := (hBP _ _).mpr rfl }⟩

end Branch

/-! ## The value of an instruction -/

/-- The same values are predicted. -/
structure ValueAnswers (X : Excuses (Stop H) (Stop H')) (hk : Hooks P H) (hk' : Hooks Q H')
    (R : P → Q → Prop) : Prop where
  prediction {p : P} {q : Q} (h : R p q) (request : PredictionRequest) :
    Paired X (fun a b => a.1 = b.1 ∧ R a.2 b.2) (call (hk.getPrediction p request))
      (call (hk'.getPrediction q request))
  speculate {p : P} {q : Q} (h : R p q) (update : SpeculativeUpdate) :
    Paired X R (call (hk.speculativeUpdate p update)) (call (hk'.speculativeUpdate q update))

/-- The same value is predicted for an instruction. -/
theorem predictValue_answers {X : Excuses (Stop H) (Stop H')} {cfg : Config} {x : Predicting}
    {hk : Hooks P H} {hk' : Hooks Q H'} {L : Likeness P Q} {s : Uarchsim P} {s' : Uarchsim Q}
    (answers : ValueAnswers X hk hk' L.hooks) (habort : ∀ e, X.both (.abort e) (.abort e))
    (hx : x.vpEnable = cfg.vpEnable ∧ x.vpPerfect = cfg.vpPerfect ∧ x.vpTrack = cfg.vpTrack)
    (h : Twin L s s') (inst : DbInst) :
    Paired X (fun a b => a.1 = b.1 ∧ a.2.1 = b.2.1 ∧ Twin L a.2.2 b.2.2)
      (s.predictValue cfg hk inst) (s'.predictValue (cfg.predicting x) hk' inst) := by
  obtain ⟨g, rfl, hg⟩ := h
  obtain ⟨vpEnable, vpPerfect, vpTrack, _, _, _, _, _⟩ := x
  obtain ⟨rfl, rfl, rfl⟩ := hx
  apply Paired.ite
  · intro _
    exact ⟨rfl, rfl, g, rfl, hg⟩
  · intro _
    apply Paired.bind (lift_paired habort
      (s.res.getValuePredictionReq cfg s.fetchCycle s.numUop s.piece inst))
    rintro ⟨req, res⟩ _ rfl
    apply Paired.ite
    · intro _
      exact ⟨rfl, rfl, g, rfl, hg⟩
    · intro _
      apply Paired.bind (answers.prediction hg.hooks req)
      rintro ⟨pred, p⟩ ⟨_, q⟩ ⟨rfl, hq⟩
      apply Paired.bind (answers.speculate hq _)
      intro p' q' hq'
      exact ⟨rfl, rfl, { g with hooks := q' }, rfl, { hg with hooks := hq' }⟩

/-! ## The other predictors -/

section Sides

variable {V V' G G' : Type}

/-- The two sides stop together, at an assert of the simulator or of the conditional
branch predictor. -/
def sameStops : Excuses (Stop (PredictorStop G)) (Stop (PredictorStop G')) where
  left _ := False
  right _ := False
  both e e' := (∃ a, e = .abort a ∧ e' = .abort a) ∨
    ∃ a, e = .hook (.cond a) ∧ e' = .hook (.cond a)

theorem sameStops_abort (e : Abort) :
    (sameStops : Excuses (Stop (PredictorStop G)) (Stop (PredictorStop G'))).both
      (.abort e) (.abort e) :=
  Or.inl ⟨e, rfl, rfl⟩

/-- The same conditional branch predictor. -/
def SameCond (p : Predictors V) (q : Predictors V') : Prop :=
  p.cond = q.cond ∧ p.updates = q.updates

/-- The same conditional branch predictor, whatever the other predictors are. -/
def sameCond : Likeness (Predictors V) (Predictors V') where
  hooks := SameCond
  BP := Eq
  numEligible := Eq

section Calls

variable {p : Predictors V} {q : Predictors V'}

/-- A hook of the conditional branch predictor. -/
theorem paired_onCond (h : SameCond p q)
    (f : CondBranchPredictor → Except Abort CondBranchPredictor) :
    Paired (sameStops : Excuses (Stop (PredictorStop G)) (Stop (PredictorStop G'))) SameCond
      (call (p.onCond (f p.cond))) (call (q.onCond (f q.cond))) := by
  rw [h.1]
  cases f q.cond with
  | ok cond => exact ⟨rfl, h.2⟩
  | error e => exact Paired.error (Or.inr ⟨e, rfl, rfl⟩)

theorem paired_resolve (h : SameCond p q) (cfg : Config) (side : SidePredictors V G)
    (side' : SidePredictors V' G') (seqNo piece pc : Nat) (predDir : Bool) (info : ExecuteInfo)
    (c : Nat) :
    Paired sameStops SameCond
      (call ((predictorHooks cfg side).notifyInstrExecuteResolve p seqNo piece pc predDir info c))
      (call ((predictorHooks cfg side').notifyInstrExecuteResolve q seqNo piece pc predDir info
        c)) := by
  unfold predictorHooks Predictors.onCond Predictors.found Predictors.saved
  dsimp only
  rw [h.1, h.2]
  cases q.cond.notifyInstrExecuteResolve cfg seqNo piece pc predDir info with
  | ok cond => exact ⟨rfl, rfl⟩
  | error e => exact Paired.error (Or.inr ⟨e, rfl, rfl⟩)

theorem paired_direction (h : SameCond p q) (cfg : Config) (side : SidePredictors V G)
    (side' : SidePredictors V' G') (seqNo piece pc predCycle fetchCycle execCycle : Nat) :
    Paired sameStops (fun a b => a.1 = b.1 ∧ SameCond a.2 b.2)
      (call ((predictorHooks cfg side).getCondDirPrediction p seqNo piece pc predCycle fetchCycle
        execCycle))
      (call ((predictorHooks cfg side').getCondDirPrediction q seqNo piece pc predCycle fetchCycle
        execCycle)) := by
  unfold predictorHooks
  dsimp only
  rw [h.1]
  cases q.cond.getCondDirPrediction seqNo piece pc with
  | ok r => exact ⟨rfl, rfl, h.2⟩
  | error e => exact Paired.error (Or.inr ⟨e, rfl, rfl⟩)

end Calls

/-- The value predictor is not trained when it is not asked. -/
theorem not_trains {cfg : Config} (hnone : AsksNoValue cfg) :
    ¬ (cfg.vpEnable && !cfg.vpPerfect) = true := by
  rcases hnone with hoff | hoff
  · rw [hoff]
    exact Bool.false_ne_true
  · rw [hoff, Bool.not_true, Bool.and_false]
    exact Bool.false_ne_true

theorem notices_sides {cfg : Config} (hnone : AsksNoValue cfg) (side : SidePredictors V G)
    (side' : SidePredictors V' G') :
    Notices sameStops cfg cfg.toPredicting (predictorHooks cfg side) (predictorHooks cfg side')
      SameCond where
  abort := sameStops_abort
  fetch h _ _ _ _ := h
  decode h seqNo piece _ info _ := paired_onCond h (·.notifyInstrDecode seqNo piece info)
  agen h _ _ _ _ _ _ _ := h
  resolve h seqNo piece pc predDir info c :=
    paired_resolve h cfg side side' seqNo piece pc predDir info c
  commit h _ _ _ _ info _ := paired_onCond h (·.notifyInstrCommit info)
  update h _ _ _ _ := by
    have hoff : ¬ (cfg.toPredicting.vpEnable && !cfg.toPredicting.vpPerfect) = true :=
      not_trains hnone
    rw [if_neg (not_trains hnone), if_neg hoff]
    exact h

theorem answers_sides {cfg : Config} (hind : cfg.perfectIndirectPred = true)
    (side : SidePredictors V G) (side' : SidePredictors V' G') (hrand : side.randR = side'.randR) :
    Answers sameStops cfg (predictorHooks cfg side) (predictorHooks cfg side') SameCond where
  direction h seqNo piece pc predCycle fetchCycle execCycle :=
    paired_direction h cfg side side' seqNo piece pc predCycle fetchCycle execCycle
  specUpdate h _ _ pc c resolveDir predDir nextPc :=
    paired_onCond h (·.specUpdate pc c resolveDir predDir nextPc)
  target hoff := absurd (hind.symm.trans hoff) Bool.noConfusion
  train hoff := absurd (hind.symm.trans hoff) Bool.noConfusion
  track hoff := absurd (hind.symm.trans hoff) Bool.noConfusion
  randR := hrand

/-- **The other predictors are not heard.**  While indirect branches are predicted
perfectly and no value is asked for, as by default, a run is the same for any value
predictor and any indirect-branch predictor, to the state of the conditional branch
predictor. -/
theorem sides_not_heard (u : Unset) (cfg : Config) (side : SidePredictors V G)
    (side' : SidePredictors V' G') (v : V) (v' : V') (insts : List DbInst)
    (hind : cfg.perfectIndirectPred = true) (hnone : AsksNoValue cfg)
    (hrand : side.randR = side'.randR) :
    Paired sameStops (fun s s' => s.timing = s'.timing ∧ s.pipe.hooks.cond = s'.pipe.hooks.cond)
      (Uarchsim.simulate u cfg (predictorHooks cfg side) (.init v) insts)
      (Uarchsim.simulate u cfg (predictorHooks cfg side') (.init v') insts) := by
  have decides : Uarchsim.Decides sameStops cfg cfg.toPredicting (predictorHooks cfg side)
      (predictorHooks cfg side') sameCond insts :=
    { newEpoch := fun b b' h => congrArg Bp.newEpoch h
      value := by
        intro inst _ s s' h
        refine (predictValue_unasked sameStops_abort hnone ⟨rfl, rfl, rfl⟩ h inst).imp ?_
        rintro ⟨pred, predictable, t⟩ ⟨_, _, t'⟩ ⟨rfl, rfl, ht⟩
        exact ⟨rfl, Or.inl rfl, fun m n hmn => congrArg (· + _) hmn, ht⟩
      branch := fun inst _ s s' h =>
        predictBranch_answers (answers_sides hind side side' hrand) sameStops_abort
          (fun _ _ => Iff.rfl) ⟨rfl, rfl, rfl⟩ h inst }
  refine (Uarchsim.simulate_paired u (notices_sides hnone side side') decides ⟨rfl, rfl⟩
    (fun _ _ => rfl) fun _ => rfl).imp ?_
  intro s s' h
  refine ⟨h.timing_eq (fun _ _ => id) fun _ _ => id, ?_⟩
  obtain ⟨g, rfl, hg⟩ := h
  exact hg.hooks.1

/-- An indirect-branch predictor with a fixed target, and a value predictor that trusts
zero. -/
def eagerSide : SidePredictors Unit Empty :=
  { idleSide with
    getPrediction := fun _ _ => .ok ({ speculate := true }, ())
    ittageGetPrediction := fun _ _ => .ok (1, ()) }

theorem sides_not_heard_eager :
    ∃ s s', Uarchsim.simulate ⟨fun _ => ⟨0, 0, 0⟩, 0⟩ { fetchModelIcache := false }
        (predictorHooks { fetchModelIcache := false } idleSide) (.init ()) loopExit = .ok s ∧
      Uarchsim.simulate ⟨fun _ => ⟨0, 0, 0⟩, 0⟩ { fetchModelIcache := false }
        (predictorHooks { fetchModelIcache := false } eagerSide) (.init ()) loopExit = .ok s' ∧
      s.timing = s'.timing ∧ s.pipe.hooks.cond = s'.pipe.hooks.cond := by
  have hind : ({ fetchModelIcache := false } : Config).perfectIndirectPred = true := rfl
  have hnone : AsksNoValue { fetchModelIcache := false } := Or.inl rfl
  obtain ⟨s, hs⟩ := exists_of_isOk (show (Uarchsim.simulate ⟨fun _ => ⟨0, 0, 0⟩, 0⟩
    { fetchModelIcache := false } (predictorHooks { fetchModelIcache := false } idleSide)
    (.init ()) loopExit).isOk = true by decide +kernel)
  obtain ⟨s', hs'⟩ := exists_of_isOk (show (Uarchsim.simulate ⟨fun _ => ⟨0, 0, 0⟩, 0⟩
    { fetchModelIcache := false } (predictorHooks { fetchModelIcache := false } eagerSide)
    (.init ()) loopExit).isOk = true by decide +kernel)
  exact ⟨s, s', hs, hs',
    Paired.of_ok (sides_not_heard _ _ _ _ _ _ _ hind hnone rfl) hs hs'⟩

end Sides

end CbpSim.Core
