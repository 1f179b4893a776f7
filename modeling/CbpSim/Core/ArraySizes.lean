/-
  Core/ArraySizes.lean --- a run sees the arrays of the branch predictor, no more.

  Source: src/cbp2016_tage_sc_l.h, the sizes of the tables and of the histories;
  src/cond_branch_predictor_interface.cc.

  The arrays of the predictor are modelled without an end.  Two predictors that hold
  the same inside the sizes of the source are the same predictor to the simulator,
  from the first instruction of a trace to the last.
-/
import CbpSim.Core.Answers

set_option autoImplicit false

namespace CbpSim.Predictor.CondBranchPredictor

open CbpSim.Foundation

/-! ## The hooks keep to the arrays -/

/-- The predictor with its arrays cut to their sizes. -/
def cut (c : CondBranchPredictor) : CondBranchPredictor := { c with tage := c.tage.clip }

variable {c c' : CondBranchPredictor}

theorem getCondDirPrediction_cut (hc : c.tage.InRange) (seqNo piece pc : Nat) :
    c.cut.getCondDirPrediction seqNo piece pc =
      (c.getCondDirPrediction seqNo piece pc).map fun x => (x.1, x.2.cut) := by
  unfold getCondDirPrediction
  change (c.tage.clip.predict seqNo piece pc >>= _) = _
  rw [TageScL.predict_clip hc]
  cases c.tage.predict seqNo piece pc with
  | error e => rfl
  | ok x =>
    change (c.impl.predict seqNo piece pc x.1.predTaken >>= _) =
      Except.map _ (c.impl.predict seqNo piece pc x.1.predTaken >>= _)
    cases c.impl.predict seqNo piece pc x.1.predTaken with
    | error e => rfl
    | ok y => rfl

theorem specUpdate_cut (hc : c.tage.InRange) (pc : Nat) (instClass : InstClass)
    (resolveDir predDir : Bool) (nextPc : Nat) :
    c.cut.specUpdate pc instClass resolveDir predDir nextPc =
      (c.specUpdate pc instClass resolveDir predDir nextPc).map cut := by
  unfold specUpdate
  cases brType instClass with
  | none => rfl
  | some type =>
    have hupdate := TageScL.historyUpdate_clip hc ⟨pc, type, resolveDir, nextPc⟩ predDir
    dsimp only
    split
    · exact congrArg (fun t => Except.ok { c with
        tage := t, impl := c.impl.historyUpdate resolveDir }) hupdate
    · exact congrArg (fun t => Except.ok { c with tage := t }) hupdate

theorem notifyInstrDecode_cut (seqNo piece : Nat) (info : DecodeInfo) :
    c.cut.notifyInstrDecode seqNo piece info = (c.notifyInstrDecode seqNo piece info).map cut := by
  unfold notifyInstrDecode
  split
  · cases info.dstRegInfo with
    | none => rfl
    | some dstReg => rfl
  · split
    · cases getUniqueInstId seqNo piece with
      | error e => rfl
      | ok key => rfl
    · rfl

theorem notifyInstrExecuteResolve_cut (hc : c.tage.InRange) (cfg : Config)
    (seqNo piece pc : Nat) (predDir : Bool) (info : ExecuteInfo) :
    c.cut.notifyInstrExecuteResolve cfg seqNo piece pc predDir info =
      (c.notifyInstrExecuteResolve cfg seqNo piece pc predDir info).map cut := by
  unfold notifyInstrExecuteResolve
  cases getUniqueInstId seqNo piece with
  | error e => rfl
  | ok key =>
    simp only [ok_bind]
    split
    · rfl
    · split
      · cases info.taken with
        | none => rfl
        | some resolveDir =>
          dsimp only
          have hupdate := TageScL.update_clip hc cfg seqNo piece pc resolveDir predDir info.nextPc
            (c.isLdDependent cfg info.decInfo.srcRegInfo)
          change (c.tage.clip.update cfg seqNo piece pc resolveDir predDir info.nextPc
            (c.isLdDependent cfg info.decInfo.srcRegInfo) >>= _) = _
          rw [hupdate]
          cases c.tage.update cfg seqNo piece pc resolveDir predDir info.nextPc
            (c.isLdDependent cfg info.decInfo.srcRegInfo) with
          | error e => rfl
          | ok tage =>
            change (c.impl.update seqNo piece >>= _) = Except.map _ (c.impl.update seqNo piece >>= _)
            cases c.impl.update seqNo piece with
            | error e => rfl
            | ok impl => rfl
      · split
        · rfl
        · rfl

theorem notifyInstrCommit_cut (info : ExecuteInfo) :
    c.cut.notifyInstrCommit info = (c.notifyInstrCommit info).map cut := by
  unfold notifyInstrCommit
  split
  · cases info.decInfo.dstRegInfo with
    | none => rfl
    | some dstReg => rfl
  · rfl

/-! ## The hooks keep the representation -/

theorem inRange_getCondDirPrediction (hc : c.tage.InRange) {seqNo piece pc : Nat} {dir : Bool}
    (h : c.getCondDirPrediction seqNo piece pc = .ok (dir, c')) : c'.tage.InRange := by
  obtain ⟨⟨info, tage⟩, hpredict, h⟩ := bind_eq_ok.mp h
  obtain ⟨⟨prediction, impl⟩, -, h⟩ := bind_eq_ok.mp h
  cases h
  exact hc.predict hpredict

theorem inRange_specUpdate (hc : c.tage.InRange) {pc nextPc : Nat} {instClass : InstClass}
    {resolveDir predDir : Bool}
    (h : c.specUpdate pc instClass resolveDir predDir nextPc = .ok c') : c'.tage.InRange := by
  unfold specUpdate at h
  cases htype : brType instClass with
  | none =>
    rw [htype] at h
    cases h
  | some type =>
    rw [htype] at h
    dsimp only at h
    split at h
    · cases h
      exact hc.historyUpdate ⟨pc, type, resolveDir, nextPc⟩ predDir
    · cases h
      exact hc.historyUpdate ⟨pc, type, resolveDir, nextPc⟩ predDir

theorem tage_notifyInstrDecode {seqNo piece : Nat} {info : DecodeInfo}
    (h : c.notifyInstrDecode seqNo piece info = .ok c') : c'.tage = c.tage := by
  unfold notifyInstrDecode at h
  split at h
  · cases hdst : info.dstRegInfo with
    | none =>
      rw [hdst] at h
      cases h
    | some dstReg =>
      rw [hdst] at h
      cases h
      rfl
  · split at h
    · obtain ⟨key, -, h⟩ := bind_eq_ok.mp h
      cases h
      rfl
    · cases h
      rfl

theorem inRange_notifyInstrExecuteResolve (hc : c.tage.InRange) {cfg : Config}
    {seqNo piece pc : Nat} {predDir : Bool} {info : ExecuteInfo}
    (h : c.notifyInstrExecuteResolve cfg seqNo piece pc predDir info = .ok c') :
    c'.tage.InRange := by
  unfold notifyInstrExecuteResolve at h
  obtain ⟨key, -, h⟩ := bind_eq_ok.mp h
  split at h
  · cases h
    exact hc
  · split at h
    · cases htaken : info.taken with
      | none =>
        rw [htaken] at h
        cases h
      | some resolveDir =>
        rw [htaken] at h
        obtain ⟨tage, htage, h⟩ := bind_eq_ok.mp h
        obtain ⟨impl, -, h⟩ := bind_eq_ok.mp h
        cases h
        exact hc.update htage
    · split at h
      · cases h
        exact hc
      · cases h

theorem tage_notifyInstrCommit {info : ExecuteInfo} (h : c.notifyInstrCommit info = .ok c') :
    c'.tage = c.tage := by
  unfold notifyInstrCommit at h
  split at h
  · cases hdst : info.decInfo.dstRegInfo with
    | none =>
      rw [hdst] at h
      cases h
    | some dstReg =>
      rw [hdst] at h
      cases h
      rfl
  · cases h
    rfl

end CbpSim.Predictor.CondBranchPredictor

namespace CbpSim.Core

open CbpSim.Foundation CbpSim.Predictor

variable {V G : Type}

/-- The predictors with their arrays cut to their sizes. -/
def Predictors.cut (p : Predictors V) : Predictors V where
  cond := p.cond.cut
  side := p.side
  updates := p.updates.map fun x => (x.1, x.2.clip)

/-- Both predictors are well represented, and hold the same in their arrays. -/
structure SameArrays (p q : Predictors V) : Prop where
  left : p.cond.tage.InRange
  right : q.cond.tage.InRange
  cut : p.cut = q.cut

namespace SameArrays

variable {p q : Predictors V}

theorem cond (h : SameArrays p q) : p.cond.cut = q.cond.cut := congrArg Predictors.cond h.cut

theorem side (h : SameArrays p q) : p.side = q.side :=
  show p.cut.side = q.cut.side by rw [h.cut]

theorem updates (h : SameArrays p q) : p.cut.updates = q.cut.updates :=
  congrArg Predictors.updates h.cut

/-- What `update` finds, cut to the arrays. -/
theorem found (h : SameArrays p q) (seqNo piece : Nat) (info : ExecuteInfo) :
    (p.found seqNo piece info).map (fun x => (x.1, x.2.clip)) =
      (q.found seqNo piece info).map fun x => (x.1, x.2.clip) := by
  have hsaved : (p.saved (instKey seqNo piece)).map CbpHist.clip =
      (q.saved (instKey seqNo piece)).map CbpHist.clip :=
    congrArg (fun c : CondBranchPredictor => c.tage.predTimeHistories (instKey seqNo piece)) h.cond
  unfold Predictors.found
  split
  · cases hp : p.saved (instKey seqNo piece) with
    | none =>
      rw [hp, Option.map_none] at hsaved
      rw [Option.map_eq_none_iff.mp hsaved.symm]
    | some a =>
      rw [hp, Option.map_some] at hsaved
      obtain ⟨b, hb, hab⟩ := Option.map_eq_some_iff.mp hsaved.symm
      rw [hb]
      simp [hab]
  · rfl

/-- A hook of the conditional branch predictor that keeps to the arrays. -/
theorem onCond (h : SameArrays p q)
    {f : CondBranchPredictor → Except Abort CondBranchPredictor}
    (hcut : ∀ c : CondBranchPredictor, c.tage.InRange → f c.cut = (f c).map CondBranchPredictor.cut)
    (hkeeps : ∀ c c' : CondBranchPredictor, c.tage.InRange → f c = .ok c' → c'.tage.InRange) :
    Paired (.none : Excuses (PredictorStop G) _) SameArrays (p.onCond (f p.cond))
      (q.onCond (f q.cond)) := by
  have hsame : (f p.cond).map CondBranchPredictor.cut = (f q.cond).map CondBranchPredictor.cut := by
    rw [← hcut _ h.left, ← hcut _ h.right, h.cond]
  have hconds : Paired .none
      (fun c d : CondBranchPredictor => c.tage.InRange ∧ d.tage.InRange ∧ c.cut = d.cut)
      (f p.cond) (f q.cond) :=
    Paired.of_map_eq hsame fun c d hc hd hcd =>
      ⟨hkeeps _ c h.left hc, hkeeps _ d h.right hd, hcd⟩
  apply Paired.bind (Paired.mapError hconds fun _ => rfl)
  intro c d hcd
  refine ⟨hcd.1, hcd.2.1, ?_⟩
  unfold Predictors.cut
  rw [hcd.2.2, h.side]
  exact congrArg _ h.updates

/-- A hook of the other predictors. -/
theorem onSide (h : SameArrays p q) (f : V → Except G V) :
    Paired (.none : Excuses (PredictorStop G) _) SameArrays (p.onSide (f p.side))
      (q.onSide (f q.side)) := by
  rw [h.side]
  cases f q.side with
  | error e => exact Paired.error rfl
  | ok v =>
    refine ⟨h.left, h.right, ?_⟩
    unfold Predictors.cut
    dsimp only
    rw [h.cond]
    exact congrArg _ h.updates

theorem direction (h : SameArrays p q) (cfg : Config) (side : SidePredictors V G)
    (seqNo piece pc predCycle fetchCycle execCycle : Nat) :
    Paired .none (fun a b => a.1 = b.1 ∧ SameArrays a.2 b.2)
      ((predictorHooks cfg side).getCondDirPrediction p seqNo piece pc predCycle fetchCycle
        execCycle)
      ((predictorHooks cfg side).getCondDirPrediction q seqNo piece pc predCycle fetchCycle
        execCycle) := by
  have hcut : ∀ c : CondBranchPredictor, c.tage.InRange → c.cut.getCondDirPrediction seqNo piece pc =
      (c.getCondDirPrediction seqNo piece pc).map fun x => (x.1, x.2.cut) :=
    fun c hc => CondBranchPredictor.getCondDirPrediction_cut hc seqNo piece pc
  have hsame : (p.cond.getCondDirPrediction seqNo piece pc).map (fun x => (x.1, x.2.cut)) =
      (q.cond.getCondDirPrediction seqNo piece pc).map fun x => (x.1, x.2.cut) := by
    rw [← hcut _ h.left, ← hcut _ h.right, h.cond]
  have hconds : Paired .none
      (fun a b : Bool × CondBranchPredictor =>
        a.1 = b.1 ∧ a.2.tage.InRange ∧ b.2.tage.InRange ∧ a.2.cut = b.2.cut)
      (p.cond.getCondDirPrediction seqNo piece pc)
      (q.cond.getCondDirPrediction seqNo piece pc) :=
    Paired.of_map_eq hsame fun a b ha hb hab =>
      ⟨(Prod.mk.inj hab).1, CondBranchPredictor.inRange_getCondDirPrediction h.left ha,
        CondBranchPredictor.inRange_getCondDirPrediction h.right hb, (Prod.mk.inj hab).2⟩
  apply Paired.bind (Paired.mapError hconds fun _ => rfl)
  rintro ⟨dir, c⟩ ⟨_, d⟩ ⟨rfl, hc, hd, hcd⟩
  refine ⟨rfl, hc, hd, ?_⟩
  unfold Predictors.cut
  dsimp only
  rw [hcd, h.side]
  exact congrArg _ h.updates

/-- A hook of the other predictors that answers. -/
theorem answer {α : Type} (h : SameArrays p q) (f : V → Except G (α × V)) :
    Paired (.none : Excuses (PredictorStop G) _) (fun a b => a.1 = b.1 ∧ SameArrays a.2 b.2)
      ((f p.side).mapError .side >>= fun r => .ok (r.1, { p with side := r.2 }))
      ((f q.side).mapError .side >>= fun r => .ok (r.1, { q with side := r.2 })) := by
  rw [h.side]
  cases f q.side with
  | error e => exact Paired.error rfl
  | ok r =>
    refine ⟨rfl, h.left, h.right, ?_⟩
    unfold Predictors.cut
    dsimp only
    rw [h.cond]
    exact congrArg _ h.updates

theorem resolve (h : SameArrays p q) (cfg : Config) (side : SidePredictors V G)
    (seqNo piece pc : Nat) (predDir : Bool) (info : ExecuteInfo) (c : Nat) :
    Paired .none SameArrays
      ((predictorHooks cfg side).notifyInstrExecuteResolve p seqNo piece pc predDir info c)
      ((predictorHooks cfg side).notifyInstrExecuteResolve q seqNo piece pc predDir info c) := by
  apply Paired.bind (h.onCond
    (f := (CondBranchPredictor.notifyInstrExecuteResolve cfg · seqNo piece pc predDir info))
    (fun c hc => CondBranchPredictor.notifyInstrExecuteResolve_cut hc cfg seqNo piece pc predDir
      info)
    fun c c' hc hstep => CondBranchPredictor.inRange_notifyInstrExecuteResolve hc hstep)
  intro p' q' h'
  refine ⟨h'.left, h'.right, ?_⟩
  have hupdates : p.updates.map (fun x => (x.1, x.2.clip)) = q.updates.map fun x => (x.1, x.2.clip) :=
    h.updates
  unfold Predictors.cut
  dsimp only
  rw [h'.cond, h'.side, List.map_append, List.map_append, h.found, hupdates]

theorem notices (cfg : Config) (side : SidePredictors V G) :
    Notices .none cfg cfg.toPredicting (predictorHooks cfg side) (predictorHooks cfg side)
      SameArrays where
  abort _ := rfl
  fetch h _ _ _ _ := h
  decode h seqNo piece _ info _ := Paired.mapError (h.onCond
    (fun _ _ => CondBranchPredictor.notifyInstrDecode_cut seqNo piece info)
    fun _ _ hc hstep => CondBranchPredictor.tage_notifyInstrDecode hstep ▸ hc) fun _ => rfl
  agen h _ _ _ _ _ _ _ := h
  resolve h seqNo piece pc predDir info c :=
    Paired.mapError (h.resolve cfg side seqNo piece pc predDir info c) fun _ => rfl
  commit h _ _ _ _ info _ := Paired.mapError (h.onCond
    (fun _ _ => CondBranchPredictor.notifyInstrCommit_cut info)
    fun _ _ hc hstep => CondBranchPredictor.tage_notifyInstrCommit hstep ▸ hc) fun _ => rfl
  update h seqNo addr value latency := by
    apply Paired.ite
    · intro _
      exact Paired.mapError (h.onSide (side.updatePredictor · seqNo addr value latency)) fun _ => rfl
    · intro _
      exact h

theorem answers (cfg : Config) (side : SidePredictors V G) :
    Answers .none cfg (predictorHooks cfg side) (predictorHooks cfg side) SameArrays where
  direction h seqNo piece pc predCycle fetchCycle execCycle := Paired.mapError
    (h.direction cfg side seqNo piece pc predCycle fetchCycle execCycle) fun _ => rfl
  specUpdate h _ _ pc c resolveDir predDir nextPc := Paired.mapError (h.onCond
    (fun _ hd => CondBranchPredictor.specUpdate_cut hd pc c resolveDir predDir nextPc)
    fun _ _ hd hstep => CondBranchPredictor.inRange_specUpdate hd hstep) fun _ => rfl
  target _ _ _ h pc := Paired.mapError (h.answer (side.ittageGetPrediction · pc)) fun _ => rfl
  train _ _ _ h pc nextPc :=
    Paired.mapError (h.onSide (side.ittageUpdatePredictor · pc nextPc)) fun _ => rfl
  track _ _ _ h pc nextPc :=
    Paired.mapError (h.onSide (side.ittageTrackOtherInst · pc nextPc)) fun _ => rfl
  randR := rfl

theorem valueAnswers (cfg : Config) (side : SidePredictors V G) :
    ValueAnswers .none (predictorHooks cfg side) (predictorHooks cfg side) SameArrays where
  prediction h request := Paired.mapError (h.answer (side.getPrediction · request)) fun _ => rfl
  speculate h update := Paired.mapError (h.onSide (side.speculativeUpdate · update)) fun _ => rfl

end SameArrays

/-- Two predictors that hold the same in their arrays. -/
def sameArrays : Likeness (Predictors V) (Predictors V) where
  hooks := SameArrays
  BP := Eq
  numEligible := Eq

/-- **A run sees the arrays, no more.**  Two branch predictors that hold the same inside
the sizes of their arrays take the simulator through the same run, and hold the same
there at its end. -/
theorem simulate_sees_arrays (u : Unset) (cfg : Config) (side : SidePredictors V G)
    (p q : Predictors V) (insts : List DbInst) (same : SameArrays p q) :
    Paired .none (fun s s' => s.timing = s'.timing ∧ SameArrays s.pipe.hooks s'.pipe.hooks)
      (Uarchsim.simulate u cfg (predictorHooks cfg side) p insts)
      (Uarchsim.simulate u cfg (predictorHooks cfg side) q insts) := by
  have decides : Uarchsim.Decides .none cfg cfg.toPredicting (predictorHooks cfg side)
      (predictorHooks cfg side) sameArrays insts :=
    { newEpoch := fun b b' h => congrArg Bp.newEpoch h
      value := by
        intro inst _ s s' h
        refine (predictValue_answers (SameArrays.valueAnswers cfg side) (fun _ => rfl)
          ⟨rfl, rfl, rfl⟩ h inst).imp ?_
        rintro ⟨pred, predictable, t⟩ ⟨_, _, t'⟩ ⟨rfl, rfl, ht⟩
        exact ⟨rfl, Or.inl rfl, fun m n hmn => congrArg (· + _) hmn, ht⟩
      branch := fun inst _ s s' h =>
        predictBranch_answers (SameArrays.answers cfg side) (fun _ => rfl) (fun _ _ => Iff.rfl)
          ⟨rfl, rfl, rfl⟩ h inst }
  refine (Uarchsim.simulate_paired u (SameArrays.notices cfg side) decides same (fun _ _ => rfl)
    fun _ => rfl).imp ?_
  intro s s' h
  refine ⟨h.timing_eq (fun _ _ => id) fun _ _ => id, ?_⟩
  obtain ⟨g, rfl, hg⟩ := h
  exact hg.hooks

/-- A new predictor with something behind the end of `use_alt_on_na`. -/
def strayInit : Predictors Unit :=
  let tage := TageScL.init
  let stray (i : Nat) : Int := if i < sizeUseAlt then tage.tables.useAltOnNa i else 1
  { Predictors.init () with
    cond := { CondBranchPredictor.init with
      tage := { tage with tables := { tage.tables with useAltOnNa := stray } } } }

theorem sameArrays_strayInit : SameArrays (Predictors.init ()) strayInit where
  left := TageScL.init_inRange
  right :=
    { TageScL.init_inRange with
      tables :=
        { TageScL.init_inRange.tables with
          useAltOnNa := by
            intro i
            change InBits altWidth (if i < sizeUseAlt then TageScL.init.tables.useAltOnNa i else 1)
            split
            · exact TageScL.init_inRange.tables.useAltOnNa i
            · decide } }
  cut := by
    have hstray : clip sizeUseAlt 0 TageScL.init.tables.useAltOnNa = clip sizeUseAlt 0 fun i =>
        if i < sizeUseAlt then TageScL.init.tables.useAltOnNa i else 1 := by
      funext i
      unfold clip
      by_cases hi : i < sizeUseAlt
      · simp only [if_pos hi]
      · simp only [if_neg hi]
    unfold Predictors.cut CondBranchPredictor.cut TageScL.clip Tables.clip
    exact congrArg (fun f : Nat → Int => ({
      cond :=
        { CondBranchPredictor.init with
          tage :=
            { TageScL.init.clip with
              tables := { TageScL.init.tables.clip with useAltOnNa := f } } }
      side := ()
      updates := [] } : Predictors Unit)) hstray

theorem simulate_sees_arrays_strayInit :
    ∃ s s', Uarchsim.simulate ⟨fun _ => ⟨0, 0, 0⟩, 0⟩ { fetchModelIcache := false }
        (predictorHooks { fetchModelIcache := false } idleSide) (.init ()) loopExit = .ok s ∧
      Uarchsim.simulate ⟨fun _ => ⟨0, 0, 0⟩, 0⟩ { fetchModelIcache := false }
        (predictorHooks { fetchModelIcache := false } idleSide) strayInit loopExit = .ok s' ∧
      s.timing = s'.timing ∧ SameArrays s.pipe.hooks s'.pipe.hooks := by
  obtain ⟨s, hs⟩ := exists_of_isOk (show (Uarchsim.simulate ⟨fun _ => ⟨0, 0, 0⟩, 0⟩
    { fetchModelIcache := false } (predictorHooks { fetchModelIcache := false } idleSide)
    (.init ()) loopExit).isOk = true by decide +kernel)
  obtain ⟨s', hs', hpair⟩ := Paired.exists_ok
    (simulate_sees_arrays _ _ _ _ _ _ sameArrays_strayInit) hs
  exact ⟨s, s', hs, hs', hpair⟩

end CbpSim.Core
