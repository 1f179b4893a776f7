/-
  Core/Transparency.lean --- what the predictors cannot change.

  Source: src/lib/uarchsim.cc, `step`; src/lib/bp.cc, `predict`; src/lib/parameters.cc.

  A predictor acts on the simulated machine through the predictions that it is asked
  for.  Where the configuration asks for none, or overrules the answers, the cycles
  of a run are the same for any predictors.
-/
import CbpSim.Core.Directions
import CbpSim.Core.Predictors
import CbpSim.Core.Twins

set_option autoImplicit false

namespace CbpSim.Core

open CbpSim.Foundation CbpSim.Predictor

variable {P Q H H' : Type}

/-! ## What is compared -/

/-- The simulator without its predictors. -/
def Uarchsim.timing (s : Uarchsim P) : Uarchsim Unit :=
  s.recast { s.guise with hooks := (), fetched := s.fetched.map Fetched.timing }

/-- The simulator without its predictors and what was measured of them. -/
def Uarchsim.machine (s : Uarchsim P) : Uarchsim Unit :=
  { s.timing with BP := { mispredCorrectionSeed := 0, measPerEpoch := [] } }

/-- A hook stopped one of the sides, or both stopped at the same assert of the
simulator. -/
def hookStops : Excuses (Stop H) (Stop H') where
  left e := ∃ r, e = .hook r
  right e := ∃ r, e = .hook r
  both e e' := ∃ a, e = .abort a ∧ e' = .abort a

theorem hookStops_abort (e : Abort) :
    (hookStops : Excuses (Stop H) (Stop H')).both (.abort e) (.abort e) :=
  ⟨e, rfl, rfl⟩

/-- Two predictors of which nothing is known. -/
def strangers : Likeness P Q where
  hooks _ _ := True
  BP := Eq
  numEligible := Eq

theorem Twin.timing_eq {L : Likeness P Q} {s : Uarchsim P} {s' : Uarchsim Q} (h : Twin L s s')
    (hBP : ∀ b b', L.BP b b' → b = b') (hnum : ∀ n n', L.numEligible n n' → n = n') :
    s.timing = s'.timing := by
  obtain ⟨g, rfl, hg⟩ := h
  have hb : s.BP = g.BP := hBP _ _ hg.BP
  have hn : s.numEligible = g.numEligible := hnum _ _ hg.numEligible
  have hf : s.fetched.map Fetched.timing = g.fetched.map Fetched.timing := hg.timing
  unfold Uarchsim.timing Uarchsim.guise
  rw [hb, hn, hf]
  rfl

theorem Twin.machine_eq {L : Likeness P Q} {s : Uarchsim P} {s' : Uarchsim Q} (h : Twin L s s')
    (hnum : ∀ n n', L.numEligible n n' → n = n') : s.machine = s'.machine := by
  obtain ⟨g, rfl, hg⟩ := h
  have hn : s.numEligible = g.numEligible := hnum _ _ hg.numEligible
  have hf : s.fetched.map Fetched.timing = g.fetched.map Fetched.timing := hg.timing
  unfold Uarchsim.machine Uarchsim.timing Uarchsim.guise
  rw [hn, hf]
  rfl

/-! ## Calls of any predictors -/

section Any

variable {cfg : Config} {x : Predicting} {hk : Hooks P H} {hk' : Hooks Q H'}

/-- A hook returns something, or is excused. -/
theorem paired_call {α β : Type} (a : Except H α) (b : Except H' β) :
    Paired hookStops (fun _ _ => True) (call a) (call b) := by
  cases a with
  | ok a =>
    cases b with
    | ok b => trivial
    | error r' => exact ⟨r', rfl⟩
  | error r =>
    cases b with
    | ok b => exact ⟨r, rfl⟩
    | error r' => exact Or.inl ⟨r, rfl⟩

/-- Some call, or none. -/
theorem paired_maybe_call {α β : Type} (c c' : Prop) [Decidable c] [Decidable c']
    (a : Except H α) (b : Except H' β) (a₀ : α) (b₀ : β) :
    Paired hookStops (fun _ _ => True) (if c then call a else .ok a₀)
      (if c' then call b else .ok b₀) := by
  split
  · split
    · exact paired_call a b
    · exact paired_call a (.ok b₀ : Except H' β)
  · split
    · exact paired_call (.ok a₀ : Except H α) b
    · exact paired_call (.ok a₀ : Except H α) (.ok b₀ : Except H' β)

/-- The notifications of any two predictors. -/
theorem notices_of_any : Notices hookStops cfg x hk hk' fun _ _ => True where
  abort := hookStops_abort
  fetch _ _ _ _ _ := paired_call _ _
  decode _ _ _ _ _ _ := paired_call _ _
  agen _ _ _ _ _ _ _ _ := paired_call _ _
  resolve _ _ _ _ _ _ _ := paired_call _ _
  commit _ _ _ _ _ _ _ := paired_call _ _
  update _ _ _ _ _ := paired_maybe_call _ _ _ _ _ _

end Any

/-! ## The value of an instruction -/

/-- No value is asked of the value predictor. -/
def AsksNoValue (cfg : Config) : Prop := cfg.vpEnable = false ∨ cfg.vpPerfect = true

section Value

variable {X : Excuses (Stop H) (Stop H')} {cfg : Config} {x : Predicting} {hk : Hooks P H}
  {hk' : Hooks Q H'} {L : Likeness P Q} {s : Uarchsim P} {s' : Uarchsim Q}

/-- The value is not predicted, or it is taken from the trace. -/
theorem predictValue_unasked (habort : ∀ e, X.both (.abort e) (.abort e))
    (hnone : AsksNoValue cfg) (hx : x.vpEnable = cfg.vpEnable ∧ x.vpPerfect = cfg.vpPerfect ∧
      x.vpTrack = cfg.vpTrack) (h : Twin L s s') (inst : DbInst) :
    Paired X (fun a b => a.1 = b.1 ∧ a.2.1 = b.2.1 ∧ Twin L a.2.2 b.2.2)
      (s.predictValue cfg hk inst) (s'.predictValue (cfg.predicting x) hk' inst) := by
  obtain ⟨g, rfl, hg⟩ := h
  obtain ⟨vpEnable, vpPerfect, vpTrack, _, _, _, _, _⟩ := x
  obtain ⟨rfl, rfl, rfl⟩ := hx
  apply Paired.ite
  · intro _
    exact ⟨rfl, rfl, g, rfl, hg⟩
  · intro hon
    have hperfect : cfg.vpPerfect = true :=
      hnone.resolve_left fun hoff => hon (by rw [hoff]; rfl)
    apply Paired.bind (lift_paired habort
      (s.res.getValuePredictionReq cfg s.fetchCycle s.numUop s.piece inst))
    rintro ⟨req, res⟩ _ rfl
    apply Paired.ite
    · intro _
      exact ⟨rfl, rfl, g, rfl, hg⟩
    · intro hnot
      exact absurd hperfect hnot

end Value

/-! ## No prediction is asked for -/

section Perfect

variable {cfg : Config} {hk : Hooks P H} {hk' : Hooks Q H'}

/-- The branches are not predicted. -/
theorem predictBranch_perfect {X : Excuses (Stop H) (Stop H')} {L : Likeness P Q}
    {s : Uarchsim P} {s' : Uarchsim Q} (hperfect : cfg.perfectBranchPred = true)
    (h : Twin L s s') (inst : DbInst) (seqNo predictCycle execCycle : Nat) :
    Paired X (fun a b => a.1 = b.1 ∧ Twin L a.2 b.2)
      (s.predictBranch cfg hk inst seqNo predictCycle execCycle)
      (s'.predictBranch cfg hk' inst seqNo predictCycle execCycle) := by
  unfold Uarchsim.predictBranch
  rw [if_pos hperfect, if_pos hperfect]
  exact ⟨rfl, h⟩

/-- **Perfect prediction hides the predictors.**  When neither a branch nor a value is
predicted, two simulators with any predictors behind the hooks are the same machine
throughout a trace, unless a hook stops one of them. -/
theorem perfect_hides_predictors (u : Unset) (cfg : Config) (hk : Hooks P H) (hk' : Hooks Q H')
    (p : P) (q : Q) (insts : List DbInst) (hperfect : cfg.perfectBranchPred = true)
    (hnone : AsksNoValue cfg) :
    Paired hookStops (fun s s' => s.timing = s'.timing)
      (Uarchsim.simulate u cfg hk p insts) (Uarchsim.simulate u cfg hk' q insts) := by
  have decides : Uarchsim.Decides hookStops cfg cfg.toPredicting hk hk' strangers insts :=
    { newEpoch := fun b b' h => congrArg Bp.newEpoch h
      value := by
        intro inst _ s s' h
        refine (predictValue_unasked hookStops_abort hnone ⟨rfl, rfl, rfl⟩ h inst).imp ?_
        rintro ⟨pred, predictable, t⟩ ⟨_, _, t'⟩ ⟨rfl, rfl, ht⟩
        exact ⟨rfl, Or.inl rfl, fun m n hmn => congrArg (· + _) hmn, ht⟩
      branch := fun inst _ s s' h => predictBranch_perfect hperfect h inst }
  refine (Uarchsim.simulate_paired u notices_of_any decides trivial (fun _ _ => rfl)
    fun _ => rfl).imp ?_
  intro s s' h
  exact h.timing_eq (fun _ _ => id) fun _ _ => id

/-- Predictors that expect every branch to be taken, to a target that nothing has. -/
def eagerPredictors : Hooks Unit Empty :=
  { idlePredictors with
    getCondDirPrediction := fun _ _ _ _ _ _ _ => .ok (true, ())
    ittageGetPrediction := fun _ _ => .ok (1, ()) }

/-- A loop branch, falling through, after the instruction that sets its register. -/
def loopExit : List DbInst :=
  [regInst .alu 64 {} {} (intReg 1), regInst .condBranch 68 (intReg 1) {} {}]

theorem perfect_hides_predictors_eager :
    ∃ s s', Uarchsim.simulate ⟨fun _ => ⟨0, 0, 0⟩, 0⟩ { perfectBranchPred := true } idlePredictors ()
        loopExit = .ok s ∧
      Uarchsim.simulate ⟨fun _ => ⟨0, 0, 0⟩, 0⟩ { perfectBranchPred := true } eagerPredictors ()
        loopExit = .ok s' ∧ s.timing = s'.timing := by
  have hperfect : ({ perfectBranchPred := true } : Config).perfectBranchPred = true := rfl
  have hnone : AsksNoValue { perfectBranchPred := true } := Or.inl rfl
  obtain ⟨s, hs⟩ := exists_of_isOk (show (Uarchsim.simulate ⟨fun _ => ⟨0, 0, 0⟩, 0⟩
    { perfectBranchPred := true } idlePredictors () loopExit).isOk = true by decide +kernel)
  obtain ⟨s', hs'⟩ := exists_of_isOk (show (Uarchsim.simulate ⟨fun _ => ⟨0, 0, 0⟩, 0⟩
    { perfectBranchPred := true } eagerPredictors () loopExit).isOk = true by decide +kernel)
  exact ⟨s, s', hs, hs',
    Paired.of_ok (perfect_hides_predictors _ _ _ _ _ _ _ hperfect hnone) hs hs'⟩

end Perfect

/-! ## The predictions are overruled -/

/-- No branch of the epoch was mispredicted. -/
structure EpochMeasures.Flawless (m : EpochMeasures) : Prop where
  conddir : m.conddirM = 0
  jumpind : m.jumpindM = 0
  jumpret : m.jumpretM = 0
  notctrl : m.notctrlM = 0
  wrongPath : m.cyclesOnWrongPath = 0

/-- No branch was mispredicted so far. -/
def Bp.Flawless (b : Bp) : Prop := ∀ m ∈ b.measPerEpoch, m.Flawless

theorem Bp.Flawless.newEpoch {b : Bp} (h : b.Flawless) : b.newEpoch.Flawless := by
  intro m hm
  rcases List.mem_append.mp hm with hm | hm
  · exact h m hm
  · rw [List.mem_singleton.mp hm]
    exact ⟨rfl, rfl, rfl, rfl, rfl⟩

theorem Bp.Flawless.measure {b : Bp} (h : b.Flawless) {f : EpochMeasures → EpochMeasures}
    (hf : ∀ m, m.Flawless → (f m).Flawless) : (b.measure f).Flawless := by
  intro m hm
  change m ∈ b.measPerEpoch.dropLast ++ (b.measPerEpoch.getLast?.map f).toList at hm
  rcases List.mem_append.mp hm with hm | hm
  · exact h m (List.dropLast_subset _ hm)
  · rw [Option.mem_toList, Option.map_eq_some_iff] at hm
    obtain ⟨last, hlast, rfl⟩ := hm
    exact hf last (h last (List.mem_of_getLast? hlast))

/-- `predict` returns that the branch was predicted right, and counts it so. -/
def Overruled (r : Bool × Bp × P) : Prop := r.1 = false ∧ r.2.1.Flawless

section Overruled

variable {cfg : Config} {hk : Hooks P H} {b : Bp} {inst : DbInst}

/-- Whatever a hook returns. -/
theorem ends_call {α : Type} (a : Except H α) :
    Ends (call a : Except (Stop H) α) (fun e => ∃ r, e = .hook r) fun _ => True := by
  cases a with
  | ok a => trivial
  | error r => exact ⟨r, rfl⟩

theorem Bp.predictCond_overruled (hperc : cfg.mispReductionPerc = 100) (hb : b.Flawless) (p : P)
    (seqNo piece predCycle fetchCycle execCycle : Nat) :
    Ends (b.predictCond cfg hk p seqNo piece inst predCycle fetchCycle execCycle)
      (fun e => ∃ r, e = .hook r) Overruled := by
  have hflip : ∀ misp : Bool,
      (if cfg.mispReductionPerc != 0 && misp then flipMispred cfg hk b.mispredCorrectionSeed
        else (false, b.mispredCorrectionSeed)) = (misp, b.mispredCorrectionSeed) := by
    intro misp
    cases misp with
    | true =>
      have hon : (cfg.mispReductionPerc != 0 && true) = true := by rw [hperc]; rfl
      rw [if_pos hon, flipMispred, if_pos hperc]
    | false =>
      rw [Bool.and_false]
      rfl
  unfold predictCond
  apply Ends.bind (ends_call _)
  rintro ⟨predTaken, q⟩ _
  dsimp only
  rw [hflip]
  apply Ends.bind (ends_call _)
  intro q' _
  refine ⟨Bool.and_not_self _, ?_⟩
  apply Bp.Flawless.measure (b := { b with mispredCorrectionSeed := b.mispredCorrectionSeed }) hb
  intro m hm
  dsimp only
  rw [Bool.and_not_self]
  exact { hm with conddir := hm.conddir }

theorem Bp.predictDirect_overruled (hb : b.Flawless) (p : P) (seqNo piece : Nat) :
    Ends (b.predictDirect cfg hk p seqNo piece inst) (fun e => ∃ r, e = .hook r) Overruled := by
  unfold predictDirect
  apply Ends.bind (ends_call _)
  intro q _
  apply Ends.bind (Q := fun _ => True)
  · apply Ends.ite
    · intro _
      trivial
    · intro _
      exact ends_call _
  · intro q' _
    exact ⟨rfl, hb.measure fun m hm => { hm with }⟩

theorem Bp.predictIndirect_overruled (hind : cfg.perfectIndirectPred = true) (hb : b.Flawless)
    (p : P) (seqNo piece : Nat) :
    Ends (b.predictIndirect cfg hk p seqNo piece inst) (fun e => ∃ r, e = .hook r) Overruled := by
  unfold predictIndirect
  dsimp only
  rw [if_pos hind, ok_bind]
  dsimp only
  apply Ends.bind (ends_call _)
  intro q _
  refine ⟨rfl, hb.measure fun m hm => ?_⟩
  simp only [Bool.and_false, Bool.toNat_false, Nat.add_zero]
  exact { hm with }

/-- Every branch of the trace is predicted right in the end. -/
theorem Bp.predict_overruled (hperc : cfg.mispReductionPerc = 100)
    (hind : cfg.perfectIndirectPred = true) (hinst : inst.Readable) (hb : b.Flawless) (p : P)
    (seqNo piece predCycle fetchCycle execCycle : Nat) :
    Ends (b.predict cfg hk p seqNo piece inst predCycle fetchCycle execCycle)
      (fun e => ∃ r, e = .hook r) Overruled := by
  -- an instruction that is no branch falls through
  have hnotctrl : inst.insnClass.isBr = false →
      Overruled (P := P) (inst.nextPc != (inst.pc + 4) % 2 ^ 64, b.measure fun m =>
        { m with
          notctrlN := m.notctrlN + 1
          notctrlM := m.notctrlM + (inst.nextPc != (inst.pc + 4) % 2 ^ 64).toNat }, p) := by
    intro hbr
    have hnext := hinst.fallsThrough (hinst.other hbr)
    have hmisp : (inst.nextPc != (inst.pc + 4) % 2 ^ 64) = false := by rw [hnext, bne_self_eq_false]
    rw [hmisp]
    exact ⟨rfl, hb.measure fun m hm => { hm with notctrl := hm.notctrl }⟩
  unfold predict
  cases hclass : inst.insnClass with
  | condBranch => exact predictCond_overruled hperc hb p _ _ _ _ _
  | uncondDirectBranch => exact predictDirect_overruled hb p _ _
  | callDirect => exact predictDirect_overruled hb p _ _
  | uncondIndirectBranch => exact predictIndirect_overruled hind hb p _ _
  | callIndirect => exact predictIndirect_overruled hind hb p _ _
  | «return» => exact predictIndirect_overruled hind hb p _ _
  | _ => exact hnotctrl (by rw [hclass]; rfl)

/-- The left side is overruled in each of its predictions. -/
def overruled : Likeness P Q where
  hooks _ _ := True
  BP b _ := b.Flawless
  numEligible := Eq

theorem predictBranch_overruled {hk' : Hooks Q H'} (hperc : cfg.mispReductionPerc = 100)
    (hind : cfg.perfectIndirectPred = true) (hinst : inst.Readable) {s : Uarchsim P}
    {s' : Uarchsim Q} (h : Twin overruled s s') (seqNo predictCycle execCycle : Nat) :
    Paired hookStops (fun a b => a.1 = b.1 ∧ Twin overruled a.2 b.2)
      (s.predictBranch cfg hk inst seqNo predictCycle execCycle)
      (s'.predictBranch { cfg with perfectBranchPred := true } hk' inst seqNo predictCycle
        execCycle) := by
  obtain ⟨g, rfl, hg⟩ := h
  have hb : s.BP.Flawless := hg.BP
  change Paired hookStops _ _ (.ok (false, s.recast g))
  apply Paired.of_ends
  unfold Uarchsim.predictBranch
  apply Ends.ite
  · intro _
    exact ⟨rfl, g, rfl, hg⟩
  · intro _
    apply Ends.bind (Bp.predict_overruled hperc hind hinst hb _ _ _ _ _ _)
    rintro ⟨_, b, q⟩ ⟨rfl, hflawless⟩
    exact ⟨rfl, g, rfl, { hg with hooks := trivial, BP := hflawless }⟩

/-- **Full misprediction reduction is perfect prediction.**  When every misprediction is
overruled, the targets are known and no value is predicted, a trace that was read takes
the cycles that it takes with perfect prediction, whatever the predictors are, unless a
hook stops one of the sides; and no misprediction is counted. -/
theorem fullReduction_is_perfect (u : Unset) (v : Trace.Uninit) (cfg : Config) (hk : Hooks P H)
    (hk' : Hooks Q H') (p : P) (q : Q) (bytes : List Byte) (insts : List DbInst)
    (htrace : Trace.IsTrace v bytes insts) (hperc : cfg.mispReductionPerc = 100)
    (hind : cfg.perfectIndirectPred = true) (hnone : AsksNoValue cfg) :
    Paired hookStops (fun s s' => s.machine = s'.machine ∧ s.BP.Flawless)
      (Uarchsim.simulate u cfg hk p insts)
      (Uarchsim.simulate u { cfg with perfectBranchPred := true } hk' q insts) := by
  have decides : Uarchsim.Decides hookStops cfg { cfg.toPredicting with perfectBranchPred := true }
      hk hk' overruled insts :=
    { newEpoch := fun b b' h => Bp.Flawless.newEpoch h
      value := by
        intro inst _ s s' h
        refine (predictValue_unasked hookStops_abort hnone ⟨rfl, rfl, rfl⟩ h inst).imp ?_
        rintro ⟨pred, predictable, t⟩ ⟨_, _, t'⟩ ⟨rfl, rfl, ht⟩
        exact ⟨rfl, Or.inl rfl, fun m n hmn => congrArg (· + _) hmn, ht⟩
      branch := fun inst hinst s s' h =>
        predictBranch_overruled hperc hind (htrace.readable inst hinst) h }
  have start : ∀ b : Bp, b.measPerEpoch = [{}] → b.Flawless := by
    intro b hb m hm
    rw [hb, List.mem_singleton] at hm
    rw [hm]
    exact ⟨rfl, rfl, rfl, rfl, rfl⟩
  refine (Uarchsim.simulate_paired u notices_of_any decides trivial start fun _ => rfl).imp ?_
  intro s s' h
  refine ⟨h.machine_eq fun _ _ => id, ?_⟩
  obtain ⟨g, -, hg⟩ := h
  exact hg.BP

/-- Two taken branches that are expected to fall through. -/
theorem fullReduction_is_perfect_takenRecords :
    ∃ s s', Uarchsim.simulate ⟨fun _ => ⟨0, 0, 0⟩, 0⟩ { mispReductionPerc := 100 } idlePredictors ()
        [takenInst 256, takenInst 256] = .ok s ∧
      Uarchsim.simulate ⟨fun _ => ⟨0, 0, 0⟩, 0⟩ { mispReductionPerc := 100, perfectBranchPred := true }
        idlePredictors () [takenInst 256, takenInst 256] = .ok s' ∧
      s.machine = s'.machine ∧ s.BP.Flawless := by
  have hperc : ({ mispReductionPerc := 100 } : Config).mispReductionPerc = 100 := rfl
  have hind : ({ mispReductionPerc := 100 } : Config).perfectIndirectPred = true := rfl
  have hnone : AsksNoValue { mispReductionPerc := 100 } := Or.inl rfl
  have same : ∀ insts s s',
      Trace.IsTrace ⟨0, 0, 0, 0⟩ (Trace.encodeAll [takenRecord 256, takenRecord 256]) insts →
      Uarchsim.simulate ⟨fun _ => ⟨0, 0, 0⟩, 0⟩ { mispReductionPerc := 100 } idlePredictors ()
        insts = .ok s →
      Uarchsim.simulate ⟨fun _ => ⟨0, 0, 0⟩, 0⟩
        { mispReductionPerc := 100, perfectBranchPred := true } idlePredictors ()
        insts = .ok s' → s.machine = s'.machine ∧ s.BP.Flawless :=
    fun insts s s' htrace hs hs' => Paired.of_ok
      (fullReduction_is_perfect _ _ _ _ _ _ _ _ insts htrace hperc hind hnone) hs hs'
  obtain ⟨s, hs⟩ := exists_of_isOk (show (Uarchsim.simulate ⟨fun _ => ⟨0, 0, 0⟩, 0⟩
    { mispReductionPerc := 100 } idlePredictors () [takenInst 256, takenInst 256]).isOk = true by
      decide +kernel)
  obtain ⟨s', hs'⟩ := exists_of_isOk (show (Uarchsim.simulate ⟨fun _ => ⟨0, 0, 0⟩, 0⟩
    { mispReductionPerc := 100, perfectBranchPred := true } idlePredictors ()
    [takenInst 256, takenInst 256]).isOk = true by decide +kernel)
  exact ⟨s, s', hs, hs', same _ s s' isTrace_takenRecords hs hs'⟩

end Overruled

end CbpSim.Core
