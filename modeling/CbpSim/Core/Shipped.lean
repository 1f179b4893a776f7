/-
  Core/Shipped.lean --- the simulator with the predictors of the repository.

  Source: src/lib/my_value_predictor.cc, src/lib/ittage.h and src/lib/bp.cc.

  The functions of the value predictor are empty: it predicts no value.  The
  indirect-branch predictor is `IPREDICTOR`.
-/
import CbpSim.Core.Answers
import CbpSim.Predictor.IttageState

set_option autoImplicit false

namespace CbpSim.Core

open CbpSim.Foundation CbpSim.Predictor

variable {P H : Type}

/-! ## The value predictor -/

namespace MyValuePredictor

/-- `getPrediction`. -/
def getPrediction (_req : PredictionRequest) : PredictionResult := {}

end MyValuePredictor

/-- The value predictor and the indirect-branch predictor of the repository.
`speculativeUpdate` and `updatePredictor` are empty functions. -/
def shippedSides (randR : Nat → Nat × Nat) : SidePredictors Ipredictor Empty where
  getPrediction v request := .ok (MyValuePredictor.getPrediction request, v)
  speculativeUpdate v _ := .ok v
  updatePredictor v _ _ _ _ := .ok v
  ittageGetPrediction v pc := .ok (v.getPrediction pc)
  ittageUpdatePredictor v pc nextPc := .ok (v.updatePredictor pc nextPc)
  ittageTrackOtherInst v pc nextPc := .ok (v.trackOtherInst pc nextPc)
  randR := randR

/-- The predictors of the repository behind the hooks. -/
def shippedHooks (cfg : Config) (randR : Nat → Nat × Nat) :
    Hooks (Predictors Ipredictor) (PredictorStop Empty) :=
  predictorHooks cfg (shippedSides randR)

/-- The predictors of the repository before the first instruction. -/
def shippedInit : Predictors Ipredictor := .init (.reinit Ipredictor.zeroed)

/-- The value predictor behind the hooks is empty. -/
structure Silent (hk : Hooks P H) : Prop where
  getPrediction (p : P) (request : PredictionRequest) : hk.getPrediction p request = .ok ({}, p)
  speculativeUpdate (p : P) (update : SpeculativeUpdate) : hk.speculativeUpdate p update = .ok p
  updatePredictor (p : P) (seqNo addr value latency : Nat) :
    hk.updatePredictor p seqNo addr value latency = .ok p

theorem shippedHooks_silent (cfg : Config) (randR : Nat → Nat × Nat) :
    Silent (shippedHooks cfg randR) where
  getPrediction _ _ := rfl
  speculativeUpdate _ _ := rfl
  updatePredictor _ _ _ _ _ := rfl

section Silent

variable {X : Excuses (Stop H) (Stop H)} {cfg : Config} {hk : Hooks P H}

/-- The same predictors; with the track `all` the same instructions are eligible. -/
def sameBut (track : VpTracks) : Likeness P P where
  hooks := Eq
  BP := Eq
  numEligible m n := track = .all → m = n

/-- An empty value predictor, asked about some instructions. -/
theorem predictValue_silent (silent : Silent hk) (hperfect : cfg.vpPerfect = false)
    (htrack : cfg.vpTrack = .all ∨ cfg.vpTrack = .loadsOnly) (s : Uarchsim P) (inst : DbInst) :
    ∃ predictable, s.predictValue cfg hk inst = .ok ({}, predictable, s) ∧
      (cfg.vpTrack = .all → predictable = (inst.D.valid && inst.D.logReg != rfFlags)) := by
  unfold Uarchsim.predictValue
  cases hon : cfg.vpEnable with
  | false => exact ⟨_, rfl, fun _ => rfl⟩
  | true =>
    have hreq : ∃ req, s.res.getValuePredictionReq cfg s.fetchCycle s.numUop s.piece inst =
        .ok (req, s.res) ∧ (cfg.vpTrack = .all → req.isCandidate = true) := by
      unfold Resources.getValuePredictionReq
      rcases htrack with htrack | htrack
      · rw [htrack]
        exact ⟨_, rfl, fun _ => rfl⟩
      · rw [htrack]
        exact ⟨_, rfl, fun h => VpTracks.noConfusion h⟩
    obtain ⟨req, hreq, hcandidate⟩ := hreq
    rw [hreq, hperfect]
    simp only [lift, Except.mapError, ok_bind, call, silent.getPrediction,
      silent.speculativeUpdate, Bool.not_true, Bool.false_eq_true, if_false, Bool.false_and]
    refine ⟨_, rfl, ?_⟩
    intro hall
    rw [hcandidate hall, Bool.and_true]

theorem notices_silent (silent : Silent hk) (x : Predicting) :
    Notices (.none : Excuses (Stop H) (Stop H)) cfg x hk hk Eq where
  abort _ := rfl
  fetch := by
    rintro p _ rfl seqNo piece pc c
    exact Paired.refl _
  decode := by
    rintro p _ rfl seqNo piece pc info c
    exact Paired.refl _
  agen := by
    rintro p _ rfl seqNo piece pc info va sz c
    exact Paired.refl _
  resolve := by
    rintro p _ rfl seqNo piece pc predDir info c
    exact Paired.refl _
  commit := by
    rintro p _ rfl seqNo piece pc predDir info c
    exact Paired.refl _
  update := by
    rintro p _ rfl seqNo addr value latency
    rw [silent.updatePredictor]
    have hskip : ∀ c : Prop, ∀ _ : Decidable c,
        (if c then call (.ok p) else .ok p : Except (Stop H) P) = .ok p := by
      intro c _
      split
      · rfl
      · rfl
    rw [hskip, hskip]
    exact Eq.refl p

theorem answers_self (cfg : Config) (hk : Hooks P H) :
    Answers (.none : Excuses (Stop H) (Stop H)) cfg hk hk Eq where
  direction := by
    rintro p _ rfl seqNo piece pc predCycle fetchCycle execCycle
    exact (Paired.refl _).imp fun a b hab => by rw [hab]; exact ⟨rfl, rfl⟩
  specUpdate := by
    rintro p _ rfl seqNo piece pc c resolveDir predDir nextPc
    exact Paired.refl _
  target := by
    rintro - p _ rfl pc
    exact (Paired.refl _).imp fun a b hab => by rw [hab]; exact ⟨rfl, rfl⟩
  train := by
    rintro - p _ rfl pc nextPc
    exact Paired.refl _
  track := by
    rintro - p _ rfl pc nextPc
    exact Paired.refl _
  randR := rfl

/-- Of two fetched instructions with the same cycles and predictors there is one. -/
theorem Fetched.eq_of_timing {a b : Fetched P} (h : a.timing = b.timing)
    (hp : a.predictors = b.predictors) : a = b := by
  obtain ⟨inst, seqNo, piece, fetch, decode, lane, agen, exec, retire, p⟩ := a
  obtain ⟨inst', seqNo', piece', fetch', decode', lane', agen', exec', retire', p'⟩ := b
  obtain rfl : p = p' := hp
  cases h
  rfl

theorem Twin.eq_but {track : VpTracks} {s s' : Uarchsim P} (h : Twin (sameBut track) s s') :
    s' = { s with numEligible := s'.numEligible } ∧
      (track = .all → s.numEligible = s'.numEligible) := by
  obtain ⟨g, rfl, hg⟩ := h
  have hhooks : s.pipe.hooks = g.hooks := hg.hooks
  have hBP : s.BP = g.BP := hg.BP
  have hfetched : s.fetched = g.fetched := by
    have hsame : List.Forall₂ Eq s.fetched g.fetched :=
      hg.fetched.imp fun a b hab => Fetched.eq_of_timing hab.1 hab.2
    exact List.forall₂_eq_eq_eq ▸ hsame
  refine ⟨?_, hg.numEligible⟩
  unfold Uarchsim.recast
  rw [← hhooks, ← hBP, ← hfetched]
  rfl

/-- **The value predictor of the repository predicts nothing.**  With the tracks `all` and
`loadsOnly` a run with value prediction is the run without, to the last member but the
count of eligible instructions, and to that with the track `all`. -/
theorem silent_value_prediction (u : Unset) (cfg : Config) (hk : Hooks P H) (silent : Silent hk)
    (p : P) (insts : List DbInst) (hperfect : cfg.vpPerfect = false)
    (htrack : cfg.vpTrack = .all ∨ cfg.vpTrack = .loadsOnly) :
    Paired .none
      (fun s s' => s' = { s with numEligible := s'.numEligible } ∧
        (cfg.vpTrack = .all → s.numEligible = s'.numEligible))
      (Uarchsim.simulate u cfg hk p insts)
      (Uarchsim.simulate u { cfg with vpEnable := false } hk p insts) := by
  have decides : Uarchsim.Decides .none cfg { cfg.toPredicting with vpEnable := false } hk hk
      (sameBut cfg.vpTrack) insts :=
    { newEpoch := fun b b' h => congrArg Bp.newEpoch h
      value := by
        intro inst _ s s' h
        obtain ⟨predictable, hleft, hall⟩ := predictValue_silent silent hperfect htrack s inst
        rw [hleft]
        refine ⟨rfl, Or.inr rfl, ?_, h⟩
        intro m n hmn htrack
        rw [hmn htrack, hall htrack]
      branch := fun inst _ s s' h =>
        predictBranch_answers (answers_self cfg hk) (fun _ => rfl) (fun _ _ => Iff.rfl)
          ⟨rfl, rfl, rfl⟩ h inst }
  refine (Uarchsim.simulate_paired u (notices_silent silent _) decides rfl (fun _ _ => rfl)
    fun _ _ => rfl).imp ?_
  intro s s' h
  exact h.eq_but

theorem silent_value_prediction_loopExit :
    ∃ s s', Uarchsim.simulate ⟨fun _ => ⟨0, 0, 0⟩, 0⟩ { vpEnable := true, fetchModelIcache := false }
        (shippedHooks { fetchModelIcache := false } fun n => (n, n)) shippedInit loopExit = .ok s ∧
      Uarchsim.simulate ⟨fun _ => ⟨0, 0, 0⟩, 0⟩ { vpEnable := false, fetchModelIcache := false }
        (shippedHooks { fetchModelIcache := false } fun n => (n, n)) shippedInit loopExit = .ok s' ∧
      s' = { s with numEligible := s'.numEligible } ∧
        (({ vpEnable := true, fetchModelIcache := false } : Config).vpTrack = .all →
          s.numEligible = s'.numEligible) := by
  have hperfect :
      ({ vpEnable := true, fetchModelIcache := false } : Config).vpPerfect = false := rfl
  have htrack : ({ vpEnable := true, fetchModelIcache := false } : Config).vpTrack = .all ∨
      ({ vpEnable := true, fetchModelIcache := false } : Config).vpTrack = .loadsOnly := Or.inl rfl
  obtain ⟨s, hs⟩ := exists_of_isOk (show (Uarchsim.simulate ⟨fun _ => ⟨0, 0, 0⟩, 0⟩
    { vpEnable := true, fetchModelIcache := false }
    (shippedHooks { fetchModelIcache := false } fun n => (n, n)) shippedInit loopExit).isOk = true by
      decide +kernel)
  obtain ⟨s', hs', hsame⟩ := Paired.exists_ok
    (silent_value_prediction _ _ _ (shippedHooks_silent _ _) _ _ hperfect htrack) hs
  exact ⟨s, s', hs, hs', hsame⟩

end Silent

end CbpSim.Core
