/-
  Predictor/Corrector.lean --- the corrector is trained with the sum it predicted with.

  Source: src/cbp2016_tage_sc_l.h, `LSUM` in `predict_using_given_hist`, `Gpredict`,
  `Gupdate` and the statistical-corrector part of `update`.

  The sum has eight components, the bias and seven calls of `Gpredict`.  The training
  comes back to them one after the other, and each changes its own tables and weight
  only.  So what a component reads when its turn comes is what the prediction read.
-/
import Mathlib.Data.List.TakeWhile
import Mathlib.Tactic.Ring
import CbpSim.Predictor.Calls

set_option autoImplicit false

namespace CbpSim.Predictor

open CbpSim.Foundation

/-- A component of the sum. -/
inductive Component where
  | bias
  | ggehl
  | pgehl
  | lgehl
  | sgehl
  | tgehl
  | imgehl
  | igehl
  deriving DecidableEq, Repr

/-- The counters of a `GEHL` component that `Gpredict` and `Gupdate` read. -/
def Gehl.entries (g : Gehl) (s : GehlShape) (pc bHist : Nat) : List Int :=
  (List.range s.length.length).map fun i => g.tab i (s.index pc bHist i)

namespace Component

/-- The components in the order of `update`. -/
def all : List Component := [.bias, .ggehl, .pgehl, .lgehl, .sgehl, .tgehl, .imgehl, .igehl]

section Reads

variable (t : Tables) (pc : Nat) (h : CbpHist) (l : Lookup)

/-- The counters that a component reads. -/
def entries : Component → List Int
  | .bias => [t.bias (biasIndex pc l), t.biasSK (biasSKIndex pc l), t.biasBank (biasBankIndex pc l)]
  | .ggehl => t.ggehl.entries .ggehl (globalPc pc l) h.GHIST
  | .pgehl => t.pgehl.entries .pgehl pc h.phist
  | .lgehl => t.lgehl.entries .lgehl pc (h.lShist (localIndex pc))
  | .sgehl => t.sgehl.entries .sgehl pc (h.sSlhist (secondLocalIndex pc))
  | .tgehl => t.tgehl.entries .tgehl pc (h.tSlhist (thirdLocalIndex pc))
  | .imgehl => t.imgehl.entries .imgehl pc (h.imHist h.imliCount)
  | .igehl => t.igehl.entries .igehl pc h.imliCount

/-- The weight of a component. -/
def weight : Component → Int
  | .bias => t.wb (indUpdS pc)
  | .ggehl => t.ggehl.w (indUpdS (globalPc pc l))
  | .pgehl => t.pgehl.w (indUpdS pc)
  | .lgehl => t.lgehl.w (indUpdS pc)
  | .sgehl => t.sgehl.w (indUpdS pc)
  | .tgehl => t.tgehl.w (indUpdS pc)
  | .imgehl => t.imgehl.w (indUpdS pc)
  | .igehl => t.igehl.w (indUpdS pc)

/-- `PERCSUM` of a component, or the sum of the bias. -/
def percsum (c : Component) : Int := ((c.entries t pc h l).map centred).sum

/-- `XSUM` in the training of a component. -/
def xsum (c : Component) : Int := l.lSum - doubled (c.weight t pc l) * c.percsum t pc h l

/-- What a component contributes to `LSUM`. -/
def contribution (c : Component) : Int :=
  (1 + doubled (c.weight t pc l)) * c.percsum t pc h l

end Reads

/-- The training of a component: a call of `Gupdate`, or the part for the bias. -/
def train (pc : Nat) (h : CbpHist) (l : Lookup) (resolveDir : Bool) (t : Tables) :
    Component → Tables
  | .bias => updateBias t pc l resolveDir
  | .ggehl =>
    { t with ggehl := gupdate l.lSum t.ggehl .ggehl (globalPc pc l) resolveDir h.GHIST }
  | .pgehl => { t with pgehl := gupdate l.lSum t.pgehl .pgehl pc resolveDir h.phist }
  | .lgehl =>
    { t with lgehl := gupdate l.lSum t.lgehl .lgehl pc resolveDir (h.lShist (localIndex pc)) }
  | .sgehl =>
    { t with
      sgehl := gupdate l.lSum t.sgehl .sgehl pc resolveDir (h.sSlhist (secondLocalIndex pc)) }
  | .tgehl =>
    { t with
      tgehl := gupdate l.lSum t.tgehl .tgehl pc resolveDir (h.tSlhist (thirdLocalIndex pc)) }
  | .imgehl =>
    { t with imgehl := gupdate l.lSum t.imgehl .imgehl pc resolveDir (h.imHist h.imliCount) }
  | .igehl => { t with igehl := gupdate l.lSum t.igehl .igehl pc resolveDir h.imliCount }

/-- The tables before the training of the components: the chooser and the thresholds are
trained. -/
def start (t : Tables) (pc : Nat) (l : Lookup) (resolveDir : Bool) : Tables :=
  updateThresholds (updateChooser t l resolveDir) pc (decide (l.lSum ≥ 0) != resolveDir)

/-- The tables when the turn of `c` comes: the components before it are trained. -/
def reached (t : Tables) (pc : Nat) (h : CbpHist) (l : Lookup) (resolveDir : Bool)
    (c : Component) : Tables :=
  (all.takeWhile (· ≠ c)).foldl (train pc h l resolveDir) (start t pc l resolveDir)

section Train

variable (t : Tables) (pc : Nat) (h : CbpHist) (l : Lookup) (resolveDir : Bool)

theorem foldl_train_gehls :
    [ggehl, pgehl, lgehl, sgehl, tgehl, imgehl, igehl].foldl (train pc h l resolveDir) t =
      updateGehls t pc h l resolveDir := by
  simp only [List.foldl_cons, List.foldl_nil, train, updateGehls]

/-- `update` trains the components one after the other. -/
theorem updateCorrector_eq :
    updateCorrector t pc h l resolveDir =
      if decide (l.lSum ≥ 0) != resolveDir || decide ((l.lSum.natAbs : Int) < l.thres) then
        all.foldl (train pc h l resolveDir) (start t pc l resolveDir)
      else updateChooser t l resolveDir := by
  rw [all, List.foldl_cons, foldl_train_gehls]
  rfl

/-- The training of one component is not seen by the others. -/
theorem train_of_ne {c c' : Component} (hne : c' ≠ c) :
    c.entries (train pc h l resolveDir t c') pc h l = c.entries t pc h l ∧
      c.weight (train pc h l resolveDir t c') pc l = c.weight t pc l := by
  cases c <;> cases c' <;> first | exact ⟨rfl, rfl⟩ | exact absurd rfl hne

/-- Neither is the training of the chooser and of the thresholds. -/
theorem start_reads (c : Component) :
    c.entries (start t pc l resolveDir) pc h l = c.entries t pc h l ∧
      c.weight (start t pc l resolveDir) pc l = c.weight t pc l := by
  have hchooser : c.entries (updateChooser t l resolveDir) pc h l = c.entries t pc h l ∧
      c.weight (updateChooser t l resolveDir) pc l = c.weight t pc l := by
    unfold updateChooser
    dsimp only
    split_ifs
    all_goals cases c <;> exact ⟨rfl, rfl⟩
  have hthresholds : c.entries (start t pc l resolveDir) pc h l =
        c.entries (updateChooser t l resolveDir) pc h l ∧
      c.weight (start t pc l resolveDir) pc l = c.weight (updateChooser t l resolveDir) pc l := by
    cases c <;> exact ⟨rfl, rfl⟩
  exact ⟨hthresholds.1.trans hchooser.1, hthresholds.2.trans hchooser.2⟩

/-- **A component reads in the training what it read in the prediction.** -/
theorem reached_reads (c : Component) :
    c.entries (reached t pc h l resolveDir c) pc h l = c.entries t pc h l ∧
      c.weight (reached t pc h l resolveDir c) pc l = c.weight t pc l := by
  have before : ∀ cs : List Component, c ∉ cs → ∀ t' : Tables,
      c.entries (cs.foldl (train pc h l resolveDir) t') pc h l = c.entries t' pc h l ∧
        c.weight (cs.foldl (train pc h l resolveDir) t') pc l = c.weight t' pc l := by
    intro cs
    induction cs with
    | nil => exact fun _ _ => ⟨rfl, rfl⟩
    | cons c' cs ih =>
      intro hnot t'
      obtain ⟨hne, hnot⟩ := not_or.mp (List.mem_cons.not.mp hnot)
      obtain ⟨hentries, hweight⟩ := ih hnot (train pc h l resolveDir t' c')
      obtain ⟨hentries', hweight'⟩ := train_of_ne t' pc h l resolveDir (Ne.symm hne)
      exact ⟨hentries.trans hentries', hweight.trans hweight'⟩
  have hnot : c ∉ all.takeWhile (· ≠ c) := fun hmem => by
    simpa using List.mem_takeWhile_imp hmem
  obtain ⟨hentries, hweight⟩ := before _ hnot (start t pc l resolveDir)
  obtain ⟨hentries', hweight'⟩ := start_reads t pc h l resolveDir c
  exact ⟨hentries.trans hentries', hweight.trans hweight'⟩

end Train

/-! ## The sums -/

theorem gehl_percsum_eq (g : Gehl) (s : GehlShape) (pc bHist : Nat) :
    ((g.entries s pc bHist).map centred).sum = g.percsum s pc bHist := by
  rw [Gehl.entries, List.map_map]
  rfl

theorem bias_percsum_eq (t : Tables) (pc : Nat) (h : CbpHist) (l : Lookup) :
    bias.percsum t pc h l = biasSum t pc l := by
  simp only [percsum, entries, List.map_cons, List.map_nil, List.sum_cons, List.sum_nil, biasSum]
  omega

theorem sum_contributions (t : Tables) (pc : Nat) (h : CbpHist) (l : Lookup) :
    (all.map (contribution t pc h l)).sum = scSum t pc h l := by
  have hgehl : ∀ (g : Gehl) (s : GehlShape) (pc bHist : Nat),
      (1 + doubled (g.w (indUpdS pc))) * ((g.entries s pc bHist).map centred).sum =
        gpredict g s pc bHist := by
    intro g s pc bHist
    rw [gehl_percsum_eq, gpredict]
  have hbias : contribution t pc h l bias =
      (1 + doubled (t.wb (indUpdS pc))) * biasSum t pc l := by
    rw [contribution, bias_percsum_eq]
    rfl
  simp only [all, List.map_cons, List.map_nil, List.sum_cons, List.sum_nil, hbias]
  simp only [contribution, weight, percsum, entries, hgehl]
  rw [scSum]
  ring

/-- The weight moves if the other components alone would decide otherwise. -/
theorem weight_train (t : Tables) (pc : Nat) (h : CbpHist) (l : Lookup) (resolveDir : Bool)
    (c : Component) :
    c.weight (train pc h l resolveDir t c) pc l =
      if decide (c.xsum t pc h l + c.percsum t pc h l ≥ 0) != decide (c.xsum t pc h l ≥ 0) then
        ctrupdate (c.weight t pc l) (decide (c.percsum t pc h l ≥ 0) == resolveDir) eWidth
      else c.weight t pc l := by
  have hgehl : ∀ (g : Gehl) (s : GehlShape) (pc bHist : Nat),
      (gupdate l.lSum g s pc resolveDir bHist).w (indUpdS pc) =
        let sum := ((g.entries s pc bHist).map centred).sum
        let xsum := l.lSum - doubled (g.w (indUpdS pc)) * sum
        if decide (xsum + sum ≥ 0) != decide (xsum ≥ 0) then
          ctrupdate (g.w (indUpdS pc)) (decide (sum ≥ 0) == resolveDir) eWidth
        else g.w (indUpdS pc) := by
    intro g s pc bHist
    rw [gehl_percsum_eq]
    unfold gupdate
    dsimp only
    split
    · exact Function.update_self _ _ _
    · rfl
  cases c with
  | bias =>
    have hsum := bias_percsum_eq t pc h l
    have hxsum : bias.xsum t pc h l = l.lSum - doubled (t.wb (indUpdS pc)) * biasSum t pc l := by
      rw [xsum, hsum]
      rfl
    rw [hsum, hxsum]
    dsimp only [train, weight, updateBias]
    split
    · exact Function.update_self _ _ _
    · rfl
  | ggehl => exact hgehl _ _ _ _
  | pgehl => exact hgehl _ _ _ _
  | lgehl => exact hgehl _ _ _ _
  | sgehl => exact hgehl _ _ _ _
  | tgehl => exact hgehl _ _ _ _
  | imgehl => exact hgehl _ _ _ _
  | igehl => exact hgehl _ _ _ _

/-- `LSUM` with the component `c` counted once. -/
def countedOnce (t : Tables) (pc : Nat) (h : CbpHist) (l : Lookup) (c : Component) : Int :=
  (all.map fun c' => if c' = c then c'.percsum t pc h l else c'.contribution t pc h l).sum

/-- A sum with one summand replaced. -/
theorem sum_map_replace (f g : Component → Int) (c : Component) :
    (all.map fun c' => if c' = c then g c' else f c').sum = (all.map f).sum - f c + g c := by
  cases c
  all_goals
    simp only [all, List.map_cons, List.map_nil, List.sum_cons, List.sum_nil, reduceCtorEq,
      if_true, if_false]
    ring

/-- What a component subtracts from `LSUM` is what the weight has added. -/
theorem xsum_eq_countedOnce {t : Tables} {pc : Nat} {h : CbpHist} {l : Lookup}
    (hsum : l.lSum = (all.map (contribution t pc h l)).sum) (c : Component) :
    c.xsum t pc h l = c.countedOnce t pc h l := by
  rw [countedOnce, sum_map_replace (contribution t pc h l) (percsum t pc h l), ← hsum, xsum,
    contribution]
  ring

end Component

/-- The sums of a prediction and those of the training for it. -/
structure SumsAgree (t : Tables) (pc : Nat) (h : CbpHist) (l : Lookup) (resolveDir : Bool) :
    Prop where
  /-- the prediction -/
  lSum : l.lSum = (Component.all.map fun c =>
    (1 + doubled (c.weight t pc l)) * c.percsum t pc h l).sum
  /-- the training, one component after the other -/
  calls : updateCorrector t pc h l resolveDir =
    if decide (l.lSum ≥ 0) != resolveDir || decide ((l.lSum.natAbs : Int) < l.thres) then
      Component.all.foldl (Component.train pc h l resolveDir)
        (Component.start t pc l resolveDir)
    else updateChooser t l resolveDir
  /-- the counters, the weight and the sums when the turn of a component comes -/
  entries : ∀ c : Component,
    c.entries (c.reached t pc h l resolveDir) pc h l = c.entries t pc h l
  weight : ∀ c : Component,
    c.weight (c.reached t pc h l resolveDir) pc l = c.weight t pc l
  percsum : ∀ c : Component,
    c.percsum (c.reached t pc h l resolveDir) pc h l = c.percsum t pc h l
  xsum : ∀ c : Component,
    c.xsum (c.reached t pc h l resolveDir) pc h l = c.countedOnce t pc h l
  /-- what the call makes of the weight -/
  trained : ∀ c : Component,
    c.weight (Component.train pc h l resolveDir (c.reached t pc h l resolveDir) c) pc l =
      if decide (c.countedOnce t pc h l + c.percsum t pc h l ≥ 0) !=
          decide (c.countedOnce t pc h l ≥ 0) then
        ctrupdate (c.weight t pc l) (decide (c.percsum t pc h l ≥ 0) == resolveDir) eWidth
      else c.weight t pc l

theorem predictUsingGivenHist_sumsAgree (t : Tables) (pc : Nat) (h : CbpHist)
    (resolveDir : Bool) :
    SumsAgree t pc h (predictUsingGivenHist t pc h).lookup resolveDir := by
  have hsum : (predictUsingGivenHist t pc h).lookup.lSum =
      (Component.all.map
        (Component.contribution t pc h (predictUsingGivenHist t pc h).lookup)).sum := by
    rw [Component.sum_contributions]
    rfl
  generalize (predictUsingGivenHist t pc h).lookup = l at *
  have reads := Component.reached_reads t pc h l resolveDir
  have hpercsum : ∀ c : Component,
      c.percsum (c.reached t pc h l resolveDir) pc h l = c.percsum t pc h l := by
    intro c
    rw [Component.percsum, (reads c).1, Component.percsum]
  have hxsum : ∀ c : Component,
      c.xsum (c.reached t pc h l resolveDir) pc h l = c.countedOnce t pc h l := by
    intro c
    rw [← Component.xsum_eq_countedOnce hsum, Component.xsum, (reads c).2, hpercsum,
      Component.xsum]
  exact {
    lSum := hsum
    calls := Component.updateCorrector_eq t pc h l resolveDir
    entries := fun c => (reads c).1
    weight := fun c => (reads c).2
    percsum := hpercsum
    xsum := hxsum
    trained := fun c => by
      rw [Component.weight_train, hxsum, hpercsum, (reads c).2] }

namespace TageScL

/-- **The corrector is trained with the sum it predicted with.**  In every update `LSUM` is
the weighted sum of the components, and the training reads for each of them the
counters and the weight that the prediction has read, whatever was trained before. -/
theorem update_sumsAgree (cfg : Config) (p p' : TageScL) (seqNo piece pc nextPc : Nat)
    (resolveDir predDir isLdDependent : Bool)
    (h : p.update cfg seqNo piece pc resolveDir predDir nextPc isLdDependent = .ok p') :
    ∃ hist, p.predTimeHistories (instKey seqNo piece) = some hist ∧ ∃ seed active,
      let again := predictUsingGivenHist p.tables pc hist
      p'.tables = (train cfg p.tables seed active pc resolveDir again.predTaken hist again.lookup
        isLdDependent).1 ∧
      SumsAgree p.tables pc hist again.lookup resolveDir := by
  obtain ⟨hist, hsaved, seed, active, htables⟩ := update_tables h
  exact ⟨hist, hsaved, seed, active, htables, predictUsingGivenHist_sumsAgree _ _ _ _⟩

/-- The first misprediction. -/
theorem update_sumsAgree_first :
    ∃ p p' hist, Run (step {}) init [.predict 1 0 64] p ∧
      p.update {} 1 0 64 true false 32 false = .ok p' ∧
      SumsAgree p.tables 64 hist (predictUsingGivenHist p.tables 64 hist).lookup true := by
  obtain ⟨p', hok⟩ := exists_of_isOk (show (do
    let p ← [TageCall.predict 1 0 64].foldlM (step {}) init
    p.update {} 1 0 64 true false 32 false).isOk = true by decide +kernel)
  obtain ⟨p, hp, hupdate⟩ := bind_eq_ok.mp hok
  obtain ⟨hist, -, seed, active, -, hagree⟩ :=
    update_sumsAgree {} p p' 1 0 64 32 true false false hupdate
  exact ⟨p, p', hist, hp, hupdate, hagree⟩

end TageScL

end CbpSim.Predictor
