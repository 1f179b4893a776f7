/-
  Predictor/Ranges.lean --- the counters stay within their bits.

  Source: src/cbp2016_tage_sc_l.h, the counters that `HistoryUpdate`, `loopupdate`,
  `Gupdate`, `baseupdate` and `update` write.

  Every write to a counter is `ctrupdate`, a step towards the weak values, a clamped
  step of a threshold, or a constant.  What `update` writes to the bimodal table it
  computes from `BIM`, which the prediction before it left behind.
-/
import Mathlib.Data.Int.Order.Basic
import CbpSim.Predictor.Calls
import CbpSim.Predictor.Indices

set_option autoImplicit false

namespace CbpSim.Predictor

open CbpSim.Foundation

/-! ## Counters -/

/-- A signed counter of `nbits` bits. -/
def InBits (nbits : Nat) (ctr : Int) : Prop := -2 ^ (nbits - 1) ≤ ctr ∧ ctr ≤ 2 ^ (nbits - 1) - 1

theorem InBits.ctrupdate {nbits : Nat} {ctr : Int} (h : InBits nbits ctr) (taken : Bool) :
    InBits nbits (ctrupdate ctr taken nbits) :=
  ctrupdate_range taken h.1 h.2

theorem inBits_zero (nbits : Nat) : InBits nbits 0 := by
  have hpos : (0 : Int) < 2 ^ (nbits - 1) := Int.pow_pos (by decide)
  unfold InBits
  omega

/-- A threshold is clamped after its step. -/
theorem inBits_stepThreshold (x : Int) (up : Bool) (width : Nat) :
    InBits width (stepThreshold x up width) := by
  have hpos : (0 : Int) < 2 ^ (width - 1) := Int.pow_pos (by decide)
  unfold InBits stepThreshold
  dsimp only
  split_ifs
  all_goals constructor <;> omega

/-- A counter of an array is written. -/
theorem forall_update {α β : Type} [DecidableEq α] {P : β → Prop} {f : α → β} {i : α} {x : β}
    (hf : ∀ j, P (f j)) (hx : P x) : ∀ j, P (Function.update f i x j) :=
  (Function.forall_update_iff f fun _ y => P y).mpr ⟨hx, fun j _ => hf j⟩

/-! ## The tables -/

/-- A component of the corrector: its tables and its weights. -/
structure Gehl.InRange (g : Gehl) : Prop where
  tab : ∀ i j, InBits percWidth (g.tab i j)
  w : ∀ i, InBits eWidth (g.w i)

/-- An entry of the bimodal table holds two bits. -/
structure BEntry.InRange (e : BEntry) : Prop where
  pred : e.pred = 0 ∨ e.pred = 1
  hyst : e.hyst = 0 ∨ e.hyst = 1

/-- Every counter of the tables is within its bits. -/
structure Tables.InRange (t : Tables) : Prop where
  btable : ∀ i, (t.btable i).InRange
  gtable : ∀ bank i, InBits cWidth (t.gtable bank i).ctr
  useAltOnNa : ∀ i, InBits altWidth (t.useAltOnNa i)
  tick : 0 ≤ t.tick ∧ t.tick < bornTick
  bias : ∀ i, InBits percWidth (t.bias i)
  biasSK : ∀ i, InBits percWidth (t.biasSK i)
  biasBank : ∀ i, InBits percWidth (t.biasBank i)
  wb : ∀ i, InBits eWidth (t.wb i)
  ggehl : t.ggehl.InRange
  pgehl : t.pgehl.InRange
  lgehl : t.lgehl.InRange
  sgehl : t.sgehl.InRange
  tgehl : t.tgehl.InRange
  imgehl : t.imgehl.InRange
  igehl : t.igehl.InRange
  updateThreshold : InBits widthRes t.updateThreshold
  pUpdateThreshold : ∀ i, InBits widthResP (t.pUpdateThreshold i)
  firstH : InBits confWidth t.firstH
  secondH : InBits confWidth t.secondH

instance (nbits : Nat) (ctr : Int) : Decidable (InBits nbits ctr) := by
  unfold InBits
  infer_instance

theorem initGehl_inRange {w : Int} (hw : InBits eWidth w) : (Tables.initGehl w).InRange where
  tab _ j := by
    dsimp only [Tables.initGehl]
    split
    · decide
    · decide
  w _ := hw

theorem initBias_inBits {a b c d : Int} (ha : InBits percWidth a) (hb : InBits percWidth b)
    (hc : InBits percWidth c) (hd : InBits percWidth d) (j : Nat) :
    InBits percWidth (Tables.initBias a b c d j) := by
  unfold Tables.initBias
  split
  · exact ha
  · exact hb
  · exact hc
  · exact hd

theorem tables_init_inRange : Tables.init.InRange where
  btable _ := ⟨Or.inl rfl, Or.inr rfl⟩
  gtable bank i := by
    unfold Tables.gtable
    split
    · exact inBits_zero cWidth
    · exact inBits_zero cWidth
  useAltOnNa _ := inBits_zero altWidth
  tick := by decide
  bias := initBias_inBits (by decide) (by decide) (by decide) (by decide)
  biasSK := initBias_inBits (by decide) (by decide) (by decide) (by decide)
  biasBank := initBias_inBits (by decide) (by decide) (by decide) (by decide)
  wb _ := show InBits eWidth 4 by decide
  ggehl := initGehl_inRange (by decide)
  pgehl := initGehl_inRange (by decide)
  lgehl := initGehl_inRange (by decide)
  sgehl := initGehl_inRange (by decide)
  tgehl := initGehl_inRange (by decide)
  imgehl := initGehl_inRange (by decide)
  igehl := initGehl_inRange (by decide)
  updateThreshold := by decide
  pUpdateThreshold _ := inBits_zero widthResP
  firstH := by decide
  secondH := by decide

/-! ### The corrector -/

theorem Gehl.InRange.gupdate {g : Gehl} (h : g.InRange) (lSum : Int) (s : GehlShape) (pc : Nat)
    (taken : Bool) (bHist : Nat) : (gupdate lSum g s pc taken bHist).InRange where
  tab i j := by
    dsimp only [Predictor.gupdate]
    split
    · exact (h.tab i j).ctrupdate taken
    · exact h.tab i j
  w := by
    dsimp only [Predictor.gupdate]
    split
    · exact forall_update h.w ((h.w _).ctrupdate _)
    · exact h.w

namespace Tables

variable {t : Tables}

theorem InRange.updateChooser (h : t.InRange) (l : Lookup) (resolveDir : Bool) :
    (updateChooser t l resolveDir).InRange := by
  have second : ∀ {t : Tables}, t.InRange →
      { t with secondH := ctrupdate t.secondH (l.predInter == resolveDir) confWidth }.InRange :=
    fun h => { h with secondH := h.secondH.ctrupdate _ }
  have first : ∀ {t : Tables}, t.InRange →
      { t with firstH := ctrupdate t.firstH (l.predInter == resolveDir) confWidth }.InRange :=
    fun h => { h with firstH := h.firstH.ctrupdate _ }
  unfold Predictor.updateChooser
  dsimp only
  split
  · exact h
  · split
    · split
      · exact first (second h)
      · exact first h
    · split
      · exact second h
      · exact h

theorem InRange.updateThresholds (h : t.InRange) (pc : Nat) (up : Bool) :
    (updateThresholds t pc up).InRange :=
  { h with
    updateThreshold := inBits_stepThreshold _ _ _
    pUpdateThreshold := forall_update h.pUpdateThreshold (inBits_stepThreshold _ _ _) }

theorem InRange.updateBias (h : t.InRange) (pc : Nat) (l : Lookup) (resolveDir : Bool) :
    (updateBias t pc l resolveDir).InRange :=
  { h with
    wb := by
      dsimp only [Predictor.updateBias]
      split
      · exact forall_update h.wb ((h.wb _).ctrupdate _)
      · exact h.wb
    bias := forall_update h.bias ((h.bias _).ctrupdate _)
    biasSK := forall_update h.biasSK ((h.biasSK _).ctrupdate _)
    biasBank := forall_update h.biasBank ((h.biasBank _).ctrupdate _) }

theorem InRange.updateGehls (h : t.InRange) (pc : Nat) (hist : CbpHist) (l : Lookup)
    (resolveDir : Bool) : (updateGehls t pc hist l resolveDir).InRange :=
  { h with
    ggehl := h.ggehl.gupdate _ _ _ _ _
    pgehl := h.pgehl.gupdate _ _ _ _ _
    lgehl := h.lgehl.gupdate _ _ _ _ _
    sgehl := h.sgehl.gupdate _ _ _ _ _
    tgehl := h.tgehl.gupdate _ _ _ _ _
    imgehl := h.imgehl.gupdate _ _ _ _ _
    igehl := h.igehl.gupdate _ _ _ _ _ }

theorem InRange.updateCorrector (h : t.InRange) (pc : Nat) (hist : CbpHist) (l : Lookup)
    (resolveDir : Bool) : (updateCorrector t pc hist l resolveDir).InRange := by
  have hchooser := h.updateChooser l resolveDir
  unfold Predictor.updateCorrector
  dsimp only
  split
  · exact ((hchooser.updateThresholds pc _).updateBias pc l resolveDir).updateGehls pc hist l
      resolveDir
  · exact hchooser

/-! ### TAGE -/

/-- An entry of a tagged table is written. -/
theorem InRange.setGtable (h : t.InRange) (bank i : Nat) {e : GEntry} (he : InBits cWidth e.ctr) :
    (t.setGtable bank i e).InRange := by
  have hlow : ∀ j, InBits cWidth (t.gtableLow j).ctr := fun j => h.gtable 0 j
  have hhigh : ∀ j, InBits cWidth (t.gtableHigh j).ctr := fun j => h.gtable born j
  unfold Tables.setGtable
  split
  · refine { h with gtable := ?_ }
    intro bank' j
    unfold Tables.gtable
    split
    · exact forall_update (P := fun e : GEntry => InBits cWidth e.ctr) hlow he j
    · exact hhigh j
  · refine { h with gtable := ?_ }
    intro bank' j
    unfold Tables.gtable
    split
    · exact hlow j
    · exact forall_update (P := fun e : GEntry => InBits cWidth e.ctr) hhigh he j

theorem InRange.tryBank {a : Alloc} (h : a.tables.InRange) (l : Lookup) (resolveDir : Bool)
    (bank : Nat) : (a.tryBank l resolveDir bank).tables.InRange := by
  have hctr := h.gtable bank (l.gi bank)
  unfold Alloc.tryBank
  dsimp only
  split
  · exact h
  · split
    · exact h
    · split
      · have hnew : InBits cWidth (if resolveDir then 0 else -1) := by
          cases resolveDir <;> decide
        have hset := h.setGtable bank (l.gi bank) (e := { a.tables.gtable bank (l.gi bank) with
          tag := l.gtag bank, ctr := if resolveDir then 0 else -1 }) hnew
        split
        · exact hset
        · exact hset
      · apply h.setGtable
        unfold InBits cWidth at *
        dsimp only
        split
        · omega
        · omega

theorem InRange.allocRound {a : Alloc} (h : a.tables.InRange) (l : Lookup) (resolveDir : Bool) :
    (a.round l resolveDir).tables.InRange := by
  have hfirst : ({ a with done := false }.tryBank l resolveDir (a.i + 1)).tables.InRange :=
    InRange.tryBank (a := { a with done := false }) h l resolveDir (a.i + 1)
  unfold Alloc.round
  dsimp only
  split
  · exact hfirst
  · exact hfirst.tryBank l resolveDir _

theorem InRange.allocLoop {a : Alloc} (h : a.tables.InRange) (l : Lookup) (resolveDir : Bool)
    (n : Nat) : (Alloc.loop l resolveDir n a).tables.InRange := by
  have hloop := Alloc.loop_induct l resolveDir (P := fun a => a.tables.InRange)
    (Q := fun a => a.tables.InRange)
    (fun a ha _ => ha.allocRound l resolveDir) (fun a ha _ => ha) n h
  exact hloop.elim id id

theorem InRange.updateTick (h : t.InRange) (penalty na : Int) :
    (updateTick t penalty na).InRange := by
  unfold Predictor.updateTick
  dsimp only
  generalize htick : (if t.tick + (penalty - 2 * na) < 0 then 0
    else t.tick + (penalty - 2 * na)) = tick
  have hnonneg : 0 ≤ tick := by
    rw [← htick]
    split
    · exact le_rfl
    · rename_i hge
      exact not_lt.mp hge
  split
  · refine { h with gtable := ?_, tick := ⟨le_rfl, show (0 : Int) < bornTick by decide⟩ }
    intro bank i
    have hctr := h.gtable bank i
    unfold Tables.gtable at hctr ⊢
    split
    · rename_i hlow
      rwa [if_pos hlow] at hctr
    · rename_i hhigh
      rwa [if_neg hhigh] at hctr
  · rename_i hlt
    exact { h with tick := ⟨hnonneg, not_le.mp hlt⟩ }

theorem InRange.allocate (h : t.InRange) (seed phist : Nat) (ptghist : Int) (l : Lookup)
    (resolveDir : Bool) : (allocate t seed phist ptghist l resolveDir).1.InRange := by
  unfold Predictor.allocate
  dsimp only
  exact InRange.updateTick (InRange.allocLoop (by exact h) l resolveDir nHist) _ _

/-- The two bits of the counter that `baseupdate` writes. -/
theorem InRange.baseupdate (h : t.InRange) {l : Lookup} (hbim : 0 ≤ l.bim ∧ l.bim ≤ 3)
    (taken : Bool) : (baseupdate t l taken).InRange := by
  obtain ⟨hlow, hhigh⟩ := hbim
  refine { h with btable := ?_ }
  unfold Predictor.baseupdate
  dsimp only
  generalize hinter : (if taken then if l.bim < 3 then l.bim + 1 else l.bim
    else if l.bim > 0 then l.bim - 1 else l.bim) = inter
  have hrange : 0 ≤ inter ∧ inter ≤ 3 := by
    rw [← hinter]
    split_ifs <;> constructor <;> omega
  have hpred : inter / 2 = 0 ∨ inter / 2 = 1 := by omega
  have hhyst : inter % 2 = 0 ∨ inter % 2 = 1 := by omega
  have hbtable : ∀ i, (Function.update t.btable l.bi ⟨(t.btable l.bi).hyst, inter / 2⟩ i).InRange :=
    forall_update h.btable ⟨hpred, (h.btable l.bi).hyst⟩
  exact forall_update hbtable ⟨(hbtable _).pred, hhyst⟩

theorem InRange.updateUseAlt (h : t.InRange) (l : Lookup) (resolveDir : Bool) :
    (updateUseAlt t l resolveDir).InRange := by
  unfold Predictor.updateUseAlt
  split
  · exact { h with useAltOnNa := forall_update h.useAltOnNa ((h.useAltOnNa _).ctrupdate _) }
  · exact h

/-- The counter of an entry is updated, and its `u` counter kept or cleared. -/
theorem InRange.updateEntry (h : t.InRange) (bank i : Nat) (resolveDir clear : Bool) :
    (t.setGtable bank i
      (if clear then { t.gtable bank i with
          ctr := ctrupdate (t.gtable bank i).ctr resolveDir cWidth, u := 0 }
        else { t.gtable bank i with
          ctr := ctrupdate (t.gtable bank i).ctr resolveDir cWidth })).InRange := by
  have hctr := (h.gtable bank i).ctrupdate resolveDir
  apply h.setGtable
  split
  · exact hctr
  · exact hctr

theorem InRange.updateCounters (h : t.InRange) {l : Lookup} (hbim : 0 ≤ l.bim ∧ l.bim ≤ 3)
    (resolveDir : Bool) : (updateCounters t l resolveDir).InRange := by
  -- the counter of the longest match, and then its `u` counter
  have hlast : ∀ t : Tables, t.InRange → ∀ clear useless : Bool,
      (let t := t.setGtable l.hitBank (l.gi l.hitBank)
          (if clear then { hitEntry t l with
              ctr := ctrupdate (hitEntry t l).ctr resolveDir cWidth, u := 0 }
            else { hitEntry t l with ctr := ctrupdate (hitEntry t l).ctr resolveDir cWidth })
        if useless then
          t.setGtable l.hitBank (l.gi l.hitBank) { hitEntry t l with u := 0 }
        else t).InRange := by
    intro t h clear useless
    have hset := h.updateEntry l.hitBank (l.gi l.hitBank) resolveDir clear
    dsimp only
    split
    · exact hset.setGtable _ _ (hset.gtable _ _)
    · exact hset
  unfold Predictor.updateCounters
  split
  · exact h.baseupdate hbim resolveDir
  · apply hlast
    -- the alternate prediction before it
    split
    · split
      · exact h.updateEntry _ _ resolveDir false
      · exact h.baseupdate hbim resolveDir
    · exact h

theorem InRange.updateUseful (h : t.InRange) (cfg : Config) (l : Lookup)
    (resolveDir isLdDependent : Bool) :
    (updateUseful cfg t l resolveDir isLdDependent).InRange := by
  unfold Predictor.updateUseful
  dsimp only
  split
  · exact h.setGtable _ _ (h.gtable _ _)
  · exact h

/-- **Training keeps every counter of the tables within its bits.** -/
theorem InRange.train (h : t.InRange) (cfg : Config) (seed : Nat) (active : CbpHist) (pc : Nat)
    (resolveDir predTaken : Bool) (hist : CbpHist) {l : Lookup} (hbim : 0 ≤ l.bim ∧ l.bim ≤ 3)
    (isLdDependent : Bool) :
    (train cfg t seed active pc resolveDir predTaken hist l isLdDependent).1.InRange := by
  have hcorrected := (h.updateCorrector pc hist l resolveDir).updateUseAlt l resolveDir
  unfold Predictor.train
  dsimp only
  apply InRange.updateUseful
  apply InRange.updateCounters _ hbim
  generalize (if predTaken == resolveDir then _ else _ : Bool × Nat) = draw
  split
  · exact hcorrected.allocate _ _ _ _ _
  · exact hcorrected

/-! ### The bimodal counter of a prediction -/

theorem InRange.getbim (h : t.InRange) (l : Lookup) :
    0 ≤ (getbim t l).2.bim ∧ (getbim t l).2.bim ≤ 3 := by
  have hpred := (h.btable l.bi).pred
  have hhyst := (h.btable (l.bi >>> hystShift)).hyst
  dsimp only [Predictor.getbim]
  omega

/-- What a prediction leaves for `baseupdate` is a two-bit counter. -/
theorem InRange.predict_bim (h : t.InRange) (pc : Nat) (hist : CbpHist) :
    0 ≤ (predictUsingGivenHist t pc hist).lookup.bim ∧
      (predictUsingGivenHist t pc hist).lookup.bim ≤ 3 := by
  have htagepred : 0 ≤ (tagepred t pc hist).bim ∧ (tagepred t pc hist).bim ≤ 3 := by
    unfold tagepred
    dsimp only
    split
    · exact h.getbim _
    · split
      · exact h.getbim _
      · exact h.getbim _
  exact htagepred

end Tables

/-! ## The loop predictor -/

/-- The counters of an entry of the loop predictor. -/
structure LEntry.InRange (e : LEntry) : Prop where
  nbIter : e.nbIter < 2 ^ widthNbIterLoop
  currentIter : e.currentIter < 2 ^ widthNbIterLoop
  confid : e.confid ≤ confLoop
  age : e.age ≤ confLoop

namespace LEntry

variable {e : LEntry}

/-- An entry that is freed or allocated counts from zero. -/
theorem inRange_of_zero (hnbIter : e.nbIter = 0) (hcurrentIter : e.currentIter = 0)
    (hconfid : e.confid = 0) (hage : e.age ≤ confLoop) : e.InRange where
  nbIter := hnbIter ▸ Nat.two_pow_pos _
  currentIter := hcurrentIter ▸ Nat.two_pow_pos _
  confid := hconfid ▸ Nat.zero_le _
  age := hage

theorem InRange.count (h : e.InRange) (taken : Bool) : (e.count taken).InRange := by
  have hpos : 0 < 2 ^ widthNbIterLoop := Nat.two_pow_pos _
  -- the entry after the count, which may be over
  have hlast : ∀ e : LEntry, e.InRange →
      (if taken == e.dir then e
        else
          let e :=
            if e.currentIter == e.nbIter then
              let e := if e.confid < confLoop then { e with confid := e.confid + 1 } else e
              if e.nbIter < 3 then { e with dir := taken, nbIter := 0, age := 0, confid := 0 } else e
            else if e.nbIter == 0 then { e with confid := 0, nbIter := e.currentIter }
            else { e with nbIter := 0, confid := 0 }
          { e with currentIter := 0 }).InRange := by
    intro e h
    split
    · exact h
    · dsimp only
      refine ⟨?_, hpos, ?_, ?_⟩
      · split_ifs
        exacts [hpos, h.nbIter, hpos, h.nbIter, h.currentIter, hpos]
      · split_ifs
        exacts [Nat.zero_le _, Nat.succ_le_of_lt ‹e.confid < confLoop›, Nat.zero_le _, h.confid,
          Nat.zero_le _, Nat.zero_le _]
      · split_ifs
        exacts [Nat.zero_le _, h.age, Nat.zero_le _, h.age, h.age, h.age]
  unfold LEntry.count
  apply hlast
  split
  · exact ⟨hpos, and_mask_lt _ _, Nat.zero_le _, h.age⟩
  · exact ⟨h.nbIter, and_mask_lt _ _, h.confid, h.age⟩

end LEntry

/-- **`loopupdate` keeps every entry within its bits**, whatever `getloop` left behind. -/
theorem loopupdate_inRange {ltable : Nat → LEntry} (h : ∀ i, (ltable i).InRange) (l : LoopLookup)
    (tagePred : Bool) (phist : Nat) (ptghist : Int) (taken alloc : Bool) (seed : Nat) :
    ∀ i, ((loopupdate l tagePred phist ptghist taken alloc ltable seed).1 i).InRange := by
  have hage : ∀ older : Bool, ∀ e : LEntry, e.InRange →
      (if older && decide (e.age < confLoop) then { e with age := e.age + 1 } else e).InRange := by
    intro older e h
    split
    · rename_i hlt
      exact { h with age := of_decide_eq_true (Bool.and_eq_true_iff.mp hlt).2 }
    · exact h
  unfold loopupdate
  split
  · dsimp only
    split
    · exact forall_update h (LEntry.inRange_of_zero rfl rfl rfl (Nat.zero_le _))
    · exact forall_update h ((hage _ _ (h _)).count taken)
  · split
    · exact h
    · dsimp only
      split
      · exact h
      · split
        · exact forall_update h (LEntry.inRange_of_zero rfl rfl rfl (show 7 ≤ confLoop by decide))
        · exact forall_update h { h _ with age := (Nat.sub_le _ _).trans (h _).age }

end CbpSim.Predictor
