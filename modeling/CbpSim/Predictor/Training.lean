/-
  Predictor/Training.lean --- the training of the tables.

  Source: src/cbp2016_tage_sc_l.h, `update` without its loop-predictor part,
  `Gupdate` and `baseupdate`.

  Training takes the tables and what the recomputed prediction left behind, and
  changes the tables only.
-/
import CbpSim.Common.Parameters
import CbpSim.Predictor.Tage

set_option autoImplicit false

namespace CbpSim.Predictor

/-! ## The statistical corrector -/

/-- `Gupdate`. -/
def gupdate (lSum : Int) (g : Gehl) (s : GehlShape) (pc : Nat) (taken : Bool) (bHist : Nat) :
    Gehl :=
  let percsum := g.percsum s pc bHist
  let w := g.w (indUpdS pc)
  let xsum := lSum - doubled w * percsum
  { tab := fun i j =>
      if i < s.length.length ∧ j = s.index pc bHist i then ctrupdate (g.tab i j) taken percWidth
      else g.tab i j
    w :=
      if decide (xsum + percsum ≥ 0) != decide (xsum ≥ 0) then
        Function.update g.w (indUpdS pc) (ctrupdate w (decide (percsum ≥ 0) == taken) eWidth)
      else g.w }

/-- The counters of the chooser. -/
def updateChooser (t : Tables) (l : Lookup) (resolveDir : Bool) : Tables :=
  let sum : Int := l.lSum.natAbs
  if l.predInter == decide (l.lSum ≥ 0) then t
  else
    let t :=
      if decide (sum < l.thres) && l.highConf && decide (sum < l.thres.tdiv 2) &&
          decide (sum ≥ l.thres.tdiv 4) then
        { t with secondH := ctrupdate t.secondH (l.predInter == resolveDir) confWidth }
      else t
    if l.medConf && decide (sum < l.thres.tdiv 4) then
      { t with firstH := ctrupdate t.firstH (l.predInter == resolveDir) confWidth }
    else t

/-- A threshold after one step up or down, kept within `width` bits. -/
def stepThreshold (x : Int) (up : Bool) (width : Nat) : Int :=
  let x := if up then x + 1 else x - 1
  if x ≥ 2 ^ (width - 1) then 2 ^ (width - 1) - 1
  else if x < -2 ^ (width - 1) then -2 ^ (width - 1)
  else x

/-- The update thresholds. -/
def updateThresholds (t : Tables) (pc : Nat) (up : Bool) : Tables :=
  { t with
    updateThreshold := stepThreshold t.updateThreshold up widthRes
    pUpdateThreshold := Function.update t.pUpdateThreshold (indUpd pc)
      (stepThreshold (t.pUpdateThreshold (indUpd pc)) up widthResP) }

/-- The weight and the tables of the bias. -/
def updateBias (t : Tables) (pc : Nat) (l : Lookup) (resolveDir : Bool) : Tables :=
  let sum := biasSum t pc l
  let w := t.wb (indUpdS pc)
  let xsum := l.lSum - doubled w * sum
  { t with
    wb :=
      if decide (xsum + sum ≥ 0) != decide (xsum ≥ 0) then
        Function.update t.wb (indUpdS pc) (ctrupdate w (decide (sum ≥ 0) == resolveDir) eWidth)
      else t.wb
    bias := Function.update t.bias (biasIndex pc l)
      (ctrupdate (t.bias (biasIndex pc l)) resolveDir percWidth)
    biasSK := Function.update t.biasSK (biasSKIndex pc l)
      (ctrupdate (t.biasSK (biasSKIndex pc l)) resolveDir percWidth)
    biasBank := Function.update t.biasBank (biasBankIndex pc l)
      (ctrupdate (t.biasBank (biasBankIndex pc l)) resolveDir percWidth) }

/-- The components. -/
def updateGehls (t : Tables) (pc : Nat) (h : CbpHist) (l : Lookup) (resolveDir : Bool) : Tables :=
  { t with
    ggehl := gupdate l.lSum t.ggehl .ggehl (globalPc pc l) resolveDir h.GHIST
    pgehl := gupdate l.lSum t.pgehl .pgehl pc resolveDir h.phist
    lgehl := gupdate l.lSum t.lgehl .lgehl pc resolveDir (h.lShist (localIndex pc))
    sgehl := gupdate l.lSum t.sgehl .sgehl pc resolveDir (h.sSlhist (secondLocalIndex pc))
    tgehl := gupdate l.lSum t.tgehl .tgehl pc resolveDir (h.tSlhist (thirdLocalIndex pc))
    imgehl := gupdate l.lSum t.imgehl .imgehl pc resolveDir (h.imHist h.imliCount)
    igehl := gupdate l.lSum t.igehl .igehl pc resolveDir h.imliCount }

/-- The statistical-corrector part of `update`. -/
def updateCorrector (t : Tables) (pc : Nat) (h : CbpHist) (l : Lookup) (resolveDir : Bool) :
    Tables :=
  let t := updateChooser t l resolveDir
  let scPred := decide (l.lSum ≥ 0)
  if scPred != resolveDir || decide ((l.lSum.natAbs : Int) < l.thres) then
    let t := updateThresholds t pc (scPred != resolveDir)
    let t := updateBias t pc l resolveDir
    updateGehls t pc h l resolveDir
  else t

/-! ## Allocation -/

/-- The variables of the allocation loop. -/
structure Alloc where
  tables : Tables
  t : Int
  na : Int
  penalty : Int
  i : Nat
  done : Bool
  stop : Bool

/-- The body of the allocation loop for one bank; the source has it twice. -/
def Alloc.tryBank (a : Alloc) (l : Lookup) (resolveDir : Bool) (bank : Nat) : Alloc :=
  if !noSkip bank then a
  else
    let e := a.tables.gtable bank (l.gi bank)
    if e.u != 0 then { a with penalty := a.penalty + 1 }
    else if e.strength ≤ 3 then
      let e := { e with tag := l.gtag bank, ctr := if resolveDir then 0 else -1 }
      let a := { a with tables := a.tables.setGtable bank (l.gi bank) e, na := a.na + 1 }
      if a.t ≤ 0 then { a with stop := true }
      else { a with i := a.i + 2, done := true, t := a.t - 1 }
    else
      let e := { e with ctr := if e.ctr > 0 then e.ctr - 1 else e.ctr + 1 }
      { a with tables := a.tables.setGtable bank (l.gi bank) e }

/-- The allocation loop; `n` bounds its rounds. -/
def Alloc.loop (l : Lookup) (resolveDir : Bool) : Nat → Alloc → Alloc
  | 0, a => a
  | n + 1, a =>
    if a.i ≥ nHist then a
    else
      let a := { a with done := false }.tryBank l resolveDir (a.i + 1)
      if a.stop then a
      else
        let a := if a.done then a else a.tryBank l resolveDir ((a.i ^^^ 1) + 1)
        if a.stop then a else Alloc.loop l resolveDir n { a with i := a.i + 2 }

/-- A round of the loop: the bank of the index, and the other one of its pair unless the
entry was taken. -/
def Alloc.round (l : Lookup) (resolveDir : Bool) (a : Alloc) : Alloc :=
  let a := { a with done := false }.tryBank l resolveDir (a.i + 1)
  if a.stop || a.done then a else a.tryBank l resolveDir ((a.i ^^^ 1) + 1)

theorem Alloc.loop_succ (l : Lookup) (resolveDir : Bool) (n : Nat) (a : Alloc) :
    Alloc.loop l resolveDir (n + 1) a =
      if a.i ≥ nHist then a
      else
        let a := a.round l resolveDir
        if a.stop then a else Alloc.loop l resolveDir n { a with i := a.i + 2 } := by
  rw [Alloc.loop, Alloc.round]
  dsimp only
  generalize ({ a with done := false } : Alloc).tryBank l resolveDir (a.i + 1) = b
  cases hstop : b.stop with
  | true => simp [hstop]
  | false => simp

/-- The loop rule: `P` is what holds before a round, `Q` what holds behind it. -/
theorem Alloc.loop_induct (l : Lookup) (resolveDir : Bool) {P Q : Alloc → Prop}
    (round : ∀ a, P a → a.i < nHist → Q (a.round l resolveDir))
    (advance : ∀ a, Q a → a.stop = false → P { a with i := a.i + 2 }) (n : Nat) {a : Alloc}
    (h : P a) : P (Alloc.loop l resolveDir n a) ∨ Q (Alloc.loop l resolveDir n a) := by
  induction n generalizing a with
  | zero => exact Or.inl h
  | succ n ih =>
    rw [Alloc.loop_succ]
    split
    · exact Or.inl h
    · rename_i hi
      have hround := round a h (Nat.not_le.mp hi)
      dsimp only
      split
      · exact Or.inr hround
      · rename_i hstop
        exact ih (advance _ hround (Bool.eq_false_iff.mpr hstop))

/-- `u >>= 1`. -/
def GEntry.age (e : GEntry) : GEntry := { e with u := e.u / 2 }

/-- The ageing of every `u` counter. -/
def ageUseful (t : Tables) : Tables :=
  { t with
    gtableLow := fun j => (t.gtableLow j).age
    gtableHigh := fun j => (t.gtableHigh j).age }

/-- `TICK` after an allocation, and the ageing when it is full. -/
def updateTick (t : Tables) (penalty na : Int) : Tables :=
  let tick := t.tick + (penalty - 2 * na)
  let tick := if tick < 0 then 0 else tick
  if tick ≥ bornTick then { ageUseful t with tick := 0 } else { t with tick := tick }

/-- The allocation of new entries; also the next `Seed`. -/
def allocate (t : Tables) (seed phist : Nat) (ptghist : Int) (l : Lookup) (resolveDir : Bool) :
    Tables × Nat :=
  let (number, seed) := myrandom phist ptghist seed
  let a := if number &&& 127 < 32 then 2 else 1
  let (number, seed) := myrandom phist ptghist seed
  let dep := ((l.hitBank + 2 * a - 1) &&& 0xffe) ^^^ (number &&& 1)
  let done := Alloc.loop l resolveDir nHist
    { tables := t, t := 1, na := 0, penalty := 0, i := dep, done := false, stop := false }
  (updateTick done.tables done.penalty done.na, seed)

/-! ## TAGE -/

/-- `baseupdate`. -/
def baseupdate (t : Tables) (l : Lookup) (taken : Bool) : Tables :=
  let inter :=
    if taken then if l.bim < 3 then l.bim + 1 else l.bim
    else if l.bim > 0 then l.bim - 1 else l.bim
  let shared := l.bi >>> hystShift
  let btable := Function.update t.btable l.bi ⟨(t.btable l.bi).hyst, inter / 2⟩
  { t with btable := Function.update btable shared ⟨inter % 2, (btable shared).pred⟩ }

/-- Does the entry of the longest match look newly allocated? -/
def pseudoNewAlloc (t : Tables) (l : Lookup) : Bool :=
  decide (l.hitBank > 0) && decide ((hitEntry t l).strength ≤ 1)

/-- `use_alt_on_na`. -/
def updateUseAlt (t : Tables) (l : Lookup) (resolveDir : Bool) : Tables :=
  if pseudoNewAlloc t l && l.longestMatchPred != l.altTaken then
    { t with
      useAltOnNa := Function.update t.useAltOnNa (indUseAlt l)
        (ctrupdate (t.useAltOnNa (indUseAlt l)) (l.altTaken == resolveDir) altWidth) }
  else t

/-- `ALLOC`, before the draw. -/
def wantsAlloc (t : Tables) (l : Lookup) (resolveDir : Bool) : Bool :=
  l.tagePred != resolveDir && decide (l.hitBank < nHist) &&
    !(pseudoNewAlloc t l && l.longestMatchPred == resolveDir)

/-- The prediction counters. -/
def updateCounters (t : Tables) (l : Lookup) (resolveDir : Bool) : Tables :=
  if l.hitBank = 0 then baseupdate t l resolveDir
  else
    let hitIndex := l.gi l.hitBank
    let t :=
      if (hitEntry t l).strength == 1 && l.longestMatchPred != resolveDir then
        if l.altBank > 0 then
          let e := altEntry t l
          t.setGtable l.altBank (l.gi l.altBank)
            { e with ctr := ctrupdate e.ctr resolveDir cWidth }
        else baseupdate t l resolveDir
      else t
    let e := hitEntry t l
    let e := { e with ctr := ctrupdate e.ctr resolveDir cWidth }
    let e := if e.strength == 1 then { e with u := 0 } else e
    let t := t.setGtable l.hitBank hitIndex e
    if l.altTaken == resolveDir && decide (l.altBank > 0) && (altEntry t l).strength == 7 &&
        (hitEntry t l).u == 1 && l.longestMatchPred == resolveDir then
      let e := hitEntry t l
      t.setGtable l.hitBank hitIndex { e with u := 0 }
    else t

/-- An integer stored in an `int8_t`. -/
def toInt8 (x : Int) : Int := (x + 128) % 256 - 128

/-- The `u` counter of the longest match. -/
def updateUseful (cfg : Config) (t : Tables) (l : Lookup) (resolveDir isLdDependent : Bool) :
    Tables :=
  let e := hitEntry t l
  if l.longestMatchPred != l.altTaken && l.longestMatchPred == resolveDir &&
      decide (e.u < 1) then
    let u := toInt8 (e.u + 1)
    let u := if isLdDependent then toInt8 (u + cfg.uIncrment) else u
    t.setGtable l.hitBank (l.gi l.hitBank) { e with u := u }
  else t

/-- `update` after its loop-predictor part; also the next `Seed`.  The random
numbers depend on the running history, the rest on the history of the prediction. -/
def train (cfg : Config) (t : Tables) (seed : Nat) (active : CbpHist) (pc : Nat)
    (resolveDir predTaken : Bool) (h : CbpHist) (l : Lookup) (isLdDependent : Bool) :
    Tables × Nat :=
  let t := updateCorrector t pc h l resolveDir
  let alloc := wantsAlloc t l resolveDir
  let t := updateUseAlt t l resolveDir
  let (alloc, seed) :=
    if predTaken == resolveDir then
      let (number, seed) := myrandom active.phist active.ptghist seed
      (alloc && number &&& 31 == 0, seed)
    else (alloc, seed)
  let (t, seed) :=
    if alloc then allocate t seed active.phist active.ptghist l resolveDir else (t, seed)
  let t := updateCounters t l resolveDir
  (updateUseful cfg t l resolveDir isLdDependent, seed)

end CbpSim.Predictor
