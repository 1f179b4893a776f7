/-
  Predictor/Tage.lean --- the prediction.

  Source: src/cbp2016_tage_sc_l.h, `gindex`, `gtag`, `getbim`, `Tagepred`,
  `Gpredict` and `predict_using_given_hist`.

  A prediction reads the tables and a history and changes neither.  It writes every
  member of the predictor that it reads, so what the members held before does not
  matter: `predictUsingGivenHist` is a function of tables, history and program
  counter.
-/
import CbpSim.Predictor.Tables

set_option autoImplicit false

namespace CbpSim.Predictor

/-! ## Indices and tags -/

/-- `F`: mixes the path history. -/
def mixPath (a size bank : Nat) : Nat :=
  let a := a &&& (2 ^ size - 1)
  let a1 := a &&& (2 ^ logG - 1)
  let a2 := a >>> logG
  let a2 :=
    if bank < logG then ((a2 <<< bank) &&& (2 ^ logG - 1)) + (a2 >>> (logG - bank)) else a2
  let a := a1 ^^^ a2
  if bank < logG then ((a <<< bank) &&& (2 ^ logG - 1)) + (a >>> (logG - bank)) else a

/-- `gindex`: the hash of program counter, history and path; its program counter
is 32 bits wide. -/
def gindex (pc bank phist : Nat) (chI : Nat → FoldedHistory) : Nat :=
  let pc := pc % 2 ^ 32
  let size := if histLength bank > phistWidth then phistWidth else histLength bank
  let shift := ((logG : Int) - bank).natAbs + 1
  (pc ^^^ (pc >>> shift) ^^^ (chI bank).comp ^^^ mixPath phist size bank) &&& (2 ^ logG - 1)

/-- `gtag`. -/
def gtag (pc bank : Nat) (chT0 chT1 : Nat → FoldedHistory) : Nat :=
  let pc := pc % 2 ^ 32
  (pc ^^^ (chT0 bank).comp ^^^ ((chT1 bank).comp <<< 1) % 2 ^ 32) &&& (2 ^ tagBits bank - 1)

/-- The odd bank of a pair. -/
def oddBank (i : Nat) : Nat := if i % 2 = 1 then i else i - 1

/-- `GTAG` after the first loop of `Tagepred`: two banks share a tag. -/
def gtags (pc : Nat) (h : CbpHist) (i : Nat) : Nat := gtag pc (oddBank i) h.chT0 h.chT1

/-- `GI` after the first loop of `Tagepred`. -/
def gis (pc : Nat) (h : CbpHist) (i : Nat) : Nat :=
  let index := gindex pc (oddBank i) h.phist h.chI
  if i % 2 = 1 then index else index ^^^ (gtags pc h i &&& (2 ^ logG - 1))

/-- The loops of `Tagepred` that give each active bank a part `T` of the table. -/
def spread (nBanks : Nat) : List Nat → Nat → (Nat → Nat) → Nat → Nat
  | [], _, gi => gi
  | i :: banks, t, gi =>
    if noSkip i then
      spread nBanks banks ((t + 1) % nBanks) (Function.update gi i (gi i + t <<< logG))
    else spread nBanks banks t gi

/-- `GI` when `Tagepred` looks the banks up. -/
def bankIndices (pc : Nat) (h : CbpHist) : Nat → Nat :=
  let tHigh := (pc ^^^ (h.phist &&& (2 ^ histLength born - 1))) % nBankHigh
  let tLow := (pc ^^^ (h.phist &&& (2 ^ histLength 1 - 1))) % nBankLow
  spread nBankLow (List.range' 1 (born - 1)) tLow
    (spread nBankHigh (List.range' born (nHist + 1 - born)) tHigh (gis pc h))

/-! ## TAGE -/

/-- `getbim`: the bimodal prediction. -/
def getbim (t : Tables) (l : Lookup) : Bool × Lookup :=
  let bim := (t.btable l.bi).pred * 2 + (t.btable (l.bi >>> hystShift)).hyst
  let highConf := bim == 0 || bim == 3
  ((t.btable l.bi).pred > 0,
    { l with
      bim := bim
      highConf := highConf
      lowConf := !highConf
      altConf := highConf
      medConf := false })

/-- Does the bank hold an entry for the branch? -/
def hits (t : Tables) (l : Lookup) (i : Nat) : Bool :=
  noSkip i && (t.gtable i (l.gi i)).tag == l.gtag i

/-- The last bank before `last + 1` that holds an entry, 0 if there is none. -/
def longestHit (t : Tables) (l : Lookup) (last : Nat) : Nat :=
  ((List.range' 1 last).reverse.find? (hits t l)).getD 0

/-- The entry of the longest match. -/
def hitEntry (t : Tables) (l : Lookup) : GEntry := t.gtable l.hitBank (l.gi l.hitBank)

/-- The entry of the alternate match. -/
def altEntry (t : Tables) (l : Lookup) : GEntry := t.gtable l.altBank (l.gi l.altBank)

/-- `INDUSEALT`. -/
def indUseAlt (l : Lookup) : Nat := ((l.hitBank - 1) / 8 * 2 + l.altConf.toNat) % (sizeUseAlt - 1)

/-- `Tagepred`. -/
def tagepred (t : Tables) (pc : Nat) (h : CbpHist) : Lookup :=
  let l : Lookup :=
    { gi := bankIndices pc h
      gtag := gtags pc h
      bi := (pc ^^^ (pc >>> 2)) &&& (2 ^ logB - 1) }
  let (bimodal, l) := getbim t l
  let hitBank := longestHit t l nHist
  let altBank := longestHit t l (hitBank - 1)
  let l := { l with
    altTaken := bimodal
    tagePred := bimodal
    hitBank := hitBank
    altBank := altBank }
  if hitBank = 0 then { l with longestMatchPred := bimodal }
  else
    let hit := hitEntry t l
    let longest : Bool := hit.ctr ≥ 0
    let (alternate, l) : Bool × Lookup :=
      if altBank > 0 then
        (decide ((altEntry t l).ctr ≥ 0), { l with altConf := decide ((altEntry t l).strength > 1) })
      else getbim t l
    let useAlt : Bool := t.useAltOnNa (indUseAlt l) ≥ 0
    { l with
      longestMatchPred := longest
      altTaken := alternate
      tagePred := if !useAlt || hit.strength > 1 then longest else alternate
      highConf := hit.strength ≥ 2 ^ cWidth - 1
      lowConf := hit.strength == 1
      medConf := hit.strength == 5 }

/-! ## The statistical corrector -/

/-- `INDUPD`. -/
def indUpd (pc : Nat) : Nat := (pc ^^^ (pc >>> 2)) &&& (2 ^ 6 - 1)

/-- `INDUPDS`. -/
def indUpdS (pc : Nat) : Nat := (pc ^^^ (pc >>> 2)) &&& (2 ^ 3 - 1)

/-- `get_local_index`. -/
def localIndex (pc : Nat) : Nat := (pc ^^^ (pc >>> 2)) &&& (256 - 1)

/-- `get_second_local_index`. -/
def secondLocalIndex (pc : Nat) : Nat := (pc ^^^ (pc >>> 5)) &&& (16 - 1)

/-- `get_third_local_index`. -/
def thirdLocalIndex (pc : Nat) : Nat := (pc ^^^ (pc >>> 10)) &&& (16 - 1)

/-- `get_bias_index`. -/
def biasIndex (pc : Nat) (l : Lookup) : Nat :=
  ((((pc ^^^ (pc >>> 2)) <<< 1 ^^^ (l.lowConf && l.longestMatchPred != l.altTaken).toNat) <<< 1) +
    l.predInter.toNat) &&& (2 ^ logBias - 1)

/-- `get_biassk_index`. -/
def biasSKIndex (pc : Nat) (l : Lookup) : Nat :=
  ((((pc ^^^ (pc >>> (logBias - 2))) <<< 1 ^^^ l.highConf.toNat) <<< 1) + l.predInter.toNat) &&&
    (2 ^ logBias - 1)

/-- `get_biasbank_index`. -/
def biasBankIndex (pc : Nat) (l : Lookup) : Nat :=
  (l.predInter.toNat + ((l.hitBank + 1) / 4) <<< 4 + l.highConf.toNat <<< 1 +
    l.lowConf.toNat <<< 2 + (l.altBank != 0).toNat <<< 3 + (pc ^^^ (pc >>> 2)) <<< 7) &&&
    (2 ^ logBias - 1)

/-- `2 * ctr + 1`. -/
def centred (ctr : Int) : Int := 2 * ctr + 1

/-- The vote of the three bias tables. -/
def biasSum (t : Tables) (pc : Nat) (l : Lookup) : Int :=
  centred (t.bias (biasIndex pc l)) + centred (t.biasSK (biasSKIndex pc l)) +
    centred (t.biasBank (biasBankIndex pc l))

/-- `W[..] >= 0`, as the number it is added as. -/
def doubled (w : Int) : Int := if w ≥ 0 then 1 else 0

/-- `bhist` and `GINDEX` for table `i`. -/
def GehlShape.index (s : GehlShape) (pc bHist i : Nat) : Nat :=
  let bhist := bHist &&& (2 ^ s.length.getD i 0 - 1)
  let half := if i ≥ s.length.length - 2 then 1 else 0
  (pc ^^^ bhist ^^^ (bhist >>> (8 - i)) ^^^ (bhist >>> (16 - 2 * i)) ^^^ (bhist >>> (24 - 3 * i)) ^^^
    (bhist >>> (32 - 3 * i)) ^^^ (bhist >>> (40 - 4 * i))) &&& (2 ^ (s.logs - half) - 1)

/-- `PERCSUM`: the vote of the tables of a component. -/
def Gehl.percsum (g : Gehl) (s : GehlShape) (pc bHist : Nat) : Int :=
  ((List.range s.length.length).map fun i => centred (g.tab i (s.index pc bHist i))).sum

/-- `Gpredict`. -/
def gpredict (g : Gehl) (s : GehlShape) (pc bHist : Nat) : Int :=
  (1 + doubled (g.w (indUpdS pc))) * g.percsum s pc bHist

/-- The program counter that the global component is asked with. -/
def globalPc (pc : Nat) (l : Lookup) : Nat := ((pc <<< 1) % 2 ^ 64 + l.predInter.toNat) % 2 ^ 64

/-- `LSUM`: the vote of the statistical corrector. -/
def scSum (t : Tables) (pc : Nat) (h : CbpHist) (l : Lookup) : Int :=
  (1 + doubled (t.wb (indUpdS pc))) * biasSum t pc l +
    gpredict t.ggehl .ggehl (globalPc pc l) h.GHIST +
    gpredict t.pgehl .pgehl pc h.phist +
    gpredict t.lgehl .lgehl pc (h.lShist (localIndex pc)) +
    gpredict t.sgehl .sgehl pc (h.sSlhist (secondLocalIndex pc)) +
    gpredict t.tgehl .tgehl pc (h.tSlhist (thirdLocalIndex pc)) +
    gpredict t.imgehl .imgehl pc (h.imHist h.imliCount) +
    gpredict t.igehl .igehl pc h.imliCount

/-- `THRES`. -/
def threshold (t : Tables) (pc : Nat) : Int :=
  let i := indUpdS pc
  t.updateThreshold / 8 + t.pUpdateThreshold (indUpd pc) +
    12 * (doubled (t.wb i) + doubled (t.pgehl.w i) + doubled (t.sgehl.w i) + doubled (t.tgehl.w i) +
      doubled (t.lgehl.w i) + doubled (t.ggehl.w i) + doubled (t.igehl.w i))

/-- The chooser between the corrector and its input: the direction, and whether it
is the corrector's. -/
def choose (t : Tables) (l : Lookup) : Bool × Bool :=
  let scPred : Bool := l.lSum ≥ 0
  if l.predInter == scPred then (l.predInter, false)
  else
    let sum : Int := l.lSum.natAbs
    let choice := (scPred, true)
    let choice :=
      if !l.highConf then choice
      else if sum < l.thres.tdiv 4 then (l.predInter, false)
      else if sum < l.thres.tdiv 2 then
        if t.secondH < 0 then (scPred, true) else (l.predInter, false)
      else choice
    if l.medConf && decide (sum < l.thres.tdiv 4) then
      if t.firstH < 0 then (scPred, true) else (l.predInter, false)
    else choice

/-! ## The prediction -/

/-- What a prediction returns, and what it leaves behind. -/
structure Prediction where
  predTaken : Bool
  predictorUsed : Nat
  lookup : Lookup

/-- `predict_using_given_hist`. -/
def predictUsingGivenHist (t : Tables) (pc : Nat) (h : CbpHist) : Prediction :=
  let l := tagepred t pc h
  let loop := getloop pc h.ltable
  let useLoop := decide (h.withLoop ≥ 0) && loop.lValid
  let l := { l with loop := loop, predInter := if useLoop then loop.predloop else l.tagePred }
  let l := { l with lSum := scSum t pc h l, thres := threshold t pc }
  let (predTaken, corrector) := choose t l
  { predTaken := predTaken
    predictorUsed := if corrector then 2 else if useLoop then 1 else 0
    lookup := l }

end CbpSim.Predictor
