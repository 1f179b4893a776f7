/-
  Predictor/Tables.lean --- the trained tables of TAGE-SC-L.

  Source: src/cbp2016_tage_sc_l.h, the global tables and counters and the part of
  `init_histories` that fills them.

  `Tables` is what training changes; `Lookup` is what a prediction leaves behind
  for the training that follows it.  The banks from 1 to `BORN - 1` are one array,
  those from `BORN` on another.
-/
import CbpSim.Predictor.LoopPredictor

set_option autoImplicit false

namespace CbpSim.Predictor

/-- `NBANKLOW`. -/
def nBankLow : Nat := 10

/-- `NBANKHIGH`. -/
def nBankHigh : Nat := 20

/-- `LOGB`. -/
def logB : Nat := 13

/-- `HYSTSHIFT`. -/
def hystShift : Nat := 2

/-- `LOGBIAS`. -/
def logBias : Nat := 8

/-- `SIZEUSEALT`. -/
def sizeUseAlt : Nat := 16

/-- `PERCWIDTH`. -/
def percWidth : Nat := 6

/-- `EWIDTH`. -/
def eWidth : Nat := 6

/-- `CWIDTH`. -/
def cWidth : Nat := 3

/-- `CONFWIDTH`. -/
def confWidth : Nat := 7

/-- `ALTWIDTH`. -/
def altWidth : Nat := 5

/-- `WIDTHRES`. -/
def widthRes : Nat := 12

/-- `WIDTHRESP`. -/
def widthResP : Nat := 8

/-- `BORNTICK`. -/
def bornTick : Int := 1024

/-- `bentry`: an entry of the bimodal table. -/
structure BEntry where
  hyst : Int := 1
  pred : Int := 0
  deriving DecidableEq, Repr

/-- `gentry`: an entry of the tagged tables. -/
structure GEntry where
  ctr : Int := 0
  tag : Nat := 0
  u : Int := 0
  deriving DecidableEq, Repr

/-- `abs(2 * ctr + 1)`: the confidence of a prediction counter. -/
def GEntry.strength (e : GEntry) : Nat := (2 * e.ctr + 1).natAbs

/-- One component of the statistical corrector: its tables and the counter `W`
that says whether it counts twice. -/
structure Gehl where
  tab : Nat → Nat → Int
  w : Nat → Int

/-- What the source has as constants of a component: `NBR`, `logs`, `length`. -/
structure GehlShape where
  logs : Nat
  length : List Nat
  deriving DecidableEq, Repr

namespace GehlShape

/-- `GGEHL`: global branch history. -/
def ggehl : GehlShape := ⟨10, [40, 24, 10]⟩

/-- `PGEHL`: path history. -/
def pgehl : GehlShape := ⟨9, [25, 16, 9]⟩

/-- `LGEHL`: first local history. -/
def lgehl : GehlShape := ⟨10, [11, 6, 3]⟩

/-- `SGEHL`: second local history. -/
def sgehl : GehlShape := ⟨9, [16, 11, 6]⟩

/-- `TGEHL`: third local history. -/
def tgehl : GehlShape := ⟨10, [9, 4]⟩

/-- `IMGEHL`: history of the inner-most loop iteration. -/
def imgehl : GehlShape := ⟨9, [10, 4]⟩

/-- `IGEHL`: number of the inner-most loop iteration. -/
def igehl : GehlShape := ⟨8, [8]⟩

end GehlShape

/-- The tables and counters that training changes. -/
structure Tables where
  btable : Nat → BEntry
  gtableLow : Nat → GEntry
  gtableHigh : Nat → GEntry
  useAltOnNa : Nat → Int
  tick : Int
  bias : Nat → Int
  biasSK : Nat → Int
  biasBank : Nat → Int
  wb : Nat → Int
  ggehl : Gehl
  pgehl : Gehl
  lgehl : Gehl
  sgehl : Gehl
  tgehl : Gehl
  imgehl : Gehl
  igehl : Gehl
  updateThreshold : Int
  pUpdateThreshold : Nat → Int
  firstH : Int
  secondH : Int

namespace Tables

/-- A component as `init_histories` leaves it. -/
def initGehl (w : Int) : Gehl where
  tab := fun _ j => if j % 2 = 0 then -1 else 0
  w := fun _ => w

/-- One of the bias tables as `init_histories` leaves it. -/
def initBias (weakNot weakTaken strongNot strongTaken : Int) (j : Nat) : Int :=
  match j % 4 with
  | 0 => weakNot
  | 1 => weakTaken
  | 2 => strongNot
  | _ => strongTaken

/-- The tables after `init_histories`; `WIM` and the counters of the chooser are
not written there. -/
def init : Tables where
  btable := fun _ => {}
  gtableLow := fun _ => {}
  gtableHigh := fun _ => {}
  useAltOnNa := fun _ => 0
  tick := 0
  bias := initBias (-32) 31 (-1) 0
  biasSK := initBias (-8) 7 (-32) 31
  biasBank := initBias (-32) 31 (-1) 0
  wb := fun _ => 4
  ggehl := initGehl 7
  pgehl := initGehl 7
  lgehl := initGehl 7
  sgehl := initGehl 7
  tgehl := initGehl 7
  imgehl := initGehl 0
  igehl := initGehl 7
  updateThreshold := 35 * 8
  pUpdateThreshold := fun _ => 0
  firstH := 0
  secondH := 0

/-- `gtable[bank][index]`. -/
def gtable (t : Tables) (bank index : Nat) : GEntry :=
  if bank < born then t.gtableLow index else t.gtableHigh index

/-- `gtable[bank][index] = e`. -/
def setGtable (t : Tables) (bank index : Nat) (e : GEntry) : Tables :=
  if bank < born then { t with gtableLow := Function.update t.gtableLow index e }
  else { t with gtableHigh := Function.update t.gtableHigh index e }

end Tables

/-- The members that `predict_using_given_hist` writes. -/
structure Lookup where
  gi : Nat → Nat := fun _ => 0
  gtag : Nat → Nat := fun _ => 0
  bi : Nat := 0
  bim : Int := 0
  tagePred : Bool := false
  altTaken : Bool := false
  longestMatchPred : Bool := false
  hitBank : Nat := 0
  altBank : Nat := 0
  altConf : Bool := false
  lowConf : Bool := false
  highConf : Bool := false
  medConf : Bool := false
  loop : LoopLookup := {}
  predInter : Bool := false
  lSum : Int := 0
  thres : Int := 0

end CbpSim.Predictor
