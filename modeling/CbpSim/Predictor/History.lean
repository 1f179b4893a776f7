/-
  Predictor/History.lean --- the histories that TAGE-SC-L predicts from.

  Source: src/cbp2016_tage_sc_l.h, `folded_history`, `lentry`, `cbp_hist_t`, the
  history part of `init_histories` and the loop over `t` of `HistoryUpdate`.

  Arrays are functions of their index.  The index 0 of `ch_i` and `ch_t`, which the
  source never uses, has a value here.
-/
import Mathlib.Logic.Function.Basic
import CbpSim.Common.Abort

set_option autoImplicit false

namespace CbpSim.Predictor

/-! ## Parameters -/

/-- `HISTBUFFERLENGTH`. -/
def histBufferLength : Nat := 4096

/-- `NHIST`: twice the number of different histories. -/
def nHist : Nat := 36

/-- `BORN`: the first bank of the table for long histories. -/
def born : Nat := 13

/-- `LOGG`, and `logg` of every bank. -/
def logG : Nat := 10

/-- `TBITS`. -/
def tBits : Nat := 8

/-- `PHISTWIDTH`. -/
def phistWidth : Nat := 27

/-- The geometric history lengths, from `MINHIST` to `MAXHIST`. -/
def geometric : List Nat :=
  [6, 9, 12, 18, 26, 37, 54, 78, 112, 161, 232, 335, 482, 695, 1002, 1444, 2081, 3000]

/-- The list is `MINHIST * (MAXHIST / MINHIST) ^ (i / 17)`, rounded. -/
theorem geometric_rounded : ∀ p ∈ geometric.zipIdx,
    (2 * p.1 - 1) ^ 17 ≤ (2 * 6) ^ 17 * 500 ^ p.2 ∧
      (2 * 6) ^ 17 * 500 ^ p.2 < (2 * p.1 + 1) ^ 17 := by
  decide

/-- `m[i]`: two banks share a history length. -/
def histLength (i : Nat) : Nat := geometric.getD ((i + 1) / 2 - 1) 0

/-- `TB[i]`. -/
def tagBits (i : Nat) : Nat := if i ≥ born then tBits + 4 else tBits

/-- `NOSKIP[i]`: is the bank in use? -/
def noSkip (i : Nat) : Bool :=
  if i == 4 || i == nHist - 2 || i == 8 || i == nHist - 6 then false
  else (i - 1) % 2 == 1 || (i ≥ 9 && i < 23)

/-! ## Folded histories -/

/-- `folded_history`: a long history folded into `CLENGTH` bits. -/
structure FoldedHistory where
  comp : Nat
  clength : Nat
  olength : Nat
  outpoint : Nat
  deriving DecidableEq, Repr

namespace FoldedHistory

/-- `init`. -/
def init (originalLength compressedLength : Nat) : FoldedHistory where
  comp := 0
  olength := originalLength
  clength := compressedLength
  outpoint := originalLength % compressedLength

end FoldedHistory

/-- `PT & (HISTBUFFERLENGTH - 1)`. -/
def histSlot (pt : Int) : Nat := (pt % histBufferLength).toNat

/-- `folded_history::update`. -/
def FoldedHistory.update (f : FoldedHistory) (h : Nat → Nat) (pt : Int) : FoldedHistory :=
  let comp := (f.comp <<< 1) % 2 ^ 32 ^^^ h (histSlot pt)
  let comp := comp ^^^ (h (histSlot (pt + f.olength)) <<< f.outpoint) % 2 ^ 32
  let comp := comp ^^^ (comp >>> f.clength)
  { f with comp := comp &&& (2 ^ f.clength - 1) }

/-! ## The histories -/

/-- `lentry`: an entry of the loop predictor. -/
structure LEntry where
  nbIter : Nat := 0
  confid : Nat := 0
  currentIter : Nat := 0
  tag : Nat := 0
  age : Nat := 0
  dir : Bool := false
  deriving DecidableEq, Repr

/-- `cbp_hist_t`.  `GHIST` and `ghist` are two fields of the source. -/
structure CbpHist where
  GHIST : Nat
  ghist : Nat → Nat
  phist : Nat
  ptghist : Int
  chI : Nat → FoldedHistory
  chT0 : Nat → FoldedHistory
  chT1 : Nat → FoldedHistory
  lShist : Nat → Nat
  sSlhist : Nat → Nat
  tSlhist : Nat → Nat
  imHist : Nat → Nat
  imliCount : Nat
  ltable : Nat → LEntry
  withLoop : Int

namespace CbpHist

/-- The histories after `init_histories`; what it does not write is zero in a
static object. -/
def init : CbpHist where
  GHIST := 0
  ghist := fun _ => 0
  phist := 0
  ptghist := 0
  chI := fun i => .init (histLength i) logG
  chT0 := fun i => .init (histLength i) (tagBits i)
  chT1 := fun i => .init (histLength i) (tagBits i - 1)
  lShist := fun _ => 0
  sSlhist := fun _ => 3
  tSlhist := fun _ => 0
  imHist := fun _ => 0
  imliCount := 0
  ltable := fun _ => {}
  withLoop := -1

/-- One round of the loop over `t` in `HistoryUpdate`. -/
def push (h : CbpHist) (dir : Bool) (pathBit : Nat) : CbpHist :=
  let ptghist := h.ptghist - 1
  let ghist := Function.update h.ghist (histSlot ptghist) dir.toNat
  { h with
    ptghist := ptghist
    ghist := ghist
    phist := (h.phist <<< 1) % 2 ^ 64 ^^^ pathBit
    chI := fun i => (h.chI i).update ghist ptghist
    chT0 := fun i => (h.chT0 i).update ghist ptghist
    chT1 := fun i => (h.chT1 i).update ghist ptghist }

/-- The loop over `t`: the low bits of `T` and of `PATH`, one a round. -/
def pushAll : Nat → Nat → Nat → CbpHist → CbpHist
  | 0, _, _, h => h
  | n + 1, t, path, h => pushAll n (t >>> 1) (path >>> 1) (h.push (t &&& 1 == 1) (path &&& 127))

/-- The loop table and the counter that says whether to trust it. -/
def loopState (h : CbpHist) : (Nat → LEntry) × Int := (h.ltable, h.withLoop)

@[simp] theorem loopState_push (h : CbpHist) (dir : Bool) (pathBit : Nat) :
    (h.push dir pathBit).loopState = h.loopState := rfl

@[simp] theorem loopState_pushAll (n t path : Nat) (h : CbpHist) :
    (pushAll n t path h).loopState = h.loopState := by
  induction n generalizing t path h with
  | zero => rfl
  | succ n ih => rw [pushAll, ih, loopState_push]

end CbpHist

end CbpSim.Predictor
