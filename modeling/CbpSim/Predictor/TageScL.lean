/-
  Predictor/TageScL.lean --- the predictor object.

  Source: src/cbp2016_tage_sc_l.h, `predict`, `history_update`, `TrackOtherInst`
  and the two functions `update`.

  `predict` keeps a copy of the running history under the id of the instruction;
  `update` predicts again from that copy, trains, and drops it.
-/
import CbpSim.Predictor.Training
import CbpSim.Foundation.Run

set_option autoImplicit false

namespace CbpSim.Predictor

open CbpSim.Foundation

/-- `CBP2016_TAGE_SC_L`. -/
structure TageScL where
  tables : Tables
  seed : Nat
  lookup : Lookup
  activeHist : CbpHist
  predTimeHistories : Nat → Option CbpHist

/-- `PredDebugInfo`, without the list that nothing fills. -/
structure PredDebugInfo where
  predTaken : Bool
  predictorUsed : Nat
  GHIST : Nat
  deriving DecidableEq, Repr

/-- The key of an instruction. -/
def instKey (seqNo piece : Nat) : Nat := (seqNo <<< 4) % 2 ^ 64 ||| (piece &&& 0x000F)

/-- `get_unique_inst_id`. -/
def getUniqueInstId (seqNo piece : Nat) : Except Abort Nat :=
  if piece < 16 then .ok (instKey seqNo piece) else .error .instIdPiece

namespace TageScL

/-- The object after its constructor. -/
def init : TageScL where
  tables := .init
  seed := 0
  lookup := {}
  activeHist := .init
  predTimeHistories := fun _ => none

/-- `predict`; `emplace` keeps what is there under the key. -/
def predict (p : TageScL) (seqNo piece pc : Nat) : Except Abort (PredDebugInfo × TageScL) := do
  let key ← getUniqueInstId seqNo piece
  let saved := (p.predTimeHistories key).getD p.activeHist
  let result := predictUsingGivenHist p.tables pc p.activeHist
  .ok ({ predTaken := result.predTaken
         predictorUsed := result.predictorUsed
         GHIST := p.activeHist.GHIST },
    { p with
      predTimeHistories := Function.update p.predTimeHistories key (some saved)
      lookup := result.lookup })

/-- The update of `WITHLOOP` when the loop prediction was valid and differs from
the prediction. -/
def updateWithLoop (l : LoopLookup) (predTaken right : Bool) (withLoop : Int) : Int :=
  if l.lValid && predTaken != l.predloop then ctrupdate withLoop right 7 else withLoop

/-- The speculative part of `HistoryUpdate` for the loop predictor. -/
def speculateLoop (p : TageScL) (predTaken : Bool) : TageScL :=
  let l := p.lookup.loop
  let h := p.activeHist
  let (ltable, seed) :=
    loopupdate l p.lookup.tagePred h.phist h.ptghist predTaken false h.ltable p.seed
  { p with
    seed := seed
    activeHist := { h with
      ltable := ltable
      withLoop := updateWithLoop l predTaken (l.predloop == predTaken) h.withLoop } }

end TageScL

namespace CbpHist

/-- `IMHIST`. -/
def updateImHist (h : CbpHist) (taken : Bool) : CbpHist :=
  { h with
    imHist := Function.update h.imHist h.imliCount
      ((h.imHist h.imliCount <<< 1 + taken.toNat) % 2 ^ 64) }

/-- `IMLIcount`. -/
def updateImliCount (h : CbpHist) (pc nextPc : Nat) (taken : Bool) : CbpHist :=
  if nextPc < pc then
    if taken then
      if h.imliCount < 2 ^ 8 - 1 then { h with imliCount := h.imliCount + 1 } else h
    else { h with imliCount := 0 }
  else h

/-- `GHIST` and the local histories. -/
def updateLocal (h : CbpHist) (pc nextPc : Nat) (taken : Bool) : CbpHist :=
  let i := localIndex pc
  let j := secondLocalIndex pc
  let k := thirdLocalIndex pc
  { h with
    GHIST := (h.GHIST <<< 1 + (taken && nextPc < pc).toNat) % 2 ^ 64
    lShist := Function.update h.lShist i ((h.lShist i <<< 1 + taken.toNat) % 2 ^ 64)
    sSlhist := Function.update h.sSlhist j
      ((h.sSlhist j <<< 1 + taken.toNat) % 2 ^ 64 ^^^ (pc &&& 15))
    tSlhist := Function.update h.tSlhist k ((h.tSlhist k <<< 1 + taken.toNat) % 2 ^ 64) }

/-- The global history and its folded forms. `T` and `PATH` are `int`s, of which
the three and the ten lowest bits are read. -/
def updateGlobal (h : CbpHist) (pc brtype : Nat) (taken : Bool) (nextPc : Nat) : CbpHist :=
  let maxt := if brtype &&& 1 != 0 then 2 else if brtype &&& 2 != 0 then 3 else 2
  let t := (pc ^^^ (pc >>> 2)) ^^^ taken.toNat
  let path := pc ^^^ (pc >>> 2) ^^^ (pc >>> 4)
  let special := brtype == 3 && taken
  let t := if special then t ^^^ (nextPc >>> 2) else t
  let path := if special then path ^^^ (nextPc >>> 2) ^^^ (nextPc >>> 4) else path
  let h := pushAll maxt (t % 2 ^ 32) (path % 2 ^ 32) h
  { h with phist := h.phist &&& (2 ^ phistWidth - 1) }

end CbpHist

namespace TageScL

/-- A change of the running history. -/
def mapHist (p : TageScL) (f : CbpHist → CbpHist) : TageScL :=
  { p with activeHist := f p.activeHist }

/-- `HistoryUpdate`. -/
def historyUpdate (p : TageScL) (pc brtype : Nat) (predTaken taken : Bool) (nextPc : Nat) :
    TageScL :=
  let p :=
    if brtype &&& 1 != 0 then
      let p := p.mapHist (·.updateImHist taken)
      let p := p.speculateLoop predTaken
      let p := p.mapHist (·.updateImliCount pc nextPc taken)
      p.mapHist (·.updateLocal pc nextPc taken)
    else p
  p.mapHist (·.updateGlobal pc brtype taken nextPc)

/-- `TrackOtherInst`. -/
def trackOtherInst (p : TageScL) (pc brtype : Nat) (predTaken taken : Bool) (nextPc : Nat) :
    TageScL :=
  p.historyUpdate pc brtype predTaken taken nextPc

/-- The resolved direction, applied to the loop table and to `WITHLOOP`. -/
def resolveLoop (p : TageScL) (resolveDir predTaken : Bool) : TageScL :=
  let l := p.lookup.loop
  let h := p.activeHist
  let (ltable, seed) :=
    loopupdate l p.lookup.tagePred h.phist h.ptghist resolveDir (predTaken != resolveDir) h.ltable
      p.seed
  { p with
    seed := seed
    activeHist := { h with
      ltable := ltable
      withLoop := updateWithLoop l predTaken (l.predloop == resolveDir) h.withLoop } }

/-- The loop table and `WITHLOOP` of a saved history. -/
def restoreLoop (p : TageScL) (h : CbpHist) : TageScL :=
  p.mapHist fun active => { active with ltable := h.ltable, withLoop := h.withLoop }

/-- The second `update`. -/
def updateWith (p : TageScL) (cfg : Config) (pc : Nat) (resolveDir predTaken : Bool) (h : CbpHist)
    (isLdDependent : Bool) : TageScL :=
  let p :=
    if predTaken != resolveDir then (p.restoreLoop h).resolveLoop resolveDir predTaken else p
  let (tables, seed) :=
    train cfg p.tables p.seed p.activeHist pc resolveDir predTaken h p.lookup isLdDependent
  { p with tables := tables, seed := seed }

/-- `update`; its `predDir` is not used. -/
def update (p : TageScL) (cfg : Config) (seqNo piece pc : Nat) (resolveDir _predDir : Bool)
    (_nextPc : Nat) (isLdDependent : Bool) : Except Abort TageScL := do
  let key ← getUniqueInstId seqNo piece
  match p.predTimeHistories key with
  | none => .error .tageHistoryMissing
  | some h =>
    let result := predictUsingGivenHist p.tables pc h
    let p := { p with lookup := result.lookup }
    let p := p.updateWith cfg pc resolveDir result.predTaken h isLdDependent
    .ok { p with predTimeHistories := Function.update p.predTimeHistories key none }

end TageScL

/-! ## What the calls do -/

theorem getUniqueInstId_eq_ok {seqNo piece key : Nat} (h : getUniqueInstId seqNo piece = .ok key) :
    key = instKey seqNo piece := by
  unfold getUniqueInstId at h
  split at h
  · exact (Except.ok.inj h).symm
  · cases h

namespace TageScL

variable {p p' : TageScL}

theorem predict_eq_ok {seqNo piece pc : Nat} {info : PredDebugInfo}
    (h : p.predict seqNo piece pc = .ok (info, p')) :
    info.predTaken = (predictUsingGivenHist p.tables pc p.activeHist).predTaken ∧
      p'.tables = p.tables ∧
      p'.predTimeHistories = Function.update p.predTimeHistories (instKey seqNo piece)
        (some ((p.predTimeHistories (instKey seqNo piece)).getD p.activeHist)) := by
  unfold predict at h
  obtain ⟨key, hkey, h⟩ := bind_eq_ok.mp h
  obtain rfl := getUniqueInstId_eq_ok hkey
  obtain ⟨rfl, rfl⟩ := Prod.mk.inj (Except.ok.inj h)
  exact ⟨rfl, rfl, rfl⟩

@[simp] theorem historyUpdate_predTimeHistories (pc brtype : Nat) (predTaken taken : Bool)
    (nextPc : Nat) :
    (p.historyUpdate pc brtype predTaken taken nextPc).predTimeHistories = p.predTimeHistories := by
  unfold historyUpdate
  split <;> rfl

/-- `HistoryUpdate` changes no table. -/
@[simp] theorem historyUpdate_tables (pc brtype : Nat) (predTaken taken : Bool) (nextPc : Nat) :
    (p.historyUpdate pc brtype predTaken taken nextPc).tables = p.tables := by
  unfold historyUpdate
  split <;> rfl

/-- `update` predicts again with the saved history, trains, and drops it. -/
theorem update_saved {cfg : Config} {seqNo piece pc nextPc : Nat}
    {resolveDir predDir isLdDependent : Bool}
    (h : p.update cfg seqNo piece pc resolveDir predDir nextPc isLdDependent = .ok p') :
    ∃ hist, p.predTimeHistories (instKey seqNo piece) = some hist ∧ ∃ trained : TageScL,
      trained = updateWith { p with lookup := (predictUsingGivenHist p.tables pc hist).lookup } cfg
        pc resolveDir (predictUsingGivenHist p.tables pc hist).predTaken hist isLdDependent ∧
      p' = { trained with
        predTimeHistories := Function.update trained.predTimeHistories (instKey seqNo piece) none } := by
  unfold update at h
  obtain ⟨key, hkey, h⟩ := bind_eq_ok.mp h
  obtain rfl := getUniqueInstId_eq_ok hkey
  cases hhist : p.predTimeHistories (instKey seqNo piece) with
  | none => simp [hhist] at h
  | some hist =>
    simp only [hhist] at h
    exact ⟨hist, rfl, _, rfl, (Except.ok.inj h).symm⟩

/-- `update` finds a saved history and drops it; the loop state it leaves depends
on the second prediction. -/
theorem update_eq_ok {cfg : Config} {seqNo piece pc nextPc : Nat}
    {resolveDir predDir isLdDependent : Bool}
    (h : p.update cfg seqNo piece pc resolveDir predDir nextPc isLdDependent = .ok p') :
    ∃ hist, p.predTimeHistories (instKey seqNo piece) = some hist ∧
      p'.predTimeHistories = Function.update p.predTimeHistories (instKey seqNo piece) none ∧
      p'.activeHist.loopState =
        let again := predictUsingGivenHist p.tables pc hist
        if again.predTaken = resolveDir then p.activeHist.loopState
        else (({ p with lookup := again.lookup }.restoreLoop hist).resolveLoop resolveDir
          again.predTaken).activeHist.loopState := by
  obtain ⟨hist, hhist, _, rfl, rfl⟩ := update_saved h
  refine ⟨hist, hhist, ?_, ?_⟩
  · unfold updateWith
    split <;> rfl
  · unfold updateWith
    dsimp only
    generalize predictUsingGivenHist p.tables pc hist = again
    rcases eq_or_ne again.predTaken resolveDir with heq | hne
    · simp [heq]
    · simp [hne]

/-- `update` trains the tables with what the second prediction leaves behind. -/
theorem update_tables {cfg : Config} {seqNo piece pc nextPc : Nat}
    {resolveDir predDir isLdDependent : Bool}
    (h : p.update cfg seqNo piece pc resolveDir predDir nextPc isLdDependent = .ok p') :
    ∃ hist, p.predTimeHistories (instKey seqNo piece) = some hist ∧ ∃ seed active,
      let again := predictUsingGivenHist p.tables pc hist
      p'.tables = (train cfg p.tables seed active pc resolveDir again.predTaken hist again.lookup
        isLdDependent).1 := by
  obtain ⟨hist, hhist, _, rfl, rfl⟩ := update_saved h
  refine ⟨hist, hhist, ?_⟩
  unfold updateWith
  dsimp only
  split
  · exact ⟨_, _, rfl⟩
  · exact ⟨_, _, rfl⟩

end TageScL

end CbpSim.Predictor
