/-
  Predictor/Representation.lean --- the representation invariant of the predictor.

  Source: src/cbp2016_tage_sc_l.h, `predict`, `HistoryUpdate`, `update` and what they
  read and write.

  A run makes the calls of the predictor object in any order, so also in the order of
  the simulator.  Every call leaves the counters of the tables and of the histories,
  running and saved, within their bits, and the places that it uses are in their arrays.
-/
import CbpSim.Predictor.Ranges

set_option autoImplicit false

namespace CbpSim.Predictor

open CbpSim.Foundation

/-! ## The histories -/

/-- The path history between branches, `IMLIcount`, and the loop predictor. -/
structure CbpHist.InRange (h : CbpHist) : Prop where
  phist : h.phist < 2 ^ phistWidth
  imliCount : h.imliCount < 256
  ltable : ∀ i, (h.ltable i).InRange
  withLoop : InBits 7 h.withLoop

namespace CbpHist

variable {h : CbpHist}

theorem init_inRange : init.InRange where
  phist := by decide
  imliCount := by decide
  ltable _ := LEntry.inRange_of_zero rfl rfl rfl (Nat.zero_le _)
  withLoop := by decide

theorem InRange.updateImHist (hr : h.InRange) (taken : Bool) : (h.updateImHist taken).InRange :=
  { hr with }

theorem InRange.updateLocal (hr : h.InRange) (pc nextPc : Nat) (taken : Bool) :
    (h.updateLocal pc nextPc taken).InRange :=
  { hr with }

theorem InRange.updateImliCount (hr : h.InRange) (pc nextPc : Nat) (taken : Bool) :
    (h.updateImliCount pc nextPc taken).InRange := by
  unfold CbpHist.updateImliCount
  split
  · split
    · split
      · rename_i hlt
        exact { hr with imliCount := Nat.succ_lt_succ hlt }
      · exact hr
    · exact { hr with imliCount := Nat.zero_lt_succ 255 }
  · exact hr

@[simp] theorem imliCount_pushAll (n t path : Nat) (h : CbpHist) :
    (pushAll n t path h).imliCount = h.imliCount := by
  induction n generalizing t path h with
  | zero => rfl
  | succ n ih => rw [pushAll, ih]; rfl

/-- The rounds leave `phist` wider; the mask after them cuts it. -/
theorem InRange.updateGlobal (hr : h.InRange) (pc brtype : Nat) (taken : Bool) (nextPc : Nat) :
    (h.updateGlobal pc brtype taken nextPc).InRange := by
  unfold CbpHist.updateGlobal
  dsimp only
  generalize hpushed : pushAll _ _ _ h = pushed
  have himli : pushed.imliCount = h.imliCount := by rw [← hpushed, imliCount_pushAll]
  have hloop : pushed.loopState = h.loopState := by rw [← hpushed, loopState_pushAll]
  obtain ⟨hltable, hwithLoop⟩ := Prod.mk.inj hloop
  exact {
    phist := and_mask_lt _ _
    imliCount := himli.trans_lt hr.imliCount
    ltable := fun i => (congrFun hltable i).symm ▸ hr.ltable i
    withLoop := hwithLoop.symm ▸ hr.withLoop }

/-- The loop predictor takes its step. -/
theorem InRange.withLoopState (hr : h.InRange) {ltable : Nat → LEntry} {withLoop : Int}
    (hltable : ∀ i, (ltable i).InRange) (hwithLoop : InBits 7 withLoop) :
    (h.withLoopState ltable withLoop).InRange :=
  { hr with ltable := hltable, withLoop := hwithLoop }

end CbpHist

/-! ## The predictor object -/

namespace TageScL

/-- **The representation invariant.**  Every counter is within its bits, and what the
last prediction left in the members is in bounds. -/
structure InRange (p : TageScL) : Prop where
  tables : p.tables.InRange
  lookup : p.lookup.InBounds
  activeHist : p.activeHist.InRange
  saved : ∀ key h, p.predTimeHistories key = some h → h.InRange

variable {cfg : Config} {p p' : TageScL}

theorem init_inRange : init.InRange where
  tables := tables_init_inRange
  lookup := lookup_init_inBounds
  activeHist := CbpHist.init_inRange
  saved _ _ h := by cases h

theorem inBits_updateWithLoop {withLoop : Int} (h : InBits 7 withLoop) (l : LoopLookup)
    (predTaken right : Bool) : InBits 7 (updateWithLoop l predTaken right withLoop) := by
  unfold updateWithLoop
  split
  · exact h.ctrupdate right
  · exact h

theorem InRange.mapHist (hp : p.InRange) {f : CbpHist → CbpHist}
    (hf : ∀ h : CbpHist, h.InRange → (f h).InRange) : (p.mapHist f).InRange :=
  { hp with activeHist := hf _ hp.activeHist }

theorem InRange.speculateLoop (hp : p.InRange) (predTaken : Bool) :
    (p.speculateLoop predTaken).InRange :=
  { hp with
    activeHist := hp.activeHist.withLoopState
      (loopupdate_inRange hp.activeHist.ltable _ _ _ _ _ _ _)
      (inBits_updateWithLoop hp.activeHist.withLoop _ _ _) }

theorem InRange.resolveLoop (hp : p.InRange) (resolveDir predTaken : Bool) :
    (p.resolveLoop resolveDir predTaken).InRange :=
  { hp with
    activeHist := hp.activeHist.withLoopState
      (loopupdate_inRange hp.activeHist.ltable _ _ _ _ _ _ _)
      (inBits_updateWithLoop hp.activeHist.withLoop _ _ _) }

/-- The loop state of a saved history is put back. -/
theorem InRange.restoreLoop (hp : p.InRange) {h : CbpHist} (hr : h.InRange) :
    (p.restoreLoop h).InRange :=
  hp.mapHist fun _ active => active.withLoopState hr.ltable hr.withLoop

theorem InRange.historyUpdate (hp : p.InRange) (c : HistoryCall) (predTaken : Bool) :
    (p.historyUpdate c.pc c.brtype predTaken c.taken c.nextPc).InRange := by
  have himHist := hp.mapHist fun _ hr => hr.updateImHist c.taken
  have hspeculated := himHist.speculateLoop predTaken
  have hcounted := hspeculated.mapHist fun _ hr => hr.updateImliCount c.pc c.nextPc c.taken
  have hlocal := hcounted.mapHist fun _ hr => hr.updateLocal c.pc c.nextPc c.taken
  unfold TageScL.historyUpdate
  apply InRange.mapHist
  · split
    · exact hlocal
    · exact hp
  · exact fun _ hr => hr.updateGlobal c.pc c.brtype c.taken c.nextPc

/-- A prediction saves the running history, or keeps what is saved. -/
theorem InRange.predict (hp : p.InRange) {seqNo piece pc : Nat} {info : PredDebugInfo}
    (h : p.predict seqNo piece pc = .ok (info, p')) : p'.InRange := by
  obtain ⟨key, -, h⟩ := bind_eq_ok.mp h
  obtain ⟨-, rfl⟩ := Prod.mk.inj (Except.ok.inj h)
  refine { hp with lookup := predictUsingGivenHist_inBounds _ _ _, saved := ?_ }
  intro key' hist hsaved
  dsimp only at hsaved
  rcases eq_or_ne key' key with rfl | hne
  · rw [Function.update_self] at hsaved
    rw [← Option.some.inj hsaved]
    cases hold : p.predTimeHistories key' with
    | none => exact hp.activeHist
    | some old => exact hp.saved key' old hold
  · rw [Function.update_of_ne hne] at hsaved
    exact hp.saved key' hist hsaved

/-- The training reads what its own prediction left behind. -/
theorem InRange.updateWith (hp : p.InRange) (hbim : 0 ≤ p.lookup.bim ∧ p.lookup.bim ≤ 3)
    (cfg : Config) (pc : Nat) (resolveDir predTaken : Bool) {h : CbpHist} (hr : h.InRange)
    (isLdDependent : Bool) :
    (p.updateWith cfg pc resolveDir predTaken h isLdDependent).InRange := by
  unfold TageScL.updateWith
  dsimp only
  split
  · have hresolved := (hp.restoreLoop hr).resolveLoop resolveDir predTaken
    exact { hresolved with
      tables := hresolved.tables.train cfg _ _ pc resolveDir predTaken h hbim isLdDependent }
  · exact { hp with
      tables := hp.tables.train cfg _ _ pc resolveDir predTaken h hbim isLdDependent }

theorem InRange.update (hp : p.InRange) {seqNo piece pc nextPc : Nat}
    {resolveDir predDir isLdDependent : Bool}
    (h : p.update cfg seqNo piece pc resolveDir predDir nextPc isLdDependent = .ok p') :
    p'.InRange := by
  obtain ⟨key, -, h⟩ := bind_eq_ok.mp h
  cases hsaved : p.predTimeHistories key with
  | none => simp [hsaved] at h
  | some hist =>
    simp only [hsaved] at h
    obtain rfl := Except.ok.inj h
    have hpredicted : { p with lookup := (predictUsingGivenHist p.tables pc hist).lookup }.InRange :=
      { hp with lookup := predictUsingGivenHist_inBounds _ _ _ }
    have htrained := hpredicted.updateWith (hp.tables.predict_bim pc hist) cfg pc
      resolveDir (predictUsingGivenHist p.tables pc hist).predTaken (hp.saved key hist hsaved)
      isLdDependent
    refine { htrained with saved := ?_ }
    intro key' hist' hsaved'
    dsimp only at hsaved'
    rcases eq_or_ne key' key with rfl | hne
    · rw [Function.update_self] at hsaved'
      cases hsaved'
    · rw [Function.update_of_ne hne] at hsaved'
      exact htrained.saved key' hist' hsaved'

/-- **Every call keeps the representation invariant.** -/
theorem InRange.step (hp : p.InRange) {call : TageCall} (h : p.step cfg call = .ok p') :
    p'.InRange := by
  cases call with
  | predict seqNo piece pc =>
    obtain ⟨⟨info, q⟩, hpredict, h⟩ := bind_eq_ok.mp h
    obtain rfl := Except.ok.inj h
    exact hp.predict hpredict
  | historyUpdate c predTaken =>
    obtain rfl := Except.ok.inj h
    exact hp.historyUpdate c predTaken
  | trackOtherInst c predTaken =>
    obtain rfl := Except.ok.inj h
    exact hp.historyUpdate c predTaken
  | update seqNo piece pc resolveDir predDir nextPc isLdDependent =>
    have hupdate : p.update cfg seqNo piece pc resolveDir predDir nextPc isLdDependent = .ok p' := h
    exact hp.update hupdate

end TageScL

/-! ## The cells that a call uses -/

namespace CbpHist

/-- The rounds of the loop over `t`. -/
def rounds (brtype : Nat) : Nat :=
  if brtype &&& 1 != 0 then 2 else if brtype &&& 2 != 0 then 3 else 2

/-- The cells of a round with the pointer `pt`: the new bit, and for each folded history
the bit that enters and the bit that leaves. -/
def roundCells (h : CbpHist) (pt : Int) : List Cell :=
  .ghist (histSlot pt) :: (List.range' 1 nHist).flatMap fun i =>
    [.perBank i, .ghist (histSlot (pt + (h.chI i).olength)),
      .ghist (histSlot (pt + (h.chT0 i).olength)), .ghist (histSlot (pt + (h.chT1 i).olength))]

/-- The cells of the history arrays that `HistoryUpdate` uses. -/
def followCells (h : CbpHist) (c : HistoryCall) : List Cell :=
  (if c.brtype &&& 1 != 0 then
    [.imHist h.imliCount, .lShist (localIndex c.pc), .sSlhist (secondLocalIndex c.pc),
      .tSlhist (thirdLocalIndex c.pc)]
  else []) ++
  (List.range (rounds c.brtype)).flatMap fun r => h.roundCells (h.ptghist - 1 - r)

end CbpHist

namespace TageScL

/-- The entry of the loop predictor that the last prediction has hit. -/
def speculateCells (l : LoopLookup) : List Cell :=
  match l.lHit with
  | some way => [.ltable (l.index way)]
  | none => []

/-- The cells of `HistoryUpdate`. -/
def historyCells (p : TageScL) (c : HistoryCall) : List Cell :=
  speculateCells p.lookup.loop ++ p.activeHist.followCells c

/-- The cells that a call uses.  `update` predicts again, and trains, with a saved
history; without one it throws first. -/
def cells (p : TageScL) : TageCall → List Cell
  | .predict _ _ pc =>
    (predictUsingGivenHist p.tables pc p.activeHist).lookup.predictCells pc p.activeHist
  | .historyUpdate c _ => p.historyCells c
  | .trackOtherInst c _ => p.historyCells c
  | .update seqNo piece pc _ _ _ _ =>
    match p.predTimeHistories (instKey seqNo piece) with
    | none => []
    | some h =>
      let l := (predictUsingGivenHist p.tables pc h).lookup
      l.predictCells pc h ++ l.trainCells pc h

end TageScL

theorem CbpHist.followCells_inBounds {h : CbpHist} (hr : h.InRange) (c : HistoryCall) :
    ∀ cell ∈ h.followCells c, cell.InBounds := by
  unfold followCells
  rw [List.forall_mem_append]
  constructor
  · split
    · intro cell hcell
      simp only [List.mem_cons, List.not_mem_nil, or_false] at hcell
      rcases hcell with rfl | rfl | rfl | rfl
      · exact hr.imliCount
      · exact localIndex_lt c.pc
      · exact secondLocalIndex_lt c.pc
      · exact thirdLocalIndex_lt c.pc
    · simp
  · intro cell hcell
    obtain ⟨r, -, hcell⟩ := List.mem_flatMap.mp hcell
    rcases List.mem_cons.mp hcell with rfl | hcell
    · exact histSlot_lt _
    · obtain ⟨i, hi, hcell⟩ := List.mem_flatMap.mp hcell
      have hi := List.mem_range'_1.mp hi
      simp only [List.mem_cons, List.not_mem_nil, or_false] at hcell
      rcases hcell with rfl | rfl | rfl | rfl
      · exact Nat.le_of_lt_succ (hi.2.trans_eq (Nat.add_comm 1 nHist))
      · exact histSlot_lt _
      · exact histSlot_lt _
      · exact histSlot_lt _

namespace TageScL

variable {cfg : Config} {p p' : TageScL}

theorem InRange.historyCells (hp : p.InRange) (c : HistoryCall) :
    ∀ cell ∈ p.historyCells c, cell.InBounds := by
  unfold TageScL.historyCells
  rw [List.forall_mem_append]
  refine ⟨?_, CbpHist.followCells_inBounds hp.activeHist c⟩
  unfold speculateCells
  split
  · rename_i way hhit
    intro cell hcell
    rw [List.mem_singleton.mp hcell]
    exact hp.lookup.loop.index way (hp.lookup.loop.lHit way hhit)
  · simp

/-- Every place that a call uses is in its array. -/
theorem InRange.cells (hp : p.InRange) (call : TageCall) : ∀ cell ∈ p.cells call, cell.InBounds := by
  cases call with
  | predict seqNo piece pc =>
    exact (predictUsingGivenHist_inBounds _ pc _).predictCells pc hp.activeHist.imliCount
  | historyUpdate c predTaken => exact hp.historyCells c
  | trackOtherInst c predTaken => exact hp.historyCells c
  | update seqNo piece pc resolveDir predDir nextPc isLdDependent =>
    dsimp only [TageScL.cells]
    cases hsaved : p.predTimeHistories (instKey seqNo piece) with
    | none => simp
    | some h =>
      have hbounds := predictUsingGivenHist_inBounds p.tables pc h
      have himli := (hp.saved _ h hsaved).imliCount
      exact List.forall_mem_append.mpr ⟨hbounds.predictCells pc himli, hbounds.trainCells pc himli⟩

/-- The invariant holds after any calls of a new object. -/
theorem inRange_of_run {calls : List TageCall} (hrun : Run (step cfg) init calls p) : p.InRange :=
  hrun.induct init_inRange fun _ _ _ _ hq hstep => hq.step hstep

end TageScL

end CbpSim.Predictor
