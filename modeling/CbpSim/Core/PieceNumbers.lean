/-
  Core/PieceNumbers.lean --- the number of a piece and the id made of it.

  Source: src/lib/uarchsim.cc, `piece` and `seq_no` in `step`;
  src/cond_branch_predictor_interface.cc, `get_unique_inst_id`.

  `step` numbers the pieces of an instruction from 0 and starts again behind the
  last one.  An id has four bits for the number.  The hooks that make one are
  called with the piece of the instruction that is fetched or of an entry of the
  window, so where the pieces are below 16 no hook stops for it.
-/
import CbpSim.Core.Checkpoints
import CbpSim.Core.Directions
import CbpSim.Trace.PieceCounts

set_option autoImplicit false

namespace CbpSim.Core

open CbpSim.Foundation CbpSim.Predictor

variable {P H V G : Type}

/-! ## Numbering -/

/-- `piece++`, in a byte. -/
def nextPiece (piece : Nat) : Nat := if piece = 255 then 0 else piece + 1

/-- `piece` behind an instruction that is stepped. -/
def pieceAfter (piece : Nat) (inst : DbInst) : Nat :=
  if inst.isLastPiece then 255 else nextPiece piece

/-- The numbers that `step` gives the instructions of a list, one after the other. -/
def pieceNumbers : Nat → List DbInst → List Nat
  | _, [] => []
  | piece, inst :: insts => nextPiece piece :: pieceNumbers (pieceAfter piece inst) insts

theorem pieceNumbers_concat (piece : Nat) (insts : List DbInst) (inst : DbInst) :
    pieceNumbers piece (insts ++ [inst]) =
      pieceNumbers piece insts ++ [nextPiece (insts.foldl pieceAfter piece)] := by
  induction insts generalizing piece with
  | nil => rfl
  | cons first insts ih =>
    rw [List.cons_append, pieceNumbers, ih, pieceNumbers, List.foldl_cons, List.cons_append]

section Steps

variable {cfg : Config} {hk : Hooks P H} {s s' : Uarchsim P} {inst : DbInst} {c : Course P}

open Uarchsim

theorem beginStep_piece {a : Uarchsim P} (h : s.beginStep cfg hk = .ok a) :
    a.piece = nextPiece s.piece := by
  unfold beginStep at h
  obtain ⟨-, h⟩ := guard_eq_ok.mp h
  obtain ⟨pipe, -, h⟩ := bind_eq_ok.mp h
  rw [← Except.ok.inj h]
  rfl

theorem Course.Leads.piece (h : Course.Leads cfg hk s inst c) :
    c.before.piece = nextPiece s.piece := by
  obtain ⟨-, -, _, -, hblocked⟩ := fetchBlock_eq_ok h.blocked
  obtain ⟨_, _, -, -, hbefore⟩ := predictValue_eq_ok h.before
  have hbegun := beginStep_piece h.begun
  rw [hbefore, hblocked]
  exact hbegun

/-- The piece that a step leaves. -/
theorem Course.Of.piece (h : Course.Of cfg hk s inst c s') : s'.piece = pieceAfter s.piece inst := by
  obtain ⟨-, -, _, hpredicted⟩ := predictBranch_frame h.predicted
  obtain ⟨_, htold, -⟩ := updatePredTaken_eq_ok h.told
  obtain ⟨ldst, alu, hended⟩ := endStep_eq_ok h.ended
  have hmanaged : c.managed.piece = nextPiece s.piece := by
    rw [h.managed_eq.2.2, h.written_eq]
    exact h.toLeads.piece
  have htold' : c.told.piece = nextPiece s.piece := by
    rw [htold, hpredicted]
    exact hmanaged
  rw [h.last, pieceAfter, ← htold']
  dsimp only at hended
  split at hended
  · rw [hended.2]
  · rw [hended]

/-- The instructions are numbered one after the other, and their pieces from 0. -/
structure Numbered (insts : List DbInst) (s : Uarchsim P) : Prop where
  numUop : s.numUop = insts.length
  piece : s.piece = insts.foldl pieceAfter 255
  seqNos : s.fetched.map (·.seqNo) = List.range insts.length
  pieces : s.fetched.map (·.piece) = pieceNumbers 255 insts

theorem new_numbered {u : Unset} {p : P} (h : new u cfg p = .ok s) : Numbered [] s := by
  unfold new at h
  obtain ⟨L3, -, h⟩ := bind_eq_ok.mp h
  obtain ⟨L2, -, h⟩ := bind_eq_ok.mp h
  obtain ⟨L1, -, h⟩ := bind_eq_ok.mp h
  obtain ⟨IC, -, h⟩ := bind_eq_ok.mp h
  obtain ⟨-, h⟩ := guard_eq_ok.mp h
  obtain ⟨-, h⟩ := guard_eq_ok.mp h
  obtain ⟨-, h⟩ := guard_eq_ok.mp h
  cases h
  exact ⟨rfl, rfl, rfl, rfl⟩

theorem Numbered.step {insts : List DbInst} (hs : Numbered insts s)
    (h : Course.Of cfg hk s inst c s') : Numbered (insts ++ [inst]) s' := by
  obtain ⟨-, hbefore⟩ := h.before_eq
  have hnum : c.before.numUop = insts.length := by
    rw [hbefore]
    exact hs.numUop
  have hfetched : s'.fetched = s.fetched ++ [c.fetched cfg inst] := by
    rw [h.last, hbefore]
  have hseq : (c.fetched cfg inst).seqNo = insts.length := hnum
  have hpiece : (c.fetched cfg inst).piece = nextPiece (insts.foldl pieceAfter 255) := by
    rw [← hs.piece]
    exact h.toLeads.piece
  exact {
    numUop := by
      rw [h.last_eq.2, h.managed_eq.2.2, h.written_eq, List.length_append, List.length_singleton,
        ← hnum]
    piece := by
      rw [h.piece, hs.piece, List.foldl_append]
      rfl
    seqNos := by
      rw [hfetched, List.map_append, hs.seqNos, List.map_singleton, hseq, List.length_append,
        List.length_singleton, List.range_succ]
    pieces := by
      rw [hfetched, List.map_append, hs.pieces, List.map_singleton, hpiece,
        ← pieceNumbers_concat] }

/-- Every run numbers its instructions so. -/
theorem numbered_of_simulate {u : Unset} {p : P} {insts : List DbInst}
    (h : simulate u cfg hk p insts = .ok s) : Numbered insts s := by
  obtain ⟨s₀, hnew, log, hran, rfl⟩ := simulate_eq_ok.mp h
  clear h
  induction hran with
  | nil => exact new_numbered hnew
  | snoc _ hc ih =>
    rw [List.map_append, List.map_singleton]
    exact ih.step hc

end Steps

/-! ## Ids -/

/-- The number of a piece is in the low four bits. -/
theorem instKey_eq (seqNo : Nat) {piece : Nat} (hpiece : piece < 16) :
    instKey seqNo piece = seqNo % 2 ^ 60 * 16 + piece := by
  have hlow : piece &&& 0x000F = piece := by
    rw [show (0x000F : Nat) = 2 ^ 4 - 1 from rfl, Nat.and_two_pow_sub_one_eq_mod]
    exact Nat.mod_eq_of_lt hpiece
  have hhigh : (seqNo <<< 4) % 2 ^ 64 = (seqNo % 2 ^ 60) <<< 4 := by
    rw [Nat.shiftLeft_eq, Nat.shiftLeft_eq]
    omega
  rw [instKey, hlow, hhigh, ← Nat.shiftLeft_add_eq_or_of_lt hpiece, Nat.shiftLeft_eq]

/-- No two pieces of one number are a multiple of `2 ^ 60` places apart. -/
def NoneAliased (pieces : List Nat) : Prop :=
  ∀ i j piece : Nat, i < j → 2 ^ 60 ∣ j - i → pieces[i]? = some piece →
    pieces[j]? ≠ some piece

theorem noneAliased_of_length {pieces : List Nat} (h : pieces.length ≤ 2 ^ 60) :
    NoneAliased pieces := by
  intro i j piece hij hdvd _ hj
  have hlt := (List.getElem?_eq_some_iff.mp hj).1
  have hfar := Nat.le_of_dvd (Nat.sub_pos_of_lt hij) hdvd
  omega

/-- An id is made for every instruction fetched, and no two have the same. -/
structure IdsUnique (s : Uarchsim P) : Prop where
  made : ∀ x ∈ s.fetched, getUniqueInstId x.seqNo x.piece = .ok x.key
  apart : KeysApart s.fetched

/-- Where the pieces are below 16, equal ids are a piece met again after `2 ^ 60` places. -/
theorem Numbered.idsUnique_iff {s : Uarchsim P} {insts : List DbInst} (hs : Numbered insts s)
    (hsmall : ∀ k ∈ pieceNumbers 255 insts, k < 16) :
    IdsUnique s ↔ NoneAliased (pieceNumbers 255 insts) := by
  have hpiece : ∀ x ∈ s.fetched, x.piece < 16 := fun x hx =>
    hsmall _ (hs.pieces ▸ List.mem_map_of_mem hx)
  have hat : ∀ i (hi : i < s.fetched.length),
      (pieceNumbers 255 insts)[i]? = some (s.fetched.get ⟨i, hi⟩).piece := by
    intro i hi
    rw [← hs.pieces, List.getElem?_map, List.getElem?_eq_getElem hi]
    rfl
  have hkey : ∀ i (hi : i < s.fetched.length), (s.fetched.get ⟨i, hi⟩).key =
      i % 2 ^ 60 * 16 + (s.fetched.get ⟨i, hi⟩).piece := by
    intro i hi
    have hlength : s.fetched.length = insts.length := by
      simpa using congrArg List.length hs.seqNos
    have hseq : (s.fetched.map (·.seqNo))[i]? = (List.range insts.length)[i]? := by
      rw [hs.seqNos]
    rw [List.getElem?_map, List.getElem?_eq_getElem hi,
      List.getElem?_range (hlength ▸ hi)] at hseq
    have hnumber : (s.fetched.get ⟨i, hi⟩).seqNo = i := Option.some.inj hseq
    rw [Fetched.key, instKey_eq _ (hpiece _ (List.get_mem _ _)), hnumber]
  constructor
  · intro hunique i j piece hij hdvd hi hj
    have hlen : (pieceNumbers 255 insts).length = s.fetched.length := by
      rw [← hs.pieces, List.length_map]
    have hjlt : j < s.fetched.length := hlen ▸ (List.getElem?_eq_some_iff.mp hj).1
    have hilt := hij.trans hjlt
    rw [hat i hilt] at hi
    rw [hat j hjlt] at hj
    have hne := List.pairwise_iff_get.mp hunique.apart ⟨i, hilt⟩ ⟨j, hjlt⟩ hij
    rw [hkey i hilt, hkey j hjlt, Option.some.inj hi, Option.some.inj hj] at hne
    omega
  · intro hnone
    refine ⟨?_, List.pairwise_iff_get.mpr ?_⟩
    · intro x hx
      rw [getUniqueInstId, if_pos (hpiece x hx)]
      rfl
    · rintro ⟨i, hi⟩ ⟨j, hj⟩ hij heq
      have hismall := hpiece _ (List.get_mem s.fetched ⟨i, hi⟩)
      have hjsmall := hpiece _ (List.get_mem s.fetched ⟨j, hj⟩)
      have hlt : i < j := hij
      rw [hkey i hi, hkey j hj] at heq
      have hsame : (s.fetched.get ⟨j, hj⟩).piece = (s.fetched.get ⟨i, hi⟩).piece := by omega
      refine hnone i j _ hlt (by omega) (hat i hi) ?_
      rw [hat j hj, hsame]

/-! ## Hooks called with a piece below 16 -/

/-- The hooks stop for a reason of `E` when the piece they are called with is below 16. -/
structure TakesPieces (hk : Hooks P H) (E : Stop H → Prop) : Prop where
  abort (e : Abort) : E (.abort e)
  fetch (p : P) (seqNo piece pc c : Nat) :
    Ends (hk.notifyInstrFetch p seqNo piece pc c) (fun r => E (.hook r)) fun _ => True
  direction (p : P) (seqNo piece pc c c' c'' : Nat) : piece < 16 →
    Ends (hk.getCondDirPrediction p seqNo piece pc c c' c'') (fun r => E (.hook r)) fun _ => True
  specUpdate (p : P) (seqNo piece pc : Nat) (class' : InstClass) (resolveDir predDir : Bool)
    (nextPc : Nat) :
    Ends (hk.specUpdate p seqNo piece pc class' resolveDir predDir nextPc) (fun r => E (.hook r))
      fun _ => True
  decode (p : P) (seqNo piece pc : Nat) (info : DecodeInfo) (c : Nat) : piece < 16 →
    Ends (hk.notifyInstrDecode p seqNo piece pc info c) (fun r => E (.hook r)) fun _ => True
  agen (p : P) (seqNo piece pc : Nat) (info : DecodeInfo) (va sz c : Nat) :
    Ends (hk.notifyAgenComplete p seqNo piece pc info va sz c) (fun r => E (.hook r)) fun _ => True
  execute (p : P) (seqNo piece pc : Nat) (predDir : Bool) (info : ExecuteInfo) (c : Nat) :
    piece < 16 →
    Ends (hk.notifyInstrExecuteResolve p seqNo piece pc predDir info c) (fun r => E (.hook r))
      fun _ => True
  commit (p : P) (seqNo piece pc : Nat) (predDir : Bool) (info : ExecuteInfo) (c : Nat) :
    Ends (hk.notifyInstrCommit p seqNo piece pc predDir info c) (fun r => E (.hook r)) fun _ => True
  getPrediction (p : P) (request : PredictionRequest) :
    Ends (hk.getPrediction p request) (fun r => E (.hook r)) fun _ => True
  speculativeUpdate (p : P) (update : SpeculativeUpdate) :
    Ends (hk.speculativeUpdate p update) (fun r => E (.hook r)) fun _ => True
  update (p : P) (seqNo addr value latency : Nat) :
    Ends (hk.updatePredictor p seqNo addr value latency) (fun r => E (.hook r)) fun _ => True
  ittageGetPrediction (p : P) (pc : Nat) :
    Ends (hk.ittageGetPrediction p pc) (fun r => E (.hook r)) fun _ => True
  ittageUpdatePredictor (p : P) (pc nextPc : Nat) :
    Ends (hk.ittageUpdatePredictor p pc nextPc) (fun r => E (.hook r)) fun _ => True
  ittageTrackOtherInst (p : P) (pc nextPc : Nat) :
    Ends (hk.ittageTrackOtherInst p pc nextPc) (fun r => E (.hook r)) fun _ => True

section Takes

variable {cfg : Config} {hk : Hooks P H} {E : Stop H → Prop}

/-- Where every assert of the simulator is admitted, only what is returned matters. -/
theorem TakesPieces.lift {α : Type} {x : Except Abort α} {Q : α → Prop} (takes : TakesPieces hk E)
    (h : ∀ a, x = .ok a → Q a) : Ends (lift (H := H) x) E Q :=
  ends_mapError.mpr (ends_iff.mpr ⟨h, fun e _ => takes.abort e⟩)

namespace Pipeline

/-- The pieces in the window are below 16. -/
def SmallPieces (p : Pipeline P) : Prop := ∀ w ∈ p.window, w.piece < 16

theorem SmallPieces.of_subset {p p' : Pipeline P} (h : p.SmallPieces)
    (hwindow : p'.window ⊆ p.window) : p'.SmallPieces := fun w hw => h w (hwindow hw)

theorem SmallPieces.tells {p p' : Pipeline P} (h : p.SmallPieces) (htells : p.OnlyTells p') :
    p'.SmallPieces := by
  obtain ⟨es, htells⟩ := htells
  exact h.of_subset (htells.window ▸ List.Subset.refl _)

variable {cycle : Nat} {p : Pipeline P}

theorem locate_small (takes : TakesPieces hk E) (hp : p.SmallPieces) (seqNo piece : Nat) :
    Ends (lift (H := H) (p.locateEntryInWindow seqNo piece)) E fun w => w.piece < 16 :=
  takes.lift fun w hw => hp w (locateEntryInWindow_mem hw)

theorem notifyDecode_small (takes : TakesPieces hk E) (q : QueueEntry) (hp : p.SmallPieces) :
    Ends (notifyDecode hk cycle q p) E p.OnlyTells := by
  unfold notifyDecode
  apply Ends.bind (locate_small takes hp _ _)
  intro w hw
  apply Ends.ite
  · intro _
    exact takes.abort _
  · intro _
    apply Ends.bind (Ends.call (takes.decode _ _ _ _ _ _ hw))
    intro hooks _
    exact onlyTells_deliver _ _ _ _ _

theorem notifyAgen_small (takes : TakesPieces hk E) (q : QueueEntry) (hp : p.SmallPieces) :
    Ends (notifyAgen hk cycle q p) E p.OnlyTells := by
  unfold notifyAgen
  apply Ends.bind (locate_small takes hp _ _)
  intro w _
  apply Ends.ite
  · intro _
    exact takes.abort _
  · intro _
    apply Ends.ite
    · intro _
      exact takes.abort _
    · intro _
      apply Ends.ite
      · intro _
        exact takes.abort _
      · intro _
        split
        · apply Ends.bind (Ends.call (takes.agen _ _ _ _ _ _ _ _))
          intro hooks _
          exact onlyTells_deliver _ _ _ _ _
        · exact takes.abort _

theorem notifyExecute_small (takes : TakesPieces hk E) (q : QueueEntry) (hp : p.SmallPieces) :
    Ends (notifyExecute hk cycle q p) E p.OnlyTells := by
  unfold notifyExecute
  apply Ends.bind (locate_small takes hp _ _)
  intro w hw
  apply Ends.ite
  · intro _
    exact takes.abort _
  · intro _
    apply Ends.bind (Ends.call (takes.execute _ _ _ _ _ _ _ hw))
    intro hooks _
    exact onlyTells_deliver _ _ _ _ _

theorem evalDecodeLoop_small (takes : TakesPieces hk E) (queue : List QueueEntry)
    (hp : p.SmallPieces) :
    Ends (evalDecodeLoop hk cycle queue p) E fun x => x.2.SmallPieces := by
  induction queue generalizing p with
  | nil => exact hp
  | cons q queue ih =>
    rw [evalDecodeLoop]
    apply Ends.ite
    · intro _
      exact takes.abort _
    · intro _
      apply Ends.ite
      · intro _
        apply Ends.bind (notifyDecode_small takes q hp)
        intro p' hp'
        exact ih (hp.tells hp')
      · intro _
        exact hp

/-- The loop of the other two queues. -/
theorem evalQueue_small (takes : TakesPieces hk E) (late : Abort)
    {notify : QueueEntry → Pipeline P → Except (Stop H) (Pipeline P)}
    (hnotify : ∀ q p, p.SmallPieces → Ends (notify q p) E p.OnlyTells) (queue : List QueueEntry)
    (hp : p.SmallPieces) :
    Ends (evalQueue notify late cycle queue p) E fun x => x.2.SmallPieces := by
  induction queue generalizing p with
  | nil => exact hp
  | cons q queue ih =>
    rw [evalQueue]
    apply Ends.ite
    · intro _
      exact takes.abort _
    · intro _
      apply Ends.ite
      · intro _
        apply Ends.bind (hnotify q p hp)
        intro p' hp'
        exact ih (hp.tells hp')
      · intro _
        apply Ends.bind (ih hp)
        intro x hx
        exact hx

theorem evalRetireLoop_small (takes : TakesPieces hk E) (window : List WindowEntry) :
    ∀ p : Pipeline P, Ends (evalRetireLoop cfg hk cycle window p) E fun x => x.1 ⊆ window := by
  induction window with
  | nil => exact fun _ => List.Subset.refl _
  | cons w window ih =>
    intro p
    rw [evalRetireLoop]
    apply Ends.ite
    · intro _
      apply Ends.bind (Q := fun _ => True)
      · unfold notifyCommit
        apply Ends.bind (Ends.call (takes.commit _ _ _ _ _ _ _))
        intro hooks _
        apply Ends.bind (Q := fun _ => True)
        · apply Ends.ite
          · intro _
            exact Ends.call (takes.update _ _ _ _ _)
          · intro _
            trivial
        · intro _ _
          trivial
      · intro p' _
        exact (ih p').imp fun _ h => List.Subset.trans h (List.subset_cons_self _ _)
    · intro _
      exact List.Subset.refl _

theorem evalCycle_small (takes : TakesPieces hk E) (hp : p.SmallPieces) :
    Ends (p.evalCycle cfg hk cycle) E SmallPieces := by
  unfold evalCycle
  apply Ends.bind (Q := SmallPieces)
  · apply Ends.bind (evalDecodeLoop_small takes p.DQ hp)
    intro x hx
    exact hx
  intro p₁ h₁
  apply Ends.bind (Q := SmallPieces)
  · apply Ends.bind (evalQueue_small takes _ (fun q _ => notifyAgen_small takes q) p₁.AQ h₁)
    intro x hx
    exact hx
  intro p₂ h₂
  apply Ends.bind (Q := SmallPieces)
  · apply Ends.bind (evalQueue_small takes _ (fun q _ => notifyExecute_small takes q) p₂.EQ h₂)
    intro x hx
    exact hx
  intro p₃ h₃
  apply Ends.bind (Q := SmallPieces)
  · apply Ends.bind (evalRetireLoop_small takes p₃.window p₃)
    intro x hx
    exact h₃.of_subset hx
  intro p₄ h₄
  exact h₄

theorem catchUp_small (takes : TakesPieces hk E) (first last : Nat) (hp : p.SmallPieces) :
    Ends (p.catchUp cfg hk first last) E SmallPieces := by
  have cycles (n : Nat) : ∀ (first : Nat) {p : Pipeline P}, p.SmallPieces →
      Ends (evalCycles cfg hk n first p) E SmallPieces := by
    induction n with
    | zero => exact fun _ _ hp => hp
    | succ n ih =>
      intro first p hp
      rw [evalCycles]
      apply Ends.bind (evalCycle_small takes hp)
      intro p' hp'
      exact ih _ hp'
  unfold catchUp
  apply Ends.ite
  · intro _
    exact hp
  · intro _
    exact cycles _ _ hp

end Pipeline

theorem Bp.predict_small (takes : TakesPieces hk E) (b : Bp) (p : P) (seqNo : Nat) {piece : Nat}
    (hpiece : piece < 16) (inst : DbInst) (predCycle fetchCycle execCycle : Nat) :
    Ends (b.predict cfg hk p seqNo piece inst predCycle fetchCycle execCycle) E fun _ => True := by
  have cond : Ends (b.predictCond cfg hk p seqNo piece inst predCycle fetchCycle execCycle) E
      fun _ => True := by
    unfold predictCond
    apply Ends.bind (Ends.call (takes.direction _ _ _ _ _ _ _ hpiece))
    intro x _
    apply Ends.bind (Ends.call (takes.specUpdate _ _ _ _ _ _ _ _))
    intro _ _
    trivial
  have direct : Ends (b.predictDirect cfg hk p seqNo piece inst) E fun _ => True := by
    unfold predictDirect
    apply Ends.bind (Ends.call (takes.specUpdate _ _ _ _ _ _ _ _))
    intro p' _
    apply Ends.bind (Q := fun _ => True)
    · apply Ends.ite
      · intro _
        trivial
      · intro _
        exact Ends.call (takes.ittageTrackOtherInst _ _ _)
    · intro _ _
      trivial
  have indirect : Ends (b.predictIndirect cfg hk p seqNo piece inst) E fun _ => True := by
    unfold predictIndirect
    apply Ends.bind (Q := fun _ => True)
    · apply Ends.ite
      · intro _
        trivial
      · intro _
        apply Ends.bind (Ends.call (takes.ittageGetPrediction _ _))
        intro x _
        apply Ends.bind (Ends.call (takes.ittageUpdatePredictor _ _ _))
        intro _ _
        trivial
    · intro x _
      apply Ends.bind (Ends.call (takes.specUpdate _ _ _ _ _ _ _ _))
      intro _ _
      trivial
  unfold predict
  split
  · exact cond
  · exact direct
  · exact direct
  · exact indirect
  · exact indirect
  · exact indirect
  · trivial

/-- The simulator is at a piece, and those in its window are below 16. -/
structure AtPiece (piece : Nat) (s : Uarchsim P) : Prop where
  piece : s.piece = piece
  small : s.pipe.SmallPieces

namespace Uarchsim

variable {s : Uarchsim P} {piece : Nat} {inst : DbInst}

theorem beginStep_atPiece (takes : TakesPieces hk E) (hs : AtPiece piece s) :
    Ends (s.beginStep cfg hk) E (AtPiece (nextPiece piece)) := by
  unfold beginStep
  apply Ends.ite
  · intro _
    exact takes.abort _
  · intro _
    apply Ends.bind (Pipeline.catchUp_small takes _ _ hs.small)
    intro pipe hpipe
    exact ⟨congrArg nextPiece hs.piece, hpipe⟩

theorem fetchBlock_atPiece (takes : TakesPieces hk E) (hs : AtPiece piece s) :
    Ends (s.fetchBlock cfg hk inst) E (AtPiece piece) := by
  unfold fetchBlock
  apply Ends.ite
  · intro _
    apply Ends.bind (takes.lift fun _ _ => trivial)
    intro x _
    apply Ends.ite
    · intro _
      exact takes.abort _
    · intro _
      apply Ends.bind (Pipeline.catchUp_small takes _ _ hs.small)
      intro pipe hpipe
      exact ⟨hs.piece, hpipe⟩
  · intro _
    exact hs

theorem predictValue_atPiece (takes : TakesPieces hk E) (hs : AtPiece piece s) :
    Ends (s.predictValue cfg hk inst) E fun x => AtPiece piece x.2.2 := by
  unfold predictValue
  apply Ends.ite
  · intro _
    exact hs
  · intro _
    apply Ends.bind (takes.lift fun _ _ => trivial)
    intro x _
    apply Ends.ite
    · intro _
      exact ⟨hs.piece, hs.small⟩
    · intro _
      apply Ends.bind (Ends.call (takes.getPrediction _ _))
      intro y _
      apply Ends.bind (Ends.call (takes.speculativeUpdate _ _))
      intro hooks _
      exact ⟨hs.piece, hs.small⟩

theorem schedule_atPiece (takes : TakesPieces hk E) (hs : AtPiece piece s) :
    Ends (lift (H := H) (s.schedule cfg inst)) E fun x => AtPiece piece x.2 := by
  apply takes.lift
  intro x hx
  obtain ⟨_, _, _, -, -, hscheduled⟩ := schedule_eq_ok hx
  rw [hscheduled]
  exact ⟨hs.piece, hs.small⟩

theorem writeBack_atPiece (takes : TakesPieces hk E) (hs : AtPiece piece s) (t : Timing)
    (pred : PredictionResult) (predictable : Bool) :
    Ends (lift (H := H) (s.writeBack cfg inst t pred predictable)) E
      fun x => AtPiece piece x.2 := by
  apply takes.lift
  intro x hx
  obtain ⟨_, _, _, _, _, -, hwritten⟩ := writeBack_eq_ok hx
  rw [hwritten]
  exact ⟨hs.piece, hs.small⟩

/-- The instruction comes into the window with its piece. -/
theorem dispatch_atPiece (takes : TakesPieces hk E) (hs : AtPiece piece s) (hpiece : piece < 16)
    (seqNo : Nat) (t : Timing) :
    Ends (s.dispatch cfg hk inst seqNo t) E (AtPiece piece) := by
  have hends : Ends (s.dispatch cfg hk inst seqNo t) E fun _ => True := by
    unfold dispatch
    apply Ends.bind (takes.lift fun _ _ => trivial)
    intro info _
    apply Ends.ite
    · intro _
      exact takes.abort _
    · intro _
      apply Ends.ite
      · intro _
        exact takes.abort _
      · intro _
        apply Ends.bind (Ends.call (takes.fetch _ _ _ _ _))
        intro hooks _
        apply Ends.ite
        · intro _
          exact takes.abort _
        · intro _
          trivial
  apply hends.returns.imp
  intro a ha
  obtain ⟨-, hooks, w, AQ, -, -, -, hw, hdispatched⟩ := dispatch_eq_ok ha
  rw [hdispatched]
  refine ⟨hs.piece, ?_⟩
  intro w' hw'
  rcases List.mem_append.mp hw' with hold | hnew
  · exact hs.small w' hold
  · rw [List.mem_singleton.mp hnew, hw, hs.piece]
    exact hpiece

theorem manageFetch_atPiece (takes : TakesPieces hk E) (hs : AtPiece piece s) (squash : Bool) :
    Ends (lift (H := H) (s.manageFetch cfg inst squash)) E (AtPiece piece) := by
  apply takes.lift
  intro a ha
  obtain ⟨-, hmanaged⟩ := manageFetch_eq_ok ha
  rw [hmanaged]
  exact ⟨hs.piece, hs.small⟩

theorem predictBranch_atPiece (takes : TakesPieces hk E) (hs : AtPiece piece s)
    (hpiece : piece < 16) (seqNo predictCycle execCycle : Nat) :
    Ends (s.predictBranch cfg hk inst seqNo predictCycle execCycle) E
      fun x => AtPiece piece x.2 := by
  have hends : Ends (s.predictBranch cfg hk inst seqNo predictCycle execCycle) E
      fun _ => True := by
    unfold predictBranch
    apply Ends.ite
    · intro _
      trivial
    · intro _
      apply Ends.bind (Bp.predict_small takes _ _ _ (hs.piece ▸ hpiece) _ _ _ _)
      intro x _
      apply Ends.ite
      · intro _
        trivial
      · intro _
        apply Ends.ite
        · intro _
          exact takes.abort _
        · intro _
          trivial
  apply hends.returns.imp
  intro x hx
  obtain ⟨-, -, _, hpredicted⟩ := predictBranch_frame hx
  rw [hpredicted]
  exact ⟨hs.piece, hs.small⟩

theorem updatePredTaken_atPiece (takes : TakesPieces hk E) (hs : AtPiece piece s) (misp : Bool) :
    Ends (lift (H := H) (s.updatePredTaken inst misp)) E (AtPiece piece) := by
  apply takes.lift
  intro a ha
  obtain ⟨window, htold, hwindow⟩ := updatePredTaken_eq_ok ha
  rw [htold]
  refine ⟨hs.piece, ?_⟩
  intro w hw
  split at hwindow
  · rw [hwindow, updateBack] at hw
    rcases List.mem_append.mp hw with hold | hlast
    · exact hs.small w (List.dropLast_subset _ hold)
    · obtain ⟨w', hw', rfl⟩ := Option.map_eq_some_iff.mp (Option.mem_toList.mp hlast)
      exact hs.small w' (List.mem_of_getLast? hw')
  · exact hs.small w (hwindow ▸ hw)

theorem endStep_atPiece (takes : TakesPieces hk E) (hs : AtPiece piece s) (predictCycle : Nat) :
    Ends (lift (H := H) (s.endStep cfg inst predictCycle)) E
      (AtPiece (if inst.isLastPiece then 255 else piece)) := by
  apply takes.lift
  intro a ha
  obtain ⟨ldst, alu, hended⟩ := endStep_eq_ok ha
  dsimp only at hended
  split at hended
  · rw [hended.2, ← hs.piece]
    exact ⟨rfl, hs.small⟩
  · rw [hended, ← hs.piece]
    exact ⟨rfl, hs.small⟩

/-- A step that gives a piece below 16. -/
theorem step_atPiece (takes : TakesPieces hk E) (hs : AtPiece piece s)
    (hpiece : nextPiece piece < 16) :
    Ends (s.step cfg hk inst) E (AtPiece (pieceAfter piece inst)) := by
  unfold step
  apply Ends.bind (beginStep_atPiece takes hs)
  intro s₁ h₁
  apply Ends.bind (fetchBlock_atPiece takes h₁)
  intro s₂ h₂
  apply Ends.bind (predictValue_atPiece takes h₂)
  intro ⟨pred, predictable, s₃⟩ h₃
  apply Ends.bind (schedule_atPiece takes h₃)
  intro ⟨t, s₄⟩ h₄
  apply Ends.bind (writeBack_atPiece takes h₄ _ _ _)
  intro ⟨squash, s₅⟩ h₅
  apply Ends.bind (dispatch_atPiece takes h₅ hpiece _ _)
  intro s₆ h₆
  apply Ends.bind (manageFetch_atPiece takes h₆ _)
  intro s₇ h₇
  apply Ends.bind (predictBranch_atPiece takes h₇ hpiece _ _ _)
  intro ⟨misp, s₈⟩ h₈
  apply Ends.bind (updatePredTaken_atPiece takes h₈ _)
  intro s₉ h₉
  apply Ends.bind (endStep_atPiece takes h₉ _)
  intro s₁₀ h₁₀
  exact ⟨h₁₀.piece, h₁₀.small⟩

/-- A run whose pieces are below 16 stops for a reason of `E` only. -/
theorem steps_atPiece (takes : TakesPieces hk E) (insts : List DbInst) (hs : AtPiece piece s)
    (hsmall : ∀ k ∈ pieceNumbers piece insts, k < 16) :
    Ends (insts.foldlM (step cfg hk) s) E fun _ => True := by
  induction insts generalizing s piece with
  | nil => trivial
  | cons inst insts ih =>
    rw [pieceNumbers] at hsmall
    rw [List.foldlM_cons]
    apply Ends.bind (step_atPiece takes hs (hsmall _ List.mem_cons_self))
    intro s' hs'
    exact ih hs' fun k hk => hsmall k (List.mem_cons_of_mem _ hk)

theorem simulate_atPiece (takes : TakesPieces hk E) (u : Unset) (p : P) (insts : List DbInst)
    (hsmall : ∀ k ∈ pieceNumbers 255 insts, k < 16) :
    Ends (simulate u cfg hk p insts) E fun _ => True := by
  unfold simulate
  apply Ends.bind (takes.lift (Q := AtPiece 255) ?_)
  · intro s hs
    exact steps_atPiece takes insts hs hsmall
  · intro s hs
    refine ⟨(new_numbered hs).piece, ?_⟩
    intro w hw
    rw [(new_opened hs).window] at hw
    cases hw

end Uarchsim

end Takes

/-! ## The conditional branch predictor -/

/-- The assert of `get_unique_inst_id` did not fail. -/
def IdMade (e : Stop (PredictorStop G)) : Prop := e ≠ .hook (.cond .instIdPiece)

instance [DecidableEq G] : DecidablePred (IdMade (G := G)) := fun e =>
  inferInstanceAs (Decidable (e ≠ .hook (.cond .instIdPiece)))

namespace Cond

variable (p : CondBranchPredictor) (seqNo : Nat) {piece : Nat}

theorem getUniqueInstId_small (hpiece : piece < 16) :
    getUniqueInstId seqNo piece = .ok (instKey seqNo piece) := if_pos hpiece

theorem getCondDirPrediction_small (hpiece : piece < 16) (pc : Nat) :
    Ends (p.getCondDirPrediction seqNo piece pc) (· ≠ .instIdPiece) fun _ => True := by
  unfold CondBranchPredictor.getCondDirPrediction TageScL.predict SampleCondPredictor.predict
  rw [getUniqueInstId_small seqNo hpiece]
  trivial

theorem specUpdate_small (pc : Nat) (c : InstClass) (resolveDir predDir : Bool) (nextPc : Nat) :
    Ends (p.specUpdate pc c resolveDir predDir nextPc) (· ≠ .instIdPiece) fun _ => True := by
  unfold CondBranchPredictor.specUpdate
  split
  · exact Abort.noConfusion
  · apply Ends.ite
    · intro _
      trivial
    · intro _
      trivial

theorem notifyInstrDecode_small (hpiece : piece < 16) (info : DecodeInfo) :
    Ends (p.notifyInstrDecode seqNo piece info) (· ≠ .instIdPiece) fun _ => True := by
  unfold CondBranchPredictor.notifyInstrDecode
  apply Ends.ite
  · intro _
    split
    · exact Abort.noConfusion
    · trivial
  · intro _
    apply Ends.ite
    · intro _
      rw [getUniqueInstId_small seqNo hpiece]
      trivial
    · intro _
      trivial

theorem notifyInstrExecuteResolve_small (cfg : Config) (hpiece : piece < 16) (pc : Nat)
    (predDir : Bool) (info : ExecuteInfo) :
    Ends (p.notifyInstrExecuteResolve cfg seqNo piece pc predDir info) (· ≠ .instIdPiece)
      fun _ => True := by
  unfold CondBranchPredictor.notifyInstrExecuteResolve
  rw [getUniqueInstId_small seqNo hpiece, ok_bind]
  apply Ends.ite
  · intro _
    trivial
  · intro _
    apply Ends.ite
    · intro _
      split
      · exact Abort.noConfusion
      · apply Ends.bind (Q := fun _ => True)
        · unfold TageScL.update
          rw [getUniqueInstId_small seqNo hpiece, ok_bind]
          split
          · exact Abort.noConfusion
          · trivial
        · intro tage _
          apply Ends.bind (Q := fun _ => True)
          · unfold SampleCondPredictor.update
            rw [getUniqueInstId_small seqNo hpiece, ok_bind]
            split
            · exact Abort.noConfusion
            · trivial
          · intro _ _
            trivial
    · intro _
      apply Ends.ite
      · intro _
        trivial
      · intro _
        exact Abort.noConfusion

theorem notifyInstrCommit_small (info : ExecuteInfo) :
    Ends (p.notifyInstrCommit info) (· ≠ .instIdPiece) fun _ => True := by
  unfold CondBranchPredictor.notifyInstrCommit
  apply Ends.ite
  · intro _
    split
    · exact Abort.noConfusion
    · trivial
  · intro _
    trivial

end Cond

theorem Predictors.onCond_made (p : Predictors V) {x : Except Abort CondBranchPredictor}
    (h : Ends x (· ≠ .instIdPiece) fun _ => True) :
    Ends (p.onCond x : Except (PredictorStop G) _) (fun r => IdMade (.hook r)) fun _ => True := by
  unfold onCond
  apply Ends.bind (ends_mapError.mpr (h.mono (fun e he heq => he (by simpa using heq))
    fun _ h => h))
  intro _ _
  trivial

theorem side_made {α : Type} (x : Except G α) :
    Ends (x.mapError PredictorStop.side) (fun r => IdMade (.hook r)) fun _ => True :=
  ends_mapError.mpr (Ends.of_any fun r h => by simp at h)

theorem Predictors.onSide_made (p : Predictors V) (x : Except G V) :
    Ends (p.onSide x) (fun r => IdMade (.hook r)) fun _ => True := by
  unfold onSide
  apply Ends.bind (side_made x)
  intro _ _
  trivial

/-- The interface makes its ids. -/
theorem predictorHooks_takes (cfg : Config) (side : SidePredictors V G) :
    TakesPieces (predictorHooks cfg side) (IdMade (G := G)) where
  abort _ := by simp [IdMade]
  fetch _ _ _ _ _ := trivial
  direction p seqNo piece pc _ _ _ hpiece := by
    apply Ends.bind (ends_mapError.mpr
      ((Cond.getCondDirPrediction_small p.cond seqNo hpiece pc).mono
        (fun e he heq => he (by simpa using heq)) fun _ h => h))
    intro _ _
    trivial
  specUpdate p _ _ pc c resolveDir predDir nextPc :=
    p.onCond_made (Cond.specUpdate_small p.cond pc c resolveDir predDir nextPc)
  decode p seqNo _ _ info _ hpiece :=
    p.onCond_made (Cond.notifyInstrDecode_small p.cond seqNo hpiece info)
  agen _ _ _ _ _ _ _ _ := trivial
  execute p seqNo _ pc predDir info _ hpiece := by
    apply Ends.bind (p.onCond_made
      (Cond.notifyInstrExecuteResolve_small p.cond seqNo cfg hpiece pc predDir info))
    intro _ _
    trivial
  commit p _ _ _ _ info _ := p.onCond_made (Cond.notifyInstrCommit_small p.cond info)
  getPrediction p _ := by
    apply Ends.bind (side_made _)
    intro _ _
    trivial
  speculativeUpdate p _ := p.onSide_made _
  update p _ _ _ _ := p.onSide_made _
  ittageGetPrediction p _ := by
    apply Ends.bind (side_made _)
    intro _ _
    trivial
  ittageUpdatePredictor p _ _ := p.onSide_made _
  ittageTrackOtherInst p _ _ := p.onSide_made _

/-! ## The pieces of a trace -/

section Trace

open Trace

variable {u : Uninit} {t t' : TraceReader} {r : Record} {rest : List Record}
  {insts : List DbInst}

/-- `piece` when as many pieces of an instruction are processed. -/
def pieceBefore (processed : Nat) : Nat := if processed = 0 then 255 else processed - 1

theorem nextPiece_before {processed : Nat} (hlt : processed < 256) :
    nextPiece (pieceBefore processed) = processed := by
  unfold nextPiece pieceBefore
  split_ifs <;> omega

/-- A piece in the middle of an instruction leaves its own number, the last one leaves none. -/
theorem pieceAfter_before {inst : DbInst} (hbuilt : TraceReader.Built t inst t')
    (hlt : t.mProcessedPieces + 1 < 256) :
    pieceAfter (pieceBefore t.mProcessedPieces) inst =
      if t.mProcessedPieces + 1 = t.mTotalPieces then 255
      else pieceBefore (t.mProcessedPieces + 1) := by
  rw [pieceAfter, hbuilt.isLastPiece, hbuilt.processed, Nat.mod_eq_of_lt hlt,
    nextPiece_before (Nat.lt_of_succ_lt hlt)]
  simp only [beq_iff_eq]
  rfl

/-- The rounds that are left for an instruction are numbered as its pieces are. -/
theorem pieceNumbers_left {n : Nat} (hlt : t.mTotalPieces < 256)
    (hn : t.mProcessedPieces + n ≤ t.mTotalPieces) (h : t.getInsts u n = .ok (insts, t')) :
    pieceNumbers (pieceBefore t.mProcessedPieces) insts = List.range' t.mProcessedPieces n := by
  induction n generalizing t insts with
  | zero =>
    cases h
    rfl
  | succ n ih =>
    obtain ⟨inst, t₂, insts, hpopulate, hinsts, rfl⟩ :=
      TraceReader.getInsts_succ_eq_ok (by omega) h
    have hbuilt := (TraceReader.populateNewInstr_built t).of_ok hpopulate
    have hlater := hbuilt.later (by omega)
    have hnext := nextPiece_before (show t.mProcessedPieces < 256 by omega)
    rw [pieceNumbers, hnext, List.range'_succ]
    congr 1
    cases n with
    | zero =>
      cases hinsts
      rfl
    | succ n =>
      rw [pieceAfter_before hbuilt (by omega), if_neg (by omega), ← hlater.processed]
      exact ih (by rw [hlater.mTotalPieces]; exact hlt)
        (by rw [hlater.mTotalPieces, hlater.processed]; omega) hinsts

/-- The reader has built a part of a record in front of `rest`.  A store that writes a SIMD
register back leaves bytes behind, but then its last piece is not built. -/
structure Inside (rest : List Record) (t : TraceReader) : Prop where
  left : t.mProcessedPieces < t.mTotalPieces
  lt : t.mTotalPieces < 256
  first : t.FirstSixteen
  ahead : t.dpressedInput = onBytes (encodeAll rest) ∨
    ∀ k t₁ inst t₂, t.Later k t₁ → t₁.populateNewInstr = .ok (inst, t₂) →
      t₁.mProcessedPieces + 1 ≠ t.mTotalPieces

/-- A record that fits is entered. -/
theorem inside_of_read (hfit : r.PiecesFit) {s : List Byte} (hs : s = encodeAll rest)
    (ht : t.dpressedInput = onBytes (r.encode ++ s)) (h : t.readInstr u = .ok (true, t')) :
    t'.mProcessedPieces = 0 ∧ Inside rest t' := by
  subst hs
  obtain ⟨-, hfirst⟩ := hfit.read ht h
  by_cases hclean : r.Clean
  · obtain ⟨present, m, v, mem, total, size, hdigest, hcount, hcheck, -, rfl⟩ :=
      readInstr_eq_ok hclean ht h
    obtain ⟨-, hinput, -⟩ := hclean.holds hdigest
    obtain ⟨hpos, hlt⟩ : 1 ≤ total ∧ total < 256 :=
      countPieces_bounds hcount hcheck (Record.digest_total_lt hdigest)
    exact ⟨rfl, hpos, hlt, hfirst, Or.inl hinput⟩
  · obtain ⟨hstore, hsimd⟩ : r.type.isStore = true ∧ r.writesSimd = true := by
      simpa [Record.Clean] using hclean
    have hread := readStore_of_read hstore ht h
    have htotal := hread.total
    have hmem := hread.mem
    have hpos := one_le_trueStrValRegs t'.mInstr
    refine ⟨hread.start, by rw [hread.start]; omega, hread.lt, hfirst, Or.inr ?_⟩
    intro k t₁ inst t₂ hlater hpopulate hlast
    have houts := hread.outs
    obtain ⟨o, ho, hreg⟩ : ∃ o ∈ r.outs, regIsInt o.reg.val = false := by
      simpa [Record.writesSimd] using hsimd
    have hone := List.length_pos_of_mem ho
    rw [hlater.processed, hread.start] at hlast
    obtain rfl : k = t'.mMemPieces := by omega
    obtain ⟨b, hb, hbreg⟩ := hread.base_of_populate hlater hpopulate
    obtain rfl : o = b := by simpa [hb] using ho
    simp [regIsInt, hbreg] at hreg

/-- Piece numbers of which none is the seventeenth, and at most `room` of them. -/
structure Fits (pieces : List Nat) (room : Nat) : Prop where
  small : ∀ k ∈ pieces, k < 16
  length : pieces.length ≤ room

theorem Fits.nil (room : Nat) : Fits [] room := by
  refine ⟨?_, Nat.zero_le _⟩
  intro k hk
  cases hk

theorem Fits.cons {piece room room' : Nat} {pieces : List Nat} (hpiece : piece < 16)
    (h : Fits pieces room) (hroom : room + 1 ≤ room') : Fits (piece :: pieces) room' :=
  ⟨List.forall_mem_cons.mpr ⟨hpiece, h.small⟩, (Nat.succ_le_succ h.length).trans hroom⟩

/-- Between two records the next one is read. -/
theorem fits_between (hfit : ∀ r ∈ rest, r.PiecesFit) {n : Nat}
    (hinside : ∀ {t : TraceReader} {rest : List Record} {insts : List DbInst},
      (∀ r ∈ rest, r.PiecesFit) → Inside rest t → t.getInsts u n = .ok (insts, t') →
      Fits (pieceNumbers (pieceBefore t.mProcessedPieces) insts)
        (16 * (rest.length + 1) - t.mProcessedPieces))
    (hdone : t.mProcessedPieces = t.mTotalPieces)
    (hinput : t.dpressedInput = onBytes (encodeAll rest))
    (h : t.getInsts u n = .ok (insts, t')) : Fits (pieceNumbers 255 insts) (16 * rest.length) := by
  cases n with
  | zero =>
    cases h
    exact Fits.nil _
  | succ n =>
    cases hread : t.readInstr u with
    | error e =>
      rw [TraceReader.getInsts, TraceReader.getInst, if_neg (by simp [hdone]), hread] at h
      cases h
    | ok x =>
      obtain ⟨more, t₁⟩ := x
      cases more with
      | false =>
        rw [TraceReader.getInsts, TraceReader.getInst, if_neg (by simp [hdone]), hread] at h
        cases h
        exact Fits.nil _
      | true =>
        cases rest with
        | nil =>
          obtain ⟨t₂, hend⟩ := readInstr_end (u := u) hinput
          rw [hread] at hend
          cases hend
        | cons r rest =>
          obtain ⟨hzero, hin⟩ := inside_of_read (hfit r List.mem_cons_self) rfl hinput hread
          have hleft := hin.left
          rw [TraceReader.getInsts_of_read hdone hread (by omega) (Nat.succ_pos n)] at h
          have hfits := hinside (fun r hr => hfit r (List.mem_cons_of_mem _ hr)) hin h
          rwa [hzero] at hfits

/-- **Where the records fit no piece of a trace is the seventeenth of its instruction.** -/
theorem fits_inside (n : Nat) (hfit : ∀ r ∈ rest, r.PiecesFit) (hin : Inside rest t)
    (h : t.getInsts u n = .ok (insts, t')) :
    Fits (pieceNumbers (pieceBefore t.mProcessedPieces) insts)
      (16 * (rest.length + 1) - t.mProcessedPieces) := by
  induction n generalizing t rest insts with
  | zero =>
    cases h
    exact Fits.nil _
  | succ n ih =>
    have hleft := hin.left
    have hlt := hin.lt
    obtain ⟨inst, t₂, insts, hpopulate, hinsts, rfl⟩ := TraceReader.getInsts_succ_eq_ok hleft h
    have hbuilt := (TraceReader.populateNewInstr_built t).of_ok hpopulate
    have hlater := hbuilt.later (by omega)
    have hpiece := hin.first 0 t inst t₂ (TraceReader.later_zero t) hpopulate
    rw [pieceNumbers, nextPiece_before (by omega), pieceAfter_before hbuilt (by omega)]
    split
    · rename_i hlast
      have hinput : t.dpressedInput = onBytes (encodeAll rest) :=
        hin.ahead.resolve_right fun hnot =>
          hnot 0 t inst t₂ (TraceReader.later_zero t) hpopulate hlast
      refine Fits.cons hpiece (fits_between hfit ih ?_ (hbuilt.dpressedInput.trans hinput) hinsts)
        (by omega)
      rw [hlater.processed, hlater.mTotalPieces, hlast]
    · rename_i hmore
      rw [← hlater.processed]
      refine Fits.cons hpiece (ih hfit ?_ hinsts) (by rw [hlater.processed]; omega)
      exact {
        left := by
          rw [hlater.processed, hlater.mTotalPieces]
          omega
        lt := by
          rw [hlater.mTotalPieces]
          exact hlt
        first := hin.first.later hlater
        ahead := by
          rw [hbuilt.dpressedInput, hlater.mTotalPieces]
          refine hin.ahead.imp_right ?_
          intro hnot k t₁ inst' t₂' hlater' hpopulate'
          exact hnot _ t₁ inst' t₂' (hlater.trans hlater') hpopulate' }

/-- The pieces of a trace. -/
theorem fits_of_isTrace (hfit : ∀ r ∈ rest, r.PiecesFit) (h : IsTrace u (encodeAll rest) insts) :
    Fits (pieceNumbers 255 insts) (16 * rest.length) := by
  obtain ⟨n, t, hinsts⟩ := h
  exact fits_between hfit (fits_inside n) rfl rfl hinsts

/-! ## Counts, numbers and ids -/

/-- The piece arithmetic of the records of a trace: the counts of each are exact, `step`
gives its pieces numbers below 16, and a simulation of the trace makes an id for every
piece and no id twice. -/
structure PieceArithmetic (u : Uninit) (records : List Record) (w : Unset) (cfg : Config)
    (side : SidePredictors V G) (v : V) : Prop where
  counts : ∀ r ∈ records, ∀ t, Reads u r t → CountsExact r t
  numbers : ∀ r ∈ records, ∀ t, Reads u r t → ∀ n insts t', n ≤ t.mTotalPieces →
    t.getInsts u n = .ok (insts, t') → ∀ k ∈ pieceNumbers 255 insts, k < 16
  ids : ∀ insts, IsTrace u (encodeAll records) insts →
    Ends (Uarchsim.simulate w cfg (predictorHooks cfg side) (.init v) insts) IdMade IdsUnique

/-- The pieces of a record that was read are numbered from 0. -/
theorem pieceNumbers_of_reads (hreads : Reads u r t) {n : Nat} (hn : n ≤ t.mTotalPieces)
    (h : t.getInsts u n = .ok (insts, t')) : pieceNumbers 255 insts = List.range n := by
  obtain ⟨hzero, hlt⟩ := hreads.start
  have hrange := pieceNumbers_left hlt (by rw [hzero, Nat.zero_add]; exact hn) h
  rw [hzero, ← List.range_eq_range'] at hrange
  exact hrange

theorem numbers_of_piecesFit (hfit : r.PiecesFit) (hreads : Reads u r t) {n : Nat}
    (hn : n ≤ t.mTotalPieces) (h : t.getInsts u n = .ok (insts, t')) :
    ∀ k ∈ pieceNumbers 255 insts, k < 16 := by
  intro k hk
  rw [pieceNumbers_of_reads hreads hn h, List.mem_range] at hk
  obtain ⟨hzero, hlt⟩ := hreads.start
  obtain ⟨t₀, s, ht, hread⟩ := hreads
  obtain ⟨-, hfirst⟩ := hfit.read ht hread
  obtain ⟨t₁, inst, t₂, hlater, hpopulate⟩ := TraceReader.built_of_getInsts hlt
    (by rw [hzero, Nat.zero_add]; exact hn) h k hk
  have hsmall := hfirst k t₁ inst t₂ hlater hpopulate
  rwa [hlater.processed, hzero, Nat.zero_add] at hsmall

/-- Where the counts are exact and no piece has the number 16 the record fits. -/
theorem PieceArithmetic.piecesFit {w : Unset} {cfg : Config} {side : SidePredictors V G} {v : V}
    {records : List Record} (harith : PieceArithmetic u records w cfg side v)
    (haccepted : ∀ r ∈ records, r.Accepted u) : ∀ r ∈ records, r.PiecesFit := by
  intro r hr
  obtain ⟨t', hreads⟩ := (haccepted r hr).exists_reads
  have hexact := harith.counts r hr t' hreads
  have hsmall : ∀ n insts t'', n ≤ t'.mTotalPieces → t'.getInsts u n = .ok (insts, t'') →
      n ≤ 16 := by
    intro n insts t'' hn hinsts
    by_contra hmany
    have hmem : 16 ∈ pieceNumbers 255 insts := by
      rw [pieceNumbers_of_reads hreads hn hinsts, List.mem_range]
      omega
    exact absurd (harith.numbers r hr t' hreads n insts t'' hn hinsts 16 hmem) (Nat.lt_irrefl 16)
  obtain ⟨t, s, ht, hread⟩ := hreads
  exact Record.piecesFit_of_read ht hread hexact hsmall

/-- **Piece arithmetic fits its fields exactly when** every store has the inputs that are
subtracted from its count, no record has a seventeenth piece to build, and no piece of a
simulated trace comes again a multiple of `2 ^ 60` places later. -/
theorem pieceArithmetic_iff (u : Uninit) (records : List Record) (w : Unset) (cfg : Config)
    (side : SidePredictors V G) (v : V) (haccepted : ∀ r ∈ records, r.Accepted u) :
    PieceArithmetic u records w cfg side v ↔ (∀ r ∈ records, r.PiecesFit) ∧
      ∀ insts s, IsTrace u (encodeAll records) insts →
        Uarchsim.simulate w cfg (predictorHooks cfg side) (.init v) insts = .ok s →
          NoneAliased (pieceNumbers 255 insts) := by
  constructor
  · intro harith
    have hfit := harith.piecesFit haccepted
    refine ⟨hfit, ?_⟩
    intro insts s htrace hs
    exact ((numbered_of_simulate hs).idsUnique_iff (fits_of_isTrace hfit htrace).small).mp
      ((harith.ids insts htrace).of_ok hs)
  · rintro ⟨hfit, hnone⟩
    refine { counts := ?_, numbers := ?_, ids := ?_ }
    · rintro r hr t' ⟨t, s, ht, hread⟩
      exact ((hfit r hr).read ht hread).1
    · intro r hr t hreads n insts t' hn hinsts
      exact numbers_of_piecesFit (hfit r hr) hreads hn hinsts
    · intro insts htrace
      have hsmall := (fits_of_isTrace hfit htrace).small
      have hends : Ends (Uarchsim.simulate w cfg (predictorHooks cfg side) (.init v) insts) IdMade
          fun _ => True :=
        Uarchsim.simulate_atPiece (predictorHooks_takes cfg side) w (.init v) insts hsmall
      apply hends.returns.imp
      intro s hs
      exact ((numbered_of_simulate hs).idsUnique_iff hsmall).mpr (hnone insts s htrace hs)

/-- An addition that sets the given registers. -/
def setsRegs (outs : List Output) (h : outs.length < 256) : Record where
  pc := 4096
  typeByte := 0
  effAddr := 0
  memSize := 0
  baseUpd := 0
  hasRegOffset := 0
  taken := false
  target := 0
  inRegs := [1]
  outs := outs
  length_inRegs := Record.length_oneInput
  length_outs := h

/-- The general registers up to a number. -/
def upTo (n : Nat) : List Output := (List.range n).map fun i => ⟨Fin.ofNat 256 i, 7, 0⟩

theorem pieceArithmetic_sixteen :
    PieceArithmetic ⟨0, 0, 0, 0⟩ [setsRegs (upTo 16) (by decide)] ⟨fun _ => ⟨0, 0, 0⟩, 0⟩
      { windowSize := 1 } idleSide () := by
  have hfit : ∀ r ∈ [setsRegs (upTo 16) (by decide)], r.PiecesFit := by decide +kernel
  apply (pieceArithmetic_iff ⟨0, 0, 0, 0⟩ [setsRegs (upTo 16) (by decide)] ⟨fun _ => ⟨0, 0, 0⟩, 0⟩
    { windowSize := 1 } idleSide ()
    (List.forall_mem_singleton.mpr (Record.accepted_of_isOk (by decide +kernel)))).mpr
  refine ⟨hfit, ?_⟩
  intro insts s htrace _
  exact noneAliased_of_length ((fits_of_isTrace hfit htrace).length.trans (by simp))

/-- What a simulation of the first pieces of a trace stops for, if it stops. -/
def stopAfter (u : Uninit) (records : List Record) (w : Unset) (cfg : Config)
    (side : SidePredictors V G) (v : V) (n : Nat) : Option (Stop (PredictorStop G)) :=
  match (TraceReader.new u (encodeAll records)).getInsts u n with
  | .error _ => none
  | .ok (insts, _) =>
    match Uarchsim.simulate w cfg (predictorHooks cfg side) (.init v) insts with
    | .error e => some e
    | .ok _ => none

theorem exists_trace_of_stopAfter {u : Uninit} {records : List Record} {w : Unset}
    {cfg : Config} {side : SidePredictors V G} {v : V} {n : Nat} {e : Stop (PredictorStop G)}
    (h : stopAfter u records w cfg side v n = some e) :
    ∃ insts, IsTrace u (encodeAll records) insts ∧
      Uarchsim.simulate w cfg (predictorHooks cfg side) (.init v) insts = .error e := by
  unfold stopAfter at h
  split at h
  · cases h
  · rename_i insts t hinsts
    split at h
    · rename_i e' hstop
      cases h
      exact ⟨insts, ⟨n, t, hinsts⟩, hstop⟩
    · cases h

/-- Two additions that each set seventeen registers. -/
def seventeenTwice : List Record :=
  [setsRegs (upTo 17) (by decide), setsRegs (upTo 17) (by decide)]

theorem seventeenTwice_accepted : ∀ r ∈ seventeenTwice, r.Accepted ⟨0, 0, 0, 0⟩ := by
  have hr : (setsRegs (upTo 17) (by decide)).Accepted ⟨0, 0, 0, 0⟩ :=
    Record.accepted_of_isOk (by decide +kernel)
  exact List.forall_mem_cons.mpr ⟨hr, List.forall_mem_singleton.mpr hr⟩

theorem seventeenTwice_stops :
    stopAfter ⟨0, 0, 0, 0⟩ seventeenTwice ⟨fun _ => ⟨0, 0, 0⟩, 0⟩
      { windowSize := 1, fetchModelIcache := false } idleSide () 18 =
        some (.hook (.cond .instIdPiece)) := by
  decide +kernel

/-- The second of two instructions with seventeen outputs makes the simulator execute the
last piece of the first, and the assert of `get_unique_inst_id` fails. -/
theorem seventeenth_piece_stops :
    (∀ r ∈ seventeenTwice, r.Accepted ⟨0, 0, 0, 0⟩) ∧
      (∃ insts, IsTrace ⟨0, 0, 0, 0⟩ (encodeAll seventeenTwice) insts ∧
        Uarchsim.simulate ⟨fun _ => ⟨0, 0, 0⟩, 0⟩ { windowSize := 1, fetchModelIcache := false }
          (predictorHooks { windowSize := 1, fetchModelIcache := false } idleSide)
          (.init ()) insts = .error (.hook (.cond .instIdPiece))) ∧
      ¬ PieceArithmetic ⟨0, 0, 0, 0⟩ seventeenTwice ⟨fun _ => ⟨0, 0, 0⟩, 0⟩
        { windowSize := 1, fetchModelIcache := false } idleSide () := by
  have hstops := exists_trace_of_stopAfter seventeenTwice_stops
  refine ⟨seventeenTwice_accepted, hstops, ?_⟩
  intro harith
  obtain ⟨insts, htrace, hstop⟩ := hstops
  exact (harith.ids insts htrace).of_error hstop rfl

end Trace

end CbpSim.Core
