/-
  Predictor/FoldedHistories.lean --- the folded histories are folds.

  Source: src/cbp2016_tage_sc_l.h, `folded_history`, `init_histories` and the loop over
  `t` of `HistoryUpdate`.

  The buffer is a ring with the newest bit at `ptghist`, which only goes down.  As long
  as a history is shorter than the ring, the bit that leaves it is still there, and the
  update of a folded history is the update of a fold.

  With 31 places the mask `(1 << CLENGTH) - 1` leaves the range of an `int`; it is
  taken to wrap to 31 ones.  The registers of the predictor have at most 12 places.
-/
import CbpSim.Foundation.Folding
import CbpSim.Predictor.Calls
import CbpSim.Predictor.Representation

set_option autoImplicit false

namespace CbpSim.Predictor

open CbpSim.Foundation

/-! ## The ring of history bits -/

/-- Bit `j` of the history: the `j`-th most recent one, zero before the first. -/
def recentBit (bits : List Bool) (j : Nat) : Bool := bits.reverse.getD j false

theorem recentBit_concat (bits : List Bool) (dir : Bool) :
    recentBit (bits ++ [dir]) = consBit dir (recentBit bits) := by
  funext j
  rw [recentBit, List.reverse_concat]
  cases j with
  | zero => rfl
  | succ j => rfl

/-- The slots of the last `HISTBUFFERLENGTH` positions are different. -/
theorem histSlot_ne (pt : Int) {j : Nat} (hj : j + 1 < histBufferLength) :
    histSlot (pt + (j + 1 : Nat)) ≠ histSlot pt := by
  unfold histSlot histBufferLength at *
  omega

/-- The ring holds the history, newest bit at `pt`. -/
def HoldsBits (ghist : Nat → Nat) (pt : Int) (bit : Nat → Bool) : Prop :=
  ∀ j, j < histBufferLength → ghist (histSlot (pt + j)) = (bit j).toNat

theorem HoldsBits.push {ghist : Nat → Nat} {pt : Int} {bit : Nat → Bool}
    (h : HoldsBits ghist pt bit) (dir : Bool) :
    HoldsBits (Function.update ghist (histSlot (pt - 1)) dir.toNat) (pt - 1) (consBit dir bit) := by
  intro j hj
  cases j with
  | zero =>
    rw [Int.natCast_zero, Int.add_zero, Function.update_self]
    rfl
  | succ j =>
    rw [Function.update_of_ne (histSlot_ne _ hj)]
    have hpt : pt - 1 + (j + 1 : Nat) = pt + j := by omega
    rw [hpt]
    exact h j (Nat.lt_of_succ_lt hj)

/-! ## A folded history -/

namespace FoldedHistory

/-- The register is the fold of the last `OLENGTH` bits. -/
structure Folds (f : FoldedHistory) (originalLength compressedLength : Nat) (bit : Nat → Bool) :
    Prop where
  olength : f.olength = originalLength
  clength : f.clength = compressedLength
  outpoint : f.outpoint = originalLength % compressedLength
  comp : f.comp = foldBits compressedLength bit originalLength

variable {f : FoldedHistory} {L C : Nat} {bit : Nat → Bool}

theorem init_folds (L C : Nat) : (init L C).Folds L C fun _ => false :=
  ⟨rfl, rfl, rfl, (foldBits_false C L).symm⟩

/-- **The update of a folded history is the update of a fold.**  With at most 31 places
no shift leaves the 32 bits of `comp`. -/
theorem Folds.update (h : f.Folds L C bit) (hL : L < histBufferLength) (hC : 1 ≤ C)
    (hC' : C ≤ 31) {ghist : Nat → Nat} {pt : Int} {dir : Bool}
    (hring : HoldsBits ghist pt (consBit dir bit)) :
    (f.update ghist pt).Folds L C (consBit dir bit) := by
  have hnew : ghist (histSlot pt) = dir.toNat := by
    simpa using hring 0 (by decide)
  have hout : ghist (histSlot (pt + f.olength)) = (consBit dir bit L).toNat := by
    rw [h.olength]
    exact hring L hL
  have hshift : (f.comp <<< 1) % 2 ^ 32 = foldBits C bit L <<< 1 := by
    have hlt := foldBits_lt hC bit L
    have hpow : 2 ^ C ≤ 2 ^ 31 := Nat.pow_le_pow_right (by decide) hC'
    rw [h.comp, Nat.shiftLeft_eq]
    exact Nat.mod_eq_of_lt (by omega)
  have hplace : ((consBit dir bit L).toNat <<< f.outpoint) % 2 ^ 32 =
      (consBit dir bit L).toNat <<< (L % C) := by
    have hlt := Nat.mod_lt L hC
    rw [h.outpoint]
    exact Nat.mod_eq_of_lt (bit_shiftLeft_lt _ (by omega))
  exact {
    olength := h.olength
    clength := h.clength
    outpoint := h.outpoint
    comp := by
      rw [← wrap_update hC]
      dsimp only [FoldedHistory.update]
      rw [hnew, hout, hshift, hplace, h.clength]
      rfl }

end FoldedHistory

/-- A folded history with a ring of its own. -/
structure FoldedRing where
  ghist : Nat → Nat
  ptghist : Int
  folded : FoldedHistory

namespace FoldedRing

/-- An empty ring. -/
def init (originalLength compressedLength : Nat) : FoldedRing where
  ghist := fun _ => 0
  ptghist := 0
  folded := .init originalLength compressedLength

/-- A round of `HistoryUpdate`, as far as one folded history is concerned. -/
def push (r : FoldedRing) (dir : Bool) : FoldedRing :=
  let ptghist := r.ptghist - 1
  let ghist := Function.update r.ghist (histSlot ptghist) dir.toNat
  { ghist := ghist, ptghist := ptghist, folded := r.folded.update ghist ptghist }

/-- After any bits the register is their fold. -/
theorem foldl_push_folds {L C : Nat} (hL : L < histBufferLength) (hC : 1 ≤ C) (hC' : C ≤ 31)
    (bits : List Bool) :
    HoldsBits (bits.foldl push (init L C)).ghist (bits.foldl push (init L C)).ptghist
        (recentBit bits) ∧
      (bits.foldl push (init L C)).folded.Folds L C (recentBit bits) := by
  induction bits using List.reverseRecOn with
  | nil => exact ⟨fun _ _ => rfl, FoldedHistory.init_folds L C⟩
  | append_singleton bits dir ih =>
    obtain ⟨hring, hfolds⟩ := ih
    rw [List.foldl_append, recentBit_concat]
    exact ⟨hring.push dir, hfolds.update hL hC hC' (hring.push dir)⟩

end FoldedRing

/-! ## The running history -/

/-- The bits that the loop over `t` shifts out of `T`. -/
def lowBits : Nat → Nat → List Bool
  | 0, _ => []
  | n + 1, t => (t &&& 1 == 1) :: lowBits n (t >>> 1)

/-- `T`. -/
def HistoryCall.target (c : HistoryCall) : Nat :=
  let t := (c.pc ^^^ (c.pc >>> 2)) ^^^ c.taken.toNat
  if c.brtype == 3 && c.taken then t ^^^ (c.nextPc >>> 2) else t

/-- The history bits of a branch, `DIR` in each round. -/
def HistoryCall.directions (c : HistoryCall) : List Bool :=
  lowBits (CbpHist.rounds c.brtype) (c.target % 2 ^ 32)

theorem histLength_lt (i : Nat) : histLength i < histBufferLength := by
  have hall : ∀ m ∈ geometric, m < histBufferLength := by decide
  unfold histLength
  rw [List.getD_eq_getElem?_getD]
  cases hget : geometric[(i + 1) / 2 - 1]? with
  | none => decide
  | some m => exact hall m (List.mem_of_getElem? hget)

theorem tagBits_bounds (i : Nat) : 1 ≤ tagBits i - 1 ∧ tagBits i ≤ 31 := by
  unfold tagBits
  split
  · decide
  · decide

namespace CbpHist

/-- The ring holds the bits and every folded history is their fold. -/
structure FoldsBits (h : CbpHist) (bits : List Bool) : Prop where
  ring : HoldsBits h.ghist h.ptghist (recentBit bits)
  chI : ∀ i, (h.chI i).Folds (histLength i) logG (recentBit bits)
  chT0 : ∀ i, (h.chT0 i).Folds (histLength i) (tagBits i) (recentBit bits)
  chT1 : ∀ i, (h.chT1 i).Folds (histLength i) (tagBits i - 1) (recentBit bits)

variable {h : CbpHist} {bits : List Bool}

theorem init_foldsBits : init.FoldsBits [] where
  ring _ _ := rfl
  chI _ := FoldedHistory.init_folds _ _
  chT0 _ := FoldedHistory.init_folds _ _
  chT1 _ := FoldedHistory.init_folds _ _

theorem FoldsBits.push (hf : h.FoldsBits bits) (dir : Bool) (pathBit : Nat) :
    (h.push dir pathBit).FoldsBits (bits ++ [dir]) := by
  have hring := hf.ring.push dir
  constructor
  all_goals rw [recentBit_concat]
  · exact hring
  · exact fun i => (hf.chI i).update (histLength_lt i) (by decide) (by decide) hring
  · intro i
    obtain ⟨hpos, hle⟩ := tagBits_bounds i
    exact (hf.chT0 i).update (histLength_lt i) (by omega) hle hring
  · intro i
    obtain ⟨hpos, hle⟩ := tagBits_bounds i
    exact (hf.chT1 i).update (histLength_lt i) hpos (by omega) hring

theorem FoldsBits.pushAll (hf : h.FoldsBits bits) (n t path : Nat) :
    (pushAll n t path h).FoldsBits (bits ++ lowBits n t) := by
  induction n generalizing t path h bits with
  | zero =>
    rw [lowBits, List.append_nil]
    exact hf
  | succ n ih =>
    have hpushed := ih (hf.push (t &&& 1 == 1) (path &&& 127)) (t >>> 1) (path >>> 1)
    rwa [List.append_assoc] at hpushed

/-- The rest of the history does not matter. -/
theorem FoldsBits.congr {h' : CbpHist} (hf : h.FoldsBits bits) (same : h.SameHistories h') :
    h'.FoldsBits bits := by
  obtain ⟨hring, hchI, hchT0, hchT1⟩ := hf
  rw [same.ghist, same.ptghist] at hring
  rw [same.chI] at hchI
  rw [same.chT0] at hchT0
  rw [same.chT1] at hchT1
  exact ⟨hring, hchI, hchT0, hchT1⟩

theorem FoldsBits.updateGlobal (hf : h.FoldsBits bits) (c : HistoryCall) :
    (h.updateGlobal c.pc c.brtype c.taken c.nextPc).FoldsBits (bits ++ c.directions) := by
  obtain ⟨hring, hchI, hchT0, hchT1⟩ := hf.pushAll (rounds c.brtype) (c.target % 2 ^ 32) _
  exact ⟨hring, hchI, hchT0, hchT1⟩

/-- A branch adds its bits. -/
theorem FoldsBits.follow (hf : h.FoldsBits bits) (c : HistoryCall) :
    (h.follow c).FoldsBits (bits ++ c.directions) := by
  unfold CbpHist.follow
  dsimp only
  split
  · have hlocal : (((h.updateImHist c.taken).updateImliCount c.pc c.nextPc c.taken).updateLocal
        c.pc c.nextPc c.taken).FoldsBits bits := by
      unfold updateImliCount
      split_ifs
      all_goals exact ⟨hf.ring, hf.chI, hf.chT0, hf.chT1⟩
    exact hlocal.updateGlobal c
  · exact hf.updateGlobal c

end CbpHist

namespace TageScL

variable {cfg : Config} {p : TageScL}

/-- The history bits of the calls, oldest first. -/
def directions (calls : List TageCall) : List Bool :=
  (calls.filterMap TageCall.history?).flatMap HistoryCall.directions

theorem run_foldsBits {calls : List TageCall} (hrun : Run (step cfg) init calls p) :
    p.activeHist.FoldsBits (directions calls) := by
  have follow : ∀ branches : List HistoryCall,
      (branches.foldl CbpHist.follow init.activeHist.forgetLoop).FoldsBits
        (branches.flatMap HistoryCall.directions) := by
    intro branches
    induction branches using List.reverseRecOn with
    | nil => exact CbpHist.init_foldsBits.congr (CbpHist.sameHistories_iff.mpr rfl)
    | append_singleton branches c ih =>
      rw [List.foldl_append, List.flatMap_append, List.flatMap_singleton]
      exact ih.follow c
  have hforget := follow (calls.filterMap TageCall.history?)
  rw [← run_forgetLoop hrun] at hforget
  exact hforget.congr (CbpHist.sameHistories_iff.mpr rfl)

/-- **Folded histories are exact.**  A folded history is the exclusive or of the last
`OLENGTH` bits, bit `j` at place `j % CLENGTH`, whatever bits were pushed; so after
any calls every register of the running history is the fold of the last `m[i]` bits
that the branches have pushed. -/
theorem foldedHistories_exact :
    (∀ (L C : Nat), 1 ≤ L → L < histBufferLength → 1 ≤ C → C ≤ 31 → ∀ bits : List Bool,
      (bits.foldl FoldedRing.push (.init L C)).folded.comp = foldBits C (recentBit bits) L) ∧
    ∀ (cfg : Config) (calls : List TageCall) (p : TageScL), Run (step cfg) init calls p →
      ∀ i, 1 ≤ i → i ≤ nHist →
        (p.activeHist.chI i).comp =
          foldBits logG (recentBit (directions calls)) (histLength i) ∧
        (p.activeHist.chT0 i).comp =
          foldBits (tagBits i) (recentBit (directions calls)) (histLength i) ∧
        (p.activeHist.chT1 i).comp =
          foldBits (tagBits i - 1) (recentBit (directions calls)) (histLength i) := by
  constructor
  · intro L C _ hL hC hC' bits
    exact (FoldedRing.foldl_push_folds hL hC hC' bits).2.comp
  · intro cfg calls p hrun i _ _
    have hfolds := run_foldsBits hrun
    exact ⟨(hfolds.chI i).comp, (hfolds.chT0 i).comp, (hfolds.chT1 i).comp⟩

/-- Five bits folded into three places, and the histories of two branches. -/
theorem foldedHistories_exact_resolvedEarly :
    ([true, false, true, true, false, true].foldl FoldedRing.push (.init 5 3)).folded.comp = 4 ∧
      ∃ p, Run (step {}) init resolvedEarly p ∧
        (p.activeHist.chI 36).comp = foldBits 10 (recentBit [true, false, false, true]) 3000 := by
  obtain ⟨p, hp⟩ := exists_of_isOk
    (show (resolvedEarly.foldlM (step {}) .init).isOk = true by decide +kernel)
  obtain ⟨hfold, hrun⟩ := foldedHistories_exact
  refine ⟨?_, p, hp, ?_⟩
  · exact (hfold 5 3 (by decide) (by decide) (by decide) (by decide) _).trans (by decide)
  · exact (hrun {} resolvedEarly p hp 36 (by decide) (by decide)).1

end TageScL

end CbpSim.Predictor
