/-
  Predictor/IttageHistories.lean --- when the folded histories of ITTAGE are exact.

  Source: src/lib/ittage.h, `reinit`, `folded_history` and `HistoryUpdate`.

  The ring of a new object holds zero in its first place and any bytes in the others.
  A register takes out of its fold whatever it finds behind the bits of its length:
  until as many have been pushed, these are bytes of the new ring.  Folding is linear
  in exclusive or, so a register is the fold of the bits and a drift beside it, which
  depends on the bytes only.
-/
import CbpSim.Predictor.FoldedHistories
import CbpSim.Predictor.Ittage

set_option autoImplicit false

namespace CbpSim.Predictor

open CbpSim.Foundation

/-! ## A folded history that drifts -/

namespace FoldedHistory

/-- The register is the fold of the last `OLENGTH` bits, with `e` beside it. -/
structure Drifts (f : FoldedHistory) (originalLength compressedLength : Nat) (bit : Nat → Bool)
    (e : Nat) : Prop where
  olength : f.olength = originalLength
  clength : f.clength = compressedLength
  outpoint : f.outpoint = originalLength % compressedLength
  comp : f.comp = foldBits compressedLength bit originalLength ^^^ e

variable {f : FoldedHistory} {L C e s : Nat} {bit : Nat → Bool}

/-- Where the bit that goes out has `s` beside it, so has the register, moved to the
bit's place. -/
theorem Drifts.update (h : f.Drifts L C bit e) (hC : 1 ≤ C) (hC' : C ≤ 24) (he : e < 2 ^ C)
    {ghist : Nat → Nat} {pt : Int} {dir : Bool} (hnew : ghist (histSlot pt) = dir.toNat)
    (hout : ghist (histSlot (pt + L)) = (consBit dir bit L).toNat ^^^ s) (hs : s < 2 ^ 8) :
    (f.update ghist pt).Drifts L C (consBit dir bit)
      (wrap C (e <<< 1 ^^^ s <<< (L % C))) := by
  have hlt := Nat.mod_lt L hC
  have hshift : (f.comp <<< 1) % 2 ^ 32 = foldBits C bit L <<< 1 ^^^ e <<< 1 := by
    have hcomp := Nat.xor_lt_two_pow (foldBits_lt hC bit L) he
    have hpow : 2 ^ C ≤ 2 ^ 24 := Nat.pow_le_pow_right (by decide) hC'
    rw [h.comp, ← Nat.shiftLeft_xor_distrib, Nat.shiftLeft_eq]
    exact Nat.mod_eq_of_lt (by omega)
  have hplace : (((consBit dir bit L).toNat ^^^ s) <<< f.outpoint) % 2 ^ 32 =
      (consBit dir bit L).toNat <<< (L % C) ^^^ s <<< (L % C) := by
    have hbit : (consBit dir bit L).toNat < 2 ^ 8 :=
      lt_of_le_of_lt (Bool.toNat_le _) (by decide)
    have hbyte := Nat.xor_lt_two_pow hbit hs
    have hpow : 2 ^ (L % C) ≤ 2 ^ 24 := Nat.pow_le_pow_right (by decide) (by omega)
    rw [h.outpoint, ← Nat.shiftLeft_xor_distrib, Nat.shiftLeft_eq]
    refine Nat.mod_eq_of_lt ?_
    calc _ ≤ ((consBit dir bit L).toNat ^^^ s) * 2 ^ 24 := Nat.mul_le_mul_left _ hpow
      _ < 2 ^ 8 * 2 ^ 24 := Nat.mul_lt_mul_of_pos_right hbyte (Nat.two_pow_pos 24)
      _ = 2 ^ 32 := rfl
  exact {
    olength := h.olength
    clength := h.clength
    outpoint := h.outpoint
    comp := by
      rw [← wrap_update hC, ← wrap_xor]
      dsimp only [FoldedHistory.update]
      rw [hnew, h.olength, hout, hshift, hplace, h.clength, wrap]
      congr 2
      all_goals ac_rfl }

end FoldedHistory

namespace Ipredictor

/-! ## The bytes behind the bits -/

/-- What lies at distance `j` behind the newest of `n` bits beside the bits: a byte of
the new ring. -/
def Unset.behind (u : Unset) (n j : Nat) : Nat := if j < n then 0 else (reinit u).ghist (j - n)

theorem Unset.behind_lt (u : Unset) (n j : Nat) : u.behind n j < 2 ^ 8 := by
  unfold behind
  split
  · decide
  · by_cases hzero : j - n = 0
    · rw [hzero]
      exact Nat.two_pow_pos 8
    · dsimp only [reinit]
      rw [Function.update_of_ne hzero]
      exact (u.ghist (j - n)).isLt

theorem Unset.behind_succ (u : Unset) (n j : Nat) : u.behind (n + 1) (j + 1) = u.behind n j := by
  simp [behind]

/-- The drift of a register after `n` bits. -/
def Unset.drift (u : Unset) (L C : Nat) : Nat → Nat
  | 0 => 0
  | n + 1 => wrap C (u.drift L C n <<< 1 ^^^ u.behind (n + 1) L <<< (L % C))

theorem Unset.drift_lt (u : Unset) (L C n : Nat) : u.drift L C n < 2 ^ C := by
  cases n with
  | zero => exact Nat.two_pow_pos C
  | succ n => exact wrap_lt C _

/-- The histories after the bits: the ring holds them, with the new ring's bytes behind
them, and every register of the banks drifts from its fold. -/
structure DriftsFrom (u : Unset) (p : Ipredictor) (bits : List Bool) : Prop where
  ring : ∀ j, j < histBufferLength → p.ghist (histSlot (p.ptghist + j)) =
    (recentBit bits j).toNat ^^^ u.behind bits.length j
  chI : ∀ i, 1 ≤ i → i ≤ nHist →
    (p.chI i).Drifts (m i) logG (recentBit bits) (u.drift (m i) logG bits.length)
  chT0 : ∀ i, 1 ≤ i → i ≤ nHist →
    (p.chT0 i).Drifts (m i) tBits (recentBit bits) (u.drift (m i) tBits bits.length)
  chT1 : ∀ i, 1 ≤ i → i ≤ nHist →
    (p.chT1 i).Drifts (m i) (tBits - 1) (recentBit bits) (u.drift (m i) (tBits - 1) bits.length)

theorem m_lt (i : Nat) : m i < histBufferLength := by
  have hall : ∀ l ∈ lengths, l < histBufferLength := by decide
  rw [m, List.getD_eq_getElem?_getD]
  cases hget : lengths[i]? with
  | none => decide
  | some l => exact hall l (List.mem_of_getElem? hget)

variable {u : Unset} {p : Ipredictor} {bits : List Bool}

theorem reinit_driftsFrom (u : Unset) : DriftsFrom u (reinit u) [] := by
  have hinit (L C : Nat) :
      (FoldedHistory.init L C).Drifts L C (recentBit []) (u.drift L C 0) := by
    refine ⟨rfl, rfl, rfl, ?_⟩
    rw [show recentBit [] = fun _ => false from rfl, foldBits_false, Unset.drift, Nat.xor_zero]
    rfl
  exact {
    ring := by
      intro j hj
      have hslot : histSlot (0 + j) = j := by
        unfold histSlot histBufferLength at *
        omega
      rw [show (reinit u).ptghist = 0 from rfl, hslot]
      simp [recentBit, Unset.behind]
    chI := fun i _ _ => hinit (m i) logG
    chT0 := fun i _ _ => hinit (m i) tBits
    chT1 := fun i _ _ => hinit (m i) (tBits - 1) }

theorem DriftsFrom.push (h : DriftsFrom u p bits) (dir : Bool) (pathBit : Nat) :
    DriftsFrom u (p.push dir pathBit) (bits ++ [dir]) := by
  have hring : ∀ j, j < histBufferLength →
      (p.push dir pathBit).ghist (histSlot ((p.push dir pathBit).ptghist + j)) =
        (consBit dir (recentBit bits) j).toNat ^^^ u.behind (bits.length + 1) j := by
    intro j hj
    dsimp only [Ipredictor.push]
    cases j with
    | zero =>
      rw [Int.natCast_zero, Int.add_zero, Function.update_self]
      simp [Unset.behind]
    | succ j =>
      rw [Function.update_of_ne (histSlot_ne _ hj), Unset.behind_succ]
      have hpt : p.ptghist - 1 + (j + 1 : Nat) = p.ptghist + j := by omega
      rw [hpt]
      exact h.ring j (Nat.lt_of_succ_lt hj)
  have hnew := hring 0 (by decide)
  have hout (i : Nat) := hring (m i) (m_lt i)
  rw [Int.natCast_zero, Int.add_zero, consBit_zero, Unset.behind, if_pos (Nat.succ_pos _),
    Nat.xor_zero] at hnew
  have fold {C : Nat} (hC : 1 ≤ C) (hC' : C ≤ 24) {ch : Nat → FoldedHistory}
      (hch : ∀ i, 1 ≤ i → i ≤ nHist →
        (ch i).Drifts (m i) C (recentBit bits) (u.drift (m i) C bits.length)) (i : Nat)
      (hi : 1 ≤ i) (hi' : i ≤ nHist) :
      (if 1 ≤ i ∧ i ≤ nHist then
          (ch i).update (p.push dir pathBit).ghist (p.push dir pathBit).ptghist
        else ch i).Drifts (m i) C (consBit dir (recentBit bits))
          (u.drift (m i) C (bits.length + 1)) := by
    rw [if_pos ⟨hi, hi'⟩]
    exact (hch i hi hi').update hC hC' (u.drift_lt _ _ _) hnew (hout i) (u.behind_lt _ _)
  have hlength : (bits ++ [dir]).length = bits.length + 1 := by simp
  constructor
  all_goals rw [recentBit_concat, hlength]
  · exact hring
  · exact fold (by decide) (by decide) h.chI
  · exact fold (by decide) (by decide) h.chT0
  · exact fold (by decide) (by decide) h.chT1

theorem DriftsFrom.pushAll (h : DriftsFrom u p bits) (n t path : Nat) :
    DriftsFrom u (pushAll n t path p) (bits ++ lowBits n t) := by
  induction n generalizing t path p bits with
  | zero =>
    rw [lowBits, List.append_nil]
    exact h
  | succ n ih =>
    have hpushed := ih (h.push (t &&& 1 == 1) (path &&& 127)) (t >>> 1) (path >>> 1)
    rwa [List.append_assoc] at hpushed

/-- The fields that a history update reads and writes, but for the path. -/
def histories (p : Ipredictor) :
    (Nat → Nat) × Int × (Nat → FoldedHistory) × (Nat → FoldedHistory) × (Nat → FoldedHistory) :=
  (p.ghist, p.ptghist, p.chI, p.chT0, p.chT1)

/-- The rest of the predictor does not matter. -/
theorem DriftsFrom.congr {p' : Ipredictor} (h : DriftsFrom u p bits)
    (same : p'.histories = p.histories) : DriftsFrom u p' bits := by
  simp only [histories, Prod.mk.injEq] at same
  obtain ⟨hghist, hpt, hchI, hchT0, hchT1⟩ := same
  obtain ⟨ring, chI, chT0, chT1⟩ := h
  rw [← hghist, ← hpt] at ring
  rw [← hchI] at chI
  rw [← hchT0] at chT0
  rw [← hchT1] at chT1
  exact ⟨ring, chI, chT0, chT1⟩

/-! ## Calls -/

/-- The history bits of a call: three low bits of `T`. -/
def Call.directions : Call → List Bool
  | .trackOtherInst pc _ => lowBits 3 (((pc >>> 2) ^^^ (pc >>> 6)) % 2 ^ 32)
  | .getPrediction _ => []
  | .updatePredictor pc _ => lowBits 3 (((pc >>> 2) ^^^ (pc >>> 6)) % 2 ^ 32)

/-- Does the call update the history? -/
def Call.pushes : Call → Bool
  | .getPrediction _ => false
  | _ => true

/-- The bits of the calls, oldest first. -/
def directions (calls : List Call) : List Bool := calls.flatMap Call.directions

@[simp] theorem histories_setEntry (p : Ipredictor) (bank : Nat) (e : Entry) :
    (p.setEntry bank e).histories = p.histories := rfl

theorem histories_select (p : Ipredictor) (branchTarget : Nat) :
    (p.select branchTarget).2.histories = p.histories := by
  unfold select
  dsimp only
  split_ifs
  all_goals rfl

theorem histories_allocate (branchTarget fuel i : Nat) (t : Int) (p : Ipredictor)
    (counts : Int × Int) :
    (allocate branchTarget fuel i t p counts).1.histories = p.histories := by
  induction fuel generalizing i t p counts with
  | zero => rfl
  | succ fuel ih =>
    unfold allocate
    split_ifs
    · rfl
    · rfl
    · exact ih _ _ _ _
    · exact ih _ _ _ _

theorem histories_allocateEntries (p : Ipredictor) (branchTarget : Nat) :
    (p.allocateEntries branchTarget).histories = p.histories := by
  unfold allocateEntries
  generalize p.myrandom = seed
  dsimp only
  generalize (if seed.toNat &&& 127 < 32 then 2 else 1 : Int) = a
  have hallocate := histories_allocate branchTarget (nHist + 1) (p.hitBank + a).toNat nnn
    { p with seed := seed } (0, 0)
  generalize allocate branchTarget (nHist + 1) (p.hitBank + a).toNat nnn
    { p with seed := seed } (0, 0) = r at hallocate
  obtain ⟨p', penalty, na⟩ := r
  dsimp only
  split_ifs
  all_goals exact hallocate

theorem histories_updatePredictions (p : Ipredictor) (hit branchTarget : Nat) :
    (p.updatePredictions hit branchTarget).histories = p.histories := by
  unfold updatePredictions
  dsimp only
  split_ifs
  all_goals rfl

theorem DriftsFrom.historyUpdate (h : DriftsFrom u p bits) (pc target : Nat) :
    DriftsFrom u (p.historyUpdate pc target)
      (bits ++ lowBits 3 (((pc >>> 2) ^^^ (pc >>> 6)) % 2 ^ 32)) := by
  have hpushed := h.pushAll 3 (((pc >>> 2) ^^^ (pc >>> 6)) % 2 ^ 32)
    (((target >>> 2) ^^^ (target >>> 6)) % 2 ^ 32)
  exact hpushed.congr rfl

/-- Training changes no history before its update of them. -/
theorem DriftsFrom.updatePredictor (h : DriftsFrom u p bits) (pc branchTarget : Nat) :
    DriftsFrom u (p.updatePredictor pc branchTarget)
      (bits ++ lowBits 3 (((pc >>> 2) ^^^ (pc >>> 6)) % 2 ^ 32)) := by
  have hselect := histories_select p branchTarget
  unfold Ipredictor.updatePredictor
  generalize p.select branchTarget = r at hselect
  obtain ⟨alloc, p₁⟩ := r
  have hallocate : (if alloc then p₁.allocateEntries branchTarget else p₁).histories =
      p.histories := by
    split
    · exact (histories_allocateEntries p₁ branchTarget).trans hselect
    · exact hselect
  dsimp only
  generalize (if alloc then p₁.allocateEntries branchTarget else p₁) = p₂ at hallocate
  have hpredictions : (if p₂.hitBank ≥ 0 then
      p₂.updatePredictions p₂.hitBank.toNat branchTarget else p₂).histories = p.histories := by
    split
    · exact (histories_updatePredictions p₂ _ branchTarget).trans hallocate
    · exact hallocate
  generalize (if p₂.hitBank ≥ 0 then
    p₂.updatePredictions p₂.hitBank.toNat branchTarget else p₂) = p₃ at hpredictions
  refine DriftsFrom.historyUpdate (h.congr ?_) pc branchTarget
  split
  · exact hpredictions
  · exact hpredictions

theorem DriftsFrom.step (h : DriftsFrom u p bits) (c : Call) :
    DriftsFrom u (p.step c) (bits ++ c.directions) := by
  cases c with
  | trackOtherInst pc branchTarget => exact h.historyUpdate pc branchTarget
  | getPrediction pc =>
    rw [Call.directions, List.append_nil]
    exact h.congr rfl
  | updatePredictor pc branchTarget => exact h.updatePredictor pc branchTarget

/-- Every register drifts after any calls. -/
theorem run_driftsFrom (u : Unset) (calls : List Call) :
    DriftsFrom u (run u calls) (directions calls) := by
  induction calls using List.reverseRecOn with
  | nil => exact reinit_driftsFrom u
  | append_singleton calls c ih =>
    rw [run, List.foldl_append, directions, List.flatMap_append, List.flatMap_singleton]
    exact ih.step c

theorem length_lowBits (n t : Nat) : (lowBits n t).length = n := by
  induction n generalizing t with
  | zero => rfl
  | succ n ih => rw [lowBits, List.length_cons, ih]

/-- Three bits a call. -/
theorem length_directions (calls : List Call) :
    (directions calls).length = 3 * calls.countP Call.pushes := by
  induction calls with
  | nil => rfl
  | cons c calls ih =>
    rw [directions, List.flatMap_cons, List.length_append, List.countP_cons]
    rw [directions] at ih
    rw [ih]
    have hcall : c.directions.length = 3 * c.pushes.toNat := by
      cases c with
      | trackOtherInst pc branchTarget => exact length_lowBits 3 _
      | getPrediction pc => rfl
      | updatePredictor pc branchTarget => exact length_lowBits 3 _
    rw [hcall]
    cases c.pushes with
    | false => simp
    | true =>
      simp only [Bool.toNat_true, if_true]
      omega

/-! ## When nothing drifts -/

/-- The folded registers of every bank but the first are folds. -/
structure FoldsExact (p : Ipredictor) (bits : List Bool) : Prop where
  chI : ∀ i, 1 ≤ i → i ≤ nHist → (p.chI i).comp = foldBits logG (recentBit bits) (m i)
  chT0 : ∀ i, 1 ≤ i → i ≤ nHist → (p.chT0 i).comp = foldBits tBits (recentBit bits) (m i)
  chT1 : ∀ i, 1 ≤ i → i ≤ nHist → (p.chT1 i).comp = foldBits (tBits - 1) (recentBit bits) (m i)

/-- The bytes that a register of length `L` takes out in the `n`-th history update, one
a bit, as they stand together behind it. -/
def Unset.takenOut (u : Unset) (L n : Nat) : Nat :=
  u.behind (3 * n + 1) L <<< 2 ^^^ u.behind (3 * n + 2) L <<< 1 ^^^ u.behind (3 * n + 3) L

theorem shiftLeft_lt {x a b : Nat} (hx : x < 2 ^ a) : x <<< b < 2 ^ (a + b) := by
  rw [Nat.shiftLeft_eq, Nat.pow_add]
  exact Nat.mul_lt_mul_of_pos_right hx (Nat.two_pow_pos b)

theorem Unset.takenOut_lt (u : Unset) (L n : Nat) : u.takenOut L n < 2 ^ 10 := by
  have first := shiftLeft_lt (b := 2) (u.behind_lt (3 * n + 1) L)
  have second : u.behind (3 * n + 2) L <<< 1 < 2 ^ 10 :=
    lt_trans (shiftLeft_lt (u.behind_lt (3 * n + 2) L)) (by decide)
  have third : u.behind (3 * n + 3) L < 2 ^ 10 :=
    lt_trans (u.behind_lt (3 * n + 3) L) (by decide)
  exact Nat.xor_lt_two_pow (Nat.xor_lt_two_pow first second) third

/-- A register without drift gets what its next update takes out. -/
theorem Unset.drift_succ_three (u : Unset) {L C n : Nat} (hC : 10 ≤ C)
    (hzero : u.drift L C (3 * n) = 0) :
    u.drift L C (3 * (n + 1)) = wrap C (u.takenOut L n <<< (L % C)) := by
  have hplace := Nat.mod_lt L (show 0 < C by omega)
  have small {x a : Nat} (hx : x < 2 ^ a) (ha : a ≤ 9) :
      x <<< (L % C) < 2 ^ (2 * C - 1) :=
    lt_of_lt_of_le (shiftLeft_lt hx) (Nat.pow_le_pow_right (by decide) (by omega))
  have later {x : Nat} (y : Nat) (hx : x <<< (L % C) < 2 ^ (2 * C - 1)) :
      wrap C (wrap C (x <<< (L % C)) <<< 1 ^^^ y <<< (L % C)) =
        wrap C ((x <<< 1 ^^^ y) <<< (L % C)) := by
    rw [wrap_xor, wrap_wrap_shiftLeft (by omega) hx, ← wrap_xor, Nat.shiftLeft_xor_distrib,
      ← Nat.shiftLeft_add, ← Nat.shiftLeft_add, Nat.add_comm 1]
  have hfirst := u.behind_lt (3 * n + 1) L
  have hsecond : u.behind (3 * n + 1) L <<< 1 ^^^ u.behind (3 * n + 2) L < 2 ^ 9 :=
    Nat.xor_lt_two_pow (shiftLeft_lt hfirst) (lt_trans (u.behind_lt _ _) (by decide))
  have hsum : (u.behind (3 * n + 1) L <<< 1 ^^^ u.behind (3 * n + 2) L) <<< 1 =
      u.behind (3 * n + 1) L <<< 2 ^^^ u.behind (3 * n + 2) L <<< 1 := by
    rw [Nat.shiftLeft_xor_distrib, ← Nat.shiftLeft_add]
  have hthree : 3 * (n + 1) = 3 * n + 1 + 1 + 1 := by omega
  rw [hthree, drift, drift, drift, hzero, Nat.zero_shiftLeft, Nat.zero_xor,
    later _ (small hfirst (by omega)), later _ (small hsecond (by omega)), takenOut, hsum]

/-- Nothing drifts for some updates just when nothing is taken out in them. -/
theorem Unset.drift_eq_zero_iff (u : Unset) {L C : Nat} (hC : 10 ≤ C) (N : Nat) :
    (∀ n ≤ N, u.drift L C (3 * n) = 0) ↔ ∀ n < N, u.takenOut L n = 0 := by
  have hstep {n : Nat} (hzero : u.drift L C (3 * n) = 0) :
      u.drift L C (3 * (n + 1)) = 0 ↔ u.takenOut L n = 0 := by
    have hlt := lt_of_lt_of_le (u.takenOut_lt L n) (Nat.pow_le_pow_right (by decide) hC)
    rw [u.drift_succ_three hC hzero]
    exact wrap_shiftLeft_eq_zero_iff hlt (Nat.mod_lt L (by omega)).le
  constructor
  · intro hdrift n hn
    exact (hstep (hdrift n hn.le)).mp (hdrift (n + 1) hn)
  · intro htaken n hn
    induction n with
    | zero => rfl
    | succ n ih => exact (hstep (ih (by omega))).mpr (htaken n hn)

theorem xor_eq_left_iff {x y : Nat} : x ^^^ y = x ↔ y = 0 := by
  constructor
  · intro h
    have hcancel : x ^^^ (x ^^^ y) = y := by rw [← Nat.xor_assoc, Nat.xor_self, Nat.zero_xor]
    rw [← hcancel, h, Nat.xor_self]
  · rintro rfl
    exact Nat.xor_zero x

/-- After a run the registers are exact where none has drifted. -/
theorem foldsExact_run_iff (u : Unset) (calls : List Call) :
    FoldsExact (run u calls) (directions calls) ↔
      ∀ C ∈ [logG, tBits, tBits - 1], ∀ i, 1 ≤ i → i ≤ nHist →
        u.drift (m i) C (3 * calls.countP Call.pushes) = 0 := by
  have h := run_driftsFrom u calls
  rw [← length_directions]
  constructor
  · intro hexact C hC i hi hi'
    simp only [List.mem_cons, List.not_mem_nil, or_false] at hC
    rcases hC with rfl | rfl | rfl
    · exact xor_eq_left_iff.mp ((h.chI i hi hi').comp.symm.trans (hexact.chI i hi hi'))
    · exact xor_eq_left_iff.mp ((h.chT0 i hi hi').comp.symm.trans (hexact.chT0 i hi hi'))
    · exact xor_eq_left_iff.mp ((h.chT1 i hi hi').comp.symm.trans (hexact.chT1 i hi hi'))
  · intro hzero
    constructor
    · intro i hi hi'
      exact (h.chI i hi hi').comp.trans (xor_eq_left_iff.mpr (hzero logG (by simp) i hi hi'))
    · intro i hi hi'
      exact (h.chT0 i hi hi').comp.trans (xor_eq_left_iff.mpr (hzero tBits (by simp) i hi hi'))
    · intro i hi hi'
      exact (h.chT1 i hi hi').comp.trans
        (xor_eq_left_iff.mpr (hzero (tBits - 1) (by simp) i hi hi'))

theorem exists_prefix_countP {α : Type} (p : α → Bool) (xs : List α) {n : Nat}
    (hn : n ≤ xs.countP p) : ∃ before, before <+: xs ∧ before.countP p = n := by
  induction xs using List.reverseRecOn with
  | nil => exact ⟨[], List.prefix_rfl, (Nat.le_zero.mp hn).symm⟩
  | append_singleton xs x ih =>
    rcases Nat.lt_or_ge (xs.countP p) n with hlt | hge
    · refine ⟨xs ++ [x], List.prefix_rfl, ?_⟩
      have hlast : [x].countP p ≤ 1 := List.countP_le_length
      rw [List.countP_append] at hn ⊢
      omega
    · obtain ⟨before, hbefore, hcount⟩ := ih hge
      exact ⟨before, hbefore.trans (List.prefix_append xs [x]), hcount⟩

/-- **Folded histories stay exact where the new ring has nothing to take out.**  After
each call of a sequence every register of the banks is the fold of the last `m[k]` bits
just when the bytes that the registers take out in its history updates, three a bank and
update, cancel out. -/
theorem foldsExact_iff (u : Unset) (calls : List Call) :
    (∀ before, before <+: calls → FoldsExact (run u before) (directions before)) ↔
      ∀ n < calls.countP Call.pushes, ∀ k, 1 ≤ k → k ≤ nHist → u.takenOut (m k) n = 0 := by
  have hwidths : ∀ C ∈ [logG, tBits, tBits - 1], 10 ≤ C := by decide
  constructor
  · intro hexact n hn k hk hk'
    refine (u.drift_eq_zero_iff (C := logG) (by decide) (calls.countP Call.pushes)).mp ?_ n hn
    intro n' hn'
    obtain ⟨before, hbefore, hcount⟩ := exists_prefix_countP Call.pushes calls hn'
    rw [← hcount]
    exact (foldsExact_run_iff u before).mp (hexact before hbefore) logG (by simp) k hk hk'
  · intro htaken before hbefore
    rw [foldsExact_run_iff]
    intro C hC i hi hi'
    refine (u.drift_eq_zero_iff (hwidths C hC) (calls.countP Call.pushes)).mpr ?_ _ ?_
    · intro n hn
      exact htaken n hn i hi hi'
    · exact hbefore.sublist.countP_le

/-- A new object in which one byte of the ring is 1. -/
def oneByte : Unset where
  ghist := fun i => if i = 1 then 1 else 0
  gi := fun _ => 0
  gtag := fun _ => 0
  altTarget := 0
  tageTarget := 0
  longestMatchPred := 0
  hitBank := -1
  altBank := -1

/-- Its first call pushes three zeros, and the register of the first two bits has one. -/
theorem oneByte_drifts :
    directions [.trackOtherInst 0 0] = [false, false, false] ∧
      ((run oneByte [.trackOtherInst 0 0]).chI 1).comp = 16 ∧
      ¬ FoldsExact (run oneByte [.trackOtherInst 0 0]) (directions [.trackOtherInst 0 0]) := by
  have hcomp : ((run oneByte [.trackOtherInst 0 0]).chI 1).comp = 16 := by decide +kernel
  refine ⟨by decide, hcomp, ?_⟩
  intro hexact
  have hfold := hexact.chI 1 (by decide) (by decide)
  rw [hcomp] at hfold
  exact absurd hfold (by decide)

end Ipredictor

end CbpSim.Predictor
