/-
  Trace/Pieces.lean --- the pieces that successive `get_inst` calls return.

  Source: src/lib/trace_reader.h, `get_inst` and `populateNewInstr`.

  While pieces are left `get_inst` builds the next one from `mInstr`, which stays, and
  from the cursors.  So the `k`-th piece is what `populateNewInstr` builds in a reader
  that differs from the first one in its cursors only, and the last one ends them.
-/
import CbpSim.Trace.Reader

set_option autoImplicit false

namespace CbpSim.Trace

open CbpSim.Foundation

/-- A piece, and the number of the output value that its destination carries. -/
structure Piece where
  inst : DbInst
  lane : Option Nat
  deriving DecidableEq, Repr

namespace TraceReader

/-- The state in which the next `get_inst` builds its piece. -/
def ready (u : Uninit) (t : TraceReader) : TraceReader :=
  if t.mProcessedPieces ≠ t.mTotalPieces then t
  else match t.readInstr u with
    | .ok (_, t) => t
    | .error _ => t

/-- The output value that `populateNewInstr` puts into the destination. -/
def lane (t : TraceReader) : Option Nat :=
  if t.createBaseUpdateOp then some (t.mInstr.mOutRegsValues.length - 1)
  else if !t.mInstr.mType.isStore && t.mInstr.mNumOutRegs ≥ 1 then some t.mCrackValIdx
  else none

/-- The pieces that successive `get_inst` calls return, up to a last one. -/
def getPieces (u : Uninit) : Nat → TraceReader → Except Abort (List Piece)
  | 0, _ => .ok []
  | n + 1, t => do
    let (inst, t') ← t.getInst u
    match inst with
    | none => .ok []
    | some inst =>
      if inst.isLastPiece then .ok [{ inst := inst, lane := (t.ready u).lane }]
      else do
        let pieces ← getPieces u n t'
        .ok ({ inst := inst, lane := (t.ready u).lane } :: pieces)

/-! ## One piece after the other -/

/-- The reader `k` pieces later: only the cursors have moved. -/
def Later (t : TraceReader) (k : Nat) (t' : TraceReader) : Prop :=
  ∃ regIdx valIdx startFpReg, t' = { t with
    mProcessedPieces := t.mProcessedPieces + k
    mCrackRegIdx := regIdx
    mCrackValIdx := valIdx
    startFpReg := startFpReg }

/-- The piece is the one that comes after `k` others. -/
def BuildsAt (t : TraceReader) (k : Nat) (p : Piece) : Prop :=
  ∃ t₁ t₂, t.Later k t₁ ∧ t₁.populateNewInstr = .ok (p.inst, t₂) ∧ p.lane = t₁.lane

variable {t t₁ t₂ : TraceReader} {k : Nat}

theorem later_zero (t : TraceReader) : t.Later 0 t := ⟨_, _, _, rfl⟩

namespace Later

theorem mInstr (h : t.Later k t₁) : t₁.mInstr = t.mInstr := by
  obtain ⟨_, _, _, rfl⟩ := h
  rfl

theorem mTotalPieces (h : t.Later k t₁) : t₁.mTotalPieces = t.mTotalPieces := by
  obtain ⟨_, _, _, rfl⟩ := h
  rfl

theorem mMemPieces (h : t.Later k t₁) : t₁.mMemPieces = t.mMemPieces := by
  obtain ⟨_, _, _, rfl⟩ := h
  rfl

theorem mSizeFactor (h : t.Later k t₁) : t₁.mSizeFactor = t.mSizeFactor := by
  obtain ⟨_, _, _, rfl⟩ := h
  rfl

theorem processed (h : t.Later k t₁) : t₁.mProcessedPieces = t.mProcessedPieces + k := by
  obtain ⟨_, _, _, rfl⟩ := h
  rfl

theorem trans {j : Nat} (h : t.Later k t₁) (h' : t₁.Later j t₂) : t.Later (k + j) t₂ := by
  obtain ⟨_, _, _, rfl⟩ := h
  obtain ⟨regIdx, valIdx, startFpReg, rfl⟩ := h'
  exact ⟨regIdx, valIdx, startFpReg, by rw [Nat.add_assoc]⟩

end Later

/-- `populateNewInstr` leaves the reader one piece later. -/
theorem Built.later {inst : DbInst} (h : Built t inst t₁) (hlt : t.mProcessedPieces + 1 < 256) :
    t.Later 1 t₁ := by
  have hprocessed : t₁.mProcessedPieces = t.mProcessedPieces + 1 := by
    rw [h.processed, Nat.mod_eq_of_lt hlt]
  refine ⟨t₁.mCrackRegIdx, t₁.mCrackValIdx, t₁.startFpReg, ?_⟩
  rw [← hprocessed]
  exact h.frame

/-- While pieces are left `getPieces` builds one and goes on unless it is the last. -/
theorem getPieces_succ (u : Uninit) (n : Nat) (hp : t.mProcessedPieces < t.mTotalPieces) :
    t.getPieces u (n + 1) = (do
      let (inst, t') ← t.populateNewInstr
      if inst.isLastPiece then .ok [{ inst := inst, lane := t.lane }]
      else do
        let pieces ← t'.getPieces u n
        .ok ({ inst := inst, lane := t.lane } :: pieces)) := by
  have hready : t.ready u = t := by rw [ready, if_pos (Nat.ne_of_lt hp)]
  rw [getPieces, getInst, if_pos (Nat.ne_of_lt hp), hready]
  cases t.populateNewInstr with
  | error e => rfl
  | ok x => rfl

/-- The first call reads a record, then builds its piece as any other. -/
theorem getPieces_of_read (u : Uninit) (hdone : t.mProcessedPieces = t.mTotalPieces)
    (hread : t.readInstr u = .ok (true, t₁)) (hne : t₁.mProcessedPieces ≠ t₁.mTotalPieces)
    (n : Nat) : t.getPieces u n = t₁.getPieces u n := by
  have hget : t.getInst u = t₁.getInst u := by
    unfold getInst
    rw [if_neg (by simp [hdone]), if_pos hne, hread, ok_bind]
    simp
  have hready : t.ready u = t₁.ready u := by
    rw [ready, if_neg (by simp [hdone]), hread, ready, if_pos hne]
  cases n with
  | zero => rfl
  | succ n =>
    unfold getPieces
    rw [hget, hready]

/-- **The pieces of a record**: as many as are left, each built where its number says. -/
theorem getPieces_built {u : Uninit} {n : Nat} {pieces : List Piece} (hlt : t.mTotalPieces < 256)
    (hp : t.mProcessedPieces < t.mTotalPieces) (hn : t.mTotalPieces ≤ t.mProcessedPieces + n)
    (h : t.getPieces u n = .ok pieces) :
    pieces.length = t.mTotalPieces - t.mProcessedPieces ∧
      ∀ k p, pieces[k]? = some p → t.BuildsAt k p := by
  induction n generalizing t pieces with
  | zero => omega
  | succ n ih =>
    rw [getPieces_succ u n hp] at h
    obtain ⟨⟨inst, t'⟩, hpopulate, h⟩ := bind_eq_ok.mp h
    have hbuilt : Built t inst t' := (populateNewInstr_built t).of_ok hpopulate
    have hlater := hbuilt.later (by omega)
    have hfirst : t.BuildsAt 0 { inst := inst, lane := t.lane } :=
      ⟨t, t', later_zero t, hpopulate, rfl⟩
    have hlast : inst.isLastPiece = (t.mProcessedPieces + 1 == t.mTotalPieces) := by
      rw [hbuilt.isLastPiece, hlater.processed]
    dsimp only at h
    cases hmore : inst.isLastPiece with
    | true =>
      have hend : t.mProcessedPieces + 1 = t.mTotalPieces := by simpa [hlast] using hmore
      rw [if_pos hmore] at h
      obtain rfl := Except.ok.inj h
      refine ⟨by rw [List.length_singleton]; omega, ?_⟩
      intro k p hk
      cases k with
      | zero => exact Option.some.inj hk ▸ hfirst
      | succ k => simp at hk
    | false =>
      have hne : t.mProcessedPieces + 1 ≠ t.mTotalPieces := by simpa [hlast] using hmore
      rw [if_neg (by simp [hmore])] at h
      obtain ⟨rest, hrest, h⟩ := bind_eq_ok.mp h
      obtain rfl := Except.ok.inj h
      obtain ⟨hlen, hall⟩ := ih (by rw [hlater.mTotalPieces]; exact hlt)
        (by rw [hlater.mTotalPieces, hlater.processed]; omega)
        (by rw [hlater.mTotalPieces, hlater.processed]; omega) hrest
      rw [hlater.mTotalPieces, hlater.processed] at hlen
      refine ⟨by rw [List.length_cons, hlen]; omega, ?_⟩
      intro k p hk
      cases k with
      | zero => exact Option.some.inj hk ▸ hfirst
      | succ k =>
        obtain ⟨t₁, t₂, hlater', hpopulate', hlane⟩ := hall k p hk
        exact ⟨t₁, t₂, Nat.add_comm 1 k ▸ hlater.trans hlater', hpopulate', hlane⟩

/-- There are pieces when none of them aborts. -/
theorem getPieces_ok (u : Uninit) {n : Nat} (hlt : t.mTotalPieces < 256)
    (hp : t.mProcessedPieces < t.mTotalPieces) (hn : t.mTotalPieces ≤ t.mProcessedPieces + n)
    (h : ∀ k t₁, t.mProcessedPieces + k < t.mTotalPieces → t.Later k t₁ →
      ∃ inst t₂, t₁.populateNewInstr = .ok (inst, t₂)) :
    ∃ pieces, t.getPieces u n = .ok pieces := by
  induction n generalizing t with
  | zero => omega
  | succ n ih =>
    obtain ⟨inst, t', hpopulate⟩ := h 0 t hp (later_zero t)
    have hbuilt : Built t inst t' := (populateNewInstr_built t).of_ok hpopulate
    have hlater := hbuilt.later (by omega)
    rw [getPieces_succ u n hp, hpopulate, ok_bind]
    dsimp only
    split
    · exact ⟨_, rfl⟩
    · rename_i hmore
      have hne : t.mProcessedPieces + 1 ≠ t.mTotalPieces := by
        rw [hbuilt.isLastPiece, hlater.processed] at hmore
        simpa using hmore
      obtain ⟨rest, hrest⟩ := ih (t := t') (by rw [hlater.mTotalPieces]; exact hlt)
        (by rw [hlater.mTotalPieces, hlater.processed]; omega)
        (by rw [hlater.mTotalPieces, hlater.processed]; omega)
        (fun k t₁ hk hlater' => h (1 + k) t₁
          (by rw [hlater.mTotalPieces, hlater.processed] at hk; omega) (hlater.trans hlater'))
      rw [hrest, ok_bind]
      exact ⟨_, rfl⟩

/-! ## What the `k`-th piece holds -/

/-- Whether the piece after `k` others holds the base update. -/
def baseUpdAt (t : TraceReader) (k : Nat) : Bool :=
  t.mInstr.mType.isMem && t.mProcessedPieces + k ≥ 1 &&
    t.mMemPieces == t.mProcessedPieces + k && t.mMemPieces + 1 == t.mTotalPieces

theorem Later.createBaseUpdateOp (h : t.Later k t₁) :
    t₁.createBaseUpdateOp = t.baseUpdAt k := by
  obtain ⟨_, _, _, rfl⟩ := h
  rfl

namespace BuildsAt

variable {p : Piece}

theorem insnClass (h : t.BuildsAt k p) :
    p.inst.insnClass = if t.baseUpdAt k then .alu else t.mInstr.mType := by
  obtain ⟨t₁, t₂, hlater, hpopulate, -⟩ := h
  have hbuilt : Built t₁ p.inst t₂ := (populateNewInstr_built t₁).of_ok hpopulate
  rw [hbuilt.insnClass, hlater.createBaseUpdateOp, hlater.mInstr]

theorem isLoad (h : t.BuildsAt k p) :
    p.inst.isLoad = (!t.baseUpdAt k && t.mInstr.mType == .load) := by
  obtain ⟨t₁, t₂, hlater, hpopulate, -⟩ := h
  have hbuilt : Built t₁ p.inst t₂ := (populateNewInstr_built t₁).of_ok hpopulate
  rw [hbuilt.isLoad, hlater.createBaseUpdateOp, hlater.mInstr]

theorem isStore (h : t.BuildsAt k p) :
    p.inst.isStore = (!t.baseUpdAt k && t.mInstr.mType == .store) := by
  obtain ⟨t₁, t₂, hlater, hpopulate, -⟩ := h
  have hbuilt : Built t₁ p.inst t₂ := (populateNewInstr_built t₁).of_ok hpopulate
  rw [hbuilt.isStore, hlater.createBaseUpdateOp, hlater.mInstr]

theorem addr (h : t.BuildsAt k p) : p.inst.addr =
    (t.mInstr.mEffAddr + (t.mProcessedPieces + k) * t.mSizeFactor) % 2 ^ 64 := by
  obtain ⟨t₁, t₂, hlater, hpopulate, -⟩ := h
  have hbuilt : Built t₁ p.inst t₂ := (populateNewInstr_built t₁).of_ok hpopulate
  rw [hbuilt.addr, hlater.mInstr, hlater.processed, hlater.mSizeFactor]

theorem size (h : t.BuildsAt k p) : p.inst.size = max 1 t.mSizeFactor := by
  obtain ⟨t₁, t₂, hlater, hpopulate, -⟩ := h
  have hbuilt : Built t₁ p.inst t₂ := (populateNewInstr_built t₁).of_ok hpopulate
  rw [hbuilt.size, hlater.mSizeFactor]

theorem isLastPiece (h : t.BuildsAt k p) (hlt : t.mProcessedPieces + k + 1 < 256) :
    p.inst.isLastPiece = (t.mProcessedPieces + k + 1 == t.mTotalPieces) := by
  obtain ⟨t₁, t₂, hlater, hpopulate, -⟩ := h
  have hbuilt : Built t₁ p.inst t₂ := (populateNewInstr_built t₁).of_ok hpopulate
  rw [hbuilt.isLastPiece, hbuilt.processed, hlater.processed, hlater.mTotalPieces,
    Nat.mod_eq_of_lt hlt]

end BuildsAt
end TraceReader

/-- A filter that takes exactly the first elements. -/
theorem filter_eq_take {α : Type} {f : α → Bool} {l : List α} {n : Nat}
    (h : ∀ k a, l[k]? = some a → (f a = true ↔ k < n)) : l.filter f = l.take n := by
  induction l generalizing n with
  | nil => simp
  | cons a l ih =>
    have hhead := h 0 a rfl
    cases n with
    | zero =>
      have hnone : ∀ b ∈ a :: l, ¬ f b = true := by
        intro b hb hf
        obtain ⟨k, hk⟩ := List.mem_iff_getElem?.mp hb
        exact absurd ((h k b hk).mp hf) (Nat.not_lt_zero k)
      rw [List.filter_eq_nil_iff.mpr hnone, List.take_zero]
    | succ n =>
      rw [List.filter_cons_of_pos (hhead.mpr (Nat.succ_pos n)), List.take_succ_cons,
        ih fun k b hk => (h (k + 1) b hk).trans Nat.succ_lt_succ_iff]

end CbpSim.Trace
