/-
  Trace/Destinations.lean --- the destination of each piece.

  Source: src/lib/trace_reader.h, `populateNewInstr` (`D`, the crack cursors) and
  `readInstr` (the values, the base-update register moved behind them).

  The value cursor moves by one a piece, the register cursor by one or by none, and the
  base update reads the last value instead of those under the cursors.  Whatever outputs
  the record has, piece `k` gets the register and the value of lane `k`.
-/
import CbpSim.Trace.Cracking

set_option autoImplicit false

namespace CbpSim.Trace

open CbpSim.Foundation

/-- The register and the value of the destination, when the piece has one. -/
def Piece.dest (p : Piece) : Option (Nat × Nat) :=
  if p.inst.D.valid then some (p.inst.D.logReg, p.inst.D.value) else none

/-- The lanes of a record in the reader's order, each with its register: one for an
integer register, the low and the high half of a SIMD register, and the base-update
register last. -/
def Record.lanes (r : Record) : List (Nat × Nat) := r.orderedOuts.flatMap Output.pairs

/-- The pieces of a record, the base-update piece apart, carry its lanes: piece `k` has
lane `k` for its destination, and only a record without outputs has a piece without
destination. -/
structure CarriesLanes (r : Record) (plain base : List Piece) : Prop where
  count : plain.length + base.length = max 1 r.outs.length + r.outs.countP Output.hasHigh
  lanes : ∀ (k : Nat) (p : Piece), plain[k]? = some p → p.inst.insnClass = r.type ∧ p.dest = r.lanes[k]?
  valid : r.outs ≠ [] → ∀ p ∈ plain, p.inst.D.valid = true
  baseUpd : base.map (fun p : Piece => (p.inst.insnClass, p.dest)) =
    r.baseUpdOut.toList.map fun b => (.alu, some (b.reg.val, b.low.val))

theorem Loaded.Delivers.dest {r : Record} {p : Piece} (h : Delivers r p) {k : Nat}
    (hlane : p.lane = some k) : p.dest = r.lanes[k]? := by
  obtain ⟨hvalid, k', hlane', hpair⟩ := h
  obtain rfl : k = k' := Option.some.inj (hlane.symm.trans hlane')
  rw [Piece.dest, if_pos hvalid, ← hpair]
  rfl

namespace Loaded

variable {r : Record} {t : TraceReader}

/-- Only the piece behind the plain ones holds the base update. -/
theorem baseUpdAt_plain (h : Loaded r t) {k : Nat} (hk : k < r.plainPieces t) :
    t.baseUpdAt k = false := by
  have hlater : t.Later k (t.after k 0 0) :=
    ⟨0, k, 0, by rw [h.start.1, Nat.zero_add]; rfl⟩
  rw [← hlater.createBaseUpdateOp, h.createBaseUpdateOp_plain hk]

theorem baseUpdAt_last (h : Loaded r t) {b : Output} (hb : r.baseUpdOut = some b) :
    t.baseUpdAt (r.plainPieces t) = true := by
  have hlater : t.Later (r.plainPieces t) (t.after (r.plainPieces t) 0 0) :=
    ⟨0, r.plainPieces t, 0, by rw [h.start.1, Nat.zero_add]; rfl⟩
  rw [← hlater.createBaseUpdateOp, h.createBaseUpdateOp_last hb]

/-- Without outputs a piece has no destination. -/
theorem dest_none (h : Loaded r t) (hnone : r.outs = []) {k : Nat} (hk : k < r.plainPieces t)
    {p : Piece} (hp : t.BuildsAt k p) : p.dest = none := by
  obtain ⟨t₁, t₂, hlater, hpopulate, -⟩ := hp
  obtain ⟨-, startFpReg, houtput⟩ := TraceReader.populateNewInstr_operands hpopulate
  have hnum : t₁.mInstr.mNumOutRegs = 0 := by rw [hlater.mInstr, h.numOutRegs, hnone]; rfl
  rw [hlater.createBaseUpdateOp, h.baseUpdAt_plain hk, TraceReader.populateOutput,
    if_neg Bool.false_ne_true, if_neg (by simp [hnum])] at houtput
  have hD : p.inst.D = {} := (Prod.mk.inj (Except.ok.inj houtput)).1.symm
  rw [Piece.dest, hD]
  rfl

theorem insnClass_plain (h : Loaded r t) {k : Nat} (hk : k < r.plainPieces t) {p : Piece}
    (hp : t.BuildsAt k p) : p.inst.insnClass = r.type := by
  rw [hp.insnClass, h.baseUpdAt_plain hk, h.type]
  rfl

/-- The count of the pieces does not wrap around for so few outputs. -/
theorem total_short (h : Loaded r t) (hshort : r.outs.length < 128) :
    t.mTotalPieces = max 1 r.outs.length + r.outs.countP Output.hasHigh := by
  have hhighs : r.outs.countP Output.hasHigh ≤ r.outs.length := List.countP_le_length
  exact h.total.trans (Nat.mod_eq_of_lt (by omega))

theorem plainPieces_add (h : Loaded r t) :
    r.plainPieces t + r.baseUpdOut.isSome.toNat = t.mTotalPieces := by
  have hcounts := h.counts.1
  have hbool := Bool.toNat_le r.baseUpdOut.isSome
  have hpos := h.total_pos
  unfold Record.plainPieces
  omega

/-- The pieces that the reader returns are as many as counted, each built at its place. -/
theorem getPieces_at (h : Loaded r t) {u : Uninit} {pieces : List Piece}
    (hpieces : t.getPieces u 255 = .ok pieces) :
    pieces.length = t.mTotalPieces ∧
      ∀ (k : Nat) (p : Piece), pieces[k]? = some p → t.BuildsAt k p := by
  have hstart : t.mProcessedPieces = 0 := h.start.1
  have hpos := h.total_pos
  have hlt := h.total_lt
  have hresult := TraceReader.getPieces_built hlt (by omega) (by omega) hpieces
  rwa [hstart, Nat.sub_zero] at hresult

/-- A record without outputs is one piece, without destination. -/
theorem carriesLanes_none (h : Loaded r t) (u : Uninit) (hnone : r.outs = []) :
    ∃ plain base, t.getPieces u 255 = .ok (plain ++ base) ∧ CarriesLanes r plain base := by
  have hzero : r.outs.length = 0 := List.length_eq_zero_iff.mpr hnone
  have hplain := h.plainPieces_add
  have hbase : r.baseUpdOut = none := by
    have hcounts := h.counts.1
    cases hb : r.baseUpdOut with
    | none => rfl
    | some b =>
      rw [hb, Option.isSome_some, Bool.toNat_true] at hcounts
      omega
  have hlanes : r.lanes = [] := by
    have hordered := List.length_eq_zero_iff.mp (r.length_orderedOuts.trans hzero)
    rw [Record.lanes, hordered]
    rfl
  rw [hbase, Option.isSome_none, Bool.toNat_false, Nat.add_zero] at hplain
  obtain ⟨pieces, hpieces⟩ := h.pieces_none u hnone
  obtain ⟨hlen, hat⟩ := h.getPieces_at hpieces
  refine ⟨pieces, [], by rw [List.append_nil, hpieces], ?_, ?_, ?_, ?_⟩
  · rw [hlen, h.total_short (by omega), List.length_nil, Nat.add_zero]
  · intro k p hk
    have hk' : k < r.plainPieces t := by
      rw [hplain, ← hlen]
      exact (List.getElem?_eq_some_iff.mp hk).1
    rw [hlanes]
    exact ⟨h.insnClass_plain hk' (hat k p hk), h.dest_none hnone hk' (hat k p hk)⟩
  · exact fun hne => absurd hnone hne
  · rw [hbase]
    rfl

/-- Behind the plain pieces stands the base update, or nothing. -/
theorem baseUpd_carried (h : Loaded r t) {pieces : List Piece}
    (hlen : pieces.length = t.mTotalPieces)
    (hat : ∀ (k : Nat) (p : Piece), pieces[k]? = some p → t.BuildsAt k p)
    (hmap : pieces.map Piece.lane = carried r t 0) (hall : ∀ p ∈ pieces, Delivers r p) :
    (pieces.drop (r.plainPieces t)).map (fun p : Piece => (p.inst.insnClass, p.dest)) =
      r.baseUpdOut.toList.map fun b => (.alu, some (b.reg.val, b.low.val)) := by
  have hplain := h.plainPieces_add
  cases hb : r.baseUpdOut with
  | none =>
    rw [hb, Option.isSome_none, Bool.toNat_false, Nat.add_zero] at hplain
    rw [List.drop_of_length_le (by omega)]
    rfl
  | some b =>
    rw [hb, Option.isSome_some, Bool.toNat_true] at hplain
    have hin : r.plainPieces t < pieces.length := by omega
    have hp := List.getElem?_eq_getElem hin
    have hlast : (pieces[r.plainPieces t]).lane =
        some (r.plainOuts.flatMap Output.pairs).length := by
      have hcarried : (carried r t 0)[r.plainPieces t]? = some (pieces[r.plainPieces t]).lane := by
        rw [← hmap, List.getElem?_map, hp]
        rfl
      have hge : ((List.range' 0 (r.plainPieces t - 0)).map some).length =
          r.plainPieces t := by simp
      rw [carried, List.getElem?_append_right (by rw [hge]), hge, Nat.sub_self, hb,
        (h.last_lane hb).1] at hcarried
      exact (Option.some.inj hcarried).symm
    rw [List.drop_eq_getElem_cons hin, List.drop_of_length_le (by omega)]
    have hdest : (pieces[r.plainPieces t]).dest = some (b.reg.val, b.low.val) := by
      rw [(hall _ (List.mem_of_getElem? hp)).dest hlast]
      exact (h.last_lane hb).2
    have halu : (pieces[r.plainPieces t]).inst.insnClass = .alu := by
      rw [(hat _ _ hp).insnClass, h.baseUpdAt_last hb]
      rfl
    simp only [List.map_cons, List.map_nil, hdest, halu, Option.toList_some]

/-- With outputs, each plain piece carries the lane of its number. -/
theorem carriesLanes_outputs (h : Loaded r t) (u : Uninit) (hnum : 0 < r.outs.length)
    (hshort : r.outs.length < 128) :
    ∃ plain base, t.getPieces u 255 = .ok (plain ++ base) ∧ CarriesLanes r plain base := by
  obtain ⟨pieces, hpieces, hmap, hall⟩ := h.pieces u hnum
  obtain ⟨hlen, hat⟩ := h.getPieces_at hpieces
  refine ⟨pieces.take (r.plainPieces t), pieces.drop (r.plainPieces t),
    by rw [List.take_append_drop, hpieces], ?_, ?_, ?_, h.baseUpd_carried hlen hat hmap hall⟩
  · rw [← List.length_append, List.take_append_drop, hlen, h.total_short hshort]
  · intro k p hk
    rw [List.getElem?_take] at hk
    split at hk
    · rename_i hk'
      have hmem : Delivers r p := hall p (List.mem_of_getElem? hk)
      refine ⟨h.insnClass_plain hk' (hat k p hk), hmem.dest ?_⟩
      have hcarried : (carried r t 0)[k]? = some p.lane := by
        rw [← hmap, List.getElem?_map, hk]
        rfl
      have hin : k < ((List.range' 0 (r.plainPieces t - 0)).map some).length := by simpa using hk'
      rw [carried, List.getElem?_append_left hin] at hcarried
      simpa [hk', eq_comm] using hcarried
    · cases hk
  · exact fun _ p hp => (hall p (List.mem_of_mem_take hp)).1

/-- **The pieces of a loaded record** carry its lanes. -/
theorem carriesLanes (h : Loaded r t) (u : Uninit) (hshort : r.outs.length < 128) :
    ∃ plain base, t.getPieces u 255 = .ok (plain ++ base) ∧ CarriesLanes r plain base := by
  rcases Nat.eq_zero_or_pos r.outs.length with hzero | hnum
  · exact h.carriesLanes_none u (List.length_eq_zero_iff.mp hzero)
  · exact h.carriesLanes_outputs u hnum hshort

end Loaded

/-- **Every piece carries the lane of its number**, and no register or value is looked up
behind the last one, whatever integer and SIMD outputs the record mixes. -/
theorem pieces_carryLanes (u : Uninit) (r : Record) (haccepted : r.Accepted u)
    (hstore : r.type.isStore = false) (hshort : r.outs.length < 128) (t : TraceReader)
    (rest : List Byte) (ht : t.dpressedInput = onBytes (r.encode ++ rest))
    (hdone : t.mProcessedPieces = t.mTotalPieces) :
    ∃ plain base, t.getPieces u 255 = .ok (plain ++ base) ∧ CarriesLanes r plain base := by
  have hclean : r.Clean := by simp [Record.Clean, hstore]
  obtain ⟨t', hread, -⟩ := haccepted.read hclean ht
  have hloaded := loaded_of_read hstore ht hread
  rw [hloaded.getPieces_of_read u hdone hread]
  exact hloaded.carriesLanes u hshort

/-- A load of a SIMD register, of the base register and of an integer register. -/
def loadsWithBase : Record where
  pc := 4096
  typeByte := 1
  effAddr := 8192
  memSize := 24
  baseUpd := 1
  hasRegOffset := 0
  taken := false
  target := 0
  inRegs := [1]
  outs := [⟨32, 3, 5⟩, ⟨1, 8216, 0⟩, ⟨2, 7, 0⟩]
  length_inRegs := Record.length_oneInput
  length_outs := by simp

theorem pieces_carryLanes_withBase : ∃ plain base,
    (TraceReader.new ⟨0, 0, 0, 0⟩ (loadsWithBase.encode ++ [])).getPieces ⟨0, 0, 0, 0⟩ 255 =
      .ok (plain ++ base) ∧ CarriesLanes loadsWithBase plain base :=
  pieces_carryLanes ⟨0, 0, 0, 0⟩ loadsWithBase (Record.accepted_of_isOk (by decide +kernel))
    (by decide) (by decide) _ [] rfl rfl

/-- The base register comes last, although it is the second output. -/
example : loadsWithBase.lanes = [(32, 3), (32, 5), (2, 7), (1, 8216)] := by decide +kernel

end CbpSim.Trace
