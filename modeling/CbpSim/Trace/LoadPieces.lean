/-
  Trace/LoadPieces.lean --- the bytes that the pieces of a load access.

  Source: src/lib/trace_reader.h, `readInstr` (`mMemPieces`, `mSizeFactor`) and
  `populateNewInstr` (`addr`, `size`).

  Every load piece of a record accesses the integer quotient of the access size by
  their number, at least one byte.  A store asserts that the division is exact; a load
  does not, and then its pieces overlap or leave the last bytes out.
-/
import CbpSim.Foundation.Tiling
import CbpSim.Trace.Cracking

set_option autoImplicit false

namespace CbpSim.Trace

open CbpSim.Foundation

/-- The load pieces of a record, by its outputs: one for each register and one more for
each high half that is not zero, counted in a byte, without the base-update register. -/
def Record.loadPieces (r : Record) : Nat :=
  (max 1 r.outs.length + r.outs.countP Output.hasHigh) % 256 - r.baseUpdOut.isSome.toNat

/-- The address and the size of each load piece. -/
def accesses (pieces : List Piece) : List (Nat × Nat) :=
  (pieces.filter fun p => p.inst.isLoad).map fun p => (p.inst.addr, p.inst.size)

/-- The load pieces of the record in front of the reader tile its access. -/
def TilesAccess (u : Uninit) (r : Record) (t : TraceReader) : Prop :=
  ∃ pieces, t.getPieces u 255 = .ok pieces ∧
    Tiles (2 ^ 64) (accesses pieces) r.effAddr.val r.memSize.val

/-! ## The accesses of the pieces -/

/-- A load divides the size of the access by the number of its pieces. -/
theorem readInstr_sizeFactor (u : Uninit) (t : TraceReader) :
    Ends (t.readInstr u) (fun _ => True) fun x =>
      x.1 = true → x.2.mInstr.mType.isLoad = true →
        x.2.mSizeFactor = x.2.mInstr.mMemSize / x.2.mMemPieces := by
  have hcounted : ∀ (m : Instr) (baseUpdate : Bool) (total : Nat),
      Ends (countPieces m baseUpdate total) (fun _ => True) fun x =>
        m.mType.isLoad = true → x.2.2 = m.mMemSize / x.1 := by
    intro m baseUpdate total
    unfold countPieces
    split
    · apply Ends.ite
      · intro _
        trivial
      · intro _ _
        rfl
    · split
      · apply Ends.ite
        · intro _
          trivial
        · intro _ _
          rfl
      · rename_i hload
        apply Ends.ite
        · intro _
          trivial
        · intro _
          apply Ends.ite
          · intro _
            trivial
          · intro _ hload'
            exact absurd hload' hload
  unfold TraceReader.readInstr
  dsimp only
  apply Ends.ite
  · intro _ hmore
    cases hmore
  · intro _
    apply Ends.bind (Ends.of_any fun _ => trivial)
    rintro ⟨baseUpdate, m, v⟩ _
    apply Ends.bind (hcounted m baseUpdate v.mTotalPieces)
    rintro ⟨memPieces, totalPieces, sizeFactor⟩ hsize
    apply Ends.bind (Ends.of_any fun _ => trivial)
    intro _ _ _ hload
    exact hsize hload

/-- **The load pieces of a load** follow each other at the distance of the size factor;
the base-update piece is none. -/
theorem getPieces_accesses {u : Uninit} {n : Nat} {t : TraceReader} {pieces : List Piece}
    (htype : t.mInstr.mType = .load) (hpos : 1 ≤ t.mMemPieces)
    (htotal : t.mTotalPieces = t.mMemPieces ∨ t.mTotalPieces = t.mMemPieces + 1)
    (hlt : t.mTotalPieces < 256) (hstart : t.mProcessedPieces = 0) (hn : t.mTotalPieces ≤ n)
    (h : t.getPieces u n = .ok pieces) :
    accesses pieces = (List.range t.mMemPieces).map fun p =>
      ((t.mInstr.mEffAddr + p * t.mSizeFactor) % 2 ^ 64, max 1 t.mSizeFactor) := by
  obtain ⟨hlen, hbuilt⟩ := TraceReader.getPieces_built hlt (by omega) (by omega) h
  rw [hstart, Nat.sub_zero] at hlen
  have hloads : ∀ k p, pieces[k]? = some p → (p.inst.isLoad = true ↔ k < t.mMemPieces) := by
    intro k p hk
    have hk' : k < t.mTotalPieces := hlen ▸ (List.getElem?_eq_some_iff.mp hk).1
    rw [(hbuilt k p hk).isLoad, htype]
    rcases Nat.lt_or_ge k t.mMemPieces with hplain | hbase
    · have hne : ¬ t.mMemPieces = k := by omega
      simp [TraceReader.baseUpdAt, hstart, hne, hplain]
    · -- the base-update piece is the last one
      obtain rfl : t.mMemPieces = k := by omega
      have hsum : t.mMemPieces + 1 = t.mTotalPieces := by omega
      simp [TraceReader.baseUpdAt, htype, InstClass.isMem, InstClass.isLoad, hstart, hsum, hpos]
  unfold accesses
  rw [filter_eq_take hloads]
  apply List.ext_getElem?
  intro k
  rw [List.getElem?_map, List.getElem?_map, List.getElem?_take]
  split
  · rename_i hk
    have hin : k < pieces.length := by omega
    have hp := List.getElem?_eq_getElem hin
    rw [hp, List.getElem?_range hk, Option.map_some, Option.map_some, (hbuilt k _ hp).addr,
      (hbuilt k _ hp).size, hstart, Nat.zero_add]
  · rename_i hk
    rw [List.getElem?_eq_none (by rw [List.length_range]; omega)]
    rfl

/-- Loaded, a load has pieces, and their accesses are equal parts of its own. -/
theorem Loaded.accesses_eq {r : Record} {t : TraceReader} (h : Loaded r t)
    (hload : r.type.isLoad = true) (u : Uninit)
    (hsize : t.mSizeFactor = t.mInstr.mMemSize / t.mMemPieces) :
    ∃ pieces, t.getPieces u 255 = .ok pieces ∧
      accesses pieces =
        equalPieces (2 ^ 64) t.mInstr.mEffAddr t.mMemPieces t.mInstr.mMemSize := by
  obtain ⟨pieces, hpieces⟩ : ∃ pieces, t.getPieces u 255 = .ok pieces := by
    rcases Nat.eq_zero_or_pos r.outs.length with hzero | hnum
    · exact h.pieces_none u (List.length_eq_zero_iff.mp hzero)
    · obtain ⟨pieces, hpieces, -⟩ := h.pieces u hnum
      exact ⟨pieces, hpieces⟩
  have hmem : r.type.isMem = true := by simp [InstClass.isMem, hload]
  obtain ⟨hpos, hsum⟩ := h.mem hmem
  have hbool := Bool.toNat_le r.baseUpdOut.isSome
  have htype : t.mInstr.mType = .load := by
    rw [h.type]
    simpa [InstClass.isLoad] using hload
  have hstart : t.mProcessedPieces = 0 := h.start.1
  have hlt := h.total_lt
  have haccesses := getPieces_accesses htype hpos (by omega) hlt hstart (by omega) hpieces
  exact ⟨pieces, hpieces, by rw [haccesses, hsize, equalPieces]⟩

/-- **The load pieces tile the access exactly when** their number divides its size. -/
theorem tilesAccess_iff (u : Uninit) (r : Record) (haccepted : r.Accepted u)
    (hload : r.type.isLoad = true) (hsize : 1 ≤ r.memSize.val) (t : TraceReader)
    (rest : List Byte) (ht : t.dpressedInput = onBytes (r.encode ++ rest))
    (hdone : t.mProcessedPieces = t.mTotalPieces) :
    TilesAccess u r t ↔ r.loadPieces ∣ r.memSize.val := by
  have hstore : r.type.isStore = false := by
    have htype : r.type = .load := by simpa [InstClass.isLoad] using hload
    rw [htype]
    rfl
  have hmem : r.type.isMem = true := by simp [InstClass.isMem, hload]
  have hclean : r.Clean := by simp [Record.Clean, hstore]
  obtain ⟨t', hread, -, hholds⟩ := haccepted.read hclean ht
  have hloaded := loaded_of_read hstore ht hread
  have hfactor := (readInstr_sizeFactor u t).of_ok hread rfl (hholds.type.symm ▸ hload)
  obtain ⟨hpos, hsum⟩ := hloaded.mem hmem
  have hcount : t'.mMemPieces = r.loadPieces := by
    have htotal := hloaded.total
    unfold Record.loadPieces
    omega
  obtain ⟨pieces, hpieces, haccesses⟩ := hloaded.accesses_eq hload u hfactor
  rw [hholds.effAddr hmem, hholds.memSize hmem, hcount] at haccesses
  rw [← hloaded.getPieces_of_read u hdone hread] at hpieces
  have htiles : Tiles (2 ^ 64) (equalPieces (2 ^ 64) r.effAddr.val r.loadPieces r.memSize.val)
      r.effAddr.val r.memSize.val ↔ r.loadPieces ∣ r.memSize.val :=
    tiles_equalPieces (hcount ▸ hpos) hsize (r.memSize.isLt.le.trans (by decide))
  rw [← htiles, ← haccesses]
  constructor
  · rintro ⟨pieces', hpieces', h⟩
    obtain rfl : pieces = pieces' := Except.ok.inj (hpieces.symm.trans hpieces')
    exact h
  · exact fun h => ⟨pieces, hpieces, h⟩

/-- A load of two SIMD registers, 32 bytes. -/
def loadsTwo (firstHigh secondHigh : Word) : Record where
  pc := 4096
  typeByte := 1
  effAddr := 8192
  memSize := 32
  baseUpd := 0
  hasRegOffset := 0
  taken := false
  target := 0
  inRegs := [1]
  outs := [⟨32, 3, firstHigh⟩, ⟨33, 7, secondHigh⟩]
  length_inRegs := Record.length_oneInput
  length_outs := by simp

/-- Four pieces of eight bytes. -/
theorem tilesAccess_fullHalves :
    TilesAccess ⟨0, 0, 0, 0⟩ (loadsTwo 5 9)
      (TraceReader.new ⟨0, 0, 0, 0⟩ ((loadsTwo 5 9).encode ++ [])) :=
  (tilesAccess_iff ⟨0, 0, 0, 0⟩ (loadsTwo 5 9) (Record.accepted_of_isOk (by decide +kernel))
    (by decide) (by decide) _ [] rfl rfl).mpr (by decide)

/-- One high half is zero: three pieces of ten bytes leave out the last two. -/
theorem lastBytes_left_out :
    (loadsTwo 5 0).Accepted ⟨0, 0, 0, 0⟩ ∧ (loadsTwo 5 0).type.isLoad = true ∧
      1 ≤ (loadsTwo 5 0).memSize.val ∧
      ¬ TilesAccess ⟨0, 0, 0, 0⟩ (loadsTwo 5 0)
        (TraceReader.new ⟨0, 0, 0, 0⟩ (loadsTwo 5 0).encode) := by
  refine ⟨Record.accepted_of_isOk (by decide +kernel), by decide, by decide, ?_⟩
  rintro ⟨pieces, hpieces, htiles⟩
  -- every access ends before byte 30
  have hrun : ((TraceReader.new ⟨0, 0, 0, 0⟩ (loadsTwo 5 0).encode).getPieces
      ⟨0, 0, 0, 0⟩ 255).toOption.all (fun pieces => pieces.all fun p =>
        decide (p.inst.addr + p.inst.size ≤ 8192 + 30)) = true := by decide +kernel
  rw [hpieces] at hrun
  obtain ⟨access, haccess, i, hi, heq⟩ :=
    (htiles.union (8192 + 30)).mp ⟨30, by decide, by decide⟩
  obtain ⟨p, hp, rfl⟩ := List.mem_map.mp haccess
  have hend : p.inst.addr + p.inst.size ≤ 8192 + 30 := by
    simpa using List.all_eq_true.mp hrun p (List.mem_filter.mp hp).1
  have hi : i < p.inst.size := hi
  have heq : 8192 + 30 = (p.inst.addr + i) % 2 ^ 64 := heq
  rw [Nat.mod_eq_of_lt (by omega)] at heq
  omega

end CbpSim.Trace
