/-
  Trace/PieceCounts.lean --- the piece counters against the numbers they stand for.

  Source: src/lib/trace_reader.h, `readInstr` (`mTotalPieces`, `mMemPieces`,
  `mSizeFactor`, `str_val_regs`) and `populateNewInstr`.

  The counters of a record are bytes: a store counts its value registers by a
  subtraction, a load or any other instruction counts its outputs and their high
  halves.  `CountsExact` says that no byte wrapped.  A store is loaded whatever
  register it writes; only the base-update piece looks at the register.
-/
import CbpSim.Trace.LoadPieces
import CbpSim.Trace.StorePieces
import CbpSim.Trace.Truncation

set_option autoImplicit false

namespace CbpSim.Trace

open CbpSim.Foundation

/-! ## The numbers -/

/-- `str_val_regs`. -/
def strValRegs (m : Instr) : Nat := (m.mNumInRegs + 512 - (1 + m.mHasRegOffset)) % 256

namespace Record

/-- A piece for each output register, one at least, and one more for each high half
that is not zero. -/
def outputPieces (r : Record) : Nat := max 1 r.outs.length + r.outs.countP Output.hasHigh

/-- The pieces that access memory. -/
def memPieces (r : Record) : Nat :=
  if r.type.isStore then r.storePieces
  else if r.type.isLoad then r.outputPieces - r.baseUpdOut.isSome.toNat
  else 0

/-- All the pieces; a store writes its base register only. -/
def totalPieces (r : Record) : Nat :=
  if r.type.isStore then r.storePieces + r.outs.length else r.outputPieces

/-- The size of a memory piece. -/
def sizeFactor (r : Record) : Nat := if r.type.isMem then r.memSize.val / r.memPieces else 0

/-- The pieces that `populateNewInstr` can build: the base register of a store is to be
one of the first 32. -/
def builtPieces (r : Record) : Nat :=
  if r.type.isStore then r.storePieces + r.outs.countP fun o => decide (o.reg.val < 32)
  else r.outputPieces

/-- A store has its address and its offset, and no piece is the seventeenth. -/
def PiecesFit (r : Record) : Prop :=
  (r.type.isStore = true → 1 + r.hasRegOffset.val ≤ r.inRegs.length) ∧ r.builtPieces ≤ 16

instance (r : Record) : Decidable r.PiecesFit := inferInstanceAs (Decidable (_ ∧ _))

end Record

/-- The counters of the reader are the numbers of the record. -/
structure CountsExact (r : Record) (t : TraceReader) : Prop where
  strValRegs : r.type.isStore = true →
    (strValRegs t.mInstr : Int) = r.inRegs.length - (1 + r.hasRegOffset.val)
  memPieces : t.mMemPieces = r.memPieces
  totalPieces : t.mTotalPieces = r.totalPieces
  sizeFactor : t.mSizeFactor = r.sizeFactor

/-! ## Any store -/

/-- The reader has the store, whatever register it writes, and built none of its pieces. -/
structure ReadStore (r : Record) (t : TraceReader) : Prop where
  type : t.mInstr.mType = .store
  taken : t.mInstr.mTaken = false
  numInRegs : t.mInstr.mNumInRegs = r.inRegs.length
  inRegs : t.mInstr.mInRegs = r.inRegs.map Fin.val
  hasRegOffset : t.mInstr.mHasRegOffset = r.hasRegOffset.val
  numOutRegs : t.mInstr.mNumOutRegs = r.outs.length
  outRegs : t.mInstr.mOutRegs = r.outs.map fun o => o.reg.val
  baseUpdReg : t.mInstr.mBaseUpdReg = r.outs.head?.map fun o => o.reg.val
  outs : r.outs.length ≤ 1
  lastValue : r.outs ≠ [] → ∃ value, t.mInstr.mOutRegsValues.getLast? = some value
  mem : t.mMemPieces = trueStrValRegs t.mInstr
  total : t.mTotalPieces = t.mMemPieces + r.outs.length
  lt : t.mTotalPieces < 256
  sizeFactor : t.mSizeFactor = r.memSize.val / t.mMemPieces
  start : t.mProcessedPieces = 0

/-- What moving the base-update register does to a store: its value comes last. -/
theorem moveBaseUpd_store {m m' : Instr} {v : Values} (hone : m.mOutRegs.length ≤ 1)
    (h : moveBaseUpd m v = .ok m') :
    m' = { m with mOutRegsValues := m'.mOutRegsValues } ∧
      (m.mBaseUpdReg ≠ none → ∃ value, m'.mOutRegsValues.getLast? = some value) := by
  unfold moveBaseUpd at h
  split at h
  · rename_i hnone
    rw [← Except.ok.inj h]
    exact ⟨rfl, fun hne => absurd hnone hne⟩
  · obtain ⟨-, h⟩ := guard_eq_ok.mp h
    rw [if_neg (Nat.not_lt.mpr hone)] at h
    rw [← Except.ok.inj h]
    exact ⟨rfl, fun _ => ⟨v.baseUpdVal, List.getLast?_concat⟩⟩

/-- An accepted store is read. -/
theorem readStore_of_read {u : Uninit} {r : Record} (hstore : r.type.isStore = true)
    {t t' : TraceReader} {s : List Byte} (ht : t.dpressedInput = onBytes (r.encode ++ s))
    (h : t.readInstr u = .ok (true, t')) : ReadStore r t' := by
  have htype : r.type = .store := by simpa [InstClass.isStore] using hstore
  obtain ⟨b, m₁, w, m₂, mem, total, size, hcapture, -, hmove, hcount, hcheck, rfl⟩ :=
    readInstr_parts ht h
  -- the base update
  have hcaptured := captured rfl (by simp [Record.instr]) hcapture
  obtain ⟨hone, hagree, hpresent⟩ := capture_store_agrees hstore (by simp [Record.instr]) hcapture
  have houts : r.outs.length ≤ 1 := by simpa [Record.instr] using hone
  have hregs : m₁.mOutRegs = r.outs.map fun o => o.reg.val := by
    rw [hcaptured.frame]
    rfl
  obtain ⟨hm, hlast⟩ := moveBaseUpd_store (by rw [hregs, List.length_map]; exact houts) hmove
  have hbase : m₁.mBaseUpdReg = r.outs.head?.map fun o => o.reg.val := by
    rw [hcaptured.baseUpdReg_store hstore, Record.instr, List.head?_map]
  have hlength : b.toNat = r.outs.length := by
    rw [hcaptured.present, hbase]
    cases hlist : r.outs with
    | nil => rfl
    | cons o outs =>
      obtain rfl : outs = [] := by simpa [hlist] using houts
      rfl
  -- the counts
  have hmtype : m₂.mType = .store := by
    rw [hm, hcaptured.frame]
    exact htype
  have hsize : m₂.mMemSize = r.memSize.val := by
    rw [hm, hcaptured.frame]
    simp [Record.instr, InstClass.isMem, hstore]
  have hmstore : m₂.mType.isStore = true := by
    rw [hmtype]
    rfl
  obtain ⟨-, hlt, rfl, rfl, rfl⟩ := store_counts_eq hmstore hcount hcheck
  rw [hlength, hsize]
  rw [hlength] at hlt
  exact {
    type := hmtype
    taken := by
      have htaken : m₂.mTaken = r.jumps := by
        rw [hm, hcaptured.frame]
        rfl
      rw [htaken, Record.jumps, htype]
      rfl
    numInRegs := by
      rw [hm, hcaptured.frame]
      rfl
    inRegs := by
      rw [hm, hcaptured.frame]
      rfl
    hasRegOffset := by
      rw [hm, hcaptured.frame]
      simp [Record.instr, hstore]
    numOutRegs := by
      rw [hm, hcaptured.frame]
      rfl
    outRegs := by
      rw [hm]
      exact hregs
    baseUpdReg := by
      rw [hm]
      exact hbase
    outs := houts
    lastValue := by
      intro hne
      refine hlast ?_
      rw [hbase]
      simpa using hne
    mem := rfl
    total := rfl
    lt := hlt
    sizeFactor := rfl
    start := rfl }

namespace TraceReader

/-- A piece is built while pieces are left. -/
theorem left_of_populate {t t' : TraceReader} {inst : DbInst}
    (h : t.populateNewInstr = .ok (inst, t')) : t.mProcessedPieces < t.mTotalPieces := by
  unfold populateNewInstr at h
  obtain ⟨hfit, -⟩ := guard_eq_ok.mp h
  simp only [Bool.not_eq_true, Bool.not_eq_false', piecesFit, Bool.and_eq_true,
    decide_eq_true_eq] at hfit
  exact hfit.1.1

end TraceReader

namespace ReadStore

variable {r : Record} {t t₁ : TraceReader} {k : Nat}

/-- With its address and its offset the counts of a store are exact. -/
theorem countsExact (h : ReadStore r t) (hstore : r.type.isStore = true)
    (hin : 1 + r.hasRegOffset.val ≤ r.inRegs.length) : CountsExact r t := by
  have hpieces := trueStrValRegs_eq h.numInRegs h.hasRegOffset hin
  have hmem : t.mMemPieces = r.memPieces := by
    rw [h.mem, hpieces, Record.memPieces, if_pos hstore]
  have hlen := r.length_inRegs
  exact {
    strValRegs := by
      intro _
      rw [Trace.strValRegs, h.numInRegs, h.hasRegOffset]
      omega
    memPieces := hmem
    totalPieces := by rw [h.total, h.mem, hpieces, Record.totalPieces, if_pos hstore]
    sizeFactor := by
      rw [h.sizeFactor, hmem, Record.sizeFactor, if_pos (by simp [InstClass.isMem, hstore])] }

/-- A difference that is exact is not negative. -/
theorem inputs_of_exact (hstore : r.type.isStore = true) (hexact : CountsExact r t) :
    1 + r.hasRegOffset.val ≤ r.inRegs.length := by
  have hdifference := hexact.strValRegs hstore
  omega

theorem isMem (h : ReadStore r t) : t.mInstr.mType.isMem = true := by
  rw [h.type]
  rfl

theorem isBaseUpdate (h : ReadStore r t) (hk : k < t.mTotalPieces) :
    t.baseUpdAt k = true ↔ k = t.mMemPieces := by
  have hpos := one_le_trueStrValRegs t.mInstr
  have htotal := h.total
  have hmem := h.mem
  have houts := h.outs
  unfold TraceReader.baseUpdAt
  simp only [h.isMem, h.start, Nat.zero_add, Bool.true_and, Bool.and_eq_true, decide_eq_true_eq,
    beq_iff_eq]
  omega

theorem piecesFit (h : ReadStore r t) (hk : k < t.mTotalPieces) (hlater : t.Later k t₁) :
    t₁.piecesFit = true := by
  have hpos := one_le_trueStrValRegs t.mInstr
  have htotal := h.total
  have hmem := h.mem
  unfold TraceReader.piecesFit
  rw [hlater.processed, hlater.mTotalPieces, hlater.mMemPieces, hlater.mInstr, h.start]
  simp only [h.isMem, if_true, Bool.and_eq_true, decide_eq_true_eq]
  omega

/-- A store piece is built whatever register the store writes. -/
theorem populate_part (h : ReadStore r t) (hin : 1 + r.hasRegOffset.val ≤ r.inRegs.length)
    (hk : k < t.mMemPieces) (hlater : t.Later k t₁) :
    ∃ inst t₂, t₁.populateNewInstr = .ok (inst, t₂) := by
  have hlt : k < t.mTotalPieces := h.total ▸ Nat.lt_add_right _ hk
  have hcreate : t₁.createBaseUpdateOp = false := by
    rw [hlater.createBaseUpdateOp, Bool.eq_false_iff]
    exact fun hbase => Nat.ne_of_lt hk ((h.isBaseUpdate hlt).mp hbase)
  have htype : t₁.mInstr.mType = .store := by rw [hlater.mInstr, h.type]
  obtain ⟨reg, regs, hregs⟩ : ∃ reg regs, r.inRegs = reg :: regs :=
    List.exists_cons_of_length_pos (by omega)
  have hfirst : t₁.mInstr.mInRegs = reg.val :: regs.map Fin.val := by
    rw [hlater.mInstr, h.inRegs, hregs, List.map_cons]
  have hinputs := populateInputs_store htype hfirst
    (by rw [hlater.mInstr, h.inRegs, h.numInRegs, List.length_map])
    (by rw [hlater.mInstr, h.numInRegs, h.hasRegOffset]; omega)
  obtain ⟨A, B, C, hoperands⟩ : ∃ A B C, t₁.populateInputs false = .ok (A, B, C) := by
    rw [hinputs]
    split
    · exact ⟨_, _, _, rfl⟩
    · exact ⟨_, _, _, rfl⟩
  obtain ⟨inst, t₂, hpopulate, -⟩ := TraceReader.populateNewInstr_ok hcreate
    (h.piecesFit hlt hlater) (by rw [htype, hlater.mInstr, h.taken]; rfl) hoperands
    (populateOutput_store htype)
    (fun hmore => by rw [hlater.mInstr, h.numOutRegs] at hmore
                     rwa [hlater.mInstr, h.outRegs, List.length_map])
  exact ⟨inst, t₂, hpopulate⟩

/-- The base-update piece is built for a base register among the first 32. -/
theorem populate_base (h : ReadStore r t) {b : Output} (hb : r.outs = [b])
    (hreg : b.reg.val < 32) (hlater : t.Later t.mMemPieces t₁) :
    ∃ inst t₂, t₁.populateNewInstr = .ok (inst, t₂) := by
  have hlt : t.mMemPieces < t.mTotalPieces := by
    rw [h.total, hb]
    exact Nat.lt_succ_self _
  have hcreate : t₁.createBaseUpdateOp = true := by
    rw [hlater.createBaseUpdateOp]
    exact (h.isBaseUpdate hlt).mpr rfl
  have hbase : t₁.mInstr.mBaseUpdReg = some b.reg.val := by
    rw [hlater.mInstr, h.baseUpdReg, hb]
    rfl
  have hlastReg : t₁.mInstr.mOutRegs.getLast? = some b.reg.val := by
    rw [hlater.mInstr, h.outRegs, hb]
    rfl
  obtain ⟨value, hvalue⟩ := h.lastValue (by rw [hb]; exact List.cons_ne_nil b [])
  obtain ⟨inst, t₂, hpopulate, -⟩ := populateNewInstr_baseUpd hcreate (h.piecesFit hlt hlater)
    (by rw [hlater.mInstr, h.taken]) hbase hlastReg (by rw [hlater.mInstr, hvalue]) hreg
    (by rw [hlater.mInstr, h.outRegs, h.numOutRegs, List.length_map])
  exact ⟨inst, t₂, hpopulate⟩

/-- The base-update piece of any other register fails its assert. -/
theorem base_of_populate (h : ReadStore r t) (hlater : t.Later t.mMemPieces t₁) {inst : DbInst}
    {t₂ : TraceReader} (hpopulate : t₁.populateNewInstr = .ok (inst, t₂)) :
    ∃ b, r.outs = [b] ∧ b.reg.val < 32 := by
  have hleft := TraceReader.left_of_populate hpopulate
  rw [hlater.processed, hlater.mTotalPieces, h.start, Nat.zero_add] at hleft
  have htotal := h.total
  have houts := h.outs
  obtain ⟨b, hb⟩ : ∃ b, r.outs = [b] := List.length_eq_one_iff.mp (by omega)
  have hbase : t₁.mInstr.mBaseUpdReg = some b.reg.val := by
    rw [hlater.mInstr, h.baseUpdReg, hb]
    rfl
  obtain ⟨hinputs, -⟩ := TraceReader.populateNewInstr_operands hpopulate
  rw [hlater.createBaseUpdateOp, (h.isBaseUpdate hleft).mpr rfl] at hinputs
  unfold TraceReader.populateInputs at hinputs
  simp only [if_true, hbase] at hinputs
  split at hinputs
  · rename_i hreg
    simp only [regIsInt, Bool.and_eq_true, decide_eq_true_eq, Bool.or_eq_true, beq_iff_eq] at hreg
    exact ⟨b, hb, by omega⟩
  · cases hinputs

/-- **The pieces of a store that can be built.** -/
theorem populate_iff (h : ReadStore r t) (hstore : r.type.isStore = true)
    (hin : 1 + r.hasRegOffset.val ≤ r.inRegs.length) (hlater : t.Later k t₁) :
    (∃ inst t₂, t₁.populateNewInstr = .ok (inst, t₂)) ↔ k < r.builtPieces := by
  have hmem : t.mMemPieces = r.storePieces := by
    rw [h.mem, trueStrValRegs_eq h.numInRegs h.hasRegOffset hin]
  have htotal := h.total
  have houts := h.outs
  have hcount : r.outs.countP (fun o => decide (o.reg.val < 32)) ≤ r.outs.length :=
    List.countP_le_length
  rw [Record.builtPieces, if_pos hstore, ← hmem]
  constructor
  · rintro ⟨inst, t₂, hpopulate⟩
    have hleft := TraceReader.left_of_populate hpopulate
    rw [hlater.processed, hlater.mTotalPieces, h.start, Nat.zero_add] at hleft
    rcases Nat.lt_or_ge k t.mMemPieces with hpart | hbase
    · exact Nat.lt_add_right _ hpart
    · obtain rfl : k = t.mMemPieces := by omega
      obtain ⟨b, hb, hreg⟩ := h.base_of_populate hlater hpopulate
      rw [hb]
      simp [hreg]
  · intro hk
    rcases Nat.lt_or_ge k t.mMemPieces with hpart | hbase
    · exact h.populate_part hin hpart hlater
    · obtain rfl : k = t.mMemPieces := by omega
      have hsome : 0 < r.outs.countP fun o => decide (o.reg.val < 32) := by omega
      obtain ⟨o, ho, hreg⟩ := List.countP_pos_iff.mp hsome
      obtain ⟨b, hb⟩ : ∃ b, r.outs = [b] := List.length_eq_one_iff.mp (by omega)
      obtain rfl : o = b := by simpa [hb] using ho
      exact h.populate_base hb (of_decide_eq_true hreg) hlater

end ReadStore

/-! ## The other instructions -/

/-- Only an instruction that accesses memory has a size factor. -/
theorem countPieces_size {m : Instr} (hstore : m.mType.isStore = false) {baseUpdate : Bool}
    {counted mMemPieces mTotalPieces mSizeFactor : Nat}
    (hcount : countPieces m baseUpdate counted = .ok (mMemPieces, mTotalPieces, mSizeFactor)) :
    mSizeFactor = if m.mType.isMem then m.mMemSize / mMemPieces else 0 := by
  unfold countPieces at hcount
  rw [if_neg (by simp [hstore])] at hcount
  split at hcount
  · rename_i hload
    obtain ⟨-, hcount⟩ := guard_eq_ok.mp hcount
    obtain ⟨rfl, rfl, rfl⟩ : _ ∧ _ ∧ _ := by simpa using Except.ok.inj hcount
    rw [if_pos (by simp [InstClass.isMem, hload])]
  · rename_i hload
    obtain ⟨-, hcount⟩ := guard_eq_ok.mp hcount
    obtain ⟨-, hcount⟩ := guard_eq_ok.mp hcount
    obtain ⟨rfl, rfl, rfl⟩ : _ ∧ _ ∧ _ := by simpa using Except.ok.inj hcount
    rw [if_neg (by simp [InstClass.isMem, hload, hstore])]

/-- The size factor of a record that is no store. -/
theorem sizeFactor_of_read {u : Uninit} {r : Record} (hstore : r.type.isStore = false)
    {t t' : TraceReader} {s : List Byte} (ht : t.dpressedInput = onBytes (r.encode ++ s))
    (h : t.readInstr u = .ok (true, t')) :
    t'.mSizeFactor = if r.type.isMem then r.memSize.val / t'.mMemPieces else 0 := by
  have hclean : r.Clean := by simp [Record.Clean, hstore]
  obtain ⟨present, m, v, mem, total, size, hdigest, hcount, -, -, rfl⟩ :=
    readInstr_eq_ok hclean ht h
  obtain ⟨hholds, -, -⟩ := hclean.holds hdigest
  have hsize := countPieces_size (hholds.type ▸ hstore) hcount
  rw [hholds.type] at hsize
  refine hsize.trans ?_
  cases hmem : r.type.isMem with
  | true => rw [if_pos rfl, if_pos rfl, hholds.memSize hmem]
  | false => rfl

namespace Loaded

variable {r : Record} {t : TraceReader}

/-- Where the byte did not wrap, the counts are exact. -/
theorem countsExact (h : Loaded r t)
    (hsize : t.mSizeFactor = if r.type.isMem then r.memSize.val / t.mMemPieces else 0)
    (hlt : r.outputPieces < 256) : CountsExact r t := by
  have htotal : t.mTotalPieces = r.outputPieces := h.total.trans (Nat.mod_eq_of_lt hlt)
  have hnot : ¬ r.type.isStore = true := by simp [h.store]
  have hmem : t.mMemPieces = r.memPieces := by
    rw [Record.memPieces, if_neg hnot]
    cases hload : r.type.isLoad with
    | true =>
      have hsum := (h.mem (by simp [InstClass.isMem, hload])).2
      rw [if_pos rfl, ← htotal, ← hsum, Nat.add_sub_cancel]
    | false =>
      rw [if_neg Bool.false_ne_true]
      exact h.noMem (by simp [InstClass.isMem, hload, h.store])
  exact {
    strValRegs := fun hstore => absurd hstore hnot
    memPieces := hmem
    totalPieces := by rw [htotal, Record.totalPieces, if_neg hnot]
    sizeFactor := by rw [hsize, hmem, Record.sizeFactor] }

/-- All the pieces are built. -/
theorem exists_pieces (h : Loaded r t) (u : Uninit) :
    ∃ pieces, t.getPieces u 255 = .ok pieces ∧ pieces.length = t.mTotalPieces := by
  have hpos := h.total_pos
  have hlt := h.total_lt
  have hstart := h.start.1
  obtain ⟨pieces, hpieces⟩ : ∃ pieces, t.getPieces u 255 = .ok pieces := by
    rcases Nat.eq_zero_or_pos r.outs.length with hzero | hnum
    · exact h.pieces_none u (List.length_eq_zero_iff.mp hzero)
    · obtain ⟨pieces, hpieces, -⟩ := h.pieces u hnum
      exact ⟨pieces, hpieces⟩
  obtain ⟨hlen, -⟩ := TraceReader.getPieces_built hlt (by omega) (by omega) hpieces
  exact ⟨pieces, hpieces, by rw [hlen, hstart, Nat.sub_zero]⟩

end Loaded

/-! ## Rounds of the loop -/

namespace TraceReader

variable {u : Uninit} {t t' : TraceReader}

/-- A round that builds a piece. -/
theorem getInsts_succ {inst : DbInst} (n : Nat) (hpopulate : t.populateNewInstr = .ok (inst, t')) :
    t.getInsts u (n + 1) = (do
      let (insts, t'') ← t'.getInsts u n
      .ok (inst :: insts, t'')) := by
  rw [getInsts, getInst, if_pos (Nat.ne_of_lt (left_of_populate hpopulate)), hpopulate, ok_bind,
    ok_bind]

/-- While pieces are left a round builds the next one. -/
theorem getInsts_succ_eq_ok {n : Nat} {insts : List DbInst}
    (hleft : t.mProcessedPieces < t.mTotalPieces) (h : t.getInsts u (n + 1) = .ok (insts, t')) :
    ∃ inst t₁ rest, t.populateNewInstr = .ok (inst, t₁) ∧ t₁.getInsts u n = .ok (rest, t') ∧
      insts = inst :: rest := by
  rw [getInsts, getInst, if_pos (Nat.ne_of_lt hleft)] at h
  obtain ⟨⟨inst?, t₁⟩, hget, h⟩ := bind_eq_ok.mp h
  obtain ⟨⟨inst, t₂⟩, hpopulate, hget⟩ := bind_eq_ok.mp hget
  obtain ⟨rfl, rfl⟩ := Prod.mk.inj (Except.ok.inj hget)
  obtain ⟨⟨rest, t₃⟩, hrest, h⟩ := bind_eq_ok.mp h
  obtain ⟨rfl, rfl⟩ := Prod.mk.inj (Except.ok.inj h)
  exact ⟨inst, t₂, rest, hpopulate, hrest, rfl⟩

/-- As many rounds as pieces can be built. -/
theorem getInsts_ok (u : Uninit) {n : Nat} (hlt : t.mTotalPieces < 256)
    (hn : t.mProcessedPieces + n ≤ t.mTotalPieces)
    (h : ∀ k t₁, k < n → t.Later k t₁ → ∃ inst t₂, t₁.populateNewInstr = .ok (inst, t₂)) :
    ∃ insts t', t.getInsts u n = .ok (insts, t') := by
  induction n generalizing t with
  | zero => exact ⟨[], t, rfl⟩
  | succ n ih =>
    obtain ⟨inst, t₁, hpopulate⟩ := h 0 t (Nat.succ_pos n) (later_zero t)
    have hlater := ((populateNewInstr_built t).of_ok hpopulate).later (by omega)
    obtain ⟨insts, t', hinsts⟩ := ih (t := t₁) (by rw [hlater.mTotalPieces]; exact hlt)
      (by rw [hlater.mTotalPieces, hlater.processed]; omega)
      (fun k t₂ hk hlater' => h (1 + k) t₂ (by omega) (hlater.trans hlater'))
    rw [getInsts_succ n hpopulate, hinsts, ok_bind]
    exact ⟨_, _, rfl⟩

/-- The rounds return the pieces. -/
theorem getInsts_of_getPieces {n : Nat} {pieces : List Piece} (hlt : t.mTotalPieces < 256)
    (hp : t.mProcessedPieces < t.mTotalPieces) (hn : t.mTotalPieces ≤ t.mProcessedPieces + n)
    (h : t.getPieces u n = .ok pieces) :
    ∃ t', t.getInsts u pieces.length = .ok (pieces.map Piece.inst, t') := by
  induction n generalizing t pieces with
  | zero => omega
  | succ n ih =>
    rw [getPieces_succ u n hp] at h
    obtain ⟨⟨inst, t₁⟩, hpopulate, h⟩ := bind_eq_ok.mp h
    have hbuilt : Built t inst t₁ := (populateNewInstr_built t).of_ok hpopulate
    have hlater := hbuilt.later (by omega)
    have hlast : inst.isLastPiece = (t.mProcessedPieces + 1 == t.mTotalPieces) := by
      rw [hbuilt.isLastPiece, hlater.processed]
    dsimp only at h
    cases hmore : inst.isLastPiece with
    | true =>
      rw [if_pos hmore] at h
      obtain rfl := Except.ok.inj h
      exact ⟨t₁, getInsts_succ 0 hpopulate⟩
    | false =>
      have hne : t.mProcessedPieces + 1 ≠ t.mTotalPieces := by simpa [hlast] using hmore
      rw [if_neg (by simp [hmore])] at h
      obtain ⟨rest, hrest, h⟩ := bind_eq_ok.mp h
      obtain rfl := Except.ok.inj h
      obtain ⟨t', hinsts⟩ := ih (by rw [hlater.mTotalPieces]; exact hlt)
        (by rw [hlater.mTotalPieces, hlater.processed]; omega)
        (by rw [hlater.mTotalPieces, hlater.processed]; omega) hrest
      rw [List.length_cons, getInsts_succ _ hpopulate, hinsts, ok_bind]
      exact ⟨t', rfl⟩

/-- Each of the rounds for an instruction builds a piece. -/
theorem built_of_getInsts {n : Nat} {insts : List DbInst} (hlt : t.mTotalPieces < 256)
    (hn : t.mProcessedPieces + n ≤ t.mTotalPieces) (h : t.getInsts u n = .ok (insts, t')) :
    ∀ k < n, ∃ t₁ inst t₂, t.Later k t₁ ∧ t₁.populateNewInstr = .ok (inst, t₂) := by
  induction n generalizing t insts with
  | zero => exact fun k hk => absurd hk (Nat.not_lt_zero k)
  | succ n ih =>
    obtain ⟨inst, t₂, rest, hpopulate, hrest, -⟩ := getInsts_succ_eq_ok (by omega) h
    have hlater := ((populateNewInstr_built t).of_ok hpopulate).later (by omega)
    intro k hk
    cases k with
    | zero => exact ⟨t, inst, t₂, later_zero t, hpopulate⟩
    | succ k =>
      obtain ⟨t₁, inst', t₂', hlater', hpopulate'⟩ := ih
        (by rw [hlater.mTotalPieces]; exact hlt)
        (by rw [hlater.mTotalPieces, hlater.processed]; omega) hrest k (Nat.lt_of_succ_lt_succ hk)
      exact ⟨t₁, inst', t₂', Nat.add_comm 1 k ▸ hlater.trans hlater', hpopulate'⟩

/-- Every piece that the reader still builds is one of the first 16. -/
def FirstSixteen (t : TraceReader) : Prop :=
  ∀ k t₁ inst t₂, t.Later k t₁ → t₁.populateNewInstr = .ok (inst, t₂) → t₁.mProcessedPieces < 16

theorem FirstSixteen.later {k : Nat} (h : t.FirstSixteen) (hlater : t.Later k t') :
    t'.FirstSixteen := by
  intro j t₁ inst t₂ hlater' hpopulate
  exact h _ t₁ inst t₂ (hlater.trans hlater') hpopulate

end TraceReader

/-! ## Records whose pieces fit -/

/-- Somewhere in a trace the reader has read the record. -/
def Reads (u : Uninit) (r : Record) (t' : TraceReader) : Prop :=
  ∃ (t : TraceReader) (s : List Byte), t.dpressedInput = onBytes (r.encode ++ s) ∧
    t.readInstr u = .ok (true, t')

/-- A record that is accepted is read. -/
theorem Record.Accepted.exists_reads {u : Uninit} {r : Record} (h : r.Accepted u) :
    ∃ t', Reads u r t' := by
  obtain ⟨more, t', hread⟩ := h
  have hnew : (TraceReader.new u r.encode).dpressedInput = onBytes (r.encode ++ []) := by
    rw [List.append_nil]
    rfl
  have hmore := hread
  rw [TraceReader.readInstr, hnew, Record.encode_append] at hmore
  simp only [readInto_word] at hmore
  rw [if_neg (by simp)] at hmore
  obtain ⟨_, -, hmore⟩ := bind_eq_ok.mp hmore
  obtain ⟨_, -, hmore⟩ := bind_eq_ok.mp hmore
  obtain ⟨_, -, hmore⟩ := bind_eq_ok.mp hmore
  obtain ⟨rfl, -⟩ := Prod.mk.inj (Except.ok.inj hmore)
  exact ⟨t', _, [], hnew, hread⟩

section Read

variable {u : Uninit} {r : Record} {t t' : TraceReader} {s : List Byte}

/-- The reader is at the first of less than 256 pieces. -/
theorem Reads.start (h : Reads u r t') : t'.mProcessedPieces = 0 ∧ t'.mTotalPieces < 256 := by
  obtain ⟨t, s, ht, h⟩ := h
  cases hstore : r.type.isStore with
  | true =>
    have hread := readStore_of_read hstore ht h
    exact ⟨hread.start, hread.lt⟩
  | false =>
    have hload := loaded_of_read hstore ht h
    exact ⟨hload.start.1, hload.total_lt⟩

/-- The counts of such a record are exact, and no seventeenth piece of it is built. -/
theorem Record.PiecesFit.read (hfit : r.PiecesFit) (ht : t.dpressedInput = onBytes (r.encode ++ s))
    (h : t.readInstr u = .ok (true, t')) : CountsExact r t' ∧ t'.FirstSixteen := by
  obtain ⟨hinputs, hbuilt⟩ := hfit
  cases hstore : r.type.isStore with
  | true =>
    have hread := readStore_of_read hstore ht h
    have hin := hinputs hstore
    refine ⟨hread.countsExact hstore hin, ?_⟩
    intro k t₁ inst t₂ hlater hpopulate
    have hk := (hread.populate_iff hstore hin hlater).mp ⟨inst, t₂, hpopulate⟩
    rw [hlater.processed, hread.start]
    omega
  | false =>
    have hload := loaded_of_read hstore ht h
    rw [Record.builtPieces, if_neg (by simp [hstore])] at hbuilt
    have hexact := hload.countsExact (sizeFactor_of_read hstore ht h) (by omega)
    refine ⟨hexact, ?_⟩
    intro k t₁ inst t₂ hlater hpopulate
    have hleft := TraceReader.left_of_populate hpopulate
    have htotal := hexact.totalPieces
    rw [Record.totalPieces, if_neg (by simp [hstore])] at htotal
    rw [hlater.mTotalPieces] at hleft
    omega

/-- A record whose counts are exact fits when no seventeenth round builds a piece of it. -/
theorem Record.piecesFit_of_read (ht : t.dpressedInput = onBytes (r.encode ++ s))
    (h : t.readInstr u = .ok (true, t')) (hexact : CountsExact r t')
    (hrounds : ∀ n insts t'', n ≤ t'.mTotalPieces → t'.getInsts u n = .ok (insts, t'') → n ≤ 16) :
    r.PiecesFit := by
  cases hstore : r.type.isStore with
  | true =>
    have hread := readStore_of_read hstore ht h
    have hin := ReadStore.inputs_of_exact hstore hexact
    refine ⟨fun _ => hin, ?_⟩
    by_contra hmany
    have htotal : r.builtPieces ≤ t'.mTotalPieces := by
      have hcount : r.outs.countP (fun o => decide (o.reg.val < 32)) ≤ r.outs.length :=
        List.countP_le_length
      rw [hexact.totalPieces, Record.totalPieces, Record.builtPieces, if_pos hstore, if_pos hstore]
      exact Nat.add_le_add_left hcount _
    obtain ⟨insts, t'', hinsts⟩ := TraceReader.getInsts_ok u (n := 17) hread.lt
      (by rw [hread.start]; omega)
      (fun k t₁ hk hlater => (hread.populate_iff hstore hin hlater).mpr (by omega))
    have hle := hrounds 17 insts t'' (by omega) hinsts
    omega
  | false =>
    have hload := loaded_of_read hstore ht h
    have hstart := hload.start.1
    have hpos := hload.total_pos
    refine ⟨fun hstore' => absurd (hstore.symm.trans hstore') Bool.false_ne_true, ?_⟩
    obtain ⟨pieces, hpieces, hlen⟩ := hload.exists_pieces u
    obtain ⟨t'', hinsts⟩ := TraceReader.getInsts_of_getPieces hload.total_lt (by omega)
      (by have := hload.total_lt; omega) hpieces
    have htotal := hexact.totalPieces
    rw [Record.totalPieces, if_neg (by simp [hstore])] at htotal
    rw [Record.builtPieces, if_neg (by simp [hstore]), ← htotal, ← hlen]
    exact hrounds _ _ _ hlen.le hinsts

end Read

end CbpSim.Trace
