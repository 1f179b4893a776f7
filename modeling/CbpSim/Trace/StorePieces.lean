/-
  Trace/StorePieces.lean --- the pieces of a store.

  Source: src/lib/trace_reader.h, `readInstr` (`mMemPieces`, `mTotalPieces`,
  `mSizeFactor`) and `populateNewInstr` (inputs, outputs, address).

  A store has a piece for each register of its value, which begin behind the address and
  the register offset, and an ALU piece more for a base update.  `readInstr` counts the
  pieces from the number of inputs, `populateNewInstr` finds the register of a piece by
  its number, and three counters tell the base-update piece.  `CracksStore` says what
  comes of it; it is about the pieces as `get_inst` returns them.
-/
import CbpSim.Foundation.Tiling
import CbpSim.Trace.Cracking
import CbpSim.Trace.MadeUp

set_option autoImplicit false

namespace CbpSim.Trace

open CbpSim.Foundation

/-! ## What is stored -/

/-- The registers of the value of a store, behind the address and the register offset. -/
def Record.valueRegs (r : Record) : List Byte := r.inRegs.drop (1 + r.hasRegOffset.val)

/-- The store pieces of a record: one for each value register, and one at least. -/
def Record.storePieces (r : Record) : Nat := max 1 (r.inRegs.length - 1 - r.hasRegOffset.val)

/-- The register of an operand that is there. -/
def regOf (a : DbOperand) : Option Nat := if a.valid then some a.logReg else none

/-- The register that a store piece takes its value from. -/
def Record.valueOf (r : Record) (p : Piece) : Option Nat :=
  regOf (if r.hasRegOffset.val = 0 then p.inst.B else p.inst.C)

/-- The address and the size of each store piece. -/
def storeAccesses (pieces : List Piece) : List (Nat × Nat) :=
  (pieces.filter fun p => p.inst.isStore).map fun p => (p.inst.addr, p.inst.size)

/-- A store piece of the record: the sources in `A`, `B` and `C`, no destination. -/
structure StoresPart (r : Record) (k : Nat) (p : Piece) : Prop where
  insnClass : p.inst.insnClass = .store
  isStore : p.inst.isStore = true
  addr : p.inst.addr = (r.effAddr.val + k * (r.memSize.val / r.storePieces)) % 2 ^ 64
  size : p.inst.size = r.memSize.val / r.storePieces
  address : regOf p.inst.A = r.inRegs[0]?.map Fin.val
  offset : r.hasRegOffset.val ≠ 0 → regOf p.inst.B = r.inRegs[1]?.map Fin.val
  value : r.valueOf p = r.valueRegs[k]?.map Fin.val
  noOther : r.hasRegOffset.val = 0 → p.inst.C.valid = false
  noDest : p.inst.D.valid = false

/-- The ALU piece that writes the base register back. -/
structure UpdatesBase (b : Output) (p : Piece) : Prop where
  insnClass : p.inst.insnClass = .alu
  isStore : p.inst.isStore = false
  source : regOf p.inst.A = some b.reg.val
  noOther : p.inst.B.valid = false ∧ p.inst.C.valid = false
  dest : p.inst.D.valid = true ∧ p.inst.D.logReg = b.reg.val ∧ p.inst.D.value = b.low.val

/-- The pieces are those of the store: its parts in order, and the base update behind
them if there is one. -/
structure CracksStore (r : Record) (pieces : List Piece) : Prop where
  length : pieces.length = r.storePieces + (r.baseUpd == 1).toNat
  parts : ∀ k < r.storePieces, ∃ p, pieces[k]? = some p ∧ StoresPart r k p
  baseUpd : r.baseUpd = 1 → ∃ b p, r.outs = [b] ∧ pieces[r.storePieces]? = some p ∧
    UpdatesBase b p
  last : ∀ (k : Nat) (p : Piece), pieces[k]? = some p →
    (p.inst.isLastPiece = true ↔ k + 1 = pieces.length)
  tiles : Tiles (2 ^ 64) (storeAccesses pieces) r.effAddr.val r.memSize.val
  values : (pieces.filter fun p => p.inst.isStore).filterMap r.valueOf = r.valueRegs.map Fin.val

/-! ## The counters -/

/-- The reader has the store and built none of its pieces. -/
structure LoadedStore (r : Record) (t : TraceReader) : Prop where
  holds : Holds t.mInstr r
  store : r.type = .store
  baseUpdReg : t.mInstr.mBaseUpdReg = r.outs.head?.map fun o => o.reg.val
  outs : r.outs.length = (r.baseUpd == 1).toNat
  mem : t.mMemPieces = r.storePieces
  total : t.mTotalPieces = r.storePieces + (r.baseUpd == 1).toNat
  lt : t.mTotalPieces < 256
  sizeFactor : t.mSizeFactor = r.memSize.val / r.storePieces
  divides : r.storePieces ∣ r.memSize.val
  start : t.mProcessedPieces = 0

theorem Record.orderedOuts_store {r : Record} (hstore : r.type = .store) :
    r.orderedOuts = r.outs := by
  have hload : r.type.isLoad = false := by rw [hstore]; rfl
  simp [Record.orderedOuts, Record.plainOuts, Record.baseUpdOut, Record.baseUpdIdx, hload]

/-- `true_str_val_regs` is the number of the value registers, or one. -/
theorem trueStrValRegs_eq {m : Instr} {r : Record} (hnum : m.mNumInRegs = r.inRegs.length)
    (hoffset : m.mHasRegOffset = r.hasRegOffset.val)
    (hin : 1 + r.hasRegOffset.val ≤ r.inRegs.length) : trueStrValRegs m = r.storePieces := by
  have hlen := r.length_inRegs
  have hrest : (m.mNumInRegs + 512 - (1 + m.mHasRegOffset)) % 256 =
      r.inRegs.length - 1 - r.hasRegOffset.val := by
    rw [hnum, hoffset]
    omega
  unfold trueStrValRegs Record.storePieces
  rw [hrest]
  dsimp only
  split <;> omega

/-- An accepted store is loaded by `readInstr`. -/
theorem loadedStore_of_read {u : Uninit} {r : Record} (hstore : r.type = .store)
    (hclean : r.Clean) (hin : 1 + r.hasRegOffset.val ≤ r.inRegs.length) {t t' : TraceReader}
    {s : List Byte} (ht : t.dpressedInput = onBytes (r.encode ++ s))
    (h : t.readInstr u = .ok (true, t')) : LoadedStore r t' := by
  have hstore' : r.type.isStore = true := by rw [hstore]; rfl
  have hmem : r.type.isMem = true := by rw [hstore]; rfl
  obtain ⟨present, m, v, mem, total, size, hdigest, hcount, hcheck, -, rfl⟩ :=
    readInstr_eq_ok hclean ht h
  obtain ⟨hholds, -, hpresent⟩ := hclean.holds hdigest
  have htype : m.mType.isStore = true := hholds.type ▸ hstore'
  -- the counts
  have hpieces := trueStrValRegs_eq hholds.numInRegs (hholds.hasRegOffset hstore') hin
  obtain ⟨hdvd, hlt, hmemPieces, htotal, hsize⟩ := store_counts_eq htype hcount hcheck
  rw [hpieces, hholds.memSize hmem] at hdvd hsize
  rw [hpieces] at hlt hmemPieces htotal
  subst hmemPieces htotal hsize
  -- the base update
  obtain ⟨-, -, m₁, hcapture, htake, hmove⟩ := Record.digest_eq_ok hdigest
  have hcaptured := captured rfl (by simp [Record.instr]) hcapture
  have hreg : m.mBaseUpdReg = m₁.mBaseUpdReg := by
    rw [(moveBaseUpd_ok hclean hcaptured htake hmove).2.2]
  obtain ⟨hone, hagree, hpresent'⟩ :=
    capture_store_agrees (m := r.instr t.mInstr.mBaseUpd) hstore' (by simp [Record.instr]) hcapture
  have hone : r.outs.length ≤ 1 := by simpa [Record.instr] using hone
  have hupd : (r.instr t.mInstr.mBaseUpd).mBaseUpd = r.baseUpd.val := by
    simp [Record.instr, hmem]
  have hbyte : (r.baseUpd.val == 1) = (r.baseUpd == 1) := by
    rw [Bool.eq_iff_iff, beq_iff_eq, beq_iff_eq]
    exact ⟨fun h => Fin.ext h, fun h => by rw [h]; rfl⟩
  rw [hupd] at hagree hpresent'
  rw [hbyte] at hpresent'
  refine ⟨hholds, hstore, ?_, ?_, rfl, ?_, ?_, rfl, Nat.dvd_of_mod_eq_zero hdvd, rfl⟩
  · rw [hreg, hcaptured.baseUpdReg_store hstore', Record.instr, List.head?_map]
  · rw [← hbyte]
    cases houts : r.outs with
    | nil =>
      have hne : ¬ r.baseUpd.val = 1 := by simpa [Record.instr, houts] using hagree
      rw [beq_eq_false_iff_ne.mpr hne]
      rfl
    | cons b outs =>
      have heq : r.baseUpd.val = 1 := by simpa [Record.instr, houts] using hagree
      have hnil : outs = [] := by simpa [houts] using hone
      simp [heq, hnil]
  · rw [hpresent']
  · exact hlt

/-! ## The operands of the pieces -/

theorem regOf_inputAt (regs : List Nat) (i : Nat) : regOf (TraceReader.inputAt regs i) = regs[i]? := by
  unfold TraceReader.inputAt
  cases regs[i]? with
  | none => rfl
  | some reg => rfl

/-- Behind the last input there is no operand, whether its number is tested or not. -/
theorem inputAt_if (regs : List Nat) (i : Nat) :
    (if i < regs.length then TraceReader.inputAt regs i else {}) =
      TraceReader.inputAt regs i := by
  split
  · rfl
  · rename_i hge
    rw [TraceReader.inputAt, List.getElem?_eq_none (Nat.not_lt.mp hge)]

/-- The inputs of a store piece. -/
theorem populateInputs_store {t : TraceReader} (htype : t.mInstr.mType = .store) {reg : Nat}
    {regs : List Nat} (hregs : t.mInstr.mInRegs = reg :: regs)
    (hnum : t.mInstr.mNumInRegs = t.mInstr.mInRegs.length)
    (hoffset : t.mInstr.mHasRegOffset ≠ 0 → 2 ≤ t.mInstr.mNumInRegs) :
    t.populateInputs false = .ok (
      let value := TraceReader.inputAt t.mInstr.mInRegs
        ((1 + t.mInstr.mHasRegOffset + t.mProcessedPieces) % 256)
      if t.mInstr.mHasRegOffset ≠ 0 then
        (TraceReader.input reg, TraceReader.inputAt t.mInstr.mInRegs 1, value)
      else (TraceReader.input reg, value, {})) := by
  have hstore : t.mInstr.mType.isStore = true := by rw [htype]; rfl
  unfold TraceReader.populateInputs
  dsimp only
  rw [if_neg Bool.false_ne_true, if_pos hstore, hnum, inputAt_if, hregs]
  dsimp only
  split
  · rename_i hne
    have htwo := hoffset hne
    rw [hnum, hregs] at htwo
    rw [if_neg (Nat.not_lt.mpr htwo)]
  · rfl

/-- A store piece has no destination. -/
theorem populateOutput_store {t : TraceReader} (htype : t.mInstr.mType = .store) :
    t.populateOutput false = .ok ({}, 0) := by
  unfold TraceReader.populateOutput
  simp only [Bool.false_eq_true, if_false, htype]
  rfl

/-- The base-update piece is built for a base register among the first 32: it reads the
register, and writes it back with the last value. -/
theorem populateNewInstr_baseUpd {t : TraceReader} {reg value : Nat}
    (hcreate : t.createBaseUpdateOp = true) (hfit : t.piecesFit = true)
    (htaken : t.mInstr.mTaken = false) (hbase : t.mInstr.mBaseUpdReg = some reg)
    (hlastReg : t.mInstr.mOutRegs.getLast? = some reg)
    (hlastVal : t.mInstr.mOutRegsValues.getLast? = some value) (hreg : reg < 32)
    (hregs : t.mInstr.mOutRegs.length = t.mInstr.mNumOutRegs) :
    ∃ inst t', t.populateNewInstr = .ok (inst, t') ∧ inst.A = TraceReader.input reg ∧
      inst.B = {} ∧ inst.C = {} ∧
      inst.D = { valid := true, isInt := true, logReg := reg, value := value } := by
  have hint : regIsInt reg = true := by simp [regIsInt, hreg]
  have hinputs : t.populateInputs true = .ok (TraceReader.input reg, {}, {}) := by
    unfold TraceReader.populateInputs
    simp only [if_true, hbase]
    rw [if_pos (by simp [hint, Nat.le_of_lt hreg])]
  have houtput : t.populateOutput true =
      .ok ({ valid := true, isInt := true, logReg := reg, value := value }, t.startFpReg) := by
    unfold TraceReader.populateOutput
    simp only [if_true, hbase, hlastReg, hlastVal, hint, decide_true, Bool.and_self]
  exact TraceReader.populateNewInstr_ok hcreate hfit (by rw [htaken]; rfl) hinputs houtput
    (fun hmore => by rwa [hregs])

/-- Whatever is found at each place, the finds are what is looked for when it is no longer. -/
theorem filterMap_eq {α β : Type} {f : α → Option β} {l : List α} {found : List β}
    (h : ∀ (k : Nat) (a : α), l[k]? = some a → f a = found[k]?) (hlen : found.length ≤ l.length) :
    l.filterMap f = found := by
  induction l generalizing found with
  | nil =>
    obtain rfl := List.length_eq_zero_iff.mp (Nat.le_zero.mp hlen)
    rfl
  | cons a l ih =>
    have hhead := h 0 a rfl
    cases found with
    | nil =>
      rw [List.filterMap_cons_none hhead]
      exact ih (fun k b hk => h (k + 1) b hk) (Nat.zero_le _)
    | cons b found =>
      rw [List.filterMap_cons_some hhead,
        ih (fun k b hk => h (k + 1) b hk) (Nat.le_of_succ_le_succ hlen)]

namespace LoadedStore

variable {r : Record} {t t₁ : TraceReader} {k : Nat}

theorem one_le_storePieces (r : Record) : 1 ≤ r.storePieces := Nat.le_max_left _ _

/-- The counters tell the piece behind the store pieces. -/
theorem baseUpdAt (h : LoadedStore r t) (hk : k < t.mTotalPieces) :
    t.baseUpdAt k = true ↔ k = r.storePieces := by
  have hpos := one_le_storePieces r
  have hmem : t.mInstr.mType.isMem = true := by rw [h.holds.type, h.store]; rfl
  have htotal := h.total
  have hbool := Bool.toNat_le (r.baseUpd == 1)
  unfold TraceReader.baseUpdAt
  simp only [hmem, h.start, h.mem, Nat.zero_add, Bool.true_and, Bool.and_eq_true,
    decide_eq_true_eq, beq_iff_eq]
  omega

theorem piecesFit (h : LoadedStore r t) (hk : k < t.mTotalPieces) (hlater : t.Later k t₁) :
    t₁.piecesFit = true := by
  have hpos := one_le_storePieces r
  have hmem : t.mInstr.mType.isMem = true := by rw [h.holds.type, h.store]; rfl
  have htotal := h.total
  unfold TraceReader.piecesFit
  rw [hlater.processed, hlater.mTotalPieces, hlater.mMemPieces, hlater.mInstr, h.start, h.mem]
  simp only [hmem, if_true, Bool.and_eq_true, decide_eq_true_eq]
  omega

theorem taken (h : LoadedStore r t) : t.mInstr.mTaken = false := by
  rw [h.holds.taken, Record.jumps, h.store]
  rfl

theorem outRegs (h : LoadedStore r t) : t.mInstr.mOutRegs.length = t.mInstr.mNumOutRegs := by
  rw [h.holds.outRegs, h.holds.numOutRegs, List.length_map, r.length_orderedOuts]

/-- The sources of a store piece: the address register, the register offset, and the
value register of its number. -/
theorem populateInputs_part (h : LoadedStore r t)
    (hin : 1 + r.hasRegOffset.val ≤ r.inRegs.length) (hk : k < r.storePieces)
    (hlater : t.Later k t₁) :
    ∃ A B C, t₁.populateInputs false = .ok (A, B, C) ∧ regOf A = r.inRegs[0]?.map Fin.val ∧
      (r.hasRegOffset.val ≠ 0 → regOf B = r.inRegs[1]?.map Fin.val ∧
        regOf C = r.valueRegs[k]?.map Fin.val) ∧
      (r.hasRegOffset.val = 0 → regOf B = r.valueRegs[k]?.map Fin.val ∧ C.valid = false) := by
  have htype : t₁.mInstr.mType = .store := by rw [hlater.mInstr, h.holds.type, h.store]
  have hoffset : t₁.mInstr.mHasRegOffset = r.hasRegOffset.val := by
    rw [hlater.mInstr, h.holds.hasRegOffset (by rw [h.store]; rfl)]
  have hinRegs : t₁.mInstr.mInRegs = r.inRegs.map Fin.val := by rw [hlater.mInstr, h.holds.inRegs]
  have hnum : t₁.mInstr.mNumInRegs = r.inRegs.length := by rw [hlater.mInstr, h.holds.numInRegs]
  have hlen := r.length_inRegs
  have hnth : (1 + r.hasRegOffset.val + k) % 256 = 1 + r.hasRegOffset.val + k := by
    unfold Record.storePieces at hk
    omega
  have hvalue : regOf (TraceReader.inputAt (r.inRegs.map Fin.val) (1 + r.hasRegOffset.val + k)) =
      r.valueRegs[k]?.map Fin.val := by
    rw [regOf_inputAt, List.getElem?_map, Record.valueRegs, List.getElem?_drop]
  obtain ⟨reg, regs, hregs⟩ : ∃ reg regs, r.inRegs = reg :: regs :=
    List.exists_cons_of_length_pos (by omega)
  have hinputs := populateInputs_store htype (by rw [hinRegs, hregs, List.map_cons])
    (by rw [hnum, hinRegs, List.length_map]) (by rw [hnum, hoffset]; omega)
  rw [hinRegs, hoffset, hlater.processed, h.start, Nat.zero_add, hnth] at hinputs
  have haddress : regOf (TraceReader.input reg.val) = r.inRegs[0]?.map Fin.val := by
    rw [hregs]
    rfl
  by_cases hzero : r.hasRegOffset.val = 0
  · rw [if_neg (not_not.mpr hzero)] at hinputs
    exact ⟨_, _, _, hinputs, haddress, fun hne => absurd hzero hne, fun _ => ⟨hvalue, rfl⟩⟩
  · rw [if_pos hzero] at hinputs
    refine ⟨_, _, _, hinputs, haddress, fun _ => ⟨?_, hvalue⟩, fun heq => absurd heq hzero⟩
    rw [regOf_inputAt, List.getElem?_map]

/-- A store piece is built, with its sources and no destination. -/
theorem populate_part (h : LoadedStore r t) (hin : 1 + r.hasRegOffset.val ≤ r.inRegs.length)
    (hk : k < r.storePieces) (hlater : t.Later k t₁) :
    ∃ inst t₂, t₁.populateNewInstr = .ok (inst, t₂) ∧
      regOf inst.A = r.inRegs[0]?.map Fin.val ∧
      (r.hasRegOffset.val ≠ 0 → regOf inst.B = r.inRegs[1]?.map Fin.val ∧
        regOf inst.C = r.valueRegs[k]?.map Fin.val) ∧
      (r.hasRegOffset.val = 0 → regOf inst.B = r.valueRegs[k]?.map Fin.val ∧
        inst.C.valid = false) ∧ inst.D.valid = false := by
  have hlt : k < t.mTotalPieces := by
    have := h.total
    omega
  have hcreate : t₁.createBaseUpdateOp = false := by
    rw [hlater.createBaseUpdateOp, Bool.eq_false_iff]
    exact fun hupd => Nat.ne_of_lt hk ((h.baseUpdAt hlt).mp hupd)
  have htype : t₁.mInstr.mType = .store := by rw [hlater.mInstr, h.holds.type, h.store]
  obtain ⟨A, B, C, hinputs, hA, hwith, hwithout⟩ := h.populateInputs_part hin hk hlater
  obtain ⟨inst, t₂, hpopulate, rfl, rfl, rfl, hD⟩ := TraceReader.populateNewInstr_ok hcreate
    (h.piecesFit hlt hlater) (by rw [htype, hlater.mInstr, h.taken]; rfl) hinputs
    (populateOutput_store htype) (fun hmore => by rw [hlater.mInstr] at hmore ⊢; rwa [h.outRegs])
  exact ⟨inst, t₂, hpopulate, hA, hwith, hwithout, by rw [hD]⟩

/-- The base-update piece is built: it reads the base register, and writes it back with
the value of the record. -/
theorem populate_base (h : LoadedStore r t) {b : Output} (hb : r.outs = [b])
    (hreg : b.reg.val < 32) (hlater : t.Later r.storePieces t₁) :
    ∃ inst t₂, t₁.populateNewInstr = .ok (inst, t₂) ∧ regOf inst.A = some b.reg.val ∧
      (inst.B.valid = false ∧ inst.C.valid = false) ∧
      inst.D.valid = true ∧ inst.D.logReg = b.reg.val ∧ inst.D.value = b.low.val := by
  have hlt : r.storePieces < t.mTotalPieces := by
    have htotal := h.total
    have houts := h.outs
    rw [hb, List.length_singleton] at houts
    omega
  have hcreate : t₁.createBaseUpdateOp = true := by
    rw [hlater.createBaseUpdateOp]
    exact (h.baseUpdAt hlt).mpr rfl
  have hint : regIsInt b.reg.val = true := by simp [regIsInt, hreg]
  have hbase : t₁.mInstr.mBaseUpdReg = some b.reg.val := by
    rw [hlater.mInstr, h.baseUpdReg, hb]
    rfl
  have hordered := r.orderedOuts_store h.store
  have hlastReg : t₁.mInstr.mOutRegs.getLast? = some b.reg.val := by
    rw [hlater.mInstr, h.holds.outRegs, hordered, hb]
    rfl
  have hlastVal : t₁.mInstr.mOutRegsValues.getLast? = some b.low.val := by
    rw [hlater.mInstr, h.holds.outRegsValues, hordered, hb]
    simp [Output.lanes, hint]
  obtain ⟨inst, t₂, hpopulate, hA, hB, hC, hD⟩ := populateNewInstr_baseUpd hcreate
    (h.piecesFit hlt hlater) (by rw [hlater.mInstr, h.taken]) hbase hlastReg hlastVal hreg
    (by rw [hlater.mInstr, h.outRegs])
  exact ⟨inst, t₂, hpopulate, by rw [hA]; rfl, ⟨by rw [hB], by rw [hC]⟩, by rw [hD], by rw [hD],
    by rw [hD]⟩

/-! ## All the pieces -/

/-- The size of the access is as many times that of a piece. -/
theorem size_pos (h : LoadedStore r t) (hsize : 1 ≤ r.memSize.val) :
    1 ≤ r.memSize.val / r.storePieces :=
  Nat.div_pos (Nat.le_of_dvd hsize h.divides) (one_le_storePieces r)

theorem storesPart (h : LoadedStore r t) (hin : 1 + r.hasRegOffset.val ≤ r.inRegs.length)
    (hsize : 1 ≤ r.memSize.val) (hk : k < r.storePieces) {p : Piece} (hp : t.BuildsAt k p) :
    StoresPart r k p := by
  have hmem : r.type.isMem = true := by rw [h.store]; rfl
  have hlt : k < t.mTotalPieces := by
    have := h.total
    omega
  have hplain : t.baseUpdAt k = false := by
    rw [Bool.eq_false_iff]
    exact fun hupd => Nat.ne_of_lt hk ((h.baseUpdAt hlt).mp hupd)
  have htype : t.mInstr.mType = .store := h.holds.type.trans h.store
  have hclass := hp.insnClass
  have hstore := hp.isStore
  have haddr := hp.addr
  have hbytes := hp.size
  rw [hplain, htype] at hclass hstore
  rw [h.holds.effAddr hmem, h.start, Nat.zero_add, h.sizeFactor] at haddr
  rw [h.sizeFactor, Nat.max_eq_right (h.size_pos hsize)] at hbytes
  obtain ⟨t₁, t₂, hlater, hpopulate, -⟩ := hp
  obtain ⟨inst, t₂', hpopulate', haddress, hwith, hwithout, hdest⟩ := h.populate_part hin hk hlater
  obtain ⟨rfl, -⟩ := Prod.mk.inj (Except.ok.inj (hpopulate'.symm.trans hpopulate))
  have hvalue : r.valueOf p = r.valueRegs[k]?.map Fin.val := by
    unfold Record.valueOf
    by_cases hzero : r.hasRegOffset.val = 0
    · rw [if_pos hzero]
      exact (hwithout hzero).1
    · rw [if_neg hzero]
      exact (hwith hzero).2
  exact ⟨hclass, hstore, haddr, hbytes, haddress, fun hne => (hwith hne).1, hvalue,
    fun hzero => (hwithout hzero).2, hdest⟩

theorem updatesBase (h : LoadedStore r t) {b : Output} (hb : r.outs = [b]) (hreg : b.reg.val < 32)
    {p : Piece} (hp : t.BuildsAt r.storePieces p) : UpdatesBase b p := by
  have hlt : r.storePieces < t.mTotalPieces := by
    have htotal := h.total
    have houts := h.outs
    rw [hb, List.length_singleton] at houts
    omega
  have hupd : t.baseUpdAt r.storePieces = true := (h.baseUpdAt hlt).mpr rfl
  have hclass := hp.insnClass
  have hstore := hp.isStore
  rw [hupd] at hclass hstore
  obtain ⟨t₁, t₂, hlater, hpopulate, -⟩ := hp
  obtain ⟨inst, t₂', hpopulate', hsource, hother, hdest⟩ := h.populate_base hb hreg hlater
  obtain ⟨rfl, -⟩ := Prod.mk.inj (Except.ok.inj (hpopulate'.symm.trans hpopulate))
  exact ⟨hclass, hstore, hsource, hother, hdest⟩

/-- No piece of the store aborts. -/
theorem populate_ok (h : LoadedStore r t) (hin : 1 + r.hasRegOffset.val ≤ r.inRegs.length)
    (hbase : ∀ b ∈ r.outs, b.reg.val < 32) (hk : k < t.mTotalPieces) (hlater : t.Later k t₁) :
    ∃ inst t₂, t₁.populateNewInstr = .ok (inst, t₂) := by
  rcases Nat.lt_or_ge k r.storePieces with hpart | hend
  · obtain ⟨inst, t₂, hpopulate, -⟩ := h.populate_part hin hpart hlater
    exact ⟨inst, t₂, hpopulate⟩
  · have htotal := h.total
    have hbool := Bool.toNat_le (r.baseUpd == 1)
    obtain rfl : k = r.storePieces := by omega
    obtain ⟨b, hb⟩ : ∃ b, r.outs = [b] := List.length_eq_one_iff.mp (by rw [h.outs]; omega)
    obtain ⟨inst, t₂, hpopulate, -⟩ := h.populate_base hb (hbase b (by rw [hb]; simp)) hlater
    exact ⟨inst, t₂, hpopulate⟩

/-- The pieces of a loaded store are those of the store. -/
theorem cracksStore (h : LoadedStore r t) (u : Uninit)
    (hin : 1 + r.hasRegOffset.val ≤ r.inRegs.length) (hsize : 1 ≤ r.memSize.val)
    (hbase : ∀ b ∈ r.outs, b.reg.val < 32) :
    ∃ pieces, t.getPieces u 255 = .ok pieces ∧ CracksStore r pieces := by
  have hpos := one_le_storePieces r
  have htotal := h.total
  have hlt := h.lt
  have hstart := h.start
  obtain ⟨pieces, hpieces⟩ := TraceReader.getPieces_ok u (n := 255) hlt (by omega) (by omega)
    (fun k t₁ hk hlater => h.populate_ok hin hbase (by omega) hlater)
  obtain ⟨hlen, hat⟩ := TraceReader.getPieces_built hlt (by omega) (by omega) hpieces
  rw [hstart, Nat.sub_zero] at hlen
  have hpart : ∀ k p, k < r.storePieces → pieces[k]? = some p → StoresPart r k p :=
    fun k p hk hp => h.storesPart hin hsize hk (hat k p hp)
  -- the store pieces are the first ones
  have hstores : (pieces.filter fun p => p.inst.isStore) = pieces.take r.storePieces := by
    apply filter_eq_take
    intro k p hp
    have hk : k < t.mTotalPieces := hlen ▸ (List.getElem?_eq_some_iff.mp hp).1
    rcases Nat.lt_or_ge k r.storePieces with hplain | hend
    · simp [(hpart k p hplain hp).isStore, hplain]
    · have hbool := Bool.toNat_le (r.baseUpd == 1)
      obtain rfl : k = r.storePieces := by omega
      rw [(hat _ p hp).isStore, (h.baseUpdAt hk).mpr rfl]
      simp
  have htake : ∀ k p, (pieces.take r.storePieces)[k]? = some p → StoresPart r k p := by
    intro k p hp
    rw [List.getElem?_take] at hp
    split at hp
    · rename_i hk
      exact hpart k p hk hp
    · cases hp
  have hcount : (pieces.take r.storePieces).length = r.storePieces := by
    rw [List.length_take]
    omega
  refine ⟨pieces, hpieces, ⟨hlen.trans htotal, ?_, ?_, ?_, ?_, ?_⟩⟩
  · intro k hk
    have hp : pieces[k]? = some _ := List.getElem?_eq_getElem (by omega)
    exact ⟨_, hp, hpart k _ hk hp⟩
  · intro hupd
    have hone : (r.baseUpd == 1).toNat = 1 := by rw [hupd]; rfl
    obtain ⟨b, hb⟩ : ∃ b, r.outs = [b] := List.length_eq_one_iff.mp (h.outs.trans hone)
    have hp : pieces[r.storePieces]? = some _ := List.getElem?_eq_getElem (by omega)
    exact ⟨b, _, hb, hp, h.updatesBase hb (hbase b (by rw [hb]; simp)) (hat _ _ hp)⟩
  · intro k p hp
    have hk := (List.getElem?_eq_some_iff.mp hp).1
    rw [(hat k p hp).isLastPiece (by omega), hstart, Nat.zero_add, hlen, beq_iff_eq]
  · have haccesses : storeAccesses pieces =
        equalPieces (2 ^ 64) r.effAddr.val r.storePieces r.memSize.val := by
      unfold storeAccesses equalPieces
      rw [hstores]
      apply List.ext_getElem (by rw [List.length_map, List.length_map, hcount, List.length_range])
      intro k hk _
      rw [List.length_map] at hk
      have hp := htake k _ (List.getElem?_eq_getElem hk)
      rw [List.getElem_map, List.getElem_map, List.getElem_range, hp.addr, hp.size,
        Nat.max_eq_right (h.size_pos hsize)]
    rw [haccesses]
    exact tiles_of_dvd hsize (r.memSize.isLt.le.trans (by decide)) h.divides
  · rw [hstores]
    apply filterMap_eq
    · intro k p hp
      rw [(htake k p hp).value, List.getElem?_map]
    · rw [hcount, List.length_map, Record.valueRegs, List.length_drop]
      unfold Record.storePieces
      omega

end LoadedStore

/-- **Store cracking is exact.**  An accepted store of at least one byte, with the address
register, the register offset if the byte says so, and a base register among the first 32
if it has one, is cracked into one piece for each value register, and at least one, that
share its bytes equally, and the base update. -/
theorem store_cracked (u : Uninit) (r : Record) (haccepted : r.Accepted u)
    (hstore : r.type.isStore = true) (hsize : 1 ≤ r.memSize.val)
    (hin : 1 + r.hasRegOffset.val ≤ r.inRegs.length) (hbase : ∀ b ∈ r.outs, b.reg.val < 32)
    (t : TraceReader) (rest : List Byte) (ht : t.dpressedInput = onBytes (r.encode ++ rest))
    (hdone : t.mProcessedPieces = t.mTotalPieces) :
    ∃ pieces, t.getPieces u 255 = .ok pieces ∧ CracksStore r pieces := by
  have hclean : r.Clean := by
    intro _
    rw [Record.writesSimd, List.any_eq_false]
    intro b hb
    simp [regIsInt, hbase b hb]
  have htype : r.type = .store := by simpa [InstClass.isStore] using hstore
  obtain ⟨t', hread, -⟩ := haccepted.read hclean ht
  have hloaded := loadedStore_of_read htype hclean hin ht hread
  have hpos := LoadedStore.one_le_storePieces r
  have htotal := hloaded.total
  rw [TraceReader.getPieces_of_read u hdone hread (by rw [hloaded.start]; omega)]
  exact hloaded.cracksStore u hin hsize hbase

/-- A store of a pair of registers, `r3` and `r4`, to `r1 + r2`, which it writes back. -/
def storesPair : Record where
  pc := 4096
  typeByte := 2
  effAddr := 8192
  memSize := 16
  baseUpd := 1
  hasRegOffset := 1
  taken := false
  target := 0
  inRegs := [1, 2, 3, 4]
  outs := [⟨1, 8208, 0⟩]
  length_inRegs := by decide
  length_outs := by simp

theorem store_cracked_pair : ∃ pieces,
    (TraceReader.new ⟨0, 0, 0, 0⟩ (storesPair.encode ++ [])).getPieces ⟨0, 0, 0, 0⟩ 255 =
      .ok pieces ∧ CracksStore storesPair pieces :=
  store_cracked ⟨0, 0, 0, 0⟩ storesPair (Record.accepted_of_isOk (by decide +kernel)) (by decide)
    (by decide) (by decide) (by decide) _ [] rfl rfl

end CbpSim.Trace
