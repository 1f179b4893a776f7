/-
  Trace/CutRecord.lean --- a record whose bytes end early.

  Source: src/lib/trace_reader.h, `readInstr`.

  From the first bytes of a record the reader gets the fields that are there; the
  operands that are cut off it does without, or takes what their variables hold.
-/
import CbpSim.Trace.MadeUp
import CbpSim.Trace.Records

set_option autoImplicit false

namespace CbpSim.Trace

open CbpSim.Foundation

/-- A record that the reader takes and cracks, with registers of the format and no
register written twice. -/
structure Record.WellFormed (r : Record) : Prop where
  clean : r.Clean
  registers : ∀ o ∈ r.outs, o.reg.val < rfSize
  distinct : (r.outs.map fun o => o.reg.val).Nodup
  pieces : ∃ u insts, r.pieces u = .ok insts

namespace Record

/-- Where "Num Input Regs" is. -/
def countInAt (r : Record) : Nat := 9 + r.memBytes.length + r.branchBytes.length

/-- Where "Num Output Regs" is. -/
def countOutAt (r : Record) : Nat := r.countInAt + 1 + r.inRegs.length

end Record

/-! ## What a well-formed record passes -/

/-- A memory access is no branch. -/
theorem isBr_of_isMem {c : InstClass} (h : c.isMem = true) : c.isBr = false := by
  simp only [InstClass.isMem, InstClass.isLoad, InstClass.isStore, Bool.or_eq_true,
    beq_iff_eq] at h
  rcases h with rfl | rfl
  · rfl
  · rfl

/-- The asserts that a record passes. -/
structure Record.Passes (r : Record) : Prop where
  undef : r.type ≠ .undef
  jump : (r.type.isUncondBr && !r.taken) = false
  inputs : r.type.isStore = false → r.inRegs.length ≤ 3
  capture : ∀ mBaseUpd, ∃ present m, (r.instr mBaseUpd).captureBaseUpdateLogReg = .ok (present, m)
  store : r.type.isStore = true → ∀ mBaseUpd, StoreFits (r.instr mBaseUpd) (r.baseUpd.val == 1)

/-- **A well-formed record passes the asserts.** -/
theorem Record.WellFormed.passes {r : Record} (h : r.WellFormed) : r.Passes := by
  obtain ⟨u, insts, hpieces⟩ := h.pieces
  obtain ⟨⟨insts', last⟩, hinsts, -⟩ := bind_eq_ok.mp hpieces
  rw [TraceReader.getInsts] at hinsts
  obtain ⟨⟨inst?, t'⟩, hget, -⟩ := bind_eq_ok.mp hinsts
  have hnew : (TraceReader.new u r.encode).dpressedInput = onBytes (r.encode ++ []) := by
    rw [List.append_nil]
    rfl
  rw [TraceReader.getInst, if_neg (by simp [TraceReader.new])] at hget
  obtain ⟨⟨more, t₁⟩, hread, hget⟩ := bind_eq_ok.mp hget
  obtain ⟨present, m, v, mem, total, size, hdigest, hcount, hcheck, rfl, rfl⟩ :=
    readInstr_eq_ok h.clean hnew hread
  dsimp only at hget
  rw [if_pos rfl] at hget
  obtain ⟨⟨inst, t₂⟩, hpopulate, -⟩ := bind_eq_ok.mp hget
  obtain ⟨hholds, -, -⟩ := h.clean.holds hdigest
  obtain ⟨hundef, hjump, m₁, hcapture, -, -⟩ := digest_eq_ok hdigest
  unfold checkPieces at hcheck
  obtain ⟨hpos, hcheck⟩ := guard_eq_ok.mp hcheck
  obtain ⟨-, hcheck⟩ := guard_eq_ok.mp hcheck
  obtain ⟨hinputs, -⟩ := guard_eq_ok.mp hcheck
  refine ⟨hundef, hjump, ?_, fun b => ⟨_, _, capture_congr b hcapture⟩, ?_⟩
  · intro hstore
    rw [hholds.type, hholds.numInRegs, hstore] at hinputs
    simpa using hinputs
  · intro hstore mBaseUpd
    have hmem : r.type.isMem = true := by simp [InstClass.isMem, hstore]
    obtain ⟨hregs, hoffset⟩ := store_inputs rfl (hholds.type ▸ hstore) hpopulate
    obtain ⟨hsize, htotal⟩ := store_counts (hholds.type ▸ hstore) hcount hpos
    dsimp only at hregs hoffset
    have htrue : trueStrValRegs (r.instr mBaseUpd) = trueStrValRegs m :=
      trueStrValRegs_congr hholds.numInRegs.symm (by
        rw [hholds.hasRegOffset hstore]
        simp [Record.instr, hstore])
    obtain ⟨-, -, hpresent'⟩ := capture_store_agrees hstore (by simp [Record.instr]) hcapture
    refine ⟨hstore, by simp [Record.instr, Record.jumps, isBr_of_isMem hmem], ?_, ?_, ?_, ?_⟩
    · rwa [hholds.inRegs] at hregs
    · rw [hholds.hasRegOffset hstore, hholds.numInRegs] at hoffset
      simpa [Record.instr, hstore] using hoffset
    · rw [htrue]
      rw [hholds.memSize hmem] at hsize
      simpa [Record.instr, hmem] using hsize
    · rw [htrue]
      rw [hpresent'] at htotal
      simpa [Record.instr, hmem] using htotal

/-! ## The fields before the operands -/

/-- `mInstr` in front of the operands. -/
structure Headed (r : Record) (m : Instr) : Prop where
  type : m.mType = r.type
  taken : TraceReader.takenFits m.mType m.mTaken = true
  memSize : r.type.isMem = false → m.mMemSize = 0
  numInRegs : m.mNumInRegs = 0
  numOutRegs : m.mNumOutRegs = 0
  baseUpdReg : m.mBaseUpdReg = none

/-- `mInstr` in front of the operands when everything before them is there. -/
def Record.head (r : Record) (mBaseUpd : Nat) : Instr := (r.instr mBaseUpd).withRegs [] []

theorem Record.instr_withRegs (r : Record) (mBaseUpd : Nat) :
    (r.instr mBaseUpd).withRegs (r.inRegs.map Fin.val) (r.outs.map fun o => o.reg.val) =
      r.instr mBaseUpd := by
  simp [Instr.withRegs, Record.instr]

theorem readRecord_head {u : Uninit} {r : Record} (hundef : r.type ≠ .undef)
    (hjump : (r.type.isUncondBr && !r.taken) = false) (m : Instr) (bytes : List Byte) :
    readRecord u { m.reset with mPc := r.pc.val }
        (onBytes (r.typeByte :: (r.memBytes ++ (r.branchBytes ++ bytes)))) =
      readOperands u (r.head m.mBaseUpd) (onBytes bytes) := by
  have htype : InstClass.ofByte r.typeByte.val = r.type := rfl
  rw [readRecord_eq]
  simp only [readType_byte, htype]
  rw [if_neg hundef, readMem_bytes (r := r) rfl]
  simp only
  rw [readBranch_bytes (r := r) rfl rfl, if_neg (by simp [hjump]), ok_bind]
  rfl

theorem readMem_sound (m : Instr) {s : InStream} (hs : s.Sound) :
    (readMem m s).2.Sound ∧ (readMem m s).2.bytes.length = s.bytes.length -
      if m.mType.isMem then (if m.mType.isStore then 11 else 10) else 0 := by
  have haddr := hs.readInto 8 m.mEffAddr
  have hsize := haddr.readInto 1 m.mMemSize
  have hbase := hsize.readInto 1 m.mBaseUpd
  have hoffset := hbase.readInto 1 m.mHasRegOffset
  unfold readMem
  split
  · dsimp only
    split
    · refine ⟨hoffset, ?_⟩
      rw [hbase.length_readInto, hsize.length_readInto, haddr.length_readInto, hs.length_readInto]
      omega
    · refine ⟨hbase, ?_⟩
      rw [hsize.length_readInto, haddr.length_readInto, hs.length_readInto]
      omega
  · exact ⟨hs, rfl⟩

theorem readMem_frame (m : Instr) (s : InStream) :
    ∃ effAddr memSize baseUpd hasRegOffset, (readMem m s).1 = { m with
      mEffAddr := effAddr
      mMemSize := memSize
      mBaseUpd := baseUpd
      mHasRegOffset := hasRegOffset } := by
  unfold readMem
  split
  · dsimp only
    split
    · exact ⟨_, _, _, _, rfl⟩
    · exact ⟨_, _, _, m.mHasRegOffset, rfl⟩
  · exact ⟨m.mEffAddr, m.mMemSize, m.mBaseUpd, m.mHasRegOffset, rfl⟩

theorem Record.length_memBytes (r : Record) :
    r.memBytes.length = if r.type.isMem then (if r.type.isStore then 11 else 10) else 0 := by
  unfold Record.memBytes
  split
  · split
    · simp
    · simp
  · rfl

/-- `mInstr` when the class is read and no other field. -/
structure Classed (r : Record) (m : Instr) : Prop where
  type : m.mType = r.type
  taken : m.mTaken = false
  memSize : m.mMemSize = 0
  numInRegs : m.mNumInRegs = 0
  numOutRegs : m.mNumOutRegs = 0
  baseUpdReg : m.mBaseUpdReg = none

/-- Cut after `j` bytes behind the class, the reader comes to the operands at the end of the
stream, unless the taken flag of a jump is missing. -/
def DryAtOperands (r : Record) (j : Nat) (x : Except Abort (Instr × InStream)) : Prop :=
  Ends x (fun _ => r.type.isUncondBr = true ∧ j = 0) fun x =>
    (r.type.isUncondBr = true → j ≠ 0) ∧ x.2.Sound ∧ x.2.bytes = [] ∧ Headed r x.1

section Cut

variable {r : Record} {m : Instr} {j : Nat}

theorem Classed.headed (hm : Classed r m) (taken : Bool) (nextPc : Nat)
    (hfits : TraceReader.takenFits r.type taken = true) :
    Headed r { m with mTaken := taken, mNextPc := nextPc } where
  type := hm.type
  taken := by
    dsimp only
    rwa [hm.type]
  memSize := fun _ => hm.memSize
  numInRegs := hm.numInRegs
  numOutRegs := hm.numOutRegs
  baseUpdReg := hm.baseUpdReg

/-- The fields of a memory access are cut. -/
theorem readBranch_cutMem (hm : Classed r m) (hmem : r.type.isMem = true) :
    DryAtOperands r j (readBranch (readMem m (onBytes ((r.memBytes ++ r.branchBytes).take j))).1
      (readMem m (onBytes ((r.memBytes ++ r.branchBytes).take j))).2) := by
  have hsound : (onBytes ((r.memBytes ++ r.branchBytes).take j)).Sound := fun h => by cases h
  have hbr := isBr_of_isMem hmem
  have hbranch : r.branchBytes = [] := by simp [Record.branchBytes, hbr]
  have hu : r.type.isUncondBr = false := by simp [InstClass.isUncondBr, hbr]
  have hc : r.type.isCondBr = false := by
    cases hcond : r.type.isCondBr with
    | false => rfl
    | true => simp [InstClass.isBr_of_isCondBr hcond] at hbr
  obtain ⟨hs, hlen⟩ := readMem_sound m hsound
  obtain ⟨effAddr, memSize, baseUpd, hasRegOffset, hframe⟩ :=
    readMem_frame m (onBytes ((r.memBytes ++ r.branchBytes).take j))
  have hdry : (readMem m (onBytes ((r.memBytes ++ r.branchBytes).take j))).2.bytes = [] := by
    apply List.length_eq_zero_iff.mp
    rw [hlen, hm.type, ← r.length_memBytes, hbranch, List.append_nil, List.length_take]
    omega
  rw [hframe, readBranch, if_neg (by simp [hm.type, hbr])]
  refine ⟨by simp [hu], hs, hdry, ?_⟩
  exact {
    type := hm.type
    taken := by simp [TraceReader.takenFits, hm.type, hu, hc, hm.taken]
    memSize := by simp [hmem]
    numInRegs := hm.numInRegs
    numOutRegs := hm.numOutRegs
    baseUpdReg := hm.baseUpdReg }

/-- There is nothing to read. -/
theorem readBranch_cutPlain (hm : Classed r m) (hjump : (r.type.isUncondBr && !r.taken) = false)
    (hbr : r.type.isBr = false) :
    DryAtOperands r j (readBranch m (onBytes (r.branchBytes.take j))) := by
  have hbranch : r.branchBytes = [] := by simp [Record.branchBytes, hbr]
  have hu : r.type.isUncondBr = false := by simp [InstClass.isUncondBr, hbr]
  have hfits := takenFits_jumps hjump
  have hjumps : r.jumps = false := by simp [Record.jumps, hbr]
  rw [hjumps] at hfits
  have hheaded := hm.headed false m.mNextPc hfits
  rw [← hm.taken] at hheaded
  rw [readBranch, if_neg (by simp [hm.type, hbr]), hbranch, List.take_nil]
  exact ⟨by simp [hu], (fun h => by cases h), rfl, hheaded⟩

/-- The taken flag or the target is cut. -/
theorem readBranch_cutJump (hm : Classed r m) (hjump : (r.type.isUncondBr && !r.taken) = false)
    (hbr : r.type.isBr = true) (hj : j ≤ r.branchBytes.length) :
    DryAtOperands r j (readBranch m (onBytes (r.branchBytes.take j))) := by
  have hu : r.type.isUncondBr = !r.type.isCondBr := by
    simp [InstClass.isUncondBr, InstClass.isCondBr, hbr, bne]
  have hcond : r.type.isCondBr = true → TraceReader.takenFits r.type false = true := by
    intro hc
    simp [TraceReader.takenFits, hu, hc]
  have hsame : m.mType.isCondBr = r.type.isCondBr := by rw [hm.type]
  rw [readBranch, if_pos (by rw [hm.type, hbr])]
  cases j with
  | zero =>
    have hfail : (onBytes ([] : List Byte)).readInto 1 0 = (0, { bytes := [], eof := true }) := rfl
    rw [List.take_zero, hm.taken]
    dsimp only [Bool.toNat_false]
    rw [hfail]
    dsimp only
    rw [hsame]
    apply Ends.ite
    · intro hmissing
      exact ⟨by simpa [hu] using hmissing, rfl⟩
    · intro hmissing
      have hc : r.type.isCondBr = true := by simpa using hmissing
      rw [if_neg (by decide)]
      exact ⟨by simp [hu, hc], fun _ => rfl, rfl, hm.headed false m.mNextPc (hcond hc)⟩
  | succ j =>
    cases htk : r.taken with
    | true =>
      have hbytes : r.branchBytes = 1 :: leBytes 8 r.target.val := by
        simp [Record.branchBytes, hbr, htk]
      have hfits := takenFits_jumps hjump
      have hjumps : r.jumps = true := by simp [Record.jumps, hbr, htk]
      rw [hjumps] at hfits
      have hrest : (onBytes ((leBytes 8 r.target.val).take j)).Sound := fun h => by cases h
      rw [hbytes, List.length_cons, length_leBytes] at hj
      rw [hbytes, List.take_succ_cons, readInto_byte]
      dsimp only
      rw [if_neg (by simp), if_pos (by decide)]
      refine ⟨fun _ => Nat.succ_ne_zero j, hrest.readInto 8 m.mNextPc, ?_, hm.headed true _ hfits⟩
      apply List.length_eq_zero_iff.mp
      rw [hrest.length_readInto, List.length_take, length_leBytes]
      omega
    | false =>
      have hbytes : r.branchBytes = [0] := by simp [Record.branchBytes, hbr, htk]
      have hc : r.type.isCondBr = true := by simpa [hu, htk] using hjump
      rw [hbytes, List.take_succ_cons, List.take_nil, readInto_byte]
      dsimp only
      rw [hsame, hc, if_neg (by simp), if_neg (by decide)]
      exact ⟨by simp [hu, hc], (fun h => by cases h), rfl, hm.headed false m.mNextPc (hcond hc)⟩

/-- Cut before the operands, whatever the class. -/
theorem readBranch_cut (hm : Classed r m) (hjump : (r.type.isUncondBr && !r.taken) = false)
    (hj : j ≤ r.memBytes.length + r.branchBytes.length) :
    DryAtOperands r j (readBranch (readMem m (onBytes ((r.memBytes ++ r.branchBytes).take j))).1
      (readMem m (onBytes ((r.memBytes ++ r.branchBytes).take j))).2) := by
  cases hmem : r.type.isMem with
  | true => exact readBranch_cutMem hm hmem
  | false =>
    have hbytes : r.memBytes = [] := by simp [Record.memBytes, hmem]
    have hread : ∀ s, readMem m s = (m, s) := by
      intro s
      rw [readMem, if_neg (by simp [hm.type, hmem])]
    rw [hbytes, List.length_nil, Nat.zero_add] at hj
    rw [hread, hbytes, List.nil_append]
    cases hbr : r.type.isBr with
    | false => exact readBranch_cutPlain hm hjump hbr
    | true => exact readBranch_cutJump hm hjump hbr hj

end Cut

/-! ## What is left of a record -/

/-- Behind the class and the fields of a memory access or a branch come the operands. -/
theorem Record.encode_fields (r : Record) :
    r.encode = leBytes 8 r.pc.val ++ (r.typeByte :: ((r.memBytes ++ r.branchBytes) ++
      (Record.countByte _ r.length_inRegs :: (r.inRegs ++
        (Record.countByte _ r.length_outs :: (r.outs.map Output.reg ++
          r.outs.flatMap Output.bytes)))))) := by
  simp only [Record.encode, List.append_assoc]

theorem Record.take_class (r : Record) {k : Nat} (hk : 9 ≤ k) :
    r.encode.take k = leBytes 8 r.pc.val ++ (r.typeByte :: (((r.memBytes ++ r.branchBytes) ++
      (Record.countByte _ r.length_inRegs :: (r.inRegs ++
        (Record.countByte _ r.length_outs :: (r.outs.map Output.reg ++
          r.outs.flatMap Output.bytes))))).take (k - 9))) := by
  obtain ⟨j, rfl⟩ := Nat.exists_eq_add_of_le hk
  have hsub : 9 + j - (leBytes 8 r.pc.val).length = j + 1 := by
    rw [length_leBytes]
    omega
  rw [r.encode_fields, List.take_append, hsub, List.take_succ_cons,
    List.take_of_length_le (by rw [length_leBytes]; omega), Nat.add_sub_cancel_left]

/-- The number of inputs is cut off. -/
theorem Record.take_fields (r : Record) {k : Nat} (hk : 9 ≤ k) (hcut : k ≤ r.countInAt) :
    r.encode.take k = leBytes 8 r.pc.val ++
      (r.typeByte :: (r.memBytes ++ r.branchBytes).take (k - 9)) := by
  rw [r.take_class hk, List.take_append_of_le_length]
  rw [List.length_append]
  unfold Record.countInAt at hcut
  omega

/-- The number of outputs is cut off. -/
theorem Record.take_inputs (r : Record) {k : Nat} (hin : r.countInAt < k) (hcut : k ≤ r.countOutAt) :
    r.encode.take k = leBytes 8 r.pc.val ++ (r.typeByte :: (r.memBytes ++ (r.branchBytes ++
      (Record.countByte _ r.length_inRegs :: r.inRegs.take (k - r.countInAt - 1))))) := by
  unfold Record.countOutAt at hcut
  have hfields : r.countInAt = 9 + (r.memBytes ++ r.branchBytes).length := by
    rw [List.length_append, Record.countInAt, Nat.add_assoc]
  obtain ⟨j, hj⟩ : ∃ j, k = r.countInAt + 1 + j := ⟨k - r.countInAt - 1, by omega⟩
  have hrest : k - 9 - (r.memBytes ++ r.branchBytes).length = j + 1 := by omega
  have hpart : k - r.countInAt - 1 = j := by omega
  rw [r.take_class (by omega), List.take_append, hrest, List.take_of_length_le (by omega),
    List.take_succ_cons, List.take_append_of_le_length (by omega), hpart, List.append_assoc]

/-- Names or values of outputs are cut off. -/
theorem Record.take_outputs (r : Record) {k : Nat} (hcut : r.countOutAt < k) :
    r.encode.take k = leBytes 8 r.pc.val ++ (r.typeByte :: (r.memBytes ++ (r.branchBytes ++
      (Record.countByte _ r.length_inRegs :: (r.inRegs ++ (Record.countByte _ r.length_outs ::
        (r.outs.map Output.reg ++ r.outs.flatMap Output.bytes).take
          (k - r.countOutAt - 1))))))) := by
  have hfields : r.countOutAt =
      9 + (r.memBytes ++ r.branchBytes).length + 1 + r.inRegs.length := by
    rw [List.length_append, Record.countOutAt, Record.countInAt, Nat.add_assoc 9]
  obtain ⟨j, hj⟩ : ∃ j, k = r.countOutAt + 1 + j := ⟨k - r.countOutAt - 1, by omega⟩
  have hrest : k - 9 - (r.memBytes ++ r.branchBytes).length = r.inRegs.length + (j + 1) + 1 := by
    omega
  have hpart : k - r.countOutAt - 1 = j := by omega
  rw [r.take_class (by omega), List.take_append, hrest, List.take_of_length_le (by omega),
    List.take_succ_cons, List.take_append, List.take_of_length_le (by omega),
    Nat.add_sub_cancel_left, List.take_succ_cons, hpart, List.append_assoc]

/-! ## What `get_inst` makes of it -/

section Cut

variable {u : Uninit} {r : Record} {t : TraceReader} {k : Nat}

/-- Without a class there is no piece. -/
theorem getInst_short (ht : t.dpressedInput = onBytes (r.encode.take k))
    (hdone : t.mProcessedPieces = t.mTotalPieces) (hk : k ≤ 8) (inst : DbInst) (t' : TraceReader) :
    t.getInst u ≠ .ok (some inst, t') := by
  rcases Nat.lt_or_eq_of_le hk with hlt | rfl
  · have hshort : (r.encode.take k).length < 8 := (List.length_take_le _ _).trans_lt hlt
    obtain ⟨t', hread⟩ := readInstr_short (u := u) ht hshort
    rw [TraceReader.getInst, if_neg (by simp [hdone]), hread]
    intro h
    cases h
  · have hbytes : r.encode.take 8 = leBytes 8 r.pc.val ++ [] := by
      rw [r.encode_fields, List.take_append_of_le_length (by simp), List.append_nil,
        List.take_of_length_le (by simp)]
    rw [hbytes] at ht
    rw [getInst_eq u ht hdone, readRecord_eq]
    intro h
    cases h

/-- Without the number of inputs there are no operands, and a jump needs its taken flag. -/
theorem getInst_fields (hpasses : r.Passes) (ht : t.dpressedInput = onBytes (r.encode.take k))
    (hdone : t.mProcessedPieces = t.mTotalPieces) (hk : 9 ≤ k) (hcut : k ≤ r.countInAt) :
    (r.type.isUncondBr = true ∧ k = 9 ∧ ∃ e, t.getInst u = .error e) ∨
      ((r.type.isUncondBr = true → k ≠ 9) ∧ ∃ m s, Headed r m ∧
        t.getInst u = readOutputs u (m.withRegs [] []) s >>= firstPiece t) := by
  rw [r.take_fields hk hcut] at ht
  have htype : InstClass.ofByte r.typeByte.val = r.type := rfl
  rw [getInst_eq u ht hdone, readRecord_eq]
  simp only [readType_byte, htype]
  rw [if_neg hpasses.undef]
  unfold Record.countInAt at hcut
  have hbranch := readBranch_cut (m := { t.mInstr.reset with
    mPc := r.pc.val, mNextPc := (r.pc.val + 4) % 2 ^ 64, mType := r.type })
    ⟨rfl, rfl, rfl, rfl, rfl, rfl⟩ hpasses.jump (j := k - 9) (by omega)
  generalize readBranch (readMem _ _).1 (readMem _ _).2 = x at hbranch ⊢
  cases x with
  | error e =>
    obtain ⟨hu, hzero⟩ := hbranch
    exact Or.inl ⟨hu, by omega, e, rfl⟩
  | ok x =>
    obtain ⟨hflag, hsound, hdry, hheaded⟩ := hbranch
    obtain ⟨s', hoperands⟩ :=
      readOperands_dry u hheaded.numInRegs hheaded.numOutRegs hsound hdry
    refine Or.inr ⟨fun hu hnine => hflag hu (by omega), x.1, s', hheaded, ?_⟩
    rw [ok_bind, hoperands]

/-- Without the number of outputs there are no outputs. -/
theorem getInst_inputs (hpasses : r.Passes) (ht : t.dpressedInput = onBytes (r.encode.take k))
    (hdone : t.mProcessedPieces = t.mTotalPieces) (hin : r.countInAt < k) (hcut : k ≤ r.countOutAt) :
    ∃ inRegs s, inRegs.length = r.inRegs.length ∧
      t.getInst u =
        readOutputs u ((r.instr t.mInstr.mBaseUpd).withRegs inRegs []) s >>= firstPiece t := by
  rw [r.take_inputs hin hcut] at ht
  rw [getInst_eq u ht hdone, readRecord_head hpasses.undef hpasses.jump]
  unfold Record.countOutAt at hcut
  have hle : (r.inRegs.take (k - r.countInAt - 1)).length ≤
      (Record.countByte _ r.length_inRegs).val := List.length_take_le' _ _
  obtain ⟨inRegs, s', hlen, hoperands⟩ := readOperands_inputs u
    (show (r.head t.mInstr.mBaseUpd).mNumOutRegs = 0 from rfl) _ hle
  exact ⟨inRegs, s', hlen, by rw [hoperands]; rfl⟩

/-- With the number of outputs the operands may be those of the record. -/
theorem getInst_outputs (hpasses : r.Passes) (ht : t.dpressedInput = onBytes (r.encode.take k))
    (hdone : t.mProcessedPieces = t.mTotalPieces) (hcut : r.countOutAt < k)
    (hu : Guesses u.outReg 0 (r.outs.map Output.reg)) :
    ∃ s, t.getInst u = readOutputs u (r.instr t.mInstr.mBaseUpd) s >>= firstPiece t := by
  rw [r.take_outputs hcut] at ht
  rw [getInst_eq u ht hdone, readRecord_head hpasses.undef hpasses.jump]
  obtain ⟨s', hoperands⟩ := readOperands_outputs hu (r.head t.mInstr.mBaseUpd)
    (r.outs.flatMap Output.bytes) (k - r.countOutAt - 1)
  exact ⟨s', by rw [hoperands, ← r.instr_withRegs]; rfl⟩

end Cut

end CbpSim.Trace
