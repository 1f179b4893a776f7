/-
  Trace/Reader.lean --- the trace reader.

  Source: src/lib/trace_reader.h, `TraceReader`.

  `readInstr` reads one record of the trace into `mInstr` and counts the pieces it
  is cracked into; `populateNewInstr` builds the next piece and moves the crack
  cursors; `getInst` is the loop body of the simulator's main function.  Numbers
  are kept as naturals and cut to the width of the source's type where it can
  overflow.
-/
import Mathlib.Data.List.Sort
import CbpSim.Common.Abort
import CbpSim.Common.Structs
import CbpSim.Foundation.Bytes
import CbpSim.Foundation.Outcome

set_option autoImplicit false

namespace CbpSim.Trace

open CbpSim.Foundation

/-- `TraceReader::Instr`. -/
structure Instr where
  mPc : Nat
  mType : InstClass
  mTaken : Bool
  mNextPc : Nat
  mEffAddr : Nat
  mMemSize : Nat
  mBaseUpd : Nat
  mHasRegOffset : Nat
  mNumInRegs : Nat
  mInRegs : List Nat
  mNumOutRegs : Nat
  mOutRegs : List Nat
  mBaseUpdReg : Option Nat
  mOutRegsValues : List Nat
  deriving DecidableEq, Repr

/-- `TraceReader`. -/
structure TraceReader where
  dpressedInput : InStream
  mInstr : Instr
  mTotalPieces : Nat
  mMemPieces : Nat
  mProcessedPieces : Nat
  mCrackRegIdx : Nat
  mCrackValIdx : Nat
  mSizeFactor : Nat
  nInstr : Nat
  startFpReg : Nat
  deriving DecidableEq, Repr

/-- Values of variables the source reads into without initialising them.  Those
declared in the body of a loop have one for each round. -/
structure Uninit where
  mBaseUpd : Nat
  inReg : Nat → Nat
  outReg : Nat → Nat
  val : Nat → Nat

namespace Instr

/-- `reset`.  It leaves `mBaseUpd` alone. -/
def reset (m : Instr) : Instr where
  mPc := 0xdeadbeef
  mNextPc := 0xdeadbeef
  mEffAddr := 0xdeadbeef
  mMemSize := 0
  mBaseUpd := m.mBaseUpd
  mHasRegOffset := 0
  mType := .undef
  mTaken := false
  mNumInRegs := 0
  mNumOutRegs := 0
  mInRegs := []
  mOutRegs := []
  mBaseUpdReg := none
  mOutRegsValues := []

/-- The registers below `vecOffset`, sorted. -/
def sortedInts (regs : List Nat) : List Nat :=
  (regs.insertionSort (· ≤ ·)).filter (· < 32)

/-- `capture_base_update_log_reg`.  On sorted lists `bagInter` is
`std::set_intersection`. -/
def captureBaseUpdateLogReg (m : Instr) : Except Abort (Bool × Instr) :=
  if m.mType = .undef then .error .readUndef
  else if !m.mType.isMem then .ok (false, m)
  else if m.mType.isStore then
    if m.mNumOutRegs > 1 then .error .captureStoreOutputs
    else if (m.mNumOutRegs == 1) != (m.mBaseUpd == 1) then .error .captureStoreMismatch
    else match m.mOutRegs with
      | reg :: _ => .ok (true, { m with mBaseUpdReg := some reg })
      | [] => .ok (false, m)
  else if m.mOutRegs.length = 0 then .error .captureLoadOutputs
  else if m.mOutRegs.length ≤ 1 then .ok (false, m)
  else
    let overlapVec := (sortedInts m.mInRegs).bagInter (sortedInts m.mOutRegs)
    if overlapVec.length > 1 then .error .captureOverlap
    else if m.mBaseUpd = 1 then
      match overlapVec with
      | reg :: _ => .ok (true, { m with mBaseUpdReg := some reg })
      | [] => .error .captureNoOverlap
    else .ok (false, m)

end Instr

/-! ## Reading a record -/

/-- Read one byte into the class. -/
def readType (m : Instr) (s : InStream) : Instr × InStream :=
  match s.read 1 with
  | ([byte], s) => ({ m with mType := .ofByte byte.val }, s)
  | (_, s) => (m, s)

/-- Address, size, base update and, for a store, register offset. -/
def readMem (m : Instr) (s : InStream) : Instr × InStream :=
  if m.mType.isMem then
    let (effAddr, s) := s.readInto 8 m.mEffAddr
    let (memSize, s) := s.readInto 1 m.mMemSize
    let (baseUpd, s) := s.readInto 1 m.mBaseUpd
    let m := { m with mEffAddr := effAddr, mMemSize := memSize, mBaseUpd := baseUpd }
    if m.mType.isStore then
      let (hasRegOffset, s) := s.readInto 1 m.mHasRegOffset
      ({ m with mHasRegOffset := hasRegOffset }, s)
    else (m, s)
  else (m, s)

/-- The taken flag and, when it is set, the target. -/
def readBranch (m : Instr) (s : InStream) : Except Abort (Instr × InStream) :=
  if m.mType.isBr then
    let (taken, s) := s.readInto 1 m.mTaken.toNat
    let m := { m with mTaken := taken != 0 }
    if !m.mType.isCondBr && !m.mTaken then .error .readUncondTaken
    else if m.mTaken then
      let (nextPc, s) := s.readInto 8 m.mNextPc
      .ok ({ m with mNextPc := nextPc }, s)
    else .ok (m, s)
  else .ok (m, s)

/-- The loop that reads register names, each into a variable of its round, from round
`i` on. -/
def readRegs (junk : Nat → Nat) : Nat → Nat → InStream → List Nat × InStream
  | 0, _, s => ([], s)
  | n + 1, i, s =>
    let (reg, s) := s.readInto 1 (junk i)
    let (regs, s) := readRegs junk n (i + 1) s
    (reg :: regs, s)

/-- What the loop over the output values carries. -/
structure Values where
  input : InStream
  mOutRegsValues : List Nat
  mTotalPieces : Nat
  baseUpdPosInOutRegs : Nat
  baseUpdVal : Nat

/-- The loop over the output values, from register number `i` on.  `baseUpd` is
the base-update register when there is a base update. -/
def readValues (junk : Nat → Nat) (mType : InstClass) (baseUpd : Option Nat) :
    List Nat → Nat → Values → Except Abort Values
  | [], _, v => .ok v
  | reg :: regs, i, v =>
    let (val, input) := v.input.readInto 8 (junk i)
    if baseUpd = some reg then
      if v.baseUpdPosInOutRegs ≠ 255 then .error .readBaseUpdTwice
      else
        readValues junk mType baseUpd regs (i + 1)
          { v with input := input, baseUpdPosInOutRegs := i, baseUpdVal := val }
    else if regIsInt reg then
      readValues junk mType baseUpd regs (i + 1)
        { v with input := input, mOutRegsValues := v.mOutRegsValues ++ [val] }
    else if mType.isStore then .error .readStoreSimd
    else
      -- the upper half goes through the same variable
      let (high, input) := input.readInto 8 val
      readValues junk mType baseUpd regs (i + 1)
        { v with
          input := input
          mOutRegsValues := v.mOutRegsValues ++ [val, high]
          mTotalPieces := if high ≠ 0 then (v.mTotalPieces + 1) % 256 else v.mTotalPieces }

/-- Move the base-update register and its value to the end of the outputs. -/
def moveBaseUpd (m : Instr) (v : Values) : Except Abort Instr :=
  match m.mBaseUpdReg with
  | none => .ok { m with mOutRegsValues := v.mOutRegsValues }
  | some reg =>
    if v.baseUpdPosInOutRegs = 255 then .error .readBaseUpdMissing
    else .ok { m with
      mOutRegs :=
        if m.mOutRegs.length > 1 then m.mOutRegs.eraseIdx v.baseUpdPosInOutRegs ++ [reg]
        else m.mOutRegs
      mOutRegsValues := v.mOutRegsValues ++ [v.baseUpdVal] }

/-- `str_val_regs`, or 1 when it is zero. -/
def trueStrValRegs (m : Instr) : Nat :=
  let strValRegs := (m.mNumInRegs + 512 - (1 + m.mHasRegOffset)) % 256
  if strValRegs = 0 then 1 else strValRegs

/-- The memory pieces, the pieces and the size factor of a record. -/
def countPieces (m : Instr) (baseUpdate : Bool) (mTotalPieces : Nat) :
    Except Abort (Nat × Nat × Nat) :=
  if m.mType.isStore then
    let mMemPieces := trueStrValRegs m
    if m.mMemSize % mMemPieces ≠ 0 then .error .readStoreSize
    else .ok (mMemPieces, (mMemPieces + baseUpdate.toNat) % 256, m.mMemSize / mMemPieces)
  else if m.mType.isLoad then
    let mMemPieces := (mTotalPieces + 256 - baseUpdate.toNat) % 256
    if mMemPieces = 0 then .error .readMemPieces
    else .ok (mMemPieces, mTotalPieces, m.mMemSize / mMemPieces)
  else if mTotalPieces = 0 then .error .readTotalPieces
  else if m.mMemSize / mTotalPieces ≠ 0 then .error .readSizeFactor
  else .ok (0, mTotalPieces, 0)

/-- The asserts that end `readInstr`. -/
def checkPieces (m : Instr) (baseUpdate : Bool) (mMemPieces mTotalPieces : Nat) :
    Except Abort Unit :=
  if mTotalPieces = 0 then .error .readTotalPieces
  else if baseUpdate && mTotalPieces != mMemPieces + baseUpdate.toNat then .error .readPieceSum
  else if !m.mType.isStore && m.mNumInRegs > 3 then .error .readInputs
  else .ok ()

/-- `readInstr` after the end-of-file test: the record's bytes. -/
def readRecord (u : Uninit) (m : Instr) (s : InStream) :
    Except Abort (Bool × Instr × Values) := do
  let m := { m with mNextPc := (m.mPc + 4) % 2 ^ 64 }
  let (m, s) := readType m s
  if m.mType = .undef then .error .readUndef
  else
    let (m, s) := readMem m s
    let (m, s) ← readBranch m s
    let (numInRegs, s) := s.readInto 1 m.mNumInRegs
    let (inRegs, s) := readRegs u.inReg numInRegs 0 s
    let (numOutRegs, s) := s.readInto 1 m.mNumOutRegs
    let (outRegs, s) := readRegs u.outReg numOutRegs 0 s
    let m := { m with
      mNumInRegs := numInRegs, mInRegs := inRegs, mNumOutRegs := numOutRegs, mOutRegs := outRegs }
    let (baseUpdatePresent, m) ← m.captureBaseUpdateLogReg
    let v ← readValues u.val m.mType m.mBaseUpdReg m.mOutRegs 0
      { input := s
        mOutRegsValues := []
        -- one piece for each output register
        mTotalPieces := if m.mNumOutRegs > 0 then m.mNumOutRegs else 1
        baseUpdPosInOutRegs := 255
        baseUpdVal := 2 ^ 64 - 1 }
    let m ← moveBaseUpd m v
    .ok (baseUpdatePresent, m, v)

namespace TraceReader

/-- The reader on an open stream, `mInstr` as its constructor leaves it. -/
def new (u : Uninit) (bytes : List Byte) : TraceReader where
  dpressedInput := { bytes := bytes, eof := false }
  mInstr := Instr.reset {
    mPc := 0, mType := .undef, mTaken := false, mNextPc := 0, mEffAddr := 0, mMemSize := 0
    mBaseUpd := u.mBaseUpd, mHasRegOffset := 0, mNumInRegs := 0, mInRegs := [], mNumOutRegs := 0
    mOutRegs := [], mBaseUpdReg := none, mOutRegsValues := [] }
  mTotalPieces := 0
  mMemPieces := 0
  mProcessedPieces := 0
  mCrackRegIdx := 0
  mCrackValIdx := 0
  mSizeFactor := 0
  nInstr := 0
  startFpReg := 0

/-- `readInstr`. -/
def readInstr (u : Uninit) (t : TraceReader) : Except Abort (Bool × TraceReader) := do
  let m := t.mInstr.reset
  let (pc, s) := t.dpressedInput.readInto 8 m.mPc
  let m := { m with mPc := pc }
  if s.eof then .ok (false, { t with dpressedInput := s, mInstr := m, startFpReg := 0 })
  else
    let (baseUpdate, m, v) ← readRecord u m s
    let (mMemPieces, mTotalPieces, mSizeFactor) ← countPieces m baseUpdate v.mTotalPieces
    checkPieces m baseUpdate mMemPieces mTotalPieces
    .ok (true, {
      dpressedInput := v.input
      mInstr := m
      mTotalPieces := mTotalPieces
      mMemPieces := mMemPieces
      mProcessedPieces := 0
      mCrackRegIdx := 0
      mCrackValIdx := 0
      mSizeFactor := mSizeFactor
      nInstr := (t.nInstr + 1) % 2 ^ 64
      startFpReg := 0 })

/-! ## Building a piece -/

/-- A valid input operand. -/
def input (reg : Nat) : DbOperand :=
  { valid := true, isInt := regIsInt reg, logReg := reg, value := 0xdeadbeef }

/-- An input operand that is there when the register is. -/
def inputAt (regs : List Nat) (i : Nat) : DbOperand :=
  match regs[i]? with
  | some reg => input reg
  | none => {}

/-- `create_base_update_op`. -/
def createBaseUpdateOp (t : TraceReader) : Bool :=
  t.mInstr.mType.isMem && t.mProcessedPieces ≥ 1 && t.mMemPieces == t.mProcessedPieces &&
    t.mMemPieces + 1 == t.mTotalPieces

/-- The input operands of the next piece. -/
def populateInputs (t : TraceReader) (insnBaseUpd : Bool) :
    Except Abort (DbOperand × DbOperand × DbOperand) :=
  let m := t.mInstr
  if insnBaseUpd then
    match m.mBaseUpdReg with
    | none => .error .populateBaseUpd
    | some reg => if reg ≤ 32 && regIsInt reg then .ok (input reg, {}, {}) else .error .populateBaseUpd
  else if m.mType.isStore then
    match m.mInRegs with
    | [] => .error .populateInputs
    | addrReg :: _ =>
      let strValueRegOffset := (1 + m.mHasRegOffset + t.mProcessedPieces) % 256
      let strValue := if strValueRegOffset < m.mNumInRegs then inputAt m.mInRegs strValueRegOffset
        else {}
      if m.mHasRegOffset ≠ 0 then
        if m.mNumInRegs < 2 then .error .populateInputs
        else .ok (input addrReg, inputAt m.mInRegs 1, strValue)
      else .ok (input addrReg, strValue, {})
  else .ok (inputAt m.mInRegs 0, inputAt m.mInRegs 1, inputAt m.mInRegs 2)

/-- The output operand of the next piece, and `start_fp_reg` after it. -/
def populateOutput (t : TraceReader) (insnBaseUpd : Bool) : Except Abort (DbOperand × Nat) :=
  let m := t.mInstr
  if insnBaseUpd then
    match m.mBaseUpdReg, m.mOutRegs.getLast?, m.mOutRegsValues.getLast? with
    | some reg, some last, some value =>
      if reg = last && regIsInt reg then
        .ok ({ valid := true, isInt := regIsInt reg, logReg := reg, value := value }, t.startFpReg)
      else .error .populateBaseUpd
    | _, _, _ => .error .populateBaseUpd
  else if !m.mType.isStore && m.mNumOutRegs ≥ 1 then
    match m.mOutRegs[t.mCrackRegIdx]?, m.mOutRegsValues[t.mCrackValIdx]? with
    | some reg, some value =>
      .ok ({ valid := true, isInt := regIsInt reg, logReg := reg, value := value },
        if regIsInt reg then 0 else (t.startFpReg + 1) % 256)
    | _, _ => .error .populateOutputs
  else .ok ({}, 0)

/-- Move the crack cursors past the piece just built. -/
def advanceCrack (t : TraceReader) : Except Abort TraceReader :=
  let nextVal := (t.mCrackValIdx + 1) % 256
  let nextReg := (t.mCrackRegIdx + 1) % 256
  if t.mInstr.mNumOutRegs > t.mCrackRegIdx then
    match t.mInstr.mOutRegs[t.mCrackRegIdx]? with
    | none => .error .populateOutputs
    | some reg =>
      if regIsInt reg then .ok { t with mCrackValIdx := nextVal, mCrackRegIdx := nextReg }
      -- the register is done once its high half was built
      else if t.startFpReg % 2 = 0 then
        .ok { t with mCrackValIdx := nextVal, mCrackRegIdx := nextReg }
      else .ok { t with mCrackValIdx := nextVal }
  else .ok { t with mCrackValIdx := nextVal, mCrackRegIdx := nextReg }

/-- The asserts on the taken flag. -/
def takenFits (c : InstClass) (taken : Bool) : Bool :=
  if c.isUncondBr then taken else if c.isCondBr then true else !taken

/-- The asserts that open `populateNewInstr`. -/
def piecesFit (t : TraceReader) : Bool :=
  t.mProcessedPieces < t.mTotalPieces && t.mMemPieces ≤ t.mTotalPieces &&
    (if t.mInstr.mType.isMem then t.mMemPieces ≥ 1 else t.mMemPieces == 0)

/-- `populateNewInstr`. -/
def populateNewInstr (t : TraceReader) : Except Abort (DbInst × TraceReader) := do
  let m := t.mInstr
  if !t.piecesFit then .error .populatePieces
  else
    let baseUpd := t.createBaseUpdateOp
    let insnClass : InstClass := if baseUpd then .alu else m.mType
    if !takenFits insnClass m.mTaken then .error .populateTaken
    else
      let (A, B, C) ← t.populateInputs baseUpd
      let (D, startFpReg) ← t.populateOutput baseUpd
      let processed := (t.mProcessedPieces + 1) % 256
      let inst : DbInst := {
        insnClass := insnClass
        pc := m.mPc
        isTaken := m.mTaken
        nextPc := m.mNextPc
        A := A, B := B, C := C, D := D
        isLoad := !baseUpd && m.mType == .load
        isStore := !baseUpd && m.mType == .store
        addr := (m.mEffAddr + t.mProcessedPieces * t.mSizeFactor) % 2 ^ 64
        size := max 1 t.mSizeFactor
        isLastPiece := processed == t.mTotalPieces }
      let t ← { t with startFpReg := startFpReg, mProcessedPieces := processed }.advanceCrack
      .ok (inst, t)

/-- `get_inst`; `none` is the null pointer. -/
def getInst (u : Uninit) (t : TraceReader) : Except Abort (Option DbInst × TraceReader) := do
  if t.mProcessedPieces ≠ t.mTotalPieces then
    let (inst, t) ← t.populateNewInstr
    .ok (some inst, t)
  else
    let (more, t) ← t.readInstr u
    if more then
      let (inst, t) ← t.populateNewInstr
      .ok (some inst, t)
    else .ok (none, t)

/-! ## What a piece holds -/

/-- What `populateNewInstr` builds and what it leaves for the next piece. -/
structure Built (t : TraceReader) (inst : DbInst) (t' : TraceReader) : Prop where
  insnClass : inst.insnClass = if t.createBaseUpdateOp then .alu else t.mInstr.mType
  taken : takenFits inst.insnClass t.mInstr.mTaken = true
  pc : inst.pc = t.mInstr.mPc
  isTaken : inst.isTaken = t.mInstr.mTaken
  nextPc : inst.nextPc = t.mInstr.mNextPc
  isLoad : inst.isLoad = (!t.createBaseUpdateOp && t.mInstr.mType == .load)
  isStore : inst.isStore = (!t.createBaseUpdateOp && t.mInstr.mType == .store)
  addr : inst.addr = (t.mInstr.mEffAddr + t.mProcessedPieces * t.mSizeFactor) % 2 ^ 64
  size : inst.size = max 1 t.mSizeFactor
  isLastPiece : inst.isLastPiece = (t'.mProcessedPieces == t.mTotalPieces)
  processed : t'.mProcessedPieces = (t.mProcessedPieces + 1) % 256
  frame : t' = { t with
    mProcessedPieces := t'.mProcessedPieces
    mCrackRegIdx := t'.mCrackRegIdx
    mCrackValIdx := t'.mCrackValIdx
    startFpReg := t'.startFpReg }

namespace Built

variable {t t' : TraceReader} {inst : DbInst}

theorem mInstr (h : Built t inst t') : t'.mInstr = t.mInstr := by rw [h.frame]

theorem mTotalPieces (h : Built t inst t') : t'.mTotalPieces = t.mTotalPieces := by rw [h.frame]

theorem dpressedInput (h : Built t inst t') : t'.dpressedInput = t.dpressedInput := by rw [h.frame]

/-- The piece that holds the base update is no memory access, and both its flags and
its class say so. -/
theorem flagsMatch (h : Built t inst t') : inst.FlagsMatch := by
  constructor
  · rw [h.isLoad, h.insnClass]
    cases t.createBaseUpdateOp <;> simp [InstClass.isLoad]
  · rw [h.isStore, h.insnClass]
    cases t.createBaseUpdateOp <;> simp [InstClass.isStore]

end Built

/-- Only the cursors move. -/
theorem advanceCrack_frame (t : TraceReader) :
    Ends t.advanceCrack (fun _ => True) fun t' =>
      ∃ valIdx regIdx, t' = { t with mCrackValIdx := valIdx, mCrackRegIdx := regIdx } := by
  unfold advanceCrack
  dsimp only
  split
  · split
    · trivial
    · split
      · exact ⟨_, _, rfl⟩
      · split
        · exact ⟨_, _, rfl⟩
        · exact ⟨_, _, rfl⟩
  · exact ⟨_, _, rfl⟩

theorem populateNewInstr_built (t : TraceReader) :
    Ends t.populateNewInstr (fun _ => True) fun x => Built t x.1 x.2 := by
  unfold populateNewInstr
  apply Ends.ite
  · intro _
    trivial
  · intro _
    apply Ends.ite
    · intro _
      trivial
    · intro htaken
      apply Ends.bind (Ends.of_any fun _ => trivial)
      rintro ⟨A, B, C⟩ _
      apply Ends.bind (Ends.of_any fun _ => trivial)
      rintro ⟨D, startFpReg⟩ _
      apply Ends.bind (advanceCrack_frame _)
      rintro t' ⟨valIdx, regIdx, rfl⟩
      exact ⟨rfl, by simpa using htaken, rfl, rfl, rfl, rfl, rfl, rfl, rfl, rfl, rfl, rfl⟩

/-- The operands of a piece. -/
theorem populateNewInstr_operands {t t' : TraceReader} {inst : DbInst}
    (h : t.populateNewInstr = .ok (inst, t')) :
    t.populateInputs t.createBaseUpdateOp = .ok (inst.A, inst.B, inst.C) ∧
      ∃ startFpReg, t.populateOutput t.createBaseUpdateOp = .ok (inst.D, startFpReg) := by
  unfold populateNewInstr at h
  obtain ⟨-, h⟩ := guard_eq_ok.mp h
  obtain ⟨-, h⟩ := guard_eq_ok.mp h
  obtain ⟨⟨A, B, C⟩, hinputs, h⟩ := bind_eq_ok.mp h
  obtain ⟨⟨D, startFpReg⟩, houtput, h⟩ := bind_eq_ok.mp h
  obtain ⟨t'', -, h⟩ := bind_eq_ok.mp h
  obtain ⟨rfl, -⟩ := Prod.mk.inj (Except.ok.inj h)
  exact ⟨hinputs, startFpReg, houtput⟩

/-- The cursors move when the register under them is there. -/
theorem advanceCrack_ok {t : TraceReader}
    (h : t.mCrackRegIdx < t.mInstr.mNumOutRegs → t.mCrackRegIdx < t.mInstr.mOutRegs.length) :
    ∃ t', t.advanceCrack = .ok t' := by
  unfold advanceCrack
  dsimp only
  split
  · rename_i hmore
    rw [List.getElem?_eq_getElem (h hmore)]
    dsimp only
    split
    · exact ⟨_, rfl⟩
    · split
      · exact ⟨_, rfl⟩
      · exact ⟨_, rfl⟩
  · exact ⟨_, rfl⟩

/-- With its operands a piece is built. -/
theorem populateNewInstr_ok {t : TraceReader} {baseUpd : Bool} {A B C D : DbOperand}
    {startFpReg : Nat} (hbase : t.createBaseUpdateOp = baseUpd) (hfit : t.piecesFit = true)
    (htaken : takenFits (if baseUpd then .alu else t.mInstr.mType) t.mInstr.mTaken = true)
    (hinputs : t.populateInputs baseUpd = .ok (A, B, C))
    (houtput : t.populateOutput baseUpd = .ok (D, startFpReg))
    (hregs : t.mCrackRegIdx < t.mInstr.mNumOutRegs →
      t.mCrackRegIdx < t.mInstr.mOutRegs.length) :
    ∃ inst t', t.populateNewInstr = .ok (inst, t') ∧
      inst.A = A ∧ inst.B = B ∧ inst.C = C ∧ inst.D = D := by
  obtain ⟨t', hcrack⟩ := advanceCrack_ok (t := { t with
    startFpReg := startFpReg, mProcessedPieces := (t.mProcessedPieces + 1) % 256 }) hregs
  unfold populateNewInstr
  simp only [hbase, hfit, htaken, hinputs, houtput, hcrack, Bool.not_true, Bool.false_eq_true,
    if_false, ok_bind]
  exact ⟨_, _, rfl, rfl, rfl, rfl, rfl⟩

theorem populateNewInstr_ends (t : TraceReader) :
    Ends t.populateNewInstr (fun _ => True) fun x => x.1.FlagsMatch :=
  (populateNewInstr_built t).imp fun _ h => h.flagsMatch

/-- Every instruction that the reader gives has matching flags. -/
theorem getInst_ends (u : Uninit) (t : TraceReader) :
    Ends (t.getInst u) (fun _ => True) fun x => ∀ inst ∈ x.1, inst.FlagsMatch := by
  unfold getInst
  apply Ends.ite
  · intro _
    apply Ends.bind (populateNewInstr_ends t)
    rintro ⟨inst, t'⟩ hinst inst' heq
    exact Option.some.inj heq ▸ hinst
  · intro _
    apply Ends.bind (Ends.of_any fun _ => trivial)
    rintro ⟨more, t'⟩ _
    apply Ends.ite
    · intro _
      apply Ends.bind (populateNewInstr_ends t')
      rintro ⟨inst, t''⟩ hinst inst' heq
      exact Option.some.inj heq ▸ hinst
    · intro _ inst heq
      cases heq

end TraceReader
end CbpSim.Trace
