/-
  Trace/Format.lean --- the documented trace format.

  Source: the "Trace Format" comment of src/lib/trace_reader.h.

  A `Record` is one instruction of the trace as its writer has it.  `encode` lays
  it out as the comment says; which fields are there depends on the class and on
  the taken flag, and an output value takes 8 bytes or 16.
-/
import CbpSim.Trace.Reader

set_option autoImplicit false

namespace CbpSim.Trace

open CbpSim.Foundation

abbrev Word := Fin (2 ^ 64)

instance neZeroWord : NeZero (2 ^ 64 : Nat) := ⟨by decide⟩

/-- An output register and its value. `high` is there for a SIMD register. -/
structure Output where
  reg : Byte
  low : Word
  high : Word
  deriving DecidableEq, Repr

namespace Output

/-- The bytes of the value. -/
def bytes (o : Output) : List Byte :=
  if regIsInt o.reg.val then leBytes 8 o.low.val else leBytes 8 o.low.val ++ leBytes 8 o.high.val

/-- The 64-bit lanes of the value. -/
def lanes (o : Output) : List Nat :=
  if regIsInt o.reg.val then [o.low.val] else [o.low.val, o.high.val]

end Output

/-- One instruction of the trace.  Counts fit their byte. -/
structure Record where
  pc : Word
  typeByte : Byte
  effAddr : Word
  memSize : Byte
  baseUpd : Byte
  hasRegOffset : Byte
  taken : Bool
  target : Word
  inRegs : List Byte
  outs : List Output
  length_inRegs : inRegs.length < 256
  length_outs : outs.length < 256

namespace Record

/-! Lists of registers that fit, for small records. -/

theorem length_oneInput : ([1] : List Byte).length < 256 := by decide

theorem length_twoInputs : ([1, 2] : List Byte).length < 256 := by decide

/-- The class of the instruction. -/
def type (r : Record) : InstClass := .ofByte r.typeByte.val

/-- Does the instruction jump? -/
def jumps (r : Record) : Bool := r.type.isBr && r.taken

/-- A count of at most 255 things. -/
def countByte (n : Nat) (h : n < 256) : Byte := ⟨n, h⟩

/-- Effective address, access size, base update, register offset. -/
def memBytes (r : Record) : List Byte :=
  if r.type.isMem then
    leBytes 8 r.effAddr.val ++ [r.memSize, r.baseUpd] ++
      if r.type.isStore then [r.hasRegOffset] else []
  else []

/-- Taken, target. -/
def branchBytes (r : Record) : List Byte :=
  if r.type.isBr then
    if r.taken then 1 :: leBytes 8 r.target.val else [0]
  else []

/-- The trace format. -/
def encode (r : Record) : List Byte :=
  leBytes 8 r.pc.val ++ (r.typeByte :: (r.memBytes ++ (r.branchBytes ++
    (countByte _ r.length_inRegs :: (r.inRegs ++
      (countByte _ r.length_outs :: (r.outs.map Output.reg ++ r.outs.flatMap Output.bytes)))))))

/-- Does the output hold the register that a load with base update also writes
back its address to? -/
def isBaseUpd (r : Record) (o : Output) : Bool := o.reg < 32 && r.inRegs.contains o.reg

/-- The position of the base-update register of a load among its outputs. -/
def baseUpdIdx (r : Record) : Option Nat :=
  if r.type.isLoad && r.baseUpd == 1 && r.outs.length > 1 then r.outs.findIdx? r.isBaseUpd
  else none

/-- The outputs other than the base-update register of a load. -/
def plainOuts (r : Record) : List Output :=
  match r.baseUpdIdx with
  | some k => r.outs.eraseIdx k
  | none => r.outs

/-- The output in the base-update register of a load. -/
def baseUpdOut (r : Record) : Option Output := r.baseUpdIdx.bind fun k => r.outs[k]?

/-- The outputs, the base-update register of a load moved to the end. -/
def orderedOuts (r : Record) : List Output := r.plainOuts ++ r.baseUpdOut.toList

/-- Does the instruction write a SIMD register? -/
def writesSimd (r : Record) : Bool := r.outs.any fun o => !regIsInt o.reg.val

end Record

/-- The bytes of a trace. -/
def encodeAll (records : List Record) : List Byte := records.flatMap Record.encode

/-- What `mInstr` holds of a record. -/
structure Holds (m : Instr) (r : Record) : Prop where
  pc : m.mPc = r.pc.val
  type : m.mType = r.type
  taken : m.mTaken = r.jumps
  nextPc : m.mNextPc = if r.jumps then r.target.val else (r.pc.val + 4) % 2 ^ 64
  effAddr : r.type.isMem → m.mEffAddr = r.effAddr.val
  memSize : r.type.isMem → m.mMemSize = r.memSize.val
  baseUpd : r.type.isMem → m.mBaseUpd = r.baseUpd.val
  hasRegOffset : r.type.isStore → m.mHasRegOffset = r.hasRegOffset.val
  numInRegs : m.mNumInRegs = r.inRegs.length
  inRegs : m.mInRegs = r.inRegs.map Fin.val
  numOutRegs : m.mNumOutRegs = r.outs.length
  outRegs : m.mOutRegs = r.orderedOuts.map fun o => o.reg.val
  outRegsValues : m.mOutRegsValues = r.orderedOuts.flatMap Output.lanes

end CbpSim.Trace
