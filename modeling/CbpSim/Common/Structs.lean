/-
  Common/Structs.lean --- what the trace reader, the simulator and the predictor
  interface pass to each other.

  Source: src/lib/sim_common_structs.h, `db_operand_t` and `db_t` of
  src/lib/trace_reader.h, and the register numbers of src/lib/uarchsim.h.
-/
import Mathlib.Tactic

set_option autoImplicit false

namespace CbpSim

/-- `InstClass`.  The type is one byte wide, so a trace may hold values that name
no class. -/
inductive InstClass where
  | alu | load | store | condBranch | uncondDirectBranch | uncondIndirectBranch
  | fp | slowAlu | undef | callDirect | callIndirect | return
  | unlisted (byte : Nat)
  deriving DecidableEq, Repr

namespace InstClass

/-- The class of a byte. -/
def ofByte : Nat → InstClass
  | 0 => .alu
  | 1 => .load
  | 2 => .store
  | 3 => .condBranch
  | 4 => .uncondDirectBranch
  | 5 => .uncondIndirectBranch
  | 6 => .fp
  | 7 => .slowAlu
  | 8 => .undef
  | 9 => .callDirect
  | 10 => .callIndirect
  | 11 => .return
  | n => .unlisted n

/-- `is_load`. -/
def isLoad (c : InstClass) : Bool := c == .load

/-- `is_store`. -/
def isStore (c : InstClass) : Bool := c == .store

/-- `is_mem`. -/
def isMem (c : InstClass) : Bool := c.isLoad || c.isStore

/-- `is_cond_br`. -/
def isCondBr (c : InstClass) : Bool := c == .condBranch

/-- `is_br`. -/
def isBr (c : InstClass) : Bool :=
  c == .condBranch || c == .uncondDirectBranch || c == .uncondIndirectBranch ||
    c == .callDirect || c == .callIndirect || c == .return

/-- `is_uncond_ind_br`. -/
def isUncondIndBr (c : InstClass) : Bool :=
  c == .uncondIndirectBranch || c == .callIndirect || c == .return

/-- `is_uncond_br`. -/
def isUncondBr (c : InstClass) : Bool := c.isBr && c != .condBranch

theorem isBr_of_isCondBr {c : InstClass} (h : c.isCondBr = true) : c.isBr = true := by
  obtain rfl : c = .condBranch := by simpa [isCondBr] using h
  rfl

end InstClass

/-- `RFSIZE`: integer r0 to r31, SIMD r32 to r63, the flags and the zero register. -/
def rfSize : Nat := 66

/-- `RFFLAGS`. -/
def rfFlags : Nat := 64

/-- `RFZERO`. -/
def rfZero : Nat := 65

/-- `reg_is_int`. -/
def regIsInt (reg : Nat) : Bool := reg < 32 || reg == 64 || reg == 65

/-- `db_operand_t`. -/
structure DbOperand where
  valid : Bool := false
  isInt : Bool := false
  logReg : Nat := 0
  value : Nat := 0
  deriving DecidableEq, Repr

/-- `db_t`: one piece of an instruction. -/
structure DbInst where
  insnClass : InstClass
  pc : Nat
  isTaken : Bool
  nextPc : Nat
  A : DbOperand
  B : DbOperand
  C : DbOperand
  D : DbOperand
  isLoad : Bool
  isStore : Bool
  addr : Nat
  size : Nat
  isLastPiece : Bool
  deriving DecidableEq, Repr

/-- The load and store flags are those of the class. -/
structure DbInst.FlagsMatch (inst : DbInst) : Prop where
  load : inst.isLoad = inst.insnClass.isLoad
  store : inst.isStore = inst.insnClass.isStore

instance (inst : DbInst) : Decidable inst.FlagsMatch :=
  decidable_of_iff (inst.isLoad = inst.insnClass.isLoad ∧ inst.isStore = inst.insnClass.isStore)
    ⟨fun h => ⟨h.1, h.2⟩, fun h => ⟨h.load, h.store⟩⟩

/-- `DecodeInfo`. -/
structure DecodeInfo where
  insnClass : InstClass
  srcRegInfo : List Nat
  dstRegInfo : Option Nat
  deriving DecidableEq, Repr

/-- `ExecuteInfo`. -/
structure ExecuteInfo where
  decInfo : DecodeInfo
  taken : Option Bool
  nextPc : Nat
  takenTarget : Option Nat
  memVa : Option Nat
  memSz : Option Nat
  dstRegValue : Option Nat
  deriving DecidableEq, Repr

end CbpSim
