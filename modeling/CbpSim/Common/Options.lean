/-
  Common/Options.lean --- the command line.

  Source: src/lib/cbp.cc, `parseargs`.

  Options come first, each with the number or the numbers that it sets, and the first
  argument that is no option is the trace.  An option without its numbers ends the
  program with a usage text.  Numbers that the type of their variable cannot hold are
  undefined in C and a parameter here.
-/
import CbpSim.Common.Parameters
import CbpSim.Foundation.Scan

set_option autoImplicit false

namespace CbpSim

open CbpSim.Foundation

/-! ## Numbers -/

/-- What is stored for numbers that a variable cannot hold. -/
structure Undefined where
  uint : Int → Nat
  ulong : Int → Nat
  int : Int → Int
  shl : Nat → Nat

namespace Undefined

/-- `%u`. -/
def u (v : Undefined) (x : Int) : Nat :=
  if 0 ≤ x ∧ x < 2 ^ 32 then x.toNat else v.uint x % 2 ^ 32

/-- `%lu`. -/
def lu (v : Undefined) (x : Int) : Nat :=
  if 0 ≤ x ∧ x < 2 ^ 64 then x.toNat else v.ulong x % 2 ^ 64

/-- `%d`. -/
def d (v : Undefined) (x : Int) : Int :=
  if -2 ^ 31 ≤ x ∧ x < 2 ^ 31 then x else Int.bmod (v.int x) (2 ^ 32)

/-- `atoi`, assigned to a `uint64_t`. -/
def atoi (v : Undefined) (value : String) : Nat :=
  (v.d ((scanNumber value.toList).elim 0 (·.1)) % 2 ^ 64).toNat

/-- `(uint64_t)(1 << n)`. -/
def shiftOne (v : Undefined) (n : Nat) : Nat := if n ≤ 30 then 2 ^ n else v.shl n % 2 ^ 64

@[simp] theorem u_ofNat (v : Undefined) {n : Nat} (h : n < 2 ^ 32) : v.u n = n :=
  if_pos (by omega)

@[simp] theorem lu_ofNat (v : Undefined) {n : Nat} (h : n < 2 ^ 64) : v.lu n = n :=
  if_pos (by omega)

@[simp] theorem d_of_lt (v : Undefined) {x : Int} (h : -2 ^ 31 ≤ x ∧ x < 2 ^ 31) : v.d x = x :=
  if_pos h

@[simp] theorem shiftOne_of_le (v : Undefined) {n : Nat} (h : n ≤ 30) : v.shiftOne n = 2 ^ n :=
  if_pos h

end Undefined

/-! ## Options -/

/-- The parameters that options set. -/
structure Settings extends Config where
  printPerEpochStats : Bool := false
  deriving DecidableEq, Repr

/-- What is done where an option is found. -/
inductive Handler where
  /-- a flag -/
  | flag (set : Settings → Settings)
  /-- a flag that counts where another argument follows -/
  | beforeOther (set : Settings → Settings)
  /-- an option with a value, and the text that is printed without one -/
  | valued (missing : Option String) (set : String → Except String (Settings → Settings))

/-- `-F` without its numbers. -/
def usageFetch : String :=
  "Usage: missing one or more fetch bundle constraints: -F <fetch_width>,<fetch_num_branch>," ++
    "<fetch_stop_at_indirect>,<fetch_stop_at_taken>,<fetch_model_icache>.\n"

/-- The arguments of `-I`, as its texts show them. -/
def icacheArguments : String := "-I <log2_size>,<assoc>,<blocksize>.\n"

/-- The arguments of `-D`, as its texts show them. -/
def cacheArguments : String :=
  "-D <log2_L1_size>,<L1_assoc>,<L1_blocksize>,<L1_latency>," ++
    "<log2_L2_size>,<L2_assoc>,<L2_blocksize>,<L2_latency>," ++
    "<log2_L3_size>,<L3_assoc>,<L3_blocksize>,<L3_latency>,<main_memory_latency>.\n"

/-- `-E` without its number. -/
def usageEpoch : String := "Usage: missing epoch size: -E <epoch_size>\n"

/-- `-u` without its number. -/
def usageUseful : String := "Usage: missing useful increment: -u <useful_incr>\n"

/-- The value of `-F`. -/
def setFetch (v : Undefined) (value : String) : Except String (Settings → Settings) :=
  match scanNumbers 5 value.toList with
  | some [temp1, temp2, temp3, temp4, temp5] =>
    .ok fun c =>
      { c with
        fetchWidth := v.u temp1
        fetchNumBranch := v.u temp2
        fetchStopAtIndirect := v.u temp3 != 0
        fetchStopAtTaken := v.u temp4 != 0
        fetchModelIcache := v.u temp5 != 0 }
  | _ => .error usageFetch

/-- The value of `-I`. -/
def setIcache (v : Undefined) (value : String) : Except String (Settings → Settings) :=
  match scanNumbers 3 value.toList with
  | some [temp1, temp2, temp3] =>
    .ok fun c =>
      { c with
        icSize := v.shiftOne (v.u temp1)
        icAssoc := v.u temp2
        icBlocksize := v.u temp3 }
  | _ => .error ("Usage: missing one or more I$ parameters: " ++ icacheArguments)

/-- The value of `-D`. -/
def setCaches (v : Undefined) (value : String) : Except String (Settings → Settings) :=
  match scanNumbers 13 value.toList with
  | some [temp1, temp2, temp3, temp4, temp5, temp6, temp7, temp8, temp9, temp10, temp11, temp12,
      temp13] =>
    .ok fun c =>
      { c with
        l1Size := v.shiftOne (v.u temp1)
        l1Assoc := v.u temp2
        l1Blocksize := v.u temp3
        l1Latency := v.u temp4
        l2Size := v.shiftOne (v.u temp5)
        l2Assoc := v.u temp6
        l2Blocksize := v.u temp7
        l2Latency := v.u temp8
        l3Size := v.shiftOne (v.u temp9)
        l3Assoc := v.u temp10
        l3Blocksize := v.u temp11
        l3Latency := v.u temp12
        mainMemoryLatency := v.u temp13 }
  | _ => .error ("Usage: missing one or more L1$, L2$, and L3$ parameters: " ++ cacheArguments)

/-- The value of `-E`. -/
def setEpoch (v : Undefined) (value : String) : Except String (Settings → Settings) :=
  match scanNumber value.toList with
  | some (epochSizeInsts, _) =>
    .ok fun c => { c with printPerEpochStats := true, epochSizeInsts := v.lu epochSizeInsts }
  | none => .error usageEpoch

/-- The value of `-u`. -/
def setUseful (v : Undefined) (value : String) : Except String (Settings → Settings) :=
  match scanNumber value.toList with
  | some (usefulIncr, _) => .ok fun c => { c with uIncrment := v.d usefulIncr }
  | none => .error usageUseful

/-- The options. -/
def optionNamed (v : Undefined) (arg : String) : Option Handler :=
  match arg with
  | "-d" => some (.flag fun c => { c with perfectCache := true })
  | "-b" => some (.flag fun c => { c with perfectBranchPred := true })
  | "-P" => some (.flag fun c => { c with prefetcherEnable := true })
  | "-M" =>
    some (.valued (some "Usage: missing # load/store lanes: -M <num_ldst_lanes>.\n") fun value =>
      .ok fun c => { c with numLdstLanes := v.atoi value })
  | "-A" =>
    some (.valued (some "Usage: missing # alu lanes: -A <num_alu_lanes>.\n") fun value =>
      .ok fun c => { c with numAluLanes := v.atoi value })
  | "-F" => some (.valued (some usageFetch) (setFetch v))
  | "-I" => some (.valued (some ("Usage: missing I$ parameters: " ++ icacheArguments)) (setIcache v))
  | "-D" =>
    some (.valued (some ("Usage: missing L1$, L2$, and L3$ parameters: " ++ cacheArguments))
      (setCaches v))
  | "-E" => some (.valued (some usageEpoch) (setEpoch v))
  | "-w" =>
    some (.valued (some "Usage: missing window size: -w <window_size>.\n") fun value =>
      .ok fun c => { c with windowSize := v.atoi value })
  | "-l" => some (.beforeOther fun c => { c with loadDependentBranches := true })
  | "-u" => some (.valued none (setUseful v))
  | _ => none

/-- What is printed where no trace follows the options. -/
def usage (argv0 : String) : String :=
  "usage:\t" ++ argv0 ++ "\n" ++
    "\t[optional: -d to enable perfect data cache]\n" ++
    "\t[optional: -b to enable perfect branch prediction (all branch types)]\n" ++
    "\t[optional: -P to enable stride prefetcher in L1D]\n" ++
    "\t[optional: -M <num_ldst_lanes>\n" ++
    "\t[optional: -A <num_alu_lanes>\n" ++
    "\t[optional: -F <fetch_width>,<fetch_num_branch>,<fetch_stop_at_indirect>," ++
    "<fetch_stop_at_taken>,<fetch_model_icache>]\n" ++
    "\t[optional: -I <log2_ic_size>,<ic_assoc>,<ic_blocksize>]\n" ++
    "\t[optional: -D <log2_L1_size>,<L1_assoc>,<L1_blocksize>,<L1_latency>," ++
    "<log2_L2_size>,<L2_assoc>,<L2_blocksize>,<L2_latency>," ++
    "<log2_L3_size>,<L3_assoc>,<L3_blocksize>,<L3_latency>,<main_memory_latency>]\n" ++
    "\t[optional: -w <window_size>]\n" ++
    "\t[optional: -E <epoch_size_insts> to enable dumping per-epoch conditional branch info\n" ++
    "\t[REQUIRED: .gz trace file]\n"

/-- The rounds of the loop from argument `i` on: the parameters and the index of the trace,
or the text that is printed before the program exits. -/
def parseRounds (v : Undefined) (argv0 : String) :
    List String → Nat → Settings → Except String (Settings × Nat)
  | [], _, _ => .error (usage argv0)
  | arg :: rest, i, c =>
    match optionNamed v arg with
    | none => .ok (c, i)
    | some (.flag set) => parseRounds v argv0 rest (i + 1) (set c)
    | some (.beforeOther set) =>
      parseRounds v argv0 rest (i + 1) (if rest = [] then c else set c)
    | some (.valued missing set) =>
      match rest with
      | [] => .error (missing.getD (usage argv0))
      | value :: rest =>
        match set value with
        | .error text => .error text
        | .ok set => parseRounds v argv0 rest (i + 2) (set c)

/-- `parseargs`. -/
def parseargs (v : Undefined) (argv0 : String) (args : List String) :
    Except String (Settings × Nat) :=
  parseRounds v argv0 args 1 {}

end CbpSim
