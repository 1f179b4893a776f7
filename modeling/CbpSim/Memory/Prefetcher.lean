/-
  Memory/Prefetcher.lean --- the stride prefetcher.

  Source: src/lib/stride_prefetcher.h.

  A stride is a 64-bit difference of addresses, kept as the number that its bits
  spell.
-/
import Mathlib.Data.List.Sort
import CbpSim.Common.Abort

set_option autoImplicit false

namespace CbpSim.Memory

/-- `PrefetcherState`. -/
inductive PrefetcherState where
  | invalid
  | initial
  | transient
  | steadyState
  | noPrediction
  deriving DecidableEq, Repr

/-- `NUM_RPT_ENTRIES`. -/
def numRptEntries : Nat := 1024

/-- `PREFETCH_MULTIPLIER`. -/
def prefetchMultiplier : Nat := 2

/-- `PF_MUST_ISSUE_BEFORE_CYCLES`. -/
def pfMustIssueBeforeCycles : Nat := 8

/-- `RPTEntry`. -/
structure RptEntry where
  state : PrefetcherState := .invalid
  tag : Nat := 0xdeadbeef
  prevAddress : Nat := 0xdeadbeef
  currentAddress : Nat := 0xdeadbeef
  stride : Nat := 2 ^ 64 - 1
  lru : Nat := 0
  index : Nat := 2 ^ 64 - 1
  deriving DecidableEq, Repr, Inhabited

/-- `Prefetch`. -/
structure Prefetch where
  address : Nat
  cycleGenerated : Nat
  deriving DecidableEq, Repr

namespace Prefetch

/-- The line of the address. -/
def line (p : Prefetch) : Nat := p.address / 64

/-- The order of the queue: by cycle, then by address. -/
def older (p q : Prefetch) : Prop :=
  p.cycleGenerated < q.cycleGenerated ∨
    p.cycleGenerated = q.cycleGenerated ∧ p.address ≤ q.address

instance (p q : Prefetch) : Decidable (p.older q) :=
  inferInstanceAs (Decidable (_ ∨ _ ∧ _))

end Prefetch

/-- `StridePrefetcher`. -/
structure StridePrefetcher where
  rpt : List RptEntry
  queue : List Prefetch
  statTrainings : Nat := 0
  statGenerated : Nat := 0
  statIssued : Nat := 0
  statDuplicatePfFiltered : Nat := 0
  statDroppedUntimelyPf : Nat := 0
  statPutBack : Nat := 0
  statStrideZero : Nat := 0
  deriving DecidableEq, Repr

namespace StridePrefetcher

/-- The constructor. -/
def new : StridePrefetcher where
  rpt := (List.range numRptEntries).map fun i => { index := i, lru := i }
  queue := []

/-- `victim_way`. -/
def victimWay (p : StridePrefetcher) : Except Abort Nat :=
  match p.rpt.find? fun e => e.lru == 0 with
  | some e => .ok e.index
  | none => .error .prefetchVictim

/-- `update_lru`. -/
def updateLru (p : StridePrefetcher) (index : Nat) : StridePrefetcher :=
  let lru := (p.rpt.getD index default).lru
  { p with
    rpt := (p.rpt.map fun e => if e.lru > lru then { e with lru := e.lru - 1 } else e).modify index
      fun e => { e with lru := numRptEntries - 1 } }

/-- `generate`. -/
def generate (p : StridePrefetcher) (e : RptEntry) (cycle : Nat) : StridePrefetcher :=
  if e.stride = 0 then { p with statStrideZero := p.statStrideZero + 1 }
  else
    let pf : Prefetch :=
      { address := (e.currentAddress + e.stride * prefetchMultiplier) % 2 ^ 64
        cycleGenerated := cycle }
    if p.queue.any fun q => q.line == pf.line then
      { p with statDuplicatePfFiltered := p.statDuplicatePfFiltered + 1 }
    else
      { p with
        queue := (p.queue ++ [pf]).insertionSort Prefetch.older
        statGenerated := p.statGenerated + 1 }

/-- The entry that holds a program counter. -/
def findTag (p : StridePrefetcher) (pc : Nat) : Option RptEntry := p.rpt.find? fun e => e.tag == pc

/-- `lookahead`. -/
def lookahead (p : StridePrefetcher) (pc cycle : Nat) : StridePrefetcher :=
  match p.findTag pc with
  | none => p
  | some e => if e.state = .steadyState then p.generate e cycle else p

end StridePrefetcher

namespace RptEntry

/-- The entry after one more access to `address`. -/
def train (e : RptEntry) (address : Nat) : Except Abort RptEntry :=
  let stride := (address + (2 ^ 64 - e.currentAddress % 2 ^ 64)) % 2 ^ 64
  let moved := { e with prevAddress := e.currentAddress, currentAddress := address }
  let same := stride == e.stride
  match e.state with
  | .initial =>
    if same then .ok { moved with state := .steadyState }
    else .ok { moved with state := .transient, stride := stride }
  | .transient =>
    if same then .ok { moved with state := .steadyState }
    else .ok { moved with state := .noPrediction, stride := stride }
  | .steadyState =>
    -- the stride of a broken steady state stays
    if same then .ok moved else .ok { moved with state := .initial }
  | .noPrediction =>
    if same then .ok { moved with state := .transient } else .ok { moved with stride := stride }
  | .invalid => .error .prefetchInvalid

end RptEntry

namespace StridePrefetcher

/-- `train`. -/
def train (p : StridePrefetcher) (pc address : Nat) : Except Abort StridePrefetcher :=
  match p.rpt.findIdx? fun e => e.tag == pc with
  | none => do
    let victim ← p.victimWay
    let p := { p with
      rpt := p.rpt.modify victim fun e =>
        { e with
          state := .initial, tag := pc, prevAddress := 0xdeadbeef, currentAddress := address
          stride := 0 }
      statTrainings := p.statTrainings + 1 }
    .ok (p.updateLru victim)
  | some i => do
    let e ← (p.rpt.getD i default).train address
    let p := { p with rpt := p.rpt.set i e, statTrainings := p.statTrainings + 1 }
    -- entries with stride 0 age out
    .ok (if e.stride = 0 then p else p.updateLru e.index)

/-- `issue`: the prefetch issued, if there is one. -/
def issue (p : StridePrefetcher) (cycle : Nat) : Option Prefetch × StridePrefetcher :=
  let untimely := fun q : Prefetch => decide (q.cycleGenerated + pfMustIssueBeforeCycles < cycle)
  let p := { p with
    queue := p.queue.dropWhile untimely
    statDroppedUntimelyPf := p.statDroppedUntimelyPf + (p.queue.takeWhile untimely).length }
  match p.queue with
  | [] => (none, p)
  | q :: queue =>
    if q.cycleGenerated ≤ cycle then
      (some q, { p with queue := queue, statIssued := p.statIssued + 1 })
    else (none, p)

/-- `put_back`. -/
def putBack (p : StridePrefetcher) (pf : Prefetch) : StridePrefetcher :=
  { p with queue := pf :: p.queue, statPutBack := p.statPutBack + 1 }

/-- `get_oldest_pf_cycle`; `none` is `MAX_CYCLE`. -/
def getOldestPfCycle (p : StridePrefetcher) : Option Nat := p.queue.head?.map (·.cycleGenerated)

end StridePrefetcher

end CbpSim.Memory
