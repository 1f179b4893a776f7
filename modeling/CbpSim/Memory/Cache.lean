/-
  Memory/Cache.lean --- the set-associative caches and their hierarchy.

  Source: src/lib/cache.h and src/lib/cache.cc.

  A `cache_t` owns `num_sets` arrays of `assoc` blocks and points to the next
  level.  The pointer is modelled by the hierarchy: a list of caches, each missing
  into the rest of the list, main memory at its end.  Only timing flows back from
  the next level, so one cache is studied with an arbitrary next level.
-/
import Mathlib.Data.Nat.Log
import CbpSim.Common.Abort

set_option autoImplicit false

namespace CbpSim.Memory

/-- `block_t`. -/
structure Block where
  valid : Bool
  tag : Nat
  timestamp : Nat
  lru : Nat
  deriving DecidableEq, Repr, Inhabited

/-- `cache_t`.  `C` is the array of `numSets` sets, and `blocks i` are the ways of
set `i`. -/
structure Cache where
  numSets : Nat
  blocks : Nat → List Block
  numIndexBits : Nat
  numOffsetBits : Nat
  indexMask : Nat
  assoc : Nat
  latency : Nat
  accesses : Nat
  pfAccesses : Nat
  misses : Nat
  pfMisses : Nat

/-- Values the constructor leaves open: the conversion of `log2(0)` to an
integer, and the two counters it does not initialise. -/
structure Unspecified where
  log2Zero : Nat
  pfAccesses : Nat
  pfMisses : Nat

/-- `IsPow2(x)`. -/
def isPow2 (x : Nat) : Bool := x &&& (x - 1) == 0

/-- `log2` of a power of two, converted to an integer. -/
def log2 (u : Unspecified) (x : Nat) : Nat := if x = 0 then u.log2Zero else Nat.log2 x

namespace Cache

/-- The constructor. -/
def new (u : Unspecified) (size assoc blocksize latency : Nat) : Except Abort Cache :=
  let setBytes := assoc * blocksize % 2 ^ 64
  if !isPow2 blocksize then .error .cacheBlocksize
  else if setBytes = 0 then .error .cacheDivision
  else if !isPow2 (size / setBytes) then .error .cacheNumSets
  else
    let numSets := size / setBytes
    .ok {
      numSets := numSets
      blocks := fun _ => (List.range assoc).map fun j =>
        { valid := false, tag := 0, timestamp := 0, lru := j }
      numIndexBits := log2 u numSets
      numOffsetBits := log2 u blocksize
      indexMask := (numSets + (2 ^ 64 - 1)) % 2 ^ 64
      assoc := assoc
      latency := latency
      accesses := 0
      pfAccesses := u.pfAccesses
      misses := 0
      pfMisses := u.pfMisses }

/-- `TAG(addr)`. -/
def tagOf (c : Cache) (addr : Nat) : Nat := addr >>> (c.numIndexBits + c.numOffsetBits)

/-- `INDEX(addr)`. -/
def indexOf (c : Cache) (addr : Nat) : Nat := (addr >>> c.numOffsetBits) &&& c.indexMask

/-- `C[index]`: past the array there is no set. -/
def waysAt (c : Cache) (index : Nat) : Except Abort (List Block) :=
  if c.numSets ≤ index then .error .cacheIndex else .ok (c.blocks index)

theorem waysAt_ok {c : Cache} {index : Nat} (h : index < c.numSets) :
    c.waysAt index = .ok (c.blocks index) :=
  if_neg (Nat.not_le.mpr h)

theorem waysAt_past {c : Cache} {index : Nat} (h : c.numSets ≤ index) :
    c.waysAt index = .error .cacheIndex :=
  if_pos h

/-- `is_hit`: the block is there and its timestamp has passed. -/
def isHit (c : Cache) (cycle addr : Nat) : Except Abort Bool := do
  let ways ← c.waysAt (c.indexOf addr)
  match ways.find? fun b => b.valid && b.tag == c.tagOf addr with
  | some b =>
    let avail := if b.timestamp > cycle + c.latency then b.timestamp else cycle + c.latency
    .ok (cycle + c.latency ≥ avail)
  | none => .ok false

/-- What the loop of `access` over the ways ends with: the way that hits, or the
largest `lru` and the last way that has it. -/
inductive Lookup where
  | hit (way : Nat)
  | miss (maxLruCtr : Nat) (victimWay : Option Nat)
  deriving DecidableEq, Repr

/-- The loop of `access` over the ways, from way `way` on. -/
def search (tag : Nat) : List Block → Nat → Nat → Option Nat → Lookup
  | [], _, maxLruCtr, victimWay => .miss maxLruCtr victimWay
  | b :: ways, way, maxLruCtr, victimWay =>
    if b.valid && b.tag == tag then .hit way
    else if b.lru ≥ maxLruCtr then search tag ways (way + 1) b.lru (some way)
    else search tag ways (way + 1) maxLruCtr victimWay

/-- The search of an access to `addr`. -/
def lookup (c : Cache) (addr : Nat) : Lookup :=
  search (c.tagOf addr) (c.blocks (c.indexOf addr)) 0 0 none

/-- `update_lru` on the ways of one set.  The way `mruWay` is not below itself,
so its counter stays put while the loop compares against it. -/
def updateLru (assoc : Nat) (ways : List Block) (mruWay : Nat) : Except Abort (List Block) :=
  let mru := (ways.getD mruWay default).lru
  if ways.any fun b => b.lru < mru && assoc ≤ b.lru + 1 then .error .cacheLru
  else
    .ok ((ways.map fun b => if b.lru < mru then { b with lru := b.lru + 1 } else b).modify mruWay
      fun b => { b with lru := 0 })

/-- `C[index] = ways`. -/
def setWays (c : Cache) (index : Nat) (ways : List Block) : Cache :=
  { c with blocks := Function.update c.blocks index ways }

/-- The access counters. -/
def countAccess (c : Cache) (pf : Bool) : Cache :=
  { c with
    accesses := c.accesses + if pf then 0 else 1
    pfAccesses := c.pfAccesses + if pf then 1 else 0 }

/-- The miss counters. -/
def countMiss (c : Cache) (pf : Bool) : Cache :=
  { c with
    misses := c.misses + if pf then 0 else 1
    pfMisses := c.pfMisses + if pf then 1 else 0 }

/-- `access` on one cache.  `next` is the access to the next level at a given
cycle; it answers the cycle at which the block is available there and the state
of the levels below, which is `below` as long as they are not asked. -/
def access {σ : Type} (c : Cache) (below : σ) (next : Nat → Except Abort (Nat × σ))
    (cycle addr : Nat) (pf : Bool) : Except Abort (Nat × Cache × σ) := do
  let index := c.indexOf addr
  let ways ← c.waysAt index
  let c := c.countAccess pf
  match c.lookup addr with
  | .hit way => do
    let timestamp := (ways.getD way default).timestamp
    let avail := if timestamp > cycle + c.latency then timestamp else cycle + c.latency
    let ways ← updateLru c.assoc ways way
    .ok (avail, c.setWays index ways, below)
  | .miss maxLruCtr victimWay =>
    let c := c.countMiss pf
    if maxLruCtr ≠ c.assoc - 1 then .error .cacheMaxLru
    else match victimWay with
      | none => .error .cacheVictimWay
      | some victimWay =>
        if c.assoc ≤ victimWay then .error .cacheVictimWay
        else do
          let (avail, below) ← next (cycle + c.latency)
          let ways := ways.modify victimWay fun b =>
            { b with valid := true, tag := c.tagOf addr, timestamp := avail }
          let ways ← updateLru c.assoc ways victimWay
          .ok (avail, c.setWays index ways, below)

end Cache

/-- A cache of `uarchsim_t`. -/
inductive Level where
  | IC
  | L1
  | L2
  | L3
  deriving DecidableEq, Repr

/-- `access` on a hierarchy: the first cache misses into the others, the last one
into main memory. -/
def accessLevels (mainMemoryLatency : Nat) :
    List Cache → Nat → Nat → Bool → Except Abort (Nat × List Cache)
  | [], cycle, _, _ => .ok (cycle + mainMemoryLatency, [])
  | c :: levels, cycle, addr, pf => do
    let (avail, c, levels) ← c.access levels
      (fun cycle => accessLevels mainMemoryLatency levels cycle addr pf) cycle addr pf
    .ok (avail, c :: levels)

end CbpSim.Memory
