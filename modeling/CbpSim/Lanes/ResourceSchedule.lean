/-
  Lanes/ResourceSchedule.lean --- the circular schedule of an execution lane.

  Source: src/lib/resource_schedule.h and src/lib/resource_schedule.cc.

  A `resource_schedule` counts, for every cycle from `base_cycle` on, how many
  of its `width` slots are taken.  The counts sit in a ring of `depth` entries
  indexed by `MOD_S(cycle, depth)`, a bit mask, and the ring grows in steps of
  `SCHED_DEPTH_INCREMENT` entries.

  Cycles are naturals: the searches below stop at `MAX_CYCLE` instead of wrapping
  past it, which no run of fewer than 2^64 cycles does.
-/
import Mathlib.Data.Nat.Bitwise
import Mathlib.Tactic
import CbpSim.Common.Abort

set_option autoImplicit false

namespace CbpSim.Lanes

/-- `SCHED_DEPTH_INCREMENT`. -/
def schedDepthIncrement : Nat := 256

/-- `MAX_CYCLE`, the largest 64-bit value. -/
def maxCycle : Nat := 2 ^ 64 - 1

/-- `MOD_S(x, y)`: the remainder by `y`, computed with a mask. -/
def modS (x y : Nat) : Nat := x &&& (y - 1)

/-- A `resource_schedule`.  `sched` is read below `depth` only. -/
structure ResourceSchedule where
  sched : Nat → Nat
  depth : Nat
  width : Nat
  baseCycle : Nat

namespace ResourceSchedule

/-- The constructor. -/
def new (width : Nat) : ResourceSchedule :=
  { sched := fun _ => 0, depth := schedDepthIncrement, width := width, baseCycle := 0 }

/-- The ring size `resize` gives when `newDepth` entries are asked for. -/
def roundDepth (newDepth : Nat) : Nat :=
  (newDepth / schedDepthIncrement +
    if newDepth % schedDepthIncrement ≠ 0 then 1 else 0) * schedDepthIncrement

/-- `resize`: every old entry keeps its index, the new ones are empty. -/
def resize (r : ResourceSchedule) (newDepth : Nat) : ResourceSchedule :=
  { r with
    sched := fun i => if i < r.depth then r.sched i else 0
    depth := roundDepth newDepth }

/-- The head of both search loops: grow the ring until it reaches `cycle`. -/
def reach (r : ResourceSchedule) (cycle : Nat) : ResourceSchedule :=
  if cycle - r.baseCycle + 1 > r.depth then r.resize (cycle - r.baseCycle + 1) else r

/-- The counter of a cycle, `sched[MOD_S(cycle,depth)]`. -/
def count (r : ResourceSchedule) (cycle : Nat) : Nat := r.sched (modS cycle r.depth)

/-- `sched[MOD_S(cycle,depth)]++`. -/
def take (r : ResourceSchedule) (cycle : Nat) : ResourceSchedule :=
  { r with sched := Function.update r.sched (modS cycle r.depth) (r.count cycle + 1) }

/-- The loop of `schedule`.  The first argument bounds the probes left; the
search returns `MAX_CYCLE` as soon as the next cycle is past `limit`. -/
def scheduleLoop (limit : Nat) : Nat → ResourceSchedule → Nat → ResourceSchedule × Nat
  | 0, r, _ => (r, maxCycle)
  | probes + 1, r, start =>
    let r := r.reach start
    if r.count start < r.width then (r.take start, start)
    else if limit < start + 1 then (r, maxCycle)
    else scheduleLoop limit probes r (start + 1)

/-- `limit_cycle` of `schedule`. -/
def limitCycle (start maxDelta : Nat) : Nat :=
  if maxDelta = maxCycle then maxCycle else (start + maxDelta) % 2 ^ 64

/-- `schedule`. -/
def schedule (r : ResourceSchedule) (start maxDelta : Nat) :
    Except Abort (ResourceSchedule × Nat) :=
  if start < r.baseCycle then .error .scheduleStart
  else
    let limit := limitCycle start maxDelta
    .ok (scheduleLoop limit (limit - start + 1) r start)

/-- The loop of `try_schedule`, which never takes the slot it finds. -/
def tryScheduleLoop : Nat → ResourceSchedule → Nat → ResourceSchedule × Nat
  | 0, r, cycle => (r, cycle)
  | probes + 1, r, cycle =>
    let r := r.reach cycle
    if r.count cycle < r.width then (r, cycle) else tryScheduleLoop probes r (cycle + 1)

/-- `try_schedule`. -/
def trySchedule (r : ResourceSchedule) (cycle : Nat) :
    Except Abort (ResourceSchedule × Nat) :=
  if cycle < r.baseCycle then .error .tryScheduleStart
  else .ok (tryScheduleLoop (maxCycle - cycle + 1) r cycle)

/-- The loop of `advance_base_cycle`: empty the entries of `n` cycles from
`cycle` on. -/
def clear (depth : Nat) : Nat → Nat → (Nat → Nat) → (Nat → Nat)
  | 0, _, sched => sched
  | n + 1, cycle, sched => clear depth n (cycle + 1) (Function.update sched (modS cycle depth) 0)

/-- `advance_base_cycle`. -/
def advanceBaseCycle (r : ResourceSchedule) (newBase : Nat) : Except Abort ResourceSchedule :=
  if newBase < r.baseCycle then .error .advanceBaseCycle
  else .ok { r with
    sched := clear r.depth (newBase - r.baseCycle) r.baseCycle r.sched
    baseCycle := newBase }

/-! ## Frame facts -/

@[simp] theorem reach_baseCycle (r : ResourceSchedule) (cycle : Nat) :
    (r.reach cycle).baseCycle = r.baseCycle := by
  unfold reach; split <;> rfl

@[simp] theorem reach_width (r : ResourceSchedule) (cycle : Nat) :
    (r.reach cycle).width = r.width := by
  unfold reach; split <;> rfl

@[simp] theorem take_baseCycle (r : ResourceSchedule) (cycle : Nat) :
    (r.take cycle).baseCycle = r.baseCycle := rfl

@[simp] theorem take_width (r : ResourceSchedule) (cycle : Nat) :
    (r.take cycle).width = r.width := rfl

theorem scheduleLoop_frame (limit : Nat) :
    ∀ (probes : Nat) (r : ResourceSchedule) (start : Nat),
      (scheduleLoop limit probes r start).1.baseCycle = r.baseCycle ∧
        (scheduleLoop limit probes r start).1.width = r.width := by
  intro probes
  induction probes with
  | zero => intro r start; exact ⟨rfl, rfl⟩
  | succ probes ih =>
    intro r start
    simp only [scheduleLoop]
    split
    · simp
    · split
      · simp
      · obtain ⟨hbase, hwidth⟩ := ih (r.reach start) (start + 1)
        exact ⟨by rw [hbase, reach_baseCycle], by rw [hwidth, reach_width]⟩

/-- A search never answers a cycle before the one it was asked for. -/
theorem le_scheduleLoop {limit : Nat} (hlimit : limit ≤ maxCycle) :
    ∀ (probes : Nat) (r : ResourceSchedule) (start : Nat), start ≤ limit →
      start ≤ (scheduleLoop limit probes r start).2 := by
  intro probes
  induction probes with
  | zero => intro r start hstart; exact hstart.trans hlimit
  | succ probes ih =>
    intro r start hstart
    simp only [scheduleLoop]
    split
    · exact le_rfl
    · split
      · exact hstart.trans hlimit
      · exact (Nat.le_succ start).trans (ih _ _ (by omega))

end ResourceSchedule

end CbpSim.Lanes
