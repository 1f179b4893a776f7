/-
  Lanes/Search.lean --- the search for a free slot ends.

  Source: src/lib/resource_schedule.cc, `resize`, `schedule` and `try_schedule`.

  The searches go forward until the counter of a cycle is below the width, and
  the ring grows under them.  A mask need not reach every slot of a depth that is
  not a power of two, but while the depth passes from `2 ^ k` to `2 ^ (k + 1)` a
  cycle whose bit `k` is set is mapped to a slot of its own octave, and these are
  all new.  Such a cycle exists in every octave but the one of the lowest set bit
  of the base cycle.
-/
import CbpSim.Foundation.Outcome
import CbpSim.Lanes.Refinement

set_option autoImplicit false

namespace CbpSim.Lanes

open CbpSim.Foundation

/-! ## Masks -/

theorem testBit_modS (x y i : Nat) :
    (modS x y).testBit i = (x.testBit i && (y - 1).testBit i) := Nat.testBit_and x (y - 1) i

/-- A depth between two powers of two has the bit of the lower one in its mask. -/
theorem testBit_mask {depth k : Nat} (hlow : 2 ^ k < depth) (hhigh : depth ≤ 2 ^ (k + 1)) :
    (depth - 1).testBit k = true := by
  rw [Nat.testBit_eq_decide_div_mod_eq]
  have hdiv : (depth - 1) / 2 ^ k = 1 := by
    rw [Nat.pow_succ] at hhigh
    apply Nat.div_eq_of_lt_le
    · omega
    · omega
  simp [hdiv]

/-- A cycle with that bit lies in the upper part of the ring. -/
theorem le_modS {cycle depth k : Nat} (hcycle : cycle.testBit k = true)
    (hmask : (depth - 1).testBit k = true) : 2 ^ k ≤ modS cycle depth := by
  apply Nat.ge_two_pow_of_testBit
  rw [testBit_modS, hcycle, hmask]
  rfl

theorem modS_lt {cycle depth : Nat} (h : 0 < depth) : modS cycle depth < depth := by
  have hle : modS cycle depth ≤ depth - 1 := Nat.and_le_right
  omega

theorem testBit_odd (k q : Nat) {w : Nat} (hw : w < 2 ^ k) :
    (2 ^ k * (2 * q + 1) + w).testBit k = true := by
  rw [Nat.testBit_eq_decide_div_mod_eq, Nat.mul_add_div (Nat.two_pow_pos k), Nat.div_eq_of_lt hw]
  simp

/-- Of `2 ^ k` consecutive cycles from `base + 2 ^ k` on one has bit `k`, unless they
start where the bit was just passed. -/
theorem exists_testBit {base k : Nat} (h : base % 2 ^ (k + 1) ≠ 2 ^ k) :
    ∃ cycle, base + 2 ^ k ≤ cycle ∧ cycle < base + 2 ^ (k + 1) ∧ cycle.testBit k = true := by
  have hpow : 2 ^ (k + 1) = 2 ^ k * 2 := Nat.pow_succ 2 k
  have hmod := Nat.mod_lt base (Nat.two_pow_pos (k + 1))
  have hdiv := Nat.div_add_mod base (2 ^ (k + 1))
  have hodd : ∀ q, 2 ^ k * (2 * q + 1) = 2 ^ (k + 1) * q + 2 ^ k := by
    intro q
    rw [hpow]
    ring
  by_cases hlow : base % 2 ^ (k + 1) < 2 ^ k
  · -- the base is below the bit
    refine ⟨base + 2 ^ k, le_rfl, by omega, ?_⟩
    have hbit := testBit_odd k (base / 2 ^ (k + 1)) hlow
    rw [hodd] at hbit
    rwa [show base + 2 ^ k =
      2 ^ (k + 1) * (base / 2 ^ (k + 1)) + 2 ^ k + base % 2 ^ (k + 1) by omega]
  · -- the bit of the base is set: go on to its next multiple
    refine ⟨base + 2 ^ (k + 1) - (base % 2 ^ (k + 1) - 2 ^ k), by omega, by omega, ?_⟩
    have hbit := testBit_odd k (base / 2 ^ (k + 1) + 1) (Nat.two_pow_pos k)
    rw [hodd, Nat.mul_add, Nat.mul_one] at hbit
    rwa [show base + 2 ^ (k + 1) - (base % 2 ^ (k + 1) - 2 ^ k) =
      2 ^ (k + 1) * (base / 2 ^ (k + 1)) + 2 ^ (k + 1) + 2 ^ k + 0 by omega]

/-- One of two consecutive octaves has such a cycle. -/
theorem exists_octave (base k : Nat) :
    base % 2 ^ (k + 1) ≠ 2 ^ k ∨ base % 2 ^ (k + 1 + 1) ≠ 2 ^ (k + 1) := by
  by_contra h
  push Not at h
  obtain ⟨h, h'⟩ := h
  have hmod : base % 2 ^ (k + 1 + 1) % 2 ^ (k + 1) = base % 2 ^ (k + 1) :=
    Nat.mod_mod_of_dvd base (Nat.pow_dvd_pow 2 (Nat.le_succ _))
  rw [h, h', Nat.mod_self] at hmod
  exact absurd hmod.symm (Nat.two_pow_pos k).ne'

/-! ## Growth -/

theorem roundDepth_le {n m : Nat} (hm : schedDepthIncrement ∣ m) (h : n ≤ m) :
    ResourceSchedule.roundDepth n ≤ m := by
  obtain ⟨q, rfl⟩ := hm
  unfold ResourceSchedule.roundDepth
  unfold schedDepthIncrement at *
  split
  · omega
  · omega

theorem dvd_roundDepth (n : Nat) : schedDepthIncrement ∣ ResourceSchedule.roundDepth n :=
  Dvd.intro_left _ rfl

theorem dvd_two_pow {k : Nat} (h : schedDepthIncrement ≤ 2 ^ k) : schedDepthIncrement ∣ 2 ^ k := by
  have hk : 8 ≤ k := (Nat.pow_le_pow_iff_right (by norm_num : 1 < 2)).mp h
  exact Nat.pow_dvd_pow 2 hk

namespace ResourceSchedule

/-- The ring is made of whole increments. -/
structure Whole (r : ResourceSchedule) : Prop where
  dvd : schedDepthIncrement ∣ r.depth
  pos : 0 < r.depth

/-- `s` is the ring `r` after it was reached as far as `cycle`: the slots of `r` are
as they were and the new ones are empty. -/
structure GrownFrom (r s : ResourceSchedule) (cycle : Nat) : Prop where
  baseCycle : s.baseCycle = r.baseCycle
  width : s.width = r.width
  whole : s.Whole
  le : r.depth ≤ s.depth
  depth_le : s.depth ≤ max r.depth (roundDepth (cycle - r.baseCycle))
  old : ∀ i < r.depth, s.sched i = r.sched i
  fresh : ∀ i, r.depth ≤ i → i < s.depth → s.sched i = 0

theorem Whole.grownFrom {r : ResourceSchedule} (h : r.Whole) (cycle : Nat) :
    GrownFrom r r cycle where
  baseCycle := rfl
  width := rfl
  whole := h
  le := le_rfl
  depth_le := le_max_left _ _
  old _ _ := rfl
  fresh i hi hi' := by omega

theorem roundDepth_mono {n m : Nat} (h : n ≤ m) : roundDepth n ≤ roundDepth m :=
  roundDepth_le (dvd_roundDepth m) (h.trans (le_roundDepth m))

/-- One probe of the search. -/
theorem GrownFrom.reach {r s : ResourceSchedule} {cycle : Nat} (h : GrownFrom r s cycle)
    (hcycle : r.baseCycle ≤ cycle) : GrownFrom r (s.reach cycle) (cycle + 1) := by
  have hmono : roundDepth (cycle - r.baseCycle) ≤ roundDepth (cycle + 1 - r.baseCycle) :=
    roundDepth_mono (by omega)
  unfold ResourceSchedule.reach
  split
  · rename_i hgrow
    rw [h.baseCycle] at hgrow ⊢
    have hround := le_roundDepth (cycle - r.baseCycle + 1)
    have hle := h.le
    have hcount : cycle - r.baseCycle + 1 = cycle + 1 - r.baseCycle := by omega
    exact {
      baseCycle := h.baseCycle
      width := h.width
      whole := ⟨dvd_roundDepth _, by simp only [resize]; omega⟩
      le := by simp only [resize]; omega
      depth_le := by simp only [resize, hcount]; exact le_max_right _ _
      old := by
        intro i hi
        simp only [resize]
        rw [if_pos (by omega), h.old i hi]
      fresh := by
        intro i hi hi'
        simp only [resize]
        split
        · exact h.fresh i hi ‹_›
        · rfl }
  · exact {
      baseCycle := h.baseCycle
      width := h.width
      whole := h.whole
      le := h.le
      depth_le := h.depth_le.trans (max_le_max_left _ hmono)
      old := h.old
      fresh := h.fresh }

/-! ## The search -/

/-- The search from `start` stops at `cycle`, with the ring `s`. -/
inductive Finds : ResourceSchedule → Nat → ResourceSchedule → Nat → Prop
  | here {r : ResourceSchedule} {start : Nat} (free : (r.reach start).count start < r.width) :
      Finds r start (r.reach start) start
  | next {r s : ResourceSchedule} {start cycle : Nat}
      (full : ¬ (r.reach start).count start < r.width)
      (rest : Finds (r.reach start) (start + 1) s cycle) : Finds r start s cycle

namespace Finds

variable {r s : ResourceSchedule} {start cycle : Nat}

theorem le (h : Finds r start s cycle) : start ≤ cycle := by
  induction h with
  | here free => exact le_rfl
  | next full rest ih => omega

/-- What the search found is free. -/
theorem free (h : Finds r start s cycle) : s.count cycle < s.width ∧ s.width = r.width := by
  induction h with
  | here free => simpa using free
  | next full rest ih => simpa using ih

/-- The loop of `schedule` follows the search up to its limit. -/
theorem scheduleLoop_eq (h : Finds r start s cycle) {limit probes : Nat} (hlimit : cycle ≤ limit)
    (hprobes : cycle < start + probes) :
    scheduleLoop limit probes r start = (s.take cycle, cycle) := by
  induction h generalizing probes with
  | @here r start free =>
    obtain ⟨n, rfl⟩ : ∃ n, probes = n + 1 := ⟨probes - 1, by omega⟩
    simp only [scheduleLoop, reach_width, if_pos free]
  | @next r s start cycle full rest ih =>
    have hle := rest.le
    obtain ⟨n, rfl⟩ : ∃ n, probes = n + 1 := ⟨probes - 1, by omega⟩
    simp only [scheduleLoop, reach_width, if_neg full]
    rw [if_neg (by omega)]
    exact ih hlimit (by omega)

/-- The loop of `try_schedule` follows it without a limit. -/
theorem tryScheduleLoop_eq (h : Finds r start s cycle) {probes : Nat}
    (hprobes : cycle < start + probes) : tryScheduleLoop probes r start = (s, cycle) := by
  induction h generalizing probes with
  | @here r start free =>
    obtain ⟨n, rfl⟩ : ∃ n, probes = n + 1 := ⟨probes - 1, by omega⟩
    simp only [tryScheduleLoop, reach_width, if_pos free]
  | @next r s start cycle full rest ih =>
    have hle := rest.le
    obtain ⟨n, rfl⟩ : ∃ n, probes = n + 1 := ⟨probes - 1, by omega⟩
    simp only [tryScheduleLoop, reach_width, if_neg full]
    exact ih (by omega)

end Finds

/-- In a ring that grew past its octave the slot of a cycle with the octave's bit is
new. -/
theorem GrownFrom.count_eq_zero {r s : ResourceSchedule} {cycle k : Nat}
    (h : GrownFrom r s (cycle + 1)) (hdepth : r.depth ≤ 2 ^ k)
    (hlive : cycle < s.baseCycle + s.depth)
    (hlow : r.baseCycle + 2 ^ k ≤ cycle) (hhigh : cycle < r.baseCycle + 2 ^ (k + 1))
    (hbit : cycle.testBit k = true) (hr : r.Whole) : s.count cycle = 0 := by
  have hincrement : schedDepthIncrement ≤ 2 ^ k :=
    (Nat.le_of_dvd hr.pos hr.dvd).trans hdepth
  have hpow : 2 ^ (k + 1) = 2 ^ k * 2 := Nat.pow_succ 2 k
  rw [h.baseCycle] at hlive
  have hround : roundDepth (cycle + 1 - r.baseCycle) ≤ 2 ^ (k + 1) :=
    roundDepth_le (dvd_two_pow (by omega)) (by omega)
  have hmax := h.depth_le
  have hmask : (s.depth - 1).testBit k = true :=
    testBit_mask (by omega) (hmax.trans (max_le (by omega) hround))
  exact h.fresh _ (hdepth.trans (le_modS hbit hmask)) (modS_lt h.whole.pos)

/-- The search ends no later than at a cycle whose slot is new. -/
theorem GrownFrom.finds {r s : ResourceSchedule} {start last k : Nat} (h : GrownFrom r s start)
    (hstart : r.baseCycle ≤ start) (hle : start ≤ last) (hwidth : 0 < r.width)
    (hdepth : r.depth ≤ 2 ^ k)
    (hlow : r.baseCycle + 2 ^ k ≤ last) (hhigh : last < r.baseCycle + 2 ^ (k + 1))
    (hbit : last.testBit k = true) (hr : r.Whole) :
    ∃ t cycle, Finds s start t cycle ∧ cycle ≤ last := by
  induction hn : last - start generalizing s start with
  | zero =>
    obtain rfl : start = last := by omega
    have hreach := h.reach hstart
    have hzero := hreach.count_eq_zero hdepth
      (s.lt_reach (by rw [h.baseCycle]; exact hstart) |>.trans_eq (by rw [reach_baseCycle]))
      hlow hhigh hbit hr
    exact ⟨_, start, .here (by rw [hzero, h.width]; exact hwidth), le_rfl⟩
  | succ n ih =>
    by_cases hfree : (s.reach start).count start < s.width
    · exact ⟨_, start, .here hfree, hle⟩
    · obtain ⟨t, cycle, hfinds, hcycle⟩ := ih (h.reach hstart) (by omega) (by omega) (by omega)
      exact ⟨t, cycle, .next hfree hfinds, hcycle⟩

/-! ## Uses of a lane -/

theorem Whole.reach {r : ResourceSchedule} (h : r.Whole) (cycle : Nat) : (r.reach cycle).Whole := by
  unfold ResourceSchedule.reach
  split
  · have hround := le_roundDepth (cycle - r.baseCycle + 1)
    exact ⟨dvd_roundDepth _, by simp only [resize]; omega⟩
  · exact h

theorem Whole.scheduleLoop {limit : Nat} (probes : Nat) {r : ResourceSchedule} (h : r.Whole)
    (start : Nat) : (scheduleLoop limit probes r start).1.Whole := by
  induction probes generalizing r start with
  | zero => exact h
  | succ probes ih =>
    simp only [ResourceSchedule.scheduleLoop]
    split
    · exact ⟨(h.reach start).dvd, (h.reach start).pos⟩
    · split
      · exact h.reach start
      · exact ih (h.reach start) (start + 1)

theorem le_reach_depth (r : ResourceSchedule) (cycle : Nat) : r.depth ≤ (r.reach cycle).depth := by
  unfold reach
  split
  · have hround := le_roundDepth (cycle - r.baseCycle + 1)
    simp only [resize]
    omega
  · exact le_rfl

/-- A probe may make the ring grow, and no more. -/
theorem Whole.tryScheduleLoop (probes : Nat) {r : ResourceSchedule} (h : r.Whole) (cycle : Nat) :
    (tryScheduleLoop probes r cycle).1.Whole ∧
      (tryScheduleLoop probes r cycle).1.width = r.width ∧
      (tryScheduleLoop probes r cycle).1.baseCycle = r.baseCycle ∧
      r.depth ≤ (tryScheduleLoop probes r cycle).1.depth := by
  induction probes generalizing r cycle with
  | zero => exact ⟨h, rfl, rfl, le_rfl⟩
  | succ probes ih =>
    have hle := r.le_reach_depth cycle
    simp only [ResourceSchedule.tryScheduleLoop]
    split
    · exact ⟨h.reach cycle, reach_width r cycle, reach_baseCycle r cycle, hle⟩
    · obtain ⟨hwhole, hwidth, hbase, hdepth⟩ := ih (h.reach cycle) (cycle + 1)
      exact ⟨hwhole, hwidth.trans (reach_width r cycle), hbase.trans (reach_baseCycle r cycle),
        hle.trans hdepth⟩

end ResourceSchedule

/-- A use of a lane: a call, or a probe. -/
inductive LaneUse where
  | schedule (start maxDelta : Nat)
  | trySchedule (cycle : Nat)
  | advanceBaseCycle (newBase : Nat)
  deriving DecidableEq, Repr

namespace ResourceSchedule

/-- The lane after a use. -/
def use (r : ResourceSchedule) : LaneUse → Except Abort ResourceSchedule
  | .schedule start maxDelta => (r.schedule start maxDelta).map (·.1)
  | .trySchedule cycle => (r.trySchedule cycle).map (·.1)
  | .advanceBaseCycle newBase => r.advanceBaseCycle newBase

/-- Every use keeps whole increments and the width. -/
theorem Whole.use {r r' : ResourceSchedule} (h : r.Whole) {u : LaneUse} (hok : r.use u = .ok r') :
    r'.Whole ∧ r'.width = r.width := by
  cases u with
  | schedule start maxDelta =>
    simp only [ResourceSchedule.use, ResourceSchedule.schedule] at hok
    split at hok
    · cases hok
    · cases hok
      exact ⟨h.scheduleLoop _ start, (scheduleLoop_frame _ _ r start).2⟩
  | trySchedule cycle =>
    simp only [ResourceSchedule.use, ResourceSchedule.trySchedule] at hok
    split at hok
    · cases hok
    · cases hok
      exact ⟨(h.tryScheduleLoop _ cycle).1, (h.tryScheduleLoop _ cycle).2.1⟩
  | advanceBaseCycle newBase =>
    simp only [ResourceSchedule.use, ResourceSchedule.advanceBaseCycle] at hok
    split at hok
    · cases hok
    · cases hok
      exact ⟨⟨h.dvd, h.pos⟩, rfl⟩

theorem whole_of_run {width : Nat} {uses : List LaneUse} {r : ResourceSchedule}
    (hrun : Run use (new width) uses r) : r.Whole ∧ r.width = width := by
  refine hrun.induct (P := fun r => r.Whole ∧ r.width = width)
    ⟨⟨dvd_rfl, Nat.zero_lt_succ _⟩, rfl⟩ ?_
  rintro r u r' - ⟨hwhole, hwidth⟩ hok
  obtain ⟨hwhole', hwidth'⟩ := hwhole.use hok
  exact ⟨hwhole', hwidth'.trans hwidth⟩

/-- A ring of whole increments has a free cycle, not eight times as far ahead as the
ring and the start are. -/
theorem Whole.finds {r : ResourceSchedule} (h : r.Whole) (hwidth : 0 < r.width) {start : Nat}
    (hstart : r.baseCycle ≤ start) :
    ∃ s cycle, Finds r start s cycle ∧
      cycle < r.baseCycle + 8 * max r.depth (start - r.baseCycle + 1) := by
  have hincrement : schedDepthIncrement ≤ r.depth := Nat.le_of_dvd h.pos h.dvd
  have hfar : 1 < max r.depth (start - r.baseCycle + 1) :=
    lt_of_lt_of_le (lt_of_lt_of_le (by decide) hincrement) (le_max_left _ _)
  have hdepth := le_max_left r.depth (start - r.baseCycle + 1)
  have hreach := le_max_right r.depth (start - r.baseCycle + 1)
  generalize max r.depth (start - r.baseCycle + 1) = far at *
  -- the octave of the distance, then one of it and the next
  obtain ⟨k, hle, hlt⟩ : ∃ k, far ≤ 2 ^ k ∧ 2 ^ k < 2 * far := by
    refine ⟨Nat.clog 2 far, Nat.le_pow_clog (by norm_num) far, ?_⟩
    have hpred := Nat.pow_pred_clog_lt_self (by norm_num : 1 < 2) hfar
    have hpos := Nat.clog_pos (by norm_num : 1 < 2) hfar
    rw [← Nat.succ_pred_eq_of_pos hpos, Nat.pow_succ]
    omega
  have hoctave : ∀ j, 2 ^ k ≤ 2 ^ j → 2 ^ j ≤ 2 * 2 ^ k →
      r.baseCycle % 2 ^ (j + 1) ≠ 2 ^ j →
      ∃ s cycle, Finds r start s cycle ∧ cycle < r.baseCycle + 8 * far := by
    intro j hkj hjk hbase
    obtain ⟨last, hlow, hhigh, hbit⟩ := exists_testBit hbase
    have hpow : 2 ^ (j + 1) = 2 ^ j * 2 := Nat.pow_succ 2 j
    obtain ⟨s, cycle, hfinds, hcycle⟩ := (h.grownFrom start).finds hstart
      (show start ≤ last by omega) hwidth (by omega) hlow hhigh hbit h
    exact ⟨s, cycle, hfinds, by omega⟩
  rcases exists_octave r.baseCycle k with hbase | hbase
  · exact hoctave k le_rfl (by omega) hbase
  · have hpow : 2 ^ (k + 1) = 2 ^ k * 2 := Nat.pow_succ 2 k
    exact hoctave (k + 1) (by omega) (by omega) hbase

end ResourceSchedule

/-- **The search of a lane ends.**  On a lane of at least one slot, in every state
that uses of it reach, the searches of `schedule` without limit and of `try_schedule`
from any cycle not before the base stop at a free cycle, less than eight times as far
from the base as the ring or the start reaches.  Where that cycle is a 64-bit value it
is what both calls return. -/
theorem search_ends {width : Nat} (hwidth : 0 < width) {uses : List LaneUse}
    {r : ResourceSchedule} (hrun : Run ResourceSchedule.use (.new width) uses r) {start : Nat}
    (hstart : r.baseCycle ≤ start) :
    ∃ s cycle, start ≤ cycle ∧
      cycle < r.baseCycle + 8 * max r.depth (start - r.baseCycle + 1) ∧
      s.count cycle < width ∧
      (∀ limit probes, cycle ≤ limit → cycle < start + probes →
        ResourceSchedule.scheduleLoop limit probes r start = (s.take cycle, cycle)) ∧
      (∀ probes, cycle < start + probes →
        ResourceSchedule.tryScheduleLoop probes r start = (s, cycle)) ∧
      (cycle ≤ maxCycle →
        r.schedule start maxCycle = .ok (s.take cycle, cycle) ∧
          r.trySchedule start = .ok (s, cycle)) := by
  obtain ⟨hwhole, hwidth'⟩ := ResourceSchedule.whole_of_run hrun
  obtain ⟨s, cycle, hfinds, hbound⟩ := hwhole.finds (hwidth' ▸ hwidth) hstart
  have hle := hfinds.le
  obtain ⟨hfree, hswidth⟩ := hfinds.free
  refine ⟨s, cycle, hle, hbound, by rwa [hswidth, hwidth'] at hfree,
    fun limit probes => hfinds.scheduleLoop_eq, fun probes => hfinds.tryScheduleLoop_eq, ?_⟩
  intro hmax
  have hprobes : cycle < start + (maxCycle - start + 1) := by omega
  constructor
  · rw [ResourceSchedule.schedule, if_neg (by omega)]
    exact congrArg Except.ok (hfinds.scheduleLoop_eq hmax hprobes)
  · rw [ResourceSchedule.trySchedule, if_neg (by omega)]
    exact congrArg Except.ok (hfinds.tryScheduleLoop_eq hprobes)

/-- A lane that was scheduled at cycle 600 has a ring of 768 entries. -/
theorem search_ends_threeIncrements :
    ∃ r, Run ResourceSchedule.use (.new 1) [.schedule 600 0] r ∧ r.depth = 768 ∧
      ∃ s cycle, r.trySchedule 600 = .ok (s, cycle) := by
  obtain ⟨r, hrun, hr⟩ := observe_eq_some.mp (show
    (([.schedule 600 0] : List LaneUse).foldlM ResourceSchedule.use (.new 1)).toOption.map
      (fun r => (r.depth, r.baseCycle)) = some (768, 0) by decide +kernel)
  obtain ⟨hdepth, hbase⟩ := Prod.mk.inj hr
  obtain ⟨s, cycle, -, hbound, -, -, -, hcalls⟩ :=
    search_ends (by decide) hrun (show r.baseCycle ≤ 600 by omega)
  rw [hdepth, hbase] at hbound
  exact ⟨r, hrun, hdepth, s, cycle, (hcalls (by unfold maxCycle; omega)).2⟩

end CbpSim.Lanes
