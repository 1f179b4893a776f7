/-
  Lanes/Refinement.lean --- the circular lane schedule against an unbounded one.

  The abstract lane keeps one counter per cycle, without a ring: a schedule call
  is granted the first cycle of its range that has a slot left.  The ring
  implements it as long as every growth is EXACT: `resize` copies the counters
  index by index, so the counter of a cycle survives only when its index under
  the new mask is the old one, and `MOD_S` is a remainder only when the new depth
  is a power of two.

  Source: src/lib/resource_schedule.cc.
-/
import CbpSim.Foundation.Run
import CbpSim.Foundation.Ring
import CbpSim.Lanes.ResourceSchedule

set_option autoImplicit false

namespace CbpSim.Lanes

open CbpSim.Foundation

/-! ## The unbounded schedule -/

/-- The cycles a schedule call may be granted: from `start` on, up to
`start + maxDelta` unless `maxDelta` is `MAX_CYCLE`. -/
def InRange (start maxDelta c : Nat) : Prop :=
  start ≤ c ∧ (maxDelta ≠ maxCycle → c ≤ start + maxDelta)

/-- What a schedule call of a lane of `width` slots answers when the cycles
`granted` were granted before: the first cycle of its range that was granted
fewer than `width` times, else `MAX_CYCLE`; and the cycles granted after it. -/
inductive Answers (width : Nat) (granted : List Nat) (start maxDelta : Nat) :
    Nat → List Nat → Prop
  /-- the first free cycle is granted and recorded -/
  | grant (c : Nat) (range : InRange start maxDelta c) (free : granted.count c < width)
      (first : ∀ d, InRange start maxDelta d → d < c → width ≤ granted.count d) :
      Answers width granted start maxDelta c (c :: granted)
  /-- no cycle of the range is free, nothing is recorded -/
  | refuse (full : ∀ d, InRange start maxDelta d → width ≤ granted.count d) :
      Answers width granted start maxDelta maxCycle granted

/-- The cycles of the call stay below the largest 64-bit value: its limit does,
or, for a call without limit, the first free cycle does. -/
def NoOverflow (width : Nat) (granted : List Nat) (start maxDelta : Nat) : Prop :=
  if maxDelta = maxCycle then ∃ c, start ≤ c ∧ c < maxCycle ∧ granted.count c < width
  else start + maxDelta < maxCycle

/-- No answer takes a cycle past the width of the lane. -/
theorem Answers.bounded {width start maxDelta answer : Nat} {granted granted' : List Nat}
    (h : Answers width granted start maxDelta answer granted')
    (hbound : ∀ c, granted.count c ≤ width) (c : Nat) : granted'.count c ≤ width := by
  cases h with
  | grant d range free first =>
    by_cases hcd : c = answer
    · subst hcd; rw [List.count_cons_self]; omega
    · rw [List.count_cons_of_ne (Ne.symm hcd)]; exact hbound c
  | refuse full => exact hbound c

/-! ## Calls and runs -/

/-- A call on a lane. -/
inductive LaneCall where
  | schedule (start maxDelta : Nat)
  | advanceBaseCycle (newBase : Nat)
  deriving DecidableEq, Repr

/-- A lane observed from outside: its state and the cycles its schedule calls
answered so far, newest first, refusals left out. -/
structure Observed where
  lane : ResourceSchedule
  granted : List Nat

namespace Observed

/-- A lane just constructed. -/
def new (width : Nat) : Observed := ⟨.new width, []⟩

/-- Record the answer of a schedule call. -/
def record (granted : List Nat) (answer : Nat) : List Nat :=
  if answer = maxCycle then granted else answer :: granted

/-- One call. -/
def call (o : Observed) : LaneCall → Except Abort Observed
  | .schedule start maxDelta =>
    (o.lane.schedule start maxDelta).map fun p => ⟨p.1, record o.granted p.2⟩
  | .advanceBaseCycle newBase =>
    (o.lane.advanceBaseCycle newBase).map fun r => ⟨r, o.granted⟩

end Observed

/-! ## Exact growth -/

/-- If reaching `cycle` makes the ring grow, the new depth is a power of two and
every cycle of the old window that holds grants keeps its index. -/
def ResourceSchedule.ExactGrowth (r : ResourceSchedule) (cycle : Nat) : Prop :=
  cycle - r.baseCycle + 1 > r.depth →
    (∃ k, ResourceSchedule.roundDepth (cycle - r.baseCycle + 1) = 2 ^ k) ∧
      ∀ c, r.baseCycle ≤ c → c < r.baseCycle + r.depth → r.count c ≠ 0 →
        modS c (ResourceSchedule.roundDepth (cycle - r.baseCycle + 1)) = modS c r.depth

/-- Every growth along the search of a schedule call is exact. -/
def ResourceSchedule.GrowsExactly (limit : Nat) : Nat → ResourceSchedule → Nat → Prop
  | 0, _, _ => True
  | probes + 1, r, start =>
    r.ExactGrowth start ∧
      (¬ (r.reach start).count start < r.width → ¬ limit < start + 1 →
        GrowsExactly limit probes (r.reach start) (start + 1))

/-- The growth condition of a call. -/
def Observed.Exact (o : Observed) : LaneCall → Prop
  | .schedule start maxDelta =>
    ResourceSchedule.GrowsExactly (ResourceSchedule.limitCycle start maxDelta)
      (ResourceSchedule.limitCycle start maxDelta - start + 1) o.lane start
  | .advanceBaseCycle _ => True

/-- The no-overflow condition of a call. -/
def Observed.InCycles (o : Observed) : LaneCall → Prop
  | .schedule start maxDelta => NoOverflow o.lane.width o.granted start maxDelta
  | .advanceBaseCycle _ => True

/-- The refinement: in a run of calls on a fresh lane, every schedule call
answers what the unbounded lane would, given the cycles granted before it. -/
def RefinesUnbounded (width : Nat) (calls : List LaneCall) : Prop :=
  ∀ front start maxDelta back o r answer,
    calls = front ++ .schedule start maxDelta :: back →
    Run Observed.call (.new width) front o →
    o.lane.schedule start maxDelta = .ok (r, answer) →
    Answers width o.granted start maxDelta answer (Observed.record o.granted answer)

/-! ## The ring represents the grants -/

namespace ResourceSchedule

/-- The ring holds, for every cycle from the base on, how often it was granted. -/
structure Holds (r : ResourceSchedule) (granted : List Nat) : Prop where
  /-- the depth is a power of two, so `MOD_S` is the remainder -/
  pow2 : ∃ k, r.depth = 2 ^ k
  /-- the ring stands for the number of grants -/
  represents : Ring.Represents 0 r.depth r.baseCycle r.sched (fun c => granted.count c)

theorem modS_two_pow (c k : Nat) : modS c (2 ^ k) = c % 2 ^ k := by
  simp [modS, Nat.and_two_pow_sub_one_eq_mod]

theorem Holds.depth_pos {r : ResourceSchedule} {granted : List Nat} (h : r.Holds granted) :
    0 < r.depth := by
  obtain ⟨k, hk⟩ := h.pow2
  rw [hk]; exact Nat.two_pow_pos k

theorem Holds.modS_eq {r : ResourceSchedule} {granted : List Nat} (h : r.Holds granted)
    (c : Nat) : modS c r.depth = c % r.depth := by
  obtain ⟨k, hk⟩ := h.pow2
  rw [hk, modS_two_pow]

/-- In the window the counter of a cycle is the number of its grants. -/
theorem Holds.count_eq {r : ResourceSchedule} {granted : List Nat} (h : r.Holds granted)
    {c : Nat} (hc : r.baseCycle ≤ c) (hc' : c < r.baseCycle + r.depth) :
    r.count c = granted.count c := by
  rw [count, h.modS_eq, h.represents.live c hc hc']

theorem holds_new (width : Nat) : (new width).Holds [] := by
  exact ⟨⟨8, rfl⟩, Ring.represents_const 0 _ _⟩

theorem le_roundDepth (n : Nat) : n ≤ roundDepth n := by
  unfold roundDepth schedDepthIncrement
  split <;> omega

theorem lt_reach (r : ResourceSchedule) {cycle : Nat} (h : r.baseCycle ≤ cycle) :
    cycle < r.baseCycle + (r.reach cycle).depth := by
  unfold reach
  split
  · have := le_roundDepth (cycle - r.baseCycle + 1)
    simp only [resize]
    omega
  · omega

/-- An exact growth keeps the ring right. -/
theorem Holds.reach {r : ResourceSchedule} {granted : List Nat} (h : r.Holds granted)
    {cycle : Nat} (hexact : r.ExactGrowth cycle) : (r.reach cycle).Holds granted := by
  unfold ResourceSchedule.reach
  split
  · rename_i hgrow
    obtain ⟨⟨k, hk⟩, hkeep⟩ := hexact hgrow
    obtain ⟨j, hj⟩ := h.pow2
    have hround := le_roundDepth (cycle - r.baseCycle + 1)
    have hlt : r.depth < roundDepth (cycle - r.baseCycle + 1) := by omega
    have hjk : j ≤ k := by
      rw [hj, hk] at hlt
      exact ((Nat.pow_lt_pow_iff_right (by norm_num)).mp hlt).le
    refine ⟨⟨k, hk⟩, h.represents.grow h.depth_pos hlt.le ?_ ?_⟩
    · show r.depth ∣ roundDepth (cycle - r.baseCycle + 1)
      rw [hk, hj]
      exact Nat.pow_dvd_pow 2 hjk
    · intro c hc hc' hne
      have hidx := hkeep c hc hc' (by rwa [h.count_eq hc hc'])
      rw [hk, modS_two_pow, h.modS_eq, ← hk] at hidx
      exact hidx ▸ Nat.mod_lt c h.depth_pos
  · exact h

/-- Taking a slot of a live cycle is one more grant of it. -/
theorem Holds.take {r : ResourceSchedule} {granted : List Nat} (h : r.Holds granted)
    {c : Nat} (hc : r.baseCycle ≤ c) (hc' : c < r.baseCycle + r.depth) :
    (r.take c).Holds (c :: granted) := by
  refine ⟨h.pow2, ?_⟩
  have hwrite := h.represents.write (granted.count c + 1) hc hc'
  have hcount : (fun d => (c :: granted).count d) =
      Function.update (fun d => granted.count d) c (granted.count c + 1) := by
    funext d
    by_cases hd : d = c
    · subst hd; simp
    · rw [Function.update_of_ne hd, List.count_cons_of_ne (Ne.symm hd)]
  rw [hcount]
  simpa only [ResourceSchedule.take, h.modS_eq, h.count_eq hc hc'] using hwrite

/-- The loop of `advance_base_cycle` moves the base over the cycles it empties. -/
theorem represents_clear {depth : Nat} {f : Nat → Nat} {k : Nat} (hk : depth = 2 ^ k) :
    ∀ (n base : Nat) (sched : Nat → Nat), Ring.Represents 0 depth base sched f →
      Ring.Represents 0 depth (base + n) (clear depth n base sched) f := by
  intro n
  induction n with
  | zero => intro base sched h; exact h
  | succ n ih =>
    intro base sched h
    have hstep := ih (base + 1) _ h.advance
    rw [clear, show modS base depth = base % depth by rw [hk, modS_two_pow]]
    rwa [show base + (n + 1) = base + 1 + n by omega]

theorem Holds.advanceBaseCycle {r r' : ResourceSchedule} {granted : List Nat}
    (h : r.Holds granted) {newBase : Nat} (hok : r.advanceBaseCycle newBase = .ok r') :
    r'.Holds granted ∧ r'.width = r.width := by
  unfold ResourceSchedule.advanceBaseCycle at hok
  split at hok
  · cases hok
  · rename_i hle
    obtain ⟨k, hk⟩ := h.pow2
    have hclear := represents_clear hk (newBase - r.baseCycle) _ _ h.represents
    rw [Nat.add_sub_cancel' (by omega)] at hclear
    cases hok
    exact ⟨⟨⟨k, hk⟩, hclear⟩, rfl⟩

/-! ## One search -/

/-- The search of a schedule call on a ring that holds the grants and grows
exactly: it stops at the first free cycle up to `limit`, else it refuses. -/
theorem scheduleLoop_spec {limit : Nat} {granted : List Nat} :
    ∀ (probes : Nat) (r : ResourceSchedule) (start : Nat),
      r.Holds granted → r.baseCycle ≤ start → start ≤ limit → probes = limit - start + 1 →
      GrowsExactly limit probes r start →
      (∃ c, start ≤ c ∧ c ≤ limit ∧ granted.count c < r.width ∧
          (∀ d, start ≤ d → d < c → r.width ≤ granted.count d) ∧
          (scheduleLoop limit probes r start).2 = c ∧
          (scheduleLoop limit probes r start).1.Holds (c :: granted)) ∨
        ((∀ d, start ≤ d → d ≤ limit → r.width ≤ granted.count d) ∧
          (scheduleLoop limit probes r start).2 = maxCycle ∧
          (scheduleLoop limit probes r start).1.Holds granted) := by
  intro probes
  induction probes with
  | zero => intro r start _ _ _ hprobes; omega
  | succ probes ih =>
    intro r start hholds hbase hlimit hprobes hgrow
    obtain ⟨hexact, hrest⟩ := hgrow
    have hreach := hholds.reach hexact
    have hlive := r.lt_reach hbase
    have hcount : (r.reach start).count start = granted.count start :=
      hreach.count_eq (by simpa using hbase) (by simpa using hlive)
    simp only [scheduleLoop, reach_width]
    by_cases hfree : (r.reach start).count start < r.width
    · -- the first cycle probed is free
      simp only [hfree, if_true]
      refine Or.inl ⟨start, le_rfl, hlimit, hcount ▸ hfree, by intro d h h'; omega, rfl, ?_⟩
      exact hreach.take (by simpa using hbase) (by simpa using hlive)
    · simp only [hfree, if_false]
      rw [hcount] at hfree
      by_cases hlast : limit < start + 1
      · -- it was the last one
        simp only [hlast, if_true]
        refine Or.inr ⟨?_, trivial, hreach⟩
        intro d hd hd'
        obtain rfl : d = start := by omega
        omega
      · simp only [hlast, if_false]
        have hnext := ih (r.reach start) (start + 1) hreach (by simp; omega) (by omega)
          (by omega) (hrest (by rw [hcount]; exact hfree) hlast)
        have hfull : ∀ d, start ≤ d → ¬ start + 1 ≤ d → r.width ≤ granted.count d := by
          intro d hd hd'
          obtain rfl : d = start := by omega
          omega
        simp only [reach_width] at hnext
        rcases hnext with ⟨c, hc, hc', hlt, hfirst, hans, hpost⟩ | ⟨hall, hans, hpost⟩
        · refine Or.inl ⟨c, by omega, hc', hlt, ?_, hans, hpost⟩
          intro d hd hd'
          by_cases hs : start + 1 ≤ d
          · exact hfirst d hs hd'
          · exact hfull d hd hs
        · refine Or.inr ⟨?_, hans, hpost⟩
          intro d hd hd'
          by_cases hs : start + 1 ≤ d
          · exact hall d hs hd'
          · exact hfull d hd hs

end ResourceSchedule

/-! ## Whole runs -/

/-- The invariant of a run with exact growth: the ring holds the grants, and no
cycle has more of them than the lane has slots. -/
structure Faithful (width : Nat) (o : Observed) : Prop where
  width_eq : o.lane.width = width
  holds : o.lane.Holds o.granted
  bounded : ∀ c, o.granted.count c ≤ width

theorem faithful_new (width : Nat) : Faithful width (.new width) :=
  ⟨rfl, ResourceSchedule.holds_new width, fun c => by simp [Observed.new]⟩

/-- A call that does not overflow searches cycles of its range, and if it finds
them all full they were the whole range. -/
theorem limitCycle_spec {width : Nat} {granted : List Nat} {start maxDelta : Nat}
    (hover : NoOverflow width granted start maxDelta) :
    start ≤ ResourceSchedule.limitCycle start maxDelta ∧
      (∀ c, start ≤ c → c ≤ ResourceSchedule.limitCycle start maxDelta →
        InRange start maxDelta c) ∧
      ((∀ c, start ≤ c → c ≤ ResourceSchedule.limitCycle start maxDelta →
        width ≤ granted.count c) →
        ∀ c, InRange start maxDelta c → c ≤ ResourceSchedule.limitCycle start maxDelta) := by
  unfold NoOverflow at hover
  unfold ResourceSchedule.limitCycle InRange
  by_cases hmax : maxDelta = maxCycle
  · simp only [hmax, if_true] at hover ⊢
    obtain ⟨d, hd, hd', hfree⟩ := hover
    refine ⟨by omega, fun c hc _ => ⟨hc, fun h => absurd rfl h⟩, ?_⟩
    intro hfull
    have := hfull d hd hd'.le
    omega
  · simp only [hmax, if_false] at hover ⊢
    rw [Nat.mod_eq_of_lt (by unfold maxCycle at hover; omega)]
    exact ⟨by omega, fun c hc hc' => ⟨hc, fun _ => hc'⟩, fun _ c hc => hc.2 hmax⟩

/-- What a schedule call does in a state of the invariant. -/
theorem Faithful.schedule {width : Nat} {o : Observed} (h : Faithful width o)
    {start maxDelta answer : Nat} {r : ResourceSchedule}
    (hover : o.InCycles (.schedule start maxDelta))
    (hexact : o.Exact (.schedule start maxDelta))
    (hok : o.lane.schedule start maxDelta = .ok (r, answer)) :
    Answers width o.granted start maxDelta answer (Observed.record o.granted answer) ∧
      r.Holds (Observed.record o.granted answer) ∧ r.width = width := by
  obtain ⟨hwidth, hholds, -⟩ := h
  unfold ResourceSchedule.schedule at hok
  split at hok
  · cases hok
  rename_i hbase
  have hpair := Except.ok.inj hok
  simp only [Observed.InCycles, Observed.Exact] at hover hexact
  obtain ⟨hlimit, hinRange, hrange⟩ := limitCycle_spec hover
  have hspec := ResourceSchedule.scheduleLoop_spec _ o.lane start hholds (by omega)
    hlimit rfl hexact
  have hframe := ResourceSchedule.scheduleLoop_frame
    (ResourceSchedule.limitCycle start maxDelta)
    (ResourceSchedule.limitCycle start maxDelta - start + 1) o.lane start
  rw [hpair] at hspec hframe
  rw [hwidth] at hspec hframe hover hrange
  obtain ⟨c, hc, hc', hfree, hfirst, hans, hpost⟩ | ⟨hfull, hans, hpost⟩ := hspec
  · -- the search stopped at the free cycle `c`
    have hlt : c < maxCycle := by
      unfold NoOverflow at hover
      by_cases hmax : maxDelta = maxCycle
      · simp only [hmax, if_true] at hover
        obtain ⟨d, hd, hd', hdfree⟩ := hover
        by_contra hge
        have := hfirst d hd (by omega)
        omega
      · simp only [hmax, if_false] at hover
        have := (hinRange c hc hc').2 hmax
        omega
    obtain rfl : answer = c := hans
    have hrec : Observed.record o.granted answer = answer :: o.granted := by
      simp [Observed.record, hlt.ne]
    rw [hrec]
    refine ⟨.grant answer (hinRange answer hc hc') hfree ?_, hpost, hframe.2⟩
    intro d hd hdlt
    exact hfirst d hd.1 hdlt
  · -- every cycle of the range was full
    obtain rfl : answer = maxCycle := hans
    have hrec : Observed.record o.granted maxCycle = o.granted := by
      simp [Observed.record]
    rw [hrec]
    refine ⟨.refuse ?_, hpost, hframe.2⟩
    intro d hd
    exact hfull d hd.1 (hrange hfull d hd)

/-- Every call that is fit keeps the invariant. -/
theorem Faithful.call {width : Nat} {o o' : Observed} {call : LaneCall}
    (h : Faithful width o) (hover : o.InCycles call) (hexact : o.Exact call)
    (hok : o.call call = .ok o') : Faithful width o' := by
  cases call with
  | schedule start maxDelta =>
    simp only [Observed.call] at hok
    cases hsched : o.lane.schedule start maxDelta with
    | error e => rw [hsched] at hok; cases hok
    | ok p =>
      rw [hsched] at hok
      cases hok
      obtain ⟨hans, hholds, hwidth⟩ := h.schedule hover hexact hsched
      exact ⟨hwidth, hholds, hans.bounded h.bounded⟩
  | advanceBaseCycle newBase =>
    simp only [Observed.call] at hok
    cases hadv : o.lane.advanceBaseCycle newBase with
    | error e => rw [hadv] at hok; cases hok
    | ok r =>
      rw [hadv] at hok
      cases hok
      obtain ⟨hholds, hwidth⟩ := h.holds.advanceBaseCycle hadv
      exact ⟨hwidth.trans h.width_eq, hholds, h.bounded⟩

/-- Every state of a run with exact growth and no overflow meets the invariant. -/
theorem Faithful.of_run {width : Nat} {calls : List LaneCall} {o : Observed}
    (hrun : Run Observed.call (.new width) calls o)
    (hover : EveryStep Observed.call (.new width) calls Observed.InCycles)
    (hexact : EveryStep Observed.call (.new width) calls Observed.Exact) :
    Faithful width o :=
  hrun.induct_of_every
    (P := fun o call => o.InCycles call ∧ o.Exact call)
    (fun front call back u heq hr => ⟨hover front call back u heq hr,
      hexact front call back u heq hr⟩)
    (faithful_new width)
    (fun _ _ _ h hfit hok => h.call hfit.1 hfit.2 hok)

/-- **The ring refines the unbounded lane as long as it grows exactly.**  In
every run of calls whose cycles do not overflow and in which every growth of the
ring is exact, each schedule call answers what the unbounded lane answers, and
no cycle is ever granted more often than the lane is wide. -/
theorem schedule_refines_unbounded {width : Nat} {calls : List LaneCall}
    (hover : EveryStep Observed.call (.new width) calls Observed.InCycles)
    (hexact : EveryStep Observed.call (.new width) calls Observed.Exact) :
    RefinesUnbounded width calls ∧
      ∀ o, Run Observed.call (.new width) calls o →
        o.lane.Holds o.granted ∧ ∀ c, o.granted.count c ≤ width := by
  refine ⟨?_, ?_⟩
  · intro front start maxDelta back o r answer heq hrun hok
    subst heq
    have h := Faithful.of_run hrun hover.front hexact.front
    exact (h.schedule (hover front _ back o rfl hrun) (hexact front _ back o rfl hrun) hok).1
  · intro o hrun
    have h := Faithful.of_run hrun hover hexact
    exact ⟨h.holds, h.bounded⟩

/-- A first call at cycle 300 grows the ring to 512 entries, exactly. -/
theorem schedule_refines_unbounded_grown :
    RefinesUnbounded 1 [.schedule 300 0] ∧
      ∀ o, Run Observed.call (.new 1) [.schedule 300 0] o →
        o.lane.Holds o.granted ∧ ∀ c, o.granted.count c ≤ 1 := by
  refine schedule_refines_unbounded (everyStep_cons.mpr ⟨?_, fun _ _ => everyStep_nil⟩)
    (everyStep_cons.mpr ⟨?_, fun _ _ => everyStep_nil⟩)
  · show NoOverflow 1 [] 300 0
    simp [NoOverflow, maxCycle]
  · refine ⟨fun _ => ⟨⟨9, by decide⟩, ?_⟩, fun _ hlast => absurd (by decide) hlast⟩
    intro c _ _ hcount
    exact absurd rfl hcount

/-- The base moves by one, then the ring grows from 256 to 512 entries: the
counter of cycle 256 was in slot 0 and stays there, so the cycle looks free. -/
def regrownCalls : List LaneCall :=
  [.advanceBaseCycle 1, .schedule 256 maxCycle, .schedule 257 maxCycle]

/-- On a lane of one slot, after `regrownCalls` the cycle 256 is granted again. -/
theorem regrown_lane_grants_twice :
    (regrownCalls.foldlM Observed.call (.new 1)).map
        (fun o => (o.granted, (o.lane.schedule 256 maxCycle).map (·.2))) =
      .ok ([257, 256], .ok 256) ∧
    ¬ RefinesUnbounded 1 (regrownCalls ++ [.schedule 256 maxCycle]) := by
  have heval : (regrownCalls.foldlM Observed.call (.new 1)).map
      (fun o => (o.granted, (o.lane.schedule 256 maxCycle).map (·.2))) =
      .ok ([257, 256], .ok 256) := by
    decide +kernel
  refine ⟨heval, ?_⟩
  intro hrefines
  cases hrun : regrownCalls.foldlM Observed.call (.new 1) with
  | error e => rw [hrun] at heval; cases heval
  | ok o =>
    rw [hrun] at heval
    obtain ⟨hgranted, hanswer⟩ := Prod.mk.inj (Except.ok.inj heval)
    cases hsched : o.lane.schedule 256 maxCycle with
    | error e => rw [hsched] at hanswer; cases hanswer
    | ok p =>
      rw [hsched] at hanswer
      obtain ⟨r, answer⟩ := p
      obtain rfl : answer = 256 := Except.ok.inj hanswer
      have hans := hrefines regrownCalls 256 maxCycle [] o r 256 rfl hrun hsched
      rw [hgranted] at hans
      -- the only slot of cycle 256 is taken, whatever was recorded
      generalize Observed.record [257, 256] 256 = granted' at hans
      cases hans with
      | grant c range free first => simp at free

end CbpSim.Lanes
