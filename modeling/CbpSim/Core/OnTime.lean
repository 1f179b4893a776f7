/-
  Core/OnTime.lean --- nothing is scheduled in the past.

  Source: src/lib/uarchsim.cc, the calls of `schedule` and `advance_base_cycle` in
  `step`; src/lib/stride_prefetcher.h, the queue of prefetches.

  The base cycle of the lanes is the minimum of the fetch cycle and the oldest
  queued prefetch.  An instruction asks for a cycle after its fetch cycle, which
  never decreases, and a prefetch for a cycle after its generation, which is not
  before that of the head of the queue: the queue stays sorted.
-/
import CbpSim.Memory.PrefetchQueue
import CbpSim.Core.Upkeep

set_option autoImplicit false

namespace CbpSim.Memory

/-! ## The queue of prefetches -/

namespace StridePrefetcher

/-- The queue is sorted by the cycle of generation. -/
def Sorted (queue : List Prefetch) : Prop :=
  queue.Pairwise fun p q => p.cycleGenerated ≤ q.cycleGenerated

/-- Every queued prefetch was generated at `cycle` or after. -/
def After (cycle : Nat) (queue : List Prefetch) : Prop := ∀ p ∈ queue, cycle ≤ p.cycleGenerated

/-- Looking ahead keeps the queue sorted. -/
theorem sorted_lookahead {p : StridePrefetcher} (h : Sorted p.queue) (pc cycle : Nat) :
    Sorted (p.lookahead pc cycle).queue := by
  rcases p.lookahead_cases pc cycle with ⟨_, _, heq⟩ | ⟨e, -, -, -, -, heq⟩
  · rw [heq]
    exact h
  · rw [heq]
    exact (List.pairwise_insertionSort Prefetch.older _).imp Prefetch.older.le

theorem after_lookahead {p : StridePrefetcher} {base cycle : Nat} (h : After base p.queue)
    (hcycle : base ≤ cycle) (pc : Nat) : After base (p.lookahead pc cycle).queue := by
  rcases p.lookahead_cases pc cycle with ⟨_, _, heq⟩ | ⟨e, -, -, -, -, heq⟩
  · rw [heq]
    exact h
  · rw [heq]
    intro q hq
    rcases List.mem_append.mp ((List.mem_insertionSort _).mp hq) with hq | hq
    · exact h q hq
    · rw [List.mem_singleton.mp hq]
      exact hcycle

/-- What `issue` leaves in the queue, and what it takes out. -/
theorem issue_queue (p : StridePrefetcher) (cycle : Nat) :
    match (p.issue cycle).1 with
    | none => (p.issue cycle).2.queue <:+ p.queue
    | some pf => (pf :: (p.issue cycle).2.queue) <:+ p.queue := by
  obtain ⟨untimely, rest, hqueue, -, ⟨-, heq⟩ | ⟨pf, queue, hrest, -, -, heq⟩⟩ :=
    p.issue_cases cycle
  · rw [heq, hqueue]
    exact List.suffix_append _ _
  · rw [heq, hqueue, hrest]
    exact List.suffix_append _ _

end StridePrefetcher

end CbpSim.Memory

namespace CbpSim.Core

open CbpSim.Foundation CbpSim.Lanes CbpSim.Memory
open CbpSim.Memory.StridePrefetcher (Sorted After)

/-! ## The resources -/

/-- The program did not stop at an assert of the lanes. -/
def OffLanes (e : Abort) : Prop := ofLanes e = false

namespace Resources

/-- The lanes and the queued prefetches are not past `cycle`, and no prefetch is before
the lanes. -/
structure OnTime (cycle : Nat) (r : Resources) : Prop where
  ldst : r.ldstLanes.baseCycle ≤ cycle
  alu : r.aluLanes.baseCycle ≤ cycle
  sorted : Sorted r.prefetcher.queue
  ldstQueued : After r.ldstLanes.baseCycle r.prefetcher.queue
  aluQueued : After r.aluLanes.baseCycle r.prefetcher.queue

/-- The base cycles and the queue are the same. -/
structure SameTimes (r r' : Resources) : Prop where
  ldst : r'.ldstLanes.baseCycle = r.ldstLanes.baseCycle
  alu : r'.aluLanes.baseCycle = r.aluLanes.baseCycle
  queue : r'.prefetcher.queue = r.prefetcher.queue

theorem SameTimes.refl (r : Resources) : r.SameTimes r := ⟨rfl, rfl, rfl⟩

theorem SameTimes.trans {r₁ r₂ r₃ : Resources} (h : r₁.SameTimes r₂) (h' : r₂.SameTimes r₃) :
    r₁.SameTimes r₃ :=
  ⟨h'.ldst.trans h.ldst, h'.alu.trans h.alu, h'.queue.trans h.queue⟩

theorem CachesOnly.sameTimes {r r' : Resources} (h : r.CachesOnly r') : r.SameTimes r' := by
  rw [h.frame]
  exact ⟨rfl, rfl, rfl⟩

namespace OnTime

variable {cycle : Nat} {r r' : Resources}

theorem mono {cycle' : Nat} (h : OnTime cycle r) (hle : cycle ≤ cycle') : OnTime cycle' r :=
  { h with ldst := h.ldst.trans hle, alu := h.alu.trans hle }

theorem of_same (h : OnTime cycle r) (hs : r.SameTimes r') : OnTime cycle r' where
  ldst := hs.ldst ▸ h.ldst
  alu := hs.alu ▸ h.alu
  sorted := hs.queue ▸ h.sorted
  ldstQueued := by
    rw [hs.ldst, hs.queue]
    exact h.ldstQueued
  aluQueued := by
    rw [hs.alu, hs.queue]
    exact h.aluQueued

/-- Part of the queue is left. -/
theorem of_suffix (h : OnTime cycle r) {prefetcher : StridePrefetcher}
    (hsuffix : prefetcher.queue <:+ r.prefetcher.queue) :
    OnTime cycle { r with prefetcher := prefetcher } where
  ldst := h.ldst
  alu := h.alu
  sorted := h.sorted.sublist hsuffix.sublist
  ldstQueued := fun p hp => h.ldstQueued p (hsuffix.subset hp)
  aluQueued := fun p hp => h.aluQueued p (hsuffix.subset hp)

theorem trainPrefetcher (cfg : Config) (h : OnTime cycle r) (inst : DbInst) :
    Ends (r.trainPrefetcher cfg cycle inst) OffLanes (OnTime cycle) := by
  apply (trainPrefetcher_stops cfg r cycle inst).mono
  · intro e he
    cases e with
    | prefetchVictim => rfl
    | prefetchInvalid => rfl
    | _ => cases he
  · rintro r₁ ⟨hframe, hqueue | hqueue⟩
    · apply h.of_same
      exact ⟨by rw [hframe], by rw [hframe], hqueue⟩
    · rw [hframe]
      exact {
        ldst := h.ldst
        alu := h.alu
        sorted := by
          rw [hqueue]
          exact StridePrefetcher.sorted_lookahead h.sorted _ _
        ldstQueued := by
          rw [hqueue]
          exact StridePrefetcher.after_lookahead h.ldstQueued h.ldst _
        aluQueued := by
          rw [hqueue]
          exact StridePrefetcher.after_lookahead h.aluQueued h.alu _ }

theorem accessL1 (cfg : Config) (r : Resources) (start addr : Nat) (pf : Bool) :
    Ends (r.accessL1 cfg start addr pf) OffLanes fun x => r.SameTimes x.2 := by
  apply (accessL1_stops cfg r start addr pf).mono
  · intro e he
    cases e with
    | cacheIndex => rfl
    | cacheMaxLru => rfl
    | cacheVictimWay => rfl
    | cacheLru => rfl
    | _ => cases he
  · intro x hx
    exact hx.2.sameTimes

theorem executeLoad (cfg : Config) (h : OnTime cycle r) (laneCycle : Nat) (inst : DbInst) :
    Ends (r.executeLoad cfg cycle laneCycle inst) OffLanes fun x => OnTime cycle x.2.2 := by
  unfold Resources.executeLoad
  apply Ends.bind (h.trainPrefetcher cfg inst)
  intro r₁ h₁
  apply Ends.bind (Q := fun x => OnTime cycle x.2)
  · split
    · exact h₁
    · exact (accessL1 cfg r₁ _ _ _).imp fun x hx => h₁.of_same hx
  · rintro ⟨dataCacheCycle, r₂⟩ h₂
    dsimp only
    split
    · rfl
    · split
      · rfl
      · exact h₂

/-- An instruction asks for a cycle after its fetch. -/
theorem execute (cfg : Config) (h : OnTime cycle r) (inst : DbInst) :
    Ends (r.execute cfg cycle inst) OffLanes fun x => OnTime cycle x.2 := by
  unfold Resources.execute
  apply Ends.bind ((sourcesReady_stops r.RF inst (cycle + cfg.pipelineFillLatency)).mono
    (fun e he => he ▸ rfl) fun _ h => h)
  rintro start ⟨hstart, -⟩
  have hfetch : cycle ≤ start := (Nat.le_add_right _ _).trans hstart
  have hlane : ∀ lanes : ResourceSchedule, lanes.baseCycle ≤ cycle →
      Ends (scheduleLane lanes start) OffLanes fun x => x.1.baseCycle = lanes.baseCycle := by
    intro lanes hlanes
    apply (scheduleLane_stops lanes start).mono
    · rintro e (⟨-, hpast⟩ | rfl)
      · exact absurd (hlanes.trans hfetch) (not_le.mpr hpast)
      · rfl
    · exact fun _ hx => hx.1
  apply Ends.bind (Q := fun x => OnTime cycle x.2)
  · split
    · apply Ends.bind (hlane r.ldstLanes h.ldst)
      rintro ⟨lanes, laneCycle⟩ hbase
      exact h.of_same ⟨hbase, rfl, rfl⟩
    · apply Ends.bind (hlane r.aluLanes h.alu)
      rintro ⟨lanes, laneCycle⟩ hbase
      exact h.of_same ⟨rfl, hbase, rfl⟩
  · rintro ⟨laneCycle, r₁⟩ h₁
    dsimp only
    split
    · apply Ends.bind (h₁.executeLoad cfg laneCycle inst)
      rintro ⟨execCycle, sqMiss, r₂⟩ h₂
      exact h₂
    · exact h₁

/-- A prefetch asks for cycles after its generation. -/
theorem issuePrefetch (cfg : Config) (pf : Prefetch) :
    ∀ (n start : Nat) (r : Resources), r.ldstLanes.baseCycle ≤ start →
      Ends (issuePrefetch cfg pf n start r) OffLanes fun x => r.SameTimes x.2 := by
  intro n
  induction n with
  | zero =>
    intro start r _
    exact SameTimes.refl r
  | succ n ih =>
    intro start r hstart
    rw [Resources.issuePrefetch]
    apply Ends.bind ((schedule_stops r.ldstLanes start 0).mono
      (fun e he => absurd hstart (not_le.mpr he.2)) fun _ h => h)
    rintro ⟨lanes, execCycle⟩ hbase
    have hsame : r.SameTimes { r with ldstLanes := lanes } := ⟨hbase, rfl, rfl⟩
    dsimp only at hbase ⊢
    split
    · apply Ends.bind (accessL1 cfg _ execCycle pf.address true)
      rintro ⟨avail, r'⟩ hr'
      exact hsame.trans hr'
    · apply (ih (start + 1) _ (hbase.le.trans (hstart.trans (Nat.le_succ _)))).imp
      intro x hx
      exact hsame.trans hx

/-- Draining the queue. -/
theorem drainPrefetches (cfg : Config) (previousFetchCycle : Nat) :
    ∀ (n : Nat) (r : Resources), OnTime cycle r →
      Ends (drainPrefetches cfg previousFetchCycle cycle n r) OffLanes
        fun x => OnTime cycle x.2 := by
  intro n
  induction n with
  | zero =>
    intro r h
    exact h
  | succ n ih =>
    intro r h
    have hqueue := r.prefetcher.issue_queue cycle
    rw [Resources.drainPrefetches]
    split
    · rename_i prefetcher hissue
      rw [hissue] at hqueue
      exact h.of_suffix hqueue
    · rename_i pf prefetcher hissue
      rw [hissue] at hqueue
      dsimp only at hqueue
      have hmem : pf ∈ r.prefetcher.queue := hqueue.subset List.mem_cons_self
      have hrest := h.of_suffix ((List.suffix_cons pf prefetcher.queue).trans hqueue)
      refine Ends.bind (issuePrefetch cfg pf _ _ _ ?_) ?_
      · exact (h.ldstQueued pf hmem).trans (le_max_right _ _)
      rintro ⟨issued, r₁⟩ h₁
      dsimp only at h₁ ⊢
      split
      · apply Ends.bind (ih r₁ (hrest.of_same h₁))
        rintro ⟨count, r₂⟩ h₂
        exact h₂
      · -- it goes back to the head of the queue, older than the others
        have hsorted := h.sorted.sublist hqueue.sublist
        exact {
          ldst := h₁.ldst.le.trans h.ldst
          alu := h₁.alu.le.trans h.alu
          sorted := by
            rw [StridePrefetcher.putBack]
            dsimp only
            rw [h₁.queue]
            exact hsorted
          ldstQueued := by
            rw [StridePrefetcher.putBack]
            dsimp only
            rw [h₁.ldst, h₁.queue]
            exact fun q hq => h.ldstQueued q (hqueue.subset hq)
          aluQueued := by
            rw [StridePrefetcher.putBack]
            dsimp only
            rw [h₁.alu, h₁.queue]
            exact fun q hq => h.aluQueued q (hqueue.subset hq) }

theorem updateSQ (cfg : Config) (h : OnTime cycle r) (inst : DbInst) (execCycle retired : Nat) :
    Ends (r.updateSQ cfg inst execCycle retired) OffLanes (OnTime cycle) := by
  unfold Resources.updateSQ
  split
  · exact h
  · apply Ends.bind (Q := fun x => OnTime cycle x.2)
    · split
      · exact h
      · exact (accessL1 cfg r _ _ _).imp fun x hx => h.of_same hx
    · rintro ⟨dataCacheCycle, r₁⟩ h₁
      exact h₁.of_same ⟨rfl, rfl, rfl⟩

/-- The next base cycle is past neither the fetch cycle nor a queued prefetch, and not
before the base cycle of a lane. -/
theorem nextBase (h : OnTime cycle r) :
    r.nextBase cycle ≤ cycle ∧ After (r.nextBase cycle) r.prefetcher.queue ∧
      r.ldstLanes.baseCycle ≤ r.nextBase cycle ∧ r.aluLanes.baseCycle ≤ r.nextBase cycle := by
  unfold Resources.nextBase StridePrefetcher.getOldestPfCycle
  cases hqueue : r.prefetcher.queue with
  | nil =>
    refine ⟨le_rfl, ?_, h.ldst, h.alu⟩
    intro q hq
    cases hq
  | cons p queue =>
    have hmem : p ∈ r.prefetcher.queue := hqueue ▸ List.mem_cons_self
    have hsorted := hqueue ▸ h.sorted
    refine ⟨min_le_left _ _, ?_, le_min h.ldst (h.ldstQueued p hmem),
      le_min h.alu (h.aluQueued p hmem)⟩
    intro q hq
    apply (min_le_right _ _).trans
    rcases List.mem_cons.mp hq with rfl | hq
    · exact le_rfl
    · exact (List.pairwise_cons.mp hsorted).1 q hq

/-- Both lanes advance. -/
theorem advance (h : OnTime cycle r) :
    Ends (r.ldstLanes.advanceBaseCycle (r.nextBase cycle)) OffLanes fun ldst =>
      Ends (r.aluLanes.advanceBaseCycle (r.nextBase cycle)) OffLanes fun alu =>
        OnTime cycle { r with ldstLanes := ldst, aluLanes := alu } := by
  obtain ⟨hcycle, hqueued, hldst, halu⟩ := h.nextBase
  apply (advanceBaseCycle_stops r.ldstLanes (r.nextBase cycle)).mono
  · intro e he
    exact absurd hldst (not_le.mpr he.2)
  · intro ldst hldst'
    apply (advanceBaseCycle_stops r.aluLanes (r.nextBase cycle)).mono
    · intro e he
      exact absurd halu (not_le.mpr he.2)
    · intro alu halu'
      exact { ldst := hldst'.trans_le hcycle
              alu := halu'.trans_le hcycle
              sorted := h.sorted
              ldstQueued := hldst' ▸ hqueued
              aluQueued := halu' ▸ hqueued }

end OnTime

end Resources

theorem offLanes_of_ordinary {e : Abort} (h : Ordinary e) : OffLanes e := by
  simp only [Ordinary, Bool.or_eq_false_iff] at h
  exact h.1.1

/-- Without value prediction a step keeps the resources on time. -/
theorem onTime_keeps {cfg : Config} (hvp : cfg.vpEnable = false) (inst : DbInst) :
    Keeps cfg inst OffLanes Resources.OnTime where
  ordinary _ := offLanes_of_ordinary
  later h hle := h.mono hle
  caches h hcaches := h.of_same hcaches.sameTimes
  registers h _ := h.of_same ⟨rfl, rfl, rfl⟩
  track hon := absurd (hon.symm.trans hvp) Bool.noConfusion
  execute h := h.execute cfg inst
  drain h previous n := h.drainPrefetches cfg previous n _
  updateSQ h execCycle retired := h.updateSQ cfg inst execCycle retired
  advance h := h.advance

/-! ## The run -/

variable {P H : Type}

open Uarchsim (simulate Built)

theorem OnTime.built {cfg : Config} {s : Uarchsim P} (h : Built cfg s) :
    s.res.OnTime s.fetchCycle where
  ldst := by
    rw [h.ldstLanes, h.fetchCycle]
    exact le_rfl
  alu := by
    rw [h.aluLanes, h.fetchCycle]
    exact le_rfl
  sorted := by
    rw [h.prefetcher]
    exact .nil
  ldstQueued := by
    rw [h.prefetcher]
    intro q hq
    cases hq
  aluQueued := by
    rw [h.prefetcher]
    intro q hq
    cases hq

/-- **Nothing is scheduled in the past.**  Without value prediction no call of
`schedule` or `advance_base_cycle` fails its assert, and in every state that is
reached the lanes are not past the fetch cycle or a queued prefetch. -/
theorem simulate_onTime (u : Unset) (cfg : Config) (hk : Hooks P H) (p : P)
    (insts : List DbInst) (hvp : cfg.vpEnable = false) :
    (∀ s, simulate u cfg hk p insts = .ok s → s.res.OnTime s.fetchCycle) ∧
      ∀ e, simulate u cfg hk p insts = .error (.abort e) → ofLanes e = false := by
  have run : Ends (simulate u cfg hk p insts) (Admits OffLanes) fun s =>
      s.res.OnTime s.fetchCycle := by
    apply Uarchsim.simulate_keeps
    · exact fun e => offLanes_of_ordinary
    · exact fun s => OnTime.built
    · exact fun inst _ => onTime_keeps hvp inst
    · -- the asserts about a direction are not about the lanes
      exact fun inst _ => ⟨Or.inr rfl, Or.inr rfl⟩
  constructor
  · intro s hs
    exact run.of_ok hs
  · intro e he
    exact run.of_error he

/-- Loads of one instruction, a line apart: two prefetches are issued for them. -/
def stridedLoads : List DbInst :=
  (List.range 5).map fun i =>
    { regInst .load 64 (intReg 1) {} (intReg 1) with addr := 4096 + 64 * i }

theorem simulate_onTime_stridedLoads :
    ∃ s, simulate ⟨fun _ => ⟨0, 0, 0⟩, 0⟩ {} idlePredictors () stridedLoads = .ok s ∧
      s.res.OnTime s.fetchCycle := by
  obtain ⟨s, hs⟩ := exists_of_isOk
    (show (simulate ⟨fun _ => ⟨0, 0, 0⟩, 0⟩ {} idlePredictors () stridedLoads).isOk = true by
      decide +kernel)
  exact ⟨s, hs, (simulate_onTime _ _ _ _ _ rfl).1 s hs⟩

end CbpSim.Core
