/-
  Core/CacheTraffic.lean --- what the simulator asks its caches for.

  Source: src/lib/uarchsim.cc, the accesses to `IC` and `L1` in `step` and the
  measurements of the memory hierarchy in `output`.

  The four caches of the simulator are a hierarchy, and a step sends requests to it:
  for the fetch of the instruction, for its load, for the prefetches that are due,
  and for its store.  A run is therefore a run of the hierarchy, and the counters
  that `output` prints can be told from the trace.
-/
import CbpSim.Core.Course
import CbpSim.Memory.Contents

set_option autoImplicit false

namespace CbpSim.Core

open CbpSim.Foundation CbpSim.Lanes CbpSim.Memory

variable {P H : Type}

/-! ## The requests of an instruction -/

/-- The access to `IC` at `cycle`. -/
def fetchRequests (cfg : Config) (cycle : Nat) (inst : DbInst) : List Request :=
  if cfg.fetchModelIcache then [⟨.IC, cycle, inst.pc, false⟩] else []

/-- The access to `L1` of a load that was given a lane at `laneCycle`. -/
def loadRequests (cfg : Config) (laneCycle : Nat) (inst : DbInst) : List Request :=
  if inst.isLoad && !cfg.perfectCache then [⟨.L1, laneCycle + 1, inst.addr, false⟩] else []

/-- The access to `L1` of a store that executes at `execCycle`. -/
def storeRequests (cfg : Config) (execCycle : Nat) (inst : DbInst) : List Request :=
  if inst.isStore && cfg.writeAllocate && !cfg.perfectCache then
    [⟨.L1, execCycle, inst.addr, false⟩]
  else []

/-- What a step asks the caches, and what they answer. -/
structure Accesses where
  fetch : List Exchange
  load : List Exchange
  prefetches : List Exchange
  store : List Exchange

/-- In the order of the step. -/
def Accesses.log (a : Accesses) : List Exchange := a.fetch ++ a.load ++ a.prefetches ++ a.store

/-- A prefetch goes to `L1`. -/
def IsPrefetch (e : Exchange) : Prop := e.1.level = .L1 ∧ e.1.pf = true

/-- `a` are the accesses of the step that fetched `x`. -/
structure Accesses.Of (cfg : Config) (x : Fetched P) (a : Accesses) : Prop where
  fetch : ∃ cycle, a.fetch.map (·.1) = fetchRequests cfg cycle x.inst
  fetched : ∀ e ∈ a.fetch, e.2 = x.fetchCycle
  load : a.load.map (·.1) = loadRequests cfg x.laneCycle x.inst
  prefetches : ∀ e ∈ a.prefetches, IsPrefetch e
  enabled : cfg.prefetcherEnable = false → a.prefetches = []
  store : a.store.map (·.1) = storeRequests cfg x.execCycle x.inst

namespace Resources

variable {cfg : Config} {r r' : Resources} {inst : DbInst}

/-- The caches among the resources. -/
def hierarchy (r : Resources) : Hierarchy
  | .IC => r.IC
  | .L1 => r.L1
  | .L2 => r.L2
  | .L3 => r.L3

/-- An access to a cache and two levels below it gives back three caches. -/
theorem accessLevels_three {latency cycle addr avail : Nat} {pf : Bool} {c₁ c₂ c₃ : Cache}
    {levels : List Cache}
    (h : accessLevels latency [c₁, c₂, c₃] cycle addr pf = .ok (avail, levels)) :
    ∃ c₁' c₂' c₃', levels = [c₁', c₂', c₃'] := by
  have hlatency := ((Cache.accessLevels_latency latency [c₁, c₂, c₃] addr pf cycle).of_ok h).2
  have hlength : levels.length = 3 := by simpa using congrArg List.length hlatency
  exact List.length_eq_three.mp hlength

/-- `L1.access` is an access to the hierarchy. -/
theorem accessL1_hierarchy {cycle addr avail : Nat} {pf : Bool}
    (h : r.accessL1 cfg cycle addr pf = .ok (avail, r')) :
    Hierarchy.access cfg r.hierarchy ⟨.L1, cycle, addr, pf⟩ = .ok (avail, r'.hierarchy) := by
  unfold accessL1 at h
  obtain ⟨⟨avail', levels⟩, hlevels, h⟩ := bind_eq_ok.mp h
  obtain ⟨l1, l2, l3, rfl⟩ := accessLevels_three hlevels
  cases h
  unfold Hierarchy.access
  rw [show accessLevels cfg.mainMemoryLatency (List.map r.hierarchy (Level.path .L1)) cycle addr pf =
    .ok (avail, [l1, l2, l3]) from hlevels, ok_bind]
  refine congrArg (fun h => Except.ok (avail, h)) ?_
  funext level
  cases level with
  | IC => rfl
  | L1 => rfl
  | L2 => rfl
  | L3 => rfl

/-- `IC.access` is an access to the hierarchy. -/
theorem accessIC_hierarchy {cycle addr avail : Nat}
    (h : r.accessIC cfg cycle addr = .ok (avail, r')) :
    Hierarchy.access cfg r.hierarchy ⟨.IC, cycle, addr, false⟩ = .ok (avail, r'.hierarchy) := by
  unfold accessIC at h
  obtain ⟨⟨avail', levels⟩, hlevels, h⟩ := bind_eq_ok.mp h
  obtain ⟨ic, l2, l3, rfl⟩ := accessLevels_three hlevels
  cases h
  unfold Hierarchy.access
  rw [show accessLevels cfg.mainMemoryLatency (List.map r.hierarchy (Level.path .IC)) cycle addr
    false = .ok (avail, [ic, l2, l3]) from hlevels, ok_bind]
  refine congrArg (fun h => Except.ok (avail, h)) ?_
  funext level
  cases level with
  | IC => rfl
  | L1 => rfl
  | L2 => rfl
  | L3 => rfl

/-- Asking whether a load would hit is no access. -/
theorem getValuePredictionReq_hierarchy {fetchCycle seqNo piece : Nat} {req : PredictionRequest}
    (h : r.getValuePredictionReq cfg fetchCycle seqNo piece inst = .ok (req, r')) :
    r'.hierarchy = r.hierarchy := by
  unfold getValuePredictionReq at h
  dsimp only at h
  cases htrack : cfg.vpTrack with
  | all =>
    rw [htrack] at h
    cases h
    rfl
  | loadsOnly =>
    rw [htrack] at h
    cases h
    rfl
  | loadsOnlyHitMiss =>
    rw [htrack] at h
    dsimp only at h
    split at h
    · cases h
      rfl
    · obtain ⟨⟨execCycle, r₁⟩, hcycle, h⟩ := bind_eq_ok.mp h
      obtain ⟨cacheHit, -, h⟩ := bind_eq_ok.mp h
      cases h
      unfold getLoadExecCycle at hcycle
      obtain ⟨start, -, hcycle⟩ := bind_eq_ok.mp hcycle
      obtain ⟨⟨lanes, slot⟩, -, hcycle⟩ := bind_eq_ok.mp hcycle
      cases hcycle
      rfl
  | other n =>
    rw [htrack] at h
    cases h

theorem trainPrefetcher_hierarchy {fetchCycle : Nat}
    (h : r.trainPrefetcher cfg fetchCycle inst = .ok r') : r'.hierarchy = r.hierarchy := by
  unfold trainPrefetcher at h
  split at h
  · obtain ⟨prefetcher, -, h⟩ := bind_eq_ok.mp h
    cases h
    rfl
  · cases h
    rfl

/-- A load asks `L1`, unless the cache is perfect. -/
theorem executeLoad_serves {fetchCycle laneCycle execCycle : Nat} {sqMiss : Bool}
    (h : r.executeLoad cfg fetchCycle laneCycle inst = .ok (execCycle, sqMiss, r')) :
    ∃ load : List Exchange, load.map (·.1) =
        (if cfg.perfectCache then [] else [⟨.L1, laneCycle + 1, inst.addr, false⟩]) ∧
      Hierarchy.Serves cfg r.hierarchy load r'.hierarchy := by
  unfold executeLoad at h
  obtain ⟨r₁, htrain, h⟩ := bind_eq_ok.mp h
  obtain ⟨⟨dataCacheCycle, r₂⟩, haccess, h⟩ := bind_eq_ok.mp h
  obtain ⟨-, h⟩ := guard_eq_ok.mp h
  obtain ⟨-, h⟩ := guard_eq_ok.mp h
  cases h
  rw [← trainPrefetcher_hierarchy htrain]
  split at haccess
  · rename_i hperfect
    cases haccess
    rw [if_pos hperfect]
    exact ⟨[], rfl, .nil _⟩
  · rename_i hperfect
    rw [if_neg hperfect]
    exact ⟨[(_, dataCacheCycle)], rfl, .single (accessL1_hierarchy haccess)⟩

/-- The execution of an instruction asks `L1` for its load; only a load misses the store
queue. -/
theorem execute_serves {fetchCycle : Nat} {t : Timing}
    (h : r.execute cfg fetchCycle inst = .ok (t, r')) :
    (t.sqMiss = true → inst.isLoad = true) ∧
    ∃ load : List Exchange, load.map (·.1) = loadRequests cfg t.laneCycle inst ∧
      Hierarchy.Serves cfg r.hierarchy load r'.hierarchy := by
  unfold execute at h
  obtain ⟨start, -, h⟩ := bind_eq_ok.mp h
  obtain ⟨⟨laneCycle, r₁⟩, hlane, h⟩ := bind_eq_ok.mp h
  have hr₁ : r₁.hierarchy = r.hierarchy := by
    split at hlane
    · obtain ⟨⟨lanes, cycle⟩, -, hlane⟩ := bind_eq_ok.mp hlane
      cases hlane
      rfl
    · obtain ⟨⟨lanes, cycle⟩, -, hlane⟩ := bind_eq_ok.mp hlane
      cases hlane
      rfl
  rw [← hr₁]
  dsimp only at h
  split at h
  · rename_i hload
    obtain ⟨⟨execCycle, sqMiss, r₂⟩, hexecute, h⟩ := bind_eq_ok.mp h
    cases h
    obtain ⟨load, hrequests, hserves⟩ := executeLoad_serves hexecute
    refine ⟨fun _ => hload, load, ?_, hserves⟩
    rw [hrequests, loadRequests, hload, Bool.true_and]
    cases cfg.perfectCache with
    | true => rfl
    | false => rfl
  · rename_i hload
    cases h
    rw [Bool.not_eq_true] at hload
    refine ⟨fun hmiss => absurd hmiss Bool.false_ne_true, [], ?_, .nil _⟩
    rw [loadRequests, hload]
    rfl

/-- A prefetch that finds a slot is one access. -/
theorem issuePrefetch_serves {pf : Prefetch} {n cycle : Nat} {issued : Bool}
    (h : issuePrefetch cfg pf n cycle r = .ok (issued, r')) :
    ∃ log : List Exchange, log.length = issued.toNat ∧ (∀ e ∈ log, IsPrefetch e) ∧
      Hierarchy.Serves cfg r.hierarchy log r'.hierarchy := by
  induction n generalizing cycle r with
  | zero =>
    cases h
    exact ⟨[], rfl, by simp, .nil _⟩
  | succ n ih =>
    rw [issuePrefetch] at h
    obtain ⟨⟨lanes, execCycle⟩, -, h⟩ := bind_eq_ok.mp h
    dsimp only at h
    generalize hr₀ : ({ r with ldstLanes := lanes } : Resources) = r₀ at h
    have hsame : r.hierarchy = r₀.hierarchy := by
      rw [← hr₀]
      rfl
    rw [hsame]
    split at h
    · obtain ⟨⟨avail, r₁⟩, haccess, h⟩ := bind_eq_ok.mp h
      cases h
      refine ⟨[(_, avail)], rfl, ?_, .single (accessL1_hierarchy haccess)⟩
      intro e he
      rw [List.mem_singleton.mp he]
      exact ⟨rfl, rfl⟩
    · exact ih h

/-- The prefetches that are issued are accesses to `L1`. -/
theorem drainPrefetches_serves {previousFetchCycle fetchCycle n issued : Nat}
    (h : r.drainPrefetches cfg previousFetchCycle fetchCycle n = .ok (issued, r')) :
    ∃ log : List Exchange, log.length = issued ∧ (∀ e ∈ log, IsPrefetch e) ∧
      Hierarchy.Serves cfg r.hierarchy log r'.hierarchy := by
  induction n generalizing r issued with
  | zero =>
    cases h
    exact ⟨[], rfl, by simp, .nil _⟩
  | succ n ih =>
    rw [drainPrefetches] at h
    split at h
    · cases h
      exact ⟨[], rfl, by simp, .nil _⟩
    · obtain ⟨⟨found, r₁⟩, hissue, h⟩ := bind_eq_ok.mp h
      obtain ⟨log, hlength, hprefetch, hserves⟩ := issuePrefetch_serves hissue
      cases found with
      | true =>
        obtain ⟨⟨count, r₂⟩, hdrain, h⟩ := bind_eq_ok.mp h
        cases h
        obtain ⟨log', hlength', hprefetch', hserves'⟩ := ih hdrain
        refine ⟨log ++ log', ?_, ?_, hserves.append hserves'⟩
        · rw [List.length_append, hlength, hlength', Bool.toNat_true, Nat.add_comm]
        · intro e he
          exact (List.mem_append.mp he).elim (hprefetch e) (hprefetch' e)
      | false =>
        cases h
        exact ⟨log, hlength, hprefetch, hserves⟩

/-- A store asks `L1` if it allocates. -/
theorem updateSQ_serves {execCycle retired : Nat}
    (h : r.updateSQ cfg inst execCycle retired = .ok r') :
    ∃ store : List Exchange, store.map (·.1) = storeRequests cfg execCycle inst ∧
      Hierarchy.Serves cfg r.hierarchy store r'.hierarchy := by
  unfold updateSQ at h
  split at h
  · rename_i hstore
    cases h
    refine ⟨[], ?_, .nil _⟩
    rw [Bool.not_eq_true'] at hstore
    rw [storeRequests, hstore]
    rfl
  · rename_i hstore
    obtain ⟨⟨dataCacheCycle, r₁⟩, haccess, h⟩ := bind_eq_ok.mp h
    cases h
    have hstore : inst.isStore = true := by simpa using hstore
    rw [storeRequests, hstore, Bool.true_and]
    split at haccess
    · rename_i hskip
      cases haccess
      refine ⟨[], ?_, .nil _⟩
      rw [if_neg]
      · rfl
      · intro hasks
        simp only [Bool.and_eq_true, Bool.or_eq_true, Bool.not_eq_true'] at hasks hskip
        rcases hskip with h | h
        · exact Bool.false_ne_true (h.symm.trans hasks.1)
        · exact Bool.false_ne_true (hasks.2.symm.trans h)
    · rename_i hask
      have hserves := Hierarchy.Serves.single (accessL1_hierarchy haccess)
      refine ⟨[(_, dataCacheCycle)], ?_, hserves⟩
      rw [if_pos]
      · rfl
      · simpa using hask

end Resources

/-! ## A step -/

section Step

variable {cfg : Config} {hk : Hooks P H} {s s' : Uarchsim P} {inst : DbInst} {c : Course P}

open Uarchsim

/-- The fetch of an instruction asks `IC`, and waits for the answer. -/
theorem Course.Leads.fetch_serves (h : Course.Leads cfg hk s inst c) :
    ∃ cycle, ∃ fetch : List Exchange, fetch.map (·.1) = fetchRequests cfg cycle inst ∧
      (∀ e ∈ fetch, e.2 = c.before.fetchCycle) ∧
      Hierarchy.Serves cfg s.res.hierarchy fetch c.before.res.hierarchy := by
  obtain ⟨-, piece, pipe, -, hbegun⟩ := beginStep_eq_ok h.begun
  obtain ⟨res, hooks, -, htrack, hbefore⟩ := predictValue_eq_ok h.before
  have hres : c.before.res.hierarchy = c.blocked.res.hierarchy := by
    rw [hbefore]
    rcases htrack with rfl | ⟨req, hreq⟩
    · rfl
    · exact Resources.getValuePredictionReq_hierarchy hreq
  have hcycle : c.before.fetchCycle = c.blocked.fetchCycle := by rw [hbefore]
  have hstart : s.res = c.begun.res := by rw [hbegun]
  rw [hres, hcycle, hstart]
  have hblocked := h.blocked
  unfold fetchBlock at hblocked
  unfold fetchRequests
  split at hblocked
  · rename_i hmodel
    obtain ⟨⟨next, res₁⟩, haccess, hblocked⟩ := bind_eq_ok.mp hblocked
    obtain ⟨-, hblocked⟩ := guard_eq_ok.mp hblocked
    obtain ⟨pipe₁, -, hblocked⟩ := bind_eq_ok.mp hblocked
    have hserves := Hierarchy.Serves.single (Resources.accessIC_hierarchy (lift_eq_ok.mp haccess))
    rw [← Except.ok.inj hblocked]
    refine ⟨c.begun.fetchCycle, [(⟨.IC, c.begun.fetchCycle, inst.pc, false⟩, next)], ?_, ?_,
      hserves⟩
    · rw [if_pos hmodel]
      rfl
    · intro e he
      rw [List.mem_singleton.mp he]
  · rename_i hmodel
    rw [← Except.ok.inj hblocked]
    refine ⟨0, [], ?_, by simp, .nil _⟩
    rw [if_neg hmodel]
    rfl

/-- The prefetches of a step are those it counts. -/
theorem schedule_serves {t : Timing} {a : Uarchsim P} (h : s.schedule cfg inst = .ok (t, a)) :
    (t.sqMiss = true → inst.isLoad = true) ∧
    ∃ load prefetches : List Exchange, load.map (·.1) = loadRequests cfg t.laneCycle inst ∧
      (∀ e ∈ prefetches, IsPrefetch e) ∧ (cfg.prefetcherEnable = false → prefetches = []) ∧
      a.statPfsIssuedToMem = s.statPfsIssuedToMem + prefetches.length ∧
      Hierarchy.Serves cfg s.res.hierarchy (load ++ prefetches) a.res.hierarchy := by
  obtain ⟨res₁, issued, res₂, hexecute, hdrain, rfl⟩ := schedule_eq_ok h
  obtain ⟨hmiss, load, hload, hserves⟩ := Resources.execute_serves hexecute
  refine ⟨hmiss, ?_⟩
  split at hdrain
  · rename_i henabled
    obtain ⟨prefetches, hlength, hprefetch, hserves'⟩ := Resources.drainPrefetches_serves hdrain
    refine ⟨load, prefetches, hload, hprefetch, ?_, ?_, hserves.append hserves'⟩
    · intro hoff
      exact absurd (hoff.symm.trans henabled) Bool.false_ne_true
    · rw [hlength]
  · cases hdrain
    refine ⟨load, [], hload, by simp, fun _ => rfl, rfl, ?_⟩
    rw [List.append_nil]
    exact hserves

/-- What a step asks, it asks in this order. -/
theorem Course.Of.serves (h : Course.Of cfg hk s inst c s') :
    (c.timing.sqMiss = true → inst.isLoad = true) ∧
    ∃ a : Accesses, a.Of cfg (c.fetched cfg inst) ∧
      s'.statPfsIssuedToMem = s.statPfsIssuedToMem + a.prefetches.length ∧
      Hierarchy.Serves cfg s.res.hierarchy a.log s'.res.hierarchy := by
  obtain ⟨cycle, fetch, hfetch, hfetched, hserves⟩ := h.fetch_serves
  obtain ⟨hmiss, load, prefetches, hload, hprefetch, henabled, hissued, hserves'⟩ :=
    schedule_serves h.scheduled
  obtain ⟨RF, res, _, _, _, hstores, hwritten⟩ := writeBack_eq_ok h.written
  obtain ⟨store, hstore, hserves''⟩ := Resources.updateSQ_serves hstores
  have hlast : s'.res.hierarchy = res.hierarchy := by
    rw [h.last_eq.2, h.managed_eq.2.2, hwritten]
    rfl
  have hstat : s'.statPfsIssuedToMem = c.scheduled.statPfsIssuedToMem := by
    rw [h.last_eq.2, h.managed_eq.2.2, hwritten]
  have hstat' : c.before.statPfsIssuedToMem = s.statPfsIssuedToMem := by rw [h.before_eq.2]
  refine ⟨hmiss, ⟨fetch, load, prefetches, store⟩, ?_, ?_, ?_⟩
  · exact ⟨⟨cycle, hfetch⟩, hfetched, hload, hprefetch, henabled, hstore⟩
  · rw [hstat, hissued, hstat']
  · rw [Accesses.log, hlast, List.append_assoc fetch]
    exact (hserves.append hserves').append hserves''

end Step

/-! ## A run -/

/-- The loads of a trace. -/
def loads (insts : List DbInst) : Nat := insts.countP (·.isLoad)

/-- The stores of a trace. -/
def stores (insts : List DbInst) : Nat := insts.countP (·.isStore)

/-- The accesses of a run, those of each instruction in turn. -/
structure AccessesOf (cfg : Config) (insts : List DbInst) (h : Hierarchy)
    (accesses : List Accesses) (s : Uarchsim P) : Prop where
  each : List.Forall₂ (fun x a => Accesses.Of cfg x a) s.fetched accesses
  trace : s.fetched.map (·.inst) = insts
  serves : Hierarchy.Serves cfg h (accesses.flatMap Accesses.log) s.res.hierarchy
  issued : s.statPfsIssuedToMem = (accesses.map (·.prefetches.length)).sum
  numLoad : s.numLoad = loads insts
  numLoadSqmiss : s.numLoadSqmiss ≤ s.numLoad

section Run

variable {cfg : Config} {hk : Hooks P H} {s₀ s s' : Uarchsim P} {insts : List DbInst}
  {h : Hierarchy} {accesses : List Accesses}

open Uarchsim

theorem AccessesOf.step {inst : DbInst} {c : Course P} (hs : AccessesOf cfg insts h accesses s)
    (hc : Course.Of cfg hk s inst c s') :
    ∃ a, AccessesOf cfg (insts ++ [inst]) h (accesses ++ [a]) s' := by
  obtain ⟨hmiss, a, ha, hissued, hserves⟩ := hc.serves
  have hfetched : s'.fetched = s.fetched ++ [c.fetched cfg inst] := by
    rw [hc.last, hc.before_eq.2]
  have hload : s'.numLoad = s.numLoad + inst.isLoad.toNat := by
    rw [hc.last_eq.2, hc.managed_eq.2.2, hc.written_eq, hc.before_eq.2]
  have hsq : s'.numLoadSqmiss = s.numLoadSqmiss + c.timing.sqMiss.toNat := by
    rw [hc.last_eq.2, hc.managed_eq.2.2, hc.written_eq, hc.before_eq.2]
  have hle : c.timing.sqMiss.toNat ≤ inst.isLoad.toNat := by
    cases hm : c.timing.sqMiss with
    | false => exact Nat.zero_le _
    | true => rw [hmiss hm]
  refine ⟨a, ?_⟩
  exact {
    each := by
      rw [hfetched]
      exact List.rel_append hs.each (.cons ha .nil)
    trace := by
      rw [hfetched, List.map_append, hs.trace]
      rfl
    serves := by
      rw [List.flatMap_append, List.flatMap_singleton]
      exact hs.serves.append hserves
    issued := by
      rw [hissued, hs.issued, List.map_append, List.sum_append]
      simp
    numLoad := by
      rw [hload, hs.numLoad, loads, loads, List.countP_append, List.countP_singleton]
      cases inst.isLoad with
      | false => rfl
      | true => rfl
    numLoadSqmiss := by
      rw [hload, hsq]
      exact Nat.add_le_add hs.numLoadSqmiss hle }

/-- The caches of the constructed simulator. -/
theorem new_hierarchy {u : Unset} {p : P} (hnew : Uarchsim.new u cfg p = .ok s₀) :
    Hierarchy.new u.cache cfg = .ok s₀.res.hierarchy ∧
      AccessesOf cfg [] s₀.res.hierarchy [] s₀ := by
  unfold Uarchsim.new at hnew
  obtain ⟨L3, hL3, hnew⟩ := bind_eq_ok.mp hnew
  obtain ⟨L2, hL2, hnew⟩ := bind_eq_ok.mp hnew
  obtain ⟨L1, hL1, hnew⟩ := bind_eq_ok.mp hnew
  obtain ⟨IC, hIC, hnew⟩ := bind_eq_ok.mp hnew
  obtain ⟨-, hnew⟩ := guard_eq_ok.mp hnew
  obtain ⟨-, hnew⟩ := guard_eq_ok.mp hnew
  obtain ⟨-, hnew⟩ := guard_eq_ok.mp hnew
  cases hnew
  refine ⟨?_, .nil, rfl, .nil _, rfl, rfl, le_rfl⟩
  unfold Hierarchy.new
  rw [hL3, ok_bind, hL2, ok_bind, hL1, ok_bind, hIC, ok_bind]
  refine congrArg Except.ok ?_
  funext level
  cases level with
  | IC => rfl
  | L1 => rfl
  | L2 => rfl
  | L3 => rfl

/-- The accesses of a run of the constructed simulator. -/
theorem AccessesOf.ran {u : Unset} {p : P} {log : List (DbInst × Course P)}
    (hnew : Uarchsim.new u cfg p = .ok s₀) (hran : Ran cfg hk s₀ log s) :
    ∃ accesses, AccessesOf cfg (log.map (·.1)) s₀.res.hierarchy accesses s := by
  induction hran with
  | nil => exact ⟨[], (new_hierarchy hnew).2⟩
  | snoc _ hc ih =>
    obtain ⟨accesses, h⟩ := ih
    obtain ⟨a, h'⟩ := h.step hc
    rw [List.map_append]
    exact ⟨_, h'⟩

/-- **A run is a run of the hierarchy.**  The caches at the end of a simulation are those
that answered, one instruction after the other, the access of the fetch, which answers
with the fetch cycle, the access of the load one cycle after it was given a lane, the
prefetches that were counted, and the access of the store when it executes. -/
theorem simulate_serves (u : Unset) (cfg : Config) (hk : Hooks P H) (p : P) (insts : List DbInst)
    (hrun : simulate u cfg hk p insts = .ok s) :
    ∃ h accesses, Hierarchy.new u.cache cfg = .ok h ∧
      AccessesOf cfg insts h accesses s := by
  obtain ⟨s₀, hnew, log, hran, rfl⟩ := simulate_eq_ok.mp hrun
  obtain ⟨accesses, h⟩ := AccessesOf.ran hnew hran
  exact ⟨_, accesses, (new_hierarchy hnew).1, h⟩

/-- A load, a store to the same block and a load of another one. -/
def loadStoreLoad : List DbInst :=
  [regInst .load 64 (intReg 1) {} (intReg 2), regInst .store 68 (intReg 2) {} {},
    { regInst .load 72 (intReg 1) {} (intReg 3) with addr := 8192 }]

theorem simulate_serves_loadStoreLoad :
    ∃ s h accesses, simulate ⟨fun _ => ⟨0, 0, 0⟩, 0⟩ { windowSize := 8 } idlePredictors ()
        loadStoreLoad = .ok s ∧ Hierarchy.new (fun _ => ⟨0, 0, 0⟩) { windowSize := 8 } = .ok h ∧
      AccessesOf { windowSize := 8 } loadStoreLoad h accesses s := by
  obtain ⟨s, hs⟩ := exists_of_isOk (show (simulate ⟨fun _ => ⟨0, 0, 0⟩, 0⟩ { windowSize := 8 }
    idlePredictors () loadStoreLoad).isOk = true by decide +kernel)
  obtain ⟨h, accesses, hnew, ha⟩ := simulate_serves _ _ _ _ _ hs
  exact ⟨s, h, accesses, hs, hnew, ha⟩

/-! ## The counters -/

/-- The counters of the caches, as `output` prints them. -/
structure MemoryReport (u : Unset) (cfg : Config) (insts : List DbInst) (s : Uarchsim P) :
    Prop where
  numLoad : s.numLoad = loads insts
  numLoadSqmiss : s.numLoadSqmiss ≤ s.numLoad
  IC : s.res.IC.accesses = if cfg.fetchModelIcache then insts.length else 0
  L1 : s.res.L1.accesses =
    if cfg.perfectCache then 0 else loads insts + if cfg.writeAllocate then stores insts else 0
  missesIC : s.res.IC.misses ≤ s.res.IC.accesses
  L2 : s.res.L2.accesses = s.res.IC.misses + s.res.L1.misses
  L3 : s.res.L3.accesses = s.res.L2.misses
  prefetchIC : s.res.IC.pfAccesses = (u.cache .IC).pfAccesses ∧
    s.res.IC.pfMisses = (u.cache .IC).pfMisses
  prefetchL1 : s.res.L1.pfAccesses = (u.cache .L1).pfAccesses + s.statPfsIssuedToMem
  prefetchL2 : s.res.L2.pfAccesses + (u.cache .L1).pfMisses =
    (u.cache .L2).pfAccesses + s.res.L1.pfMisses
  prefetchL3 : s.res.L3.pfAccesses + (u.cache .L2).pfMisses =
    (u.cache .L3).pfAccesses + s.res.L2.pfMisses

/-- The requests of an instruction. -/
theorem Accesses.Of.requests {x : Fetched P} {a : Accesses} (ha : a.Of cfg x) :
    ∃ cycle, a.log.map (·.1) = fetchRequests cfg cycle x.inst ++
      loadRequests cfg x.laneCycle x.inst ++ a.prefetches.map (·.1) ++
        storeRequests cfg x.execCycle x.inst := by
  obtain ⟨cycle, hfetch⟩ := ha.fetch
  refine ⟨cycle, ?_⟩
  rw [Accesses.log, List.map_append, List.map_append, List.map_append, hfetch, ha.load, ha.store]

/-- The numbers of requests of a trace with `issued` prefetches. -/
structure RequestCounts (cfg : Config) (insts : List DbInst) (requests : List Request)
    (issued : Nat) : Prop where
  upper : Hierarchy.Upper requests
  IC : Hierarchy.asked requests .IC false = if cfg.fetchModelIcache then insts.length else 0
  L1 : Hierarchy.asked requests .L1 false =
    if cfg.perfectCache then 0 else loads insts + if cfg.writeAllocate then stores insts else 0
  prefetchIC : Hierarchy.asked requests .IC true = 0
  prefetchL1 : Hierarchy.asked requests .L1 true = issued

theorem Accesses.Of.counts {x : Fetched P} {a : Accesses} (ha : a.Of cfg x) :
    RequestCounts cfg [x.inst] (a.log.map (·.1)) a.prefetches.length := by
  obtain ⟨cycle, hrequests⟩ := ha.requests
  have hfetch : ∀ r ∈ fetchRequests cfg cycle x.inst, r.level = .IC ∧ r.pf = false := by
    intro r hr
    obtain ⟨-, hr⟩ := List.mem_ite_nil_right.mp hr
    rw [List.mem_singleton.mp hr]
    exact ⟨rfl, rfl⟩
  have hload : ∀ r ∈ loadRequests cfg x.laneCycle x.inst, r.level = .L1 ∧ r.pf = false := by
    intro r hr
    obtain ⟨-, hr⟩ := List.mem_ite_nil_right.mp hr
    rw [List.mem_singleton.mp hr]
    exact ⟨rfl, rfl⟩
  have hstore : ∀ r ∈ storeRequests cfg x.execCycle x.inst, r.level = .L1 ∧ r.pf = false := by
    intro r hr
    obtain ⟨-, hr⟩ := List.mem_ite_nil_right.mp hr
    rw [List.mem_singleton.mp hr]
    exact ⟨rfl, rfl⟩
  have hprefetch : ∀ r ∈ a.prefetches.map (·.1), r.level = .L1 ∧ r.pf = true :=
    List.forall_mem_map.mpr ha.prefetches
  rw [hrequests]
  refine ⟨?_, ?_, ?_, ?_, ?_⟩
  · intro r hr
    simp only [List.mem_append] at hr
    rcases hr with ((hr | hr) | hr) | hr
    · exact Or.inl (hfetch r hr).1
    · exact Or.inr (hload r hr).1
    · exact Or.inr (hprefetch r hr).1
    · exact Or.inr (hstore r hr).1
  all_goals
    rw [Hierarchy.asked_append, Hierarchy.asked_append, Hierarchy.asked_append,
      Hierarchy.asked_of_kind hfetch, Hierarchy.asked_of_kind hload,
      Hierarchy.asked_of_kind hprefetch, Hierarchy.asked_of_kind hstore]
  · unfold fetchRequests
    cases cfg.fetchModelIcache with
    | false => rfl
    | true => rfl
  · unfold loadRequests storeRequests loads stores
    rw [List.countP_singleton, List.countP_singleton]
    cases cfg.perfectCache <;> cases cfg.writeAllocate <;> cases x.inst.isLoad <;>
      cases x.inst.isStore <;> rfl
  · rfl
  · simp

/-- The numbers add up. -/
theorem RequestCounts.append {insts insts' : List DbInst} {requests requests' : List Request}
    {issued issued' : Nat} (h : RequestCounts cfg insts requests issued)
    (h' : RequestCounts cfg insts' requests' issued') :
    RequestCounts cfg (insts ++ insts') (requests ++ requests') (issued + issued') where
  upper := fun r hr => (List.mem_append.mp hr).elim (h.upper r) (h'.upper r)
  IC := by
    rw [Hierarchy.asked_append, h.IC, h'.IC, List.length_append]
    split
    · rfl
    · rfl
  L1 := by
    rw [Hierarchy.asked_append, h.L1, h'.L1, loads, loads, loads, stores, stores, stores,
      List.countP_append, List.countP_append]
    split
    · rfl
    · split
      · omega
      · omega
  prefetchIC := by rw [Hierarchy.asked_append, h.prefetchIC, h'.prefetchIC]
  prefetchL1 := by rw [Hierarchy.asked_append, h.prefetchL1, h'.prefetchL1]

/-- The numbers of requests of a run. -/
theorem AccessesOf.counts (hs : AccessesOf cfg insts h accesses s) :
    RequestCounts cfg insts ((accesses.flatMap Accesses.log).map (·.1)) s.statPfsIssuedToMem := by
  rw [hs.issued, ← hs.trace]
  have each := hs.each
  clear hs
  generalize s.fetched = fetched at each
  induction each with
  | nil =>
    refine ⟨by simp [Hierarchy.Upper], ?_, ?_, rfl, rfl⟩
    · simp [Hierarchy.asked]
    · simp [Hierarchy.asked, loads, stores]
  | cons ha _ ih =>
    rw [List.flatMap_cons, List.map_append]
    exact ha.counts.append ih

theorem AccessesOf.report {u : Unset} (hs : AccessesOf cfg insts h accesses s)
    (hnew : Hierarchy.new u.cache cfg = .ok h) : MemoryReport u cfg insts s := by
  have hcounts := hs.counts
  have demand := hs.serves.moved hcounts.upper false
  have prefetch := hs.serves.moved hcounts.upper true
  -- demand traffic is counted from zero, prefetch traffic from what was there
  have zero := fun level misses => (Hierarchy.new_counter hnew level misses).1
  have start := fun level misses => (Hierarchy.new_counter hnew level misses).2
  have hIC := demand.IC
  have hL1 := demand.L1
  have hL2 := demand.L2
  have hL3 := demand.L3
  rw [hcounts.IC, zero, Nat.zero_add] at hIC
  rw [hcounts.L1, zero, Nat.zero_add] at hL1
  simp only [zero, Nat.add_zero, Nat.zero_add] at hL2 hL3
  have hmissIC := prefetch.still hcounts.prefetchIC
  have hIC' := prefetch.IC
  have hL1' := prefetch.L1
  have hL2' := prefetch.L2
  have hL3' := prefetch.L3
  rw [start] at hmissIC
  rw [hcounts.prefetchIC, start] at hIC'
  rw [hcounts.prefetchL1, start] at hL1'
  simp only [start, hmissIC, if_true, Bool.false_eq_true, if_false] at hL2' hL3'
  exact {
    numLoad := hs.numLoad
    numLoadSqmiss := hs.numLoadSqmiss
    IC := hIC
    L1 := hL1
    missesIC := (Hierarchy.run_conserved_demand hnew hcounts.upper hs.serves).le .IC
    L2 := hL2
    L3 := hL3
    prefetchIC := ⟨hIC', hmissIC⟩
    prefetchL1 := hL1'
    prefetchL2 := by
      have hL2 : (s.res.hierarchy .L2).counter true false + (u.cache .L1).pfMisses =
          (u.cache .L2).pfAccesses + (s.res.hierarchy .L1).counter true true := by omega
      exact hL2
    prefetchL3 := hL3' }

/-- What a trace asks the caches for, at no particular cycle. -/
def traceRequests (cfg : Config) (insts : List DbInst) : List Request :=
  insts.flatMap fun inst =>
    fetchRequests cfg 0 inst ++ loadRequests cfg 0 inst ++ storeRequests cfg 0 inst

/-- The configurations have the same caches, up to their latencies, and use them for the
same accesses. -/
structure SameCaches (cfg cfg' : Config) : Prop where
  fetchModelIcache : cfg.fetchModelIcache = cfg'.fetchModelIcache
  perfectCache : cfg.perfectCache = cfg'.perfectCache
  writeAllocate : cfg.writeAllocate = cfg'.writeAllocate
  IC : (cfg.icSize, cfg.icAssoc, cfg.icBlocksize) = (cfg'.icSize, cfg'.icAssoc, cfg'.icBlocksize)
  L1 : (cfg.l1Size, cfg.l1Assoc, cfg.l1Blocksize) = (cfg'.l1Size, cfg'.l1Assoc, cfg'.l1Blocksize)
  L2 : (cfg.l2Size, cfg.l2Assoc, cfg.l2Blocksize) = (cfg'.l2Size, cfg'.l2Assoc, cfg'.l2Blocksize)
  L3 : (cfg.l3Size, cfg.l3Assoc, cfg.l3Blocksize) = (cfg'.l3Size, cfg'.l3Assoc, cfg'.l3Blocksize)

instance (cfg cfg' : Config) : Decidable (SameCaches cfg cfg') :=
  decidable_of_iff (_ ∧ _ ∧ _ ∧ _ ∧ _ ∧ _ ∧ _)
    ⟨fun ⟨a, b, c, d, e, f, g⟩ => ⟨a, b, c, d, e, f, g⟩,
      fun ⟨a, b, c, d, e, f, g⟩ => ⟨a, b, c, d, e, f, g⟩⟩

/-- Without the prefetcher a run asks for what the trace asks for. -/
theorem AccessesOf.asks (hs : AccessesOf cfg insts h accesses s)
    (hoff : cfg.prefetcherEnable = false) :
    ((accesses.flatMap Accesses.log).map (·.1)).map Request.asks =
      (traceRequests cfg insts).map Request.asks := by
  have hfetch : ∀ cycle inst, (fetchRequests cfg cycle inst).map Request.asks =
      (fetchRequests cfg 0 inst).map Request.asks := by
    intro cycle inst
    unfold fetchRequests
    split
    · rfl
    · rfl
  have hload : ∀ cycle inst, (loadRequests cfg cycle inst).map Request.asks =
      (loadRequests cfg 0 inst).map Request.asks := by
    intro cycle inst
    unfold loadRequests
    split
    · rfl
    · rfl
  have hstore : ∀ cycle inst, (storeRequests cfg cycle inst).map Request.asks =
      (storeRequests cfg 0 inst).map Request.asks := by
    intro cycle inst
    unfold storeRequests
    split
    · rfl
    · rfl
  rw [← hs.trace]
  have each := hs.each
  clear hs
  generalize s.fetched = fetched at each
  unfold traceRequests
  induction each with
  | nil => rfl
  | cons ha _ ih =>
    obtain ⟨cycle, hrequests⟩ := ha.requests
    rw [List.flatMap_cons, List.map_append, List.map_append, ih, hrequests, ha.enabled hoff,
      List.map_cons, List.flatMap_cons, List.map_append]
    simp only [List.map_append, List.map_nil, List.append_nil, hfetch cycle, hload, hstore]

/-- A new cache does not depend on what its constructor leaves open, as long as there is a
set to index. -/
theorem newCache_sameContents (u u' : Unspecified) (size assoc blocksize latency latency' : Nat) :
    Alike Cache.SameContents (Cache.new u size assoc blocksize latency)
      (Cache.new u' size assoc blocksize latency') := by
  unfold Cache.new
  dsimp only
  split
  · exact Alike.error _
  · split
    · exact Alike.error _
    · rename_i hbytes
      split
      · exact Alike.error _
      · refine ⟨rfl, ?_, rfl, fun _ => List.forall₂_same.mpr fun b _ => Block.SameAs.refl b,
          rfl, rfl⟩
        intro hsets
        have hblock : blocksize ≠ 0 := by
          rintro rfl
          simp at hbytes
        dsimp only at hsets ⊢
        rw [log2, log2, log2, log2, if_neg hsets.ne', if_neg hsets.ne', if_neg hblock,
          if_neg hblock]
        exact ⟨rfl, rfl, rfl⟩

/-- New caches of one geometry. -/
theorem new_sameContents (u u' : Level → Unspecified) {cfg cfg' : Config}
    (same : SameCaches cfg cfg') :
    Alike Hierarchy.SameContents (Hierarchy.new u cfg) (Hierarchy.new u' cfg') := by
  have hIC := same.IC
  have hL1 := same.L1
  have hL2 := same.L2
  have hL3 := same.L3
  simp only [Prod.mk.injEq] at hIC hL1 hL2 hL3
  unfold Hierarchy.new
  rw [hIC.1, hIC.2.1, hIC.2.2, hL1.1, hL1.2.1, hL1.2.2, hL2.1, hL2.2.1, hL2.2.2, hL3.1, hL3.2.1,
    hL3.2.2]
  apply Alike.bind (newCache_sameContents _ _ _ _ _ _ _)
  intro L3 L3' hL3
  apply Alike.bind (newCache_sameContents _ _ _ _ _ _ _)
  intro L2 L2' hL2
  apply Alike.bind (newCache_sameContents _ _ _ _ _ _ _)
  intro L1 L1' hL1
  apply Alike.bind (newCache_sameContents _ _ _ _ _ _ _)
  intro IC IC' hIC level
  cases level with
  | IC => exact hIC
  | L1 => exact hL1
  | L2 => exact hL2
  | L3 => exact hL3

/-- **The caches do not depend on the machine around them.**  Two simulations of one trace
without prefetcher, whatever their windows, widths, lanes, latencies and predictors
are, leave caches of one geometry with the same tags, the same ranks and the same demand
accesses and misses. -/
theorem simulate_caches_independent {P' H' : Type} (u u' : Unset) (cfg cfg' : Config)
    (hk : Hooks P H) (hk' : Hooks P' H') (p : P) (p' : P') (insts : List DbInst)
    (same : SameCaches cfg cfg')
    (hoff : cfg.prefetcherEnable = false) (hoff' : cfg'.prefetcherEnable = false)
    {s' : Uarchsim P'} (hrun : simulate u cfg hk p insts = .ok s)
    (hrun' : simulate u' cfg' hk' p' insts = .ok s') :
    s.res.hierarchy.SameContents s'.res.hierarchy := by
  obtain ⟨s₀, hinit, log, hran, rfl⟩ := simulate_eq_ok.mp hrun
  obtain ⟨s₀', hinit', log', hran', htrace⟩ := simulate_eq_ok.mp hrun'
  obtain ⟨accesses, hs⟩ := AccessesOf.ran hinit hran
  obtain ⟨accesses', hs'⟩ := AccessesOf.ran hinit' hran'
  rw [htrace] at hs'
  have hnew := (new_hierarchy hinit).1
  have hnew' := (new_hierarchy hinit').1
  have hstart := new_sameContents u.cache u'.cache same
  rw [hnew, hnew'] at hstart
  have hasks : ∀ insts, traceRequests cfg insts = traceRequests cfg' insts := by
    intro insts
    unfold traceRequests fetchRequests loadRequests storeRequests
    rw [same.fetchModelIcache, same.perfectCache, same.writeAllocate]
  have hsame : Alike (fun x y => x.2.SameContents y.2)
      (Hierarchy.run cfg s₀.res.hierarchy ((accesses.flatMap Accesses.log).map (·.1)))
      (Hierarchy.run cfg' s₀'.res.hierarchy
        ((accesses'.flatMap Accesses.log).map (·.1))) :=
    Hierarchy.run_sameContents hstart
      ((hs.asks hoff).trans ((congrArg _ (hasks _)).trans (hs'.asks hoff').symm))
  rw [hs.serves, hs'.serves] at hsame
  exact hsame

/-- A wide machine with fast caches, and a narrow one with slow caches in other memory. -/
theorem simulate_caches_independent_loadStoreLoad :
    ∃ s s', simulate ⟨fun _ => ⟨0, 0, 0⟩, 0⟩ { windowSize := 8, prefetcherEnable := false }
        idlePredictors () loadStoreLoad = .ok s ∧
      simulate ⟨fun _ => ⟨7, 5, 6⟩, 3⟩
        { windowSize := 2, prefetcherEnable := false, numLdstLanes := 1
          l1Latency := 9, l2Latency := 40 } idlePredictors () loadStoreLoad = .ok s' ∧
      s.res.hierarchy.SameContents s'.res.hierarchy := by
  obtain ⟨s, hs⟩ := exists_of_isOk (show (simulate ⟨fun _ => ⟨0, 0, 0⟩, 0⟩
    { windowSize := 8, prefetcherEnable := false } idlePredictors () loadStoreLoad).isOk = true
    by decide +kernel)
  obtain ⟨s', hs'⟩ := exists_of_isOk (show (simulate ⟨fun _ => ⟨7, 5, 6⟩, 3⟩
    { windowSize := 2, prefetcherEnable := false, numLdstLanes := 1
      l1Latency := 9, l2Latency := 40 } idlePredictors () loadStoreLoad).isOk = true
    by decide +kernel)
  have same : SameCaches
      { windowSize := 8, prefetcherEnable := false }
      { windowSize := 2, prefetcherEnable := false, numLdstLanes := 1
        l1Latency := 9, l2Latency := 40 } := by
    decide
  exact ⟨s, s', hs, hs', simulate_caches_independent _ _ _ _ _ _ _ _ _ same rfl rfl hs hs'⟩

end Run

end CbpSim.Core
