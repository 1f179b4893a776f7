/-
  Core/Forwarding.lean --- a load gets each byte from the youngest older store.

  Source: src/lib/uarchsim.cc, the search of the store queue for a load and the
  update of its byte timestamps for a store.

  `SQ` is a map from the address of a byte to two timestamps, and it is never
  cleaned.  The stores of a run are told apart from it: `history` lists them in
  program order, and `youngest` looks for the last one that covers a byte.  The map
  is that function, so the execution of a load is the maximum over its bytes of
  what the history says.
-/
import CbpSim.Core.Course
import CbpSim.Core.Upkeep
import CbpSim.Trace.Loop

set_option autoImplicit false

namespace CbpSim.Core

open CbpSim.Foundation CbpSim.Lanes CbpSim.Memory

variable {P H : Type}

/-! ## The stores of a run -/

/-- A store that was dispatched: the cycle at which it executes, the cycle at which
the data cache has its line, and the retire cycle of the youngest instruction that
was in the window then. -/
structure Stored where
  inst : DbInst
  execCycle : Nat
  dataCacheCycle : Nat
  retired : Nat

namespace Stored

/-- The cycle at which it leaves the store queue. -/
def retCycle (x : Stored) : Nat := max x.dataCacheCycle x.retired

/-- Does it write the byte? -/
def covers (x : Stored) (a : Nat) : Bool :=
  (List.range x.inst.size).any fun i => byteAddr x.inst i == a

/-- Its timestamps. -/
def entry (x : Stored) : StoreQueue := ⟨x.execCycle, x.retCycle⟩

end Stored

/-- The youngest store that covers a byte, of stores in program order. -/
def youngest (older : List Stored) (a : Nat) : Option Stored :=
  (older.filter (·.covers a)).getLast?

theorem youngest_concat (older : List Stored) (x : Stored) (a : Nat) :
    youngest (older ++ [x]) a = if x.covers a then some x else youngest older a := by
  rw [youngest, List.filter_append, List.filter_singleton]
  cases x.covers a with
  | false => simp [youngest]
  | true => simp

/-- The time of a byte of a load that searches the queue in `search`, when the data
cache has it in `data`. -/
def byteTime (older : List Stored) (search data a : Nat) : Nat :=
  match youngest older a with
  | some x => if search < x.retCycle then max search x.execCycle else data
  | none => data

/-- Does the byte come from the data cache? -/
def fromCache (older : List Stored) (search a : Nat) : Bool :=
  match youngest older a with
  | some x => !decide (search < x.retCycle)
  | none => true

/-! ## The store queue -/

/-- The map has the timestamps of the youngest stores. -/
def Reflects (SQ : Nat → Option StoreQueue) (older : List Stored) : Prop :=
  ∀ a, SQ a = (youngest older a).map Stored.entry

/-- Writing the bytes of an access. -/
theorem foldl_update_byteAddr (inst : DbInst) (e : Option StoreQueue)
    (SQ : Nat → Option StoreQueue) (a n : Nat) :
    (List.range n).foldl (fun SQ i => Function.update SQ (byteAddr inst i) e) SQ a =
      if (List.range n).any fun i => byteAddr inst i == a then e else SQ a := by
  induction n with
  | zero => rfl
  | succ n ih =>
    rw [List.range_succ, List.foldl_append, List.any_append]
    simp only [List.foldl_cons, List.foldl_nil, List.any_cons, List.any_nil, Bool.or_false,
      Bool.or_eq_true, beq_iff_eq, Function.update_apply, eq_comm (a := a)]
    rw [ih]
    by_cases h : byteAddr inst n = a
    · simp [h]
    · simp [h]

theorem Reflects.store {SQ : Nat → Option StoreQueue} {older : List Stored}
    (h : Reflects SQ older) (x : Stored) :
    Reflects ((List.range x.inst.size).foldl
      (fun SQ i => Function.update SQ (byteAddr x.inst i) (some x.entry)) SQ) (older ++ [x]) := by
  intro a
  rw [foldl_update_byteAddr, youngest_concat, h a]
  unfold Stored.covers
  split
  · rfl
  · rfl

/-- The search of the bytes is a maximum over the history. -/
theorem searchSQ_eq {SQ : Nat → Option StoreQueue} {older : List Stored} (h : Reflects SQ older)
    (inst : DbInst) (search data : Nat) :
    searchSQ SQ inst search data =
      (((List.range inst.size).map fun i => byteTime older search data (byteAddr inst i)).foldl
        max 0,
        (List.range inst.size).any fun i => fromCache older search (byteAddr inst i)) := by
  unfold searchSQ
  induction inst.size with
  | zero => rfl
  | succ n ih =>
    rw [List.range_succ, List.foldl_append, List.map_append, List.foldl_append, List.any_append, ih]
    simp only [List.foldl_cons, List.foldl_nil, List.map_cons, List.map_nil, List.any_cons,
      List.any_nil, Bool.or_false, h (byteAddr inst n), byteTime, fromCache]
    cases youngest older (byteAddr inst n) with
    | none => simp
    | some x =>
      dsimp only [Option.map_some, Stored.entry]
      split
      · simp_all
      · simp_all

/-- A load with a byte comes no earlier than its search, when the cache does not. -/
theorem search_le_searchSQ (SQ : Nat → Option StoreQueue) {inst : DbInst} {search data : Nat}
    (hsize : 1 ≤ inst.size) (hdata : search ≤ data) :
    search ≤ (searchSQ SQ inst search data).1 := by
  unfold searchSQ
  obtain ⟨n, hn⟩ := Nat.exists_eq_add_of_le' hsize
  rw [hn, List.range_succ, List.foldl_append]
  simp only [List.foldl_cons, List.foldl_nil]
  split
  · split
    · exact (le_max_left _ _).trans (le_max_right _ _)
    · exact hdata.trans (le_max_right _ _)
  · exact hdata.trans (le_max_right _ _)

/-! ## What the resources leave alone -/

/-- The program did not stop at an assert about a load. -/
def OffLoads (e : Abort) : Prop := ofLoads e = false

theorem offLoads_of_ordinary {e : Abort} (h : Ordinary e) : OffLoads e := by
  simp only [Ordinary, Bool.or_eq_false_iff] at h
  exact h.1.2

theorem offLoads_of_ofCaches {e : Abort} (h : ofCaches e = true) : OffLoads e :=
  offLoads_of_ordinary (ordinary_of_ofCaches h)

namespace Resources

/-- The store queue and the latency of `L1` are the same. -/
structure SameStores (r r' : Resources) : Prop where
  SQ : r'.SQ = r.SQ
  latency : r'.L1.latency = r.L1.latency

theorem SameStores.refl (r : Resources) : r.SameStores r := ⟨rfl, rfl⟩

theorem SameStores.trans {r₁ r₂ r₃ : Resources} (h : r₁.SameStores r₂) (h' : r₂.SameStores r₃) :
    r₁.SameStores r₃ :=
  ⟨h'.SQ.trans h.SQ, h'.latency.trans h.latency⟩

theorem CachesOnly.sameStores {r r' : Resources} (h : r.CachesOnly r') : r.SameStores r' := by
  refine ⟨?_, h.latency⟩
  rw [h.frame]

theorem accessL1_sameStores (cfg : Config) (r : Resources) (start addr : Nat) (pf : Bool) :
    Ends (r.accessL1 cfg start addr pf) OffLoads fun x =>
      start + r.L1.latency ≤ x.1 ∧ r.SameStores x.2 := by
  apply (accessL1_stops cfg r start addr pf).mono
  · exact fun e => offLoads_of_ofCaches
  · intro x hx
    exact ⟨hx.1, hx.2.sameStores⟩

theorem issuePrefetch_sameStores (cfg : Config) (pf : Prefetch) (n start : Nat) (r : Resources) :
    Ends (issuePrefetch cfg pf n start r) OffLoads fun x => r.SameStores x.2 := by
  induction n generalizing start r with
  | zero => exact SameStores.refl r
  | succ n ih =>
    rw [issuePrefetch]
    apply Ends.bind ((schedule_stops r.ldstLanes start 0).mono (fun e he => he.1 ▸ rfl)
      fun _ h => h)
    rintro ⟨lanes, execCycle⟩ _
    have hsame : r.SameStores { r with ldstLanes := lanes } := ⟨rfl, rfl⟩
    apply Ends.ite
    · intro _
      apply Ends.bind (accessL1_sameStores cfg _ execCycle pf.address true)
      rintro ⟨avail, r'⟩ ⟨-, hr'⟩
      exact hsame.trans hr'
    · intro _
      exact (ih (start + 1) _).imp fun x hx => hsame.trans hx

theorem drainPrefetches_sameStores (cfg : Config) (previousFetchCycle fetchCycle n : Nat)
    (r : Resources) :
    Ends (drainPrefetches cfg previousFetchCycle fetchCycle n r) OffLoads fun x =>
      r.SameStores x.2 := by
  induction n generalizing r with
  | zero => exact SameStores.refl r
  | succ n ih =>
    rw [drainPrefetches]
    split
    · exact ⟨rfl, rfl⟩
    · rename_i pf prefetcher _
      have hsame : r.SameStores { r with prefetcher := prefetcher } := ⟨rfl, rfl⟩
      apply Ends.bind (issuePrefetch_sameStores cfg pf _ _ _)
      rintro ⟨issued, r₁⟩ h₁
      apply Ends.ite
      · intro _
        apply Ends.bind (ih r₁)
        rintro ⟨count, r₂⟩ h₂
        exact (hsame.trans h₁).trans h₂
      · intro _
        exact (hsame.trans h₁).trans ⟨rfl, rfl⟩

theorem getValuePredictionReq_sameStores (cfg : Config) (r : Resources)
    (fetchCycle seqNo piece : Nat) (inst : DbInst) :
    Ends (r.getValuePredictionReq cfg fetchCycle seqNo piece inst) OffLoads fun x =>
      r.SameStores x.2 := by
  unfold getValuePredictionReq
  split
  · exact SameStores.refl r
  · exact SameStores.refl r
  · apply Ends.ite
    · intro _
      exact SameStores.refl r
    · intro _
      apply Ends.bind (Q := fun x => r.SameStores x.2)
      · unfold getLoadExecCycle
        apply Ends.bind ((sourcesReady_stops r.RF inst _).mono (fun e he => he ▸ rfl) fun _ h => h)
        intro execCycle _
        apply Ends.bind ((trySchedule_stops r.ldstLanes execCycle).mono (fun e he => he ▸ rfl)
          fun _ h => h)
        rintro ⟨lanes, cycle⟩ _
        exact ⟨rfl, rfl⟩
      · rintro ⟨execCycle, r'⟩ hr'
        apply Ends.bind ((searchCaches_stops r' execCycle inst.addr).mono
          (fun e => offLoads_of_ofCaches) fun _ h => h)
        intro _ _
        exact hr'
  · rfl

/-! ## The execution of a load -/

/-- The cycle at which the data cache has the bytes of an access: `fixed` when the access
bypasses it. -/
def DataCycle (cfg : Config) (r : Resources) (bypass : Bool) (fixed start addr data : Nat) : Prop :=
  match bypass with
  | true => data = fixed
  | false => ∃ r', r.accessL1 cfg start addr false = .ok (data, r')

/-- It depends on the caches only. -/
theorem DataCycle.of_caches {cfg : Config} {r r' : Resources} {bypass : Bool}
    {fixed start addr data : Nat} (h : DataCycle cfg r' bypass fixed start addr data)
    (hL1 : r'.L1 = r.L1) (hL2 : r'.L2 = r.L2) (hL3 : r'.L3 = r.L3) :
    DataCycle cfg r bypass fixed start addr data := by
  cases bypass with
  | true => exact h
  | false =>
    obtain ⟨r₁, h⟩ := h
    unfold accessL1 at h
    rw [hL1, hL2, hL3] at h
    obtain ⟨⟨avail, levels⟩, hlevels, h⟩ := bind_eq_ok.mp h
    unfold DataCycle accessL1
    rw [hlevels, ok_bind]
    dsimp only at h ⊢
    split at h
    · cases h
      exact ⟨_, rfl⟩
    · cases h
      exact ⟨_, rfl⟩

theorem dataCycle_ends (cfg : Config) (r : Resources) (bypass : Bool) (fixed start addr : Nat) :
    Ends (if bypass then .ok (fixed, r) else r.accessL1 cfg start addr false) OffLoads fun x =>
      DataCycle cfg r bypass fixed start addr x.1 ∧ r.SameStores x.2 ∧
        (fixed ≤ start + r.L1.latency → fixed ≤ x.1) := by
  cases bypass with
  | true => exact ⟨rfl, SameStores.refl r, fun _ => le_rfl⟩
  | false =>
    rw [if_neg Bool.false_ne_true]
    have haccess := accessL1_sameStores cfg r start addr false
    cases h : r.accessL1 cfg start addr false with
    | error e => exact haccess.of_error h
    | ok x =>
      obtain ⟨hle, hsame⟩ := haccess.of_ok h
      exact ⟨⟨x.2, h⟩, hsame, fun hfixed => hfixed.trans hle⟩

/-- The asserts about a load fail only when it has no byte, or `L1` no latency. -/
def LoadStops (cfg : Config) (inst : DbInst) (e : Abort) : Prop :=
  1 ≤ cfg.l1Latency → 1 ≤ inst.size → OffLoads e

theorem executeLoad_forwards (cfg : Config) (r : Resources) (fetchCycle laneCycle : Nat)
    (inst : DbInst) (hlat : r.L1.latency = cfg.l1Latency) :
    Ends (r.executeLoad cfg fetchCycle laneCycle inst) (LoadStops cfg inst) fun x =>
      r.SameStores x.2.2 ∧ ∃ data,
        DataCycle cfg r cfg.perfectCache (laneCycle + 1 + cfg.l1Latency) (laneCycle + 1)
          inst.addr data ∧
        searchSQ r.SQ inst (laneCycle + 2) data = (x.1, x.2.1) ∧ laneCycle + 2 ≤ x.1 := by
  have hoff : ∀ e, OffLoads e → LoadStops cfg inst e := fun e he _ _ => he
  unfold executeLoad
  apply Ends.bind ((trainPrefetcher_stops cfg r fetchCycle inst).mono
    (fun e he => hoff e (offLoads_of_ordinary (ordinary_of_ofPrefetcher he))) fun _ h => h)
  rintro r₁ ⟨hframe, -⟩
  apply Ends.bind ((dataCycle_ends cfg r₁ cfg.perfectCache (laneCycle + 1 + cfg.l1Latency)
    (laneCycle + 1) inst.addr).mono hoff fun _ h => h)
  rintro ⟨data, r₂⟩ ⟨hdata, hsame, hle⟩
  have hdata := hdata.of_caches (r := r) (by rw [hframe]) (by rw [hframe]) (by rw [hframe])
  have hsame₁ : r.SameStores r₁ := by
    rw [hframe]
    exact ⟨rfl, rfl⟩
  have hsame₂ := hsame₁.trans hsame
  have hlater : 1 ≤ cfg.l1Latency → 1 ≤ inst.size →
      laneCycle + 2 ≤ (searchSQ r.SQ inst (laneCycle + 2) data).1 := by
    intro hl1 hsize
    apply search_le_searchSQ r.SQ hsize
    have := hle (by rw [hsame₁.latency, hlat])
    dsimp only at this
    omega
  dsimp only
  rw [hsame₂.SQ]
  apply Ends.ite
  · intro hnot hl1 hsize
    exact absurd (hlater hl1 hsize) hnot
  · intro hge
    apply Ends.ite
    · intro hnot
      have hge := not_not.mp hge
      omega
    · intro _
      exact ⟨hsame₂, data, hdata, rfl, not_not.mp hge⟩

/-- What the execution of an instruction does about loads. -/
structure Executes (cfg : Config) (r : Resources) (inst : DbInst) (t : Timing) (r' : Resources) :
    Prop where
  same : r.SameStores r'
  load : inst.isLoad = true → ∃ data,
    DataCycle cfg r cfg.perfectCache (t.laneCycle + 1 + cfg.l1Latency) (t.laneCycle + 1)
      inst.addr data ∧
    searchSQ r.SQ inst (t.laneCycle + 2) data = (t.execCycle, t.sqMiss) ∧
      t.laneCycle + 2 ≤ t.execCycle
  other : inst.isLoad = false → t.sqMiss = false

theorem execute_forwards (cfg : Config) (r : Resources) (fetchCycle : Nat) (inst : DbInst)
    (hlat : r.L1.latency = cfg.l1Latency) :
    Ends (r.execute cfg fetchCycle inst)
      (fun e => (inst.isLoad = true → 1 ≤ inst.size) → 1 ≤ cfg.l1Latency → OffLoads e) fun x =>
        Executes cfg r inst x.1 x.2 := by
  have hlane : ∀ (lanes : ResourceSchedule) (start : Nat),
      Ends (scheduleLane lanes start) OffLoads fun _ => True := by
    intro lanes start
    apply (scheduleLane_stops lanes start).mono
    · rintro e (⟨rfl, -⟩ | rfl)
      · rfl
      · rfl
    · exact fun _ _ => trivial
  unfold execute
  apply Ends.bind ((sourcesReady_stops r.RF inst _).mono (fun e he _ _ => he ▸ rfl) fun _ h => h)
  intro start _
  apply Ends.bind (Q := fun x => ∃ ldst alu, x.2 = { r with ldstLanes := ldst, aluLanes := alu })
  · apply Ends.ite
    · intro _
      apply Ends.bind ((hlane r.ldstLanes start).mono (fun e he _ _ => he) fun _ h => h)
      rintro ⟨lanes, cycle⟩ _
      exact ⟨lanes, r.aluLanes, rfl⟩
    · intro _
      apply Ends.bind ((hlane r.aluLanes start).mono (fun e he _ _ => he) fun _ h => h)
      rintro ⟨lanes, cycle⟩ _
      exact ⟨r.ldstLanes, lanes, rfl⟩
  · rintro ⟨laneCycle, r₁⟩ ⟨ldst, alu, rfl⟩
    apply Ends.ite
    · intro hload
      apply Ends.bind ((executeLoad_forwards cfg { r with ldstLanes := ldst, aluLanes := alu }
        fetchCycle laneCycle inst hlat).mono
          (fun e he hsize hl1 => he hl1 (hsize hload)) fun _ h => h)
      rintro ⟨execCycle, sqMiss, r₂⟩ ⟨hsame, data, hdata, hsearch, hle⟩
      exact {
        same := ⟨hsame.SQ, hsame.latency⟩
        load := fun _ => ⟨data, hdata.of_caches rfl rfl rfl, hsearch, hle⟩
        other := fun hnot => absurd (hload.symm.trans hnot) Bool.noConfusion }
    · intro hload
      exact {
        same := ⟨rfl, rfl⟩
        load := fun h => absurd h hload
        other := fun _ => rfl }

/-- The bytes of a store get its timestamps. -/
theorem updateSQ_forwards (cfg : Config) (r : Resources) (inst : DbInst)
    (execCycle retired : Nat) :
    Ends (r.updateSQ cfg inst execCycle retired) OffLoads fun r' =>
      r'.L1.latency = r.L1.latency ∧ (inst.isStore = false → r'.SQ = r.SQ) ∧
        (inst.isStore = true → ∃ data,
          DataCycle cfg r (!cfg.writeAllocate || cfg.perfectCache) execCycle execCycle inst.addr
            data ∧
          r'.SQ = (List.range inst.size).foldl (fun SQ i =>
            Function.update SQ (byteAddr inst i) (some ⟨execCycle, max data retired⟩)) r.SQ) := by
  unfold updateSQ
  apply Ends.ite
  · intro hstore
    exact ⟨rfl, fun _ => rfl, fun h => by simp [h] at hstore⟩
  · intro hstore
    apply Ends.bind (dataCycle_ends cfg r (!cfg.writeAllocate || cfg.perfectCache) execCycle
      execCycle inst.addr)
    rintro ⟨data, r₁⟩ ⟨hdata, hsame, -⟩
    refine ⟨hsame.latency, fun h => by simp [h] at hstore, fun _ => ⟨data, hdata, ?_⟩⟩
    rw [← hsame.SQ]

end Resources

/-! ## The steps -/

namespace Course

/-- The cycle at which the data cache has the line of a store. -/
def storeData (cfg : Config) (inst : DbInst) (c : Course P) : Nat :=
  if !cfg.writeAllocate || cfg.perfectCache then c.timing.execCycle
  else
    match c.scheduled.res.accessL1 cfg c.timing.execCycle inst.addr false with
    | .ok (data, _) => data
    | .error _ => 0

/-- The store that a step dispatched, if it is one. -/
def stored (cfg : Config) (x : DbInst × Course P) : Option Stored :=
  if x.1.isStore then
    some { inst := x.1
           execCycle := x.2.timing.execCycle
           dataCacheCycle := x.2.storeData cfg x.1
           retired := x.2.scheduled.pipe.backRetire }
  else none

end Course

/-- The stores of a run, in program order. -/
def history (cfg : Config) (log : List (DbInst × Course P)) : List Stored :=
  log.filterMap (Course.stored cfg)

theorem history_concat (cfg : Config) (log : List (DbInst × Course P)) (x : DbInst × Course P) :
    history cfg (log ++ [x]) = history cfg log ++ (Course.stored cfg x).toList := by
  rw [history, List.filterMap_append]
  cases h : Course.stored cfg x with
  | none => simp [h, history]
  | some y => simp [h, history]

open Resources

/-- The invariant: the store queue reflects the stores of the run. -/
structure StoresKept (cfg : Config) (log : List (DbInst × Course P)) (s : Uarchsim P) : Prop where
  SQ : Reflects s.res.SQ (history cfg log)
  latency : s.res.L1.latency = cfg.l1Latency

section Step

variable {cfg : Config} {hk : Hooks P H} {s s' : Uarchsim P} {inst : DbInst} {c : Course P}

open Uarchsim

/-- Before the instruction is scheduled, and while it is, no store is written. -/
theorem Course.Leads.sameStores (h : Course.Leads cfg hk s inst c)
    (hlat : s.res.L1.latency = cfg.l1Latency) :
    s.res.SameStores c.before.res ∧ c.before.res.SameStores c.scheduled.res ∧
      ∃ res, Executes cfg c.before.res inst c.timing res := by
  obtain ⟨-, _, _, -, hbegun⟩ := beginStep_eq_ok h.begun
  obtain ⟨-, hcaches, _, -, -⟩ := fetchBlock_eq_ok h.blocked
  obtain ⟨res, _, -, hres, hbefore⟩ := predictValue_eq_ok h.before
  obtain ⟨res₁, _, res₂, hexecute, hdrain, hscheduled⟩ := schedule_eq_ok h.scheduled
  have hbegun : c.begun.res = s.res := by rw [hbegun]
  have hbefore : c.before.res = res := by rw [hbefore]
  have hscheduled : c.scheduled.res = res₂ := by rw [hscheduled]
  have h₁ : s.res.SameStores c.before.res := by
    rw [← hbegun, hbefore]
    apply hcaches.sameStores.trans
    rcases hres with rfl | ⟨req, hreq⟩
    · exact SameStores.refl _
    · exact (getValuePredictionReq_sameStores cfg _ _ _ _ inst).of_ok hreq
  have hexecutes := (execute_forwards cfg c.before.res _ inst (h₁.latency.trans hlat)).of_ok hexecute
  refine ⟨h₁, ?_, res₁, hexecutes⟩
  rw [hscheduled]
  apply hexecutes.same.trans
  split at hdrain
  · exact (drainPrefetches_sameStores cfg _ _ _ _).of_ok hdrain
  · cases hdrain
    exact SameStores.refl _

/-- After the instruction was scheduled its bytes are written, when it is a store, and
nothing else. -/
theorem Course.Of.stores (h : Course.Of cfg hk s inst c s') :
    s'.res.L1.latency = c.scheduled.res.L1.latency ∧
      (inst.isStore = false → s'.res.SQ = c.scheduled.res.SQ) ∧
      (inst.isStore = true → s'.res.SQ = (List.range inst.size).foldl (fun SQ i =>
        Function.update SQ (byteAddr inst i) (some ⟨c.timing.execCycle,
          max (c.storeData cfg inst) c.scheduled.pipe.backRetire⟩)) c.scheduled.res.SQ) := by
  obtain ⟨RF, res, _, _, _, hupdate, hwritten⟩ := writeBack_eq_ok h.written
  obtain ⟨-, -, hmanaged⟩ := h.managed_eq
  obtain ⟨-, hlast⟩ := h.last_eq
  have hwritten : c.written.res = res := by rw [hwritten]
  have hlast : s'.res = { res with
      ldstLanes := s'.res.ldstLanes, aluLanes := s'.res.aluLanes } := by
    rw [hlast, hmanaged, hwritten]
  obtain ⟨hlatency, hother, hstore⟩ := (updateSQ_forwards cfg _ inst _ _).of_ok hupdate
  rw [hlast]
  refine ⟨hlatency, hother, ?_⟩
  intro h
  obtain ⟨data, hdata, hSQ⟩ := hstore h
  have hdata := hdata.of_caches (r := c.scheduled.res) rfl rfl rfl
  have heq : data = c.storeData cfg inst := by
    unfold Course.storeData
    cases hbypass : !cfg.writeAllocate || cfg.perfectCache with
    | true =>
      rw [hbypass] at hdata
      exact hdata
    | false =>
      rw [hbypass] at hdata
      obtain ⟨r', hr'⟩ := hdata
      simp [hr']
  rw [← heq]
  exact hSQ

theorem StoresKept.step {log : List (DbInst × Course P)} (hs : StoresKept cfg log s)
    (h : Course.Of cfg hk s inst c s') : StoresKept cfg (log ++ [(inst, c)]) s' := by
  obtain ⟨h₁, h₂, -⟩ := h.sameStores hs.latency
  obtain ⟨hlatency, hother, hstore⟩ := h.stores
  have hSQ := h₂.SQ.trans h₁.SQ
  refine ⟨?_, (hlatency.trans (h₂.latency.trans h₁.latency)).trans hs.latency⟩
  rw [history_concat]
  cases hflag : inst.isStore with
  | false =>
    rw [hother hflag, hSQ]
    simpa [Course.stored, hflag] using hs.SQ
  | true =>
    rw [hstore hflag, hSQ]
    simp only [Course.stored, hflag, if_true, Option.toList_some]
    exact hs.SQ.store ⟨inst, c.timing.execCycle, c.storeData cfg inst,
      c.scheduled.pipe.backRetire⟩

end Step

/-! ## Loads -/

/-- The maximum over the bytes of an access. -/
theorem isGreatest_foldl_max (f : Nat → Nat) {n : Nat} (hn : 1 ≤ n) :
    IsGreatest {t | ∃ i < n, f i = t} (((List.range n).map f).foldl max 0) := by
  induction n, hn using Nat.le_induction with
  | base => exact ⟨⟨0, Nat.one_pos, by simp⟩, by rintro t ⟨i, hi, rfl⟩; simp [Nat.lt_one_iff.mp hi]⟩
  | succ n _ ih =>
    rw [List.range_succ, List.map_append, List.foldl_append]
    simp only [List.map_cons, List.map_nil, List.foldl_cons, List.foldl_nil]
    obtain ⟨⟨i, hi, hmax⟩, hle⟩ := ih
    constructor
    · rcases max_choice (((List.range n).map f).foldl max 0) (f n) with h | h
      · exact ⟨i, Nat.lt_succ_of_lt hi, hmax.trans h.symm⟩
      · exact ⟨n, Nat.lt_succ_self n, h.symm⟩
    · rintro t ⟨j, hj, rfl⟩
      rcases Nat.lt_succ_iff_lt_or_eq.mp hj with hj | rfl
      · exact (hle ⟨j, hj, rfl⟩).trans (le_max_left _ _)
      · exact le_max_right _ _

/-- A load of the run: its search is two cycles after its lane cycle, `data` is the
cycle at which the data cache has its bytes, and `older` are the older stores. -/
structure Forwards (cfg : Config) (older : List Stored) (inst : DbInst) (c : Course P)
    (s s' : Uarchsim P) (data : Nat) : Prop where
  cached : DataCycle cfg c.before.res cfg.perfectCache (c.timing.laneCycle + 1 + cfg.l1Latency)
    (c.timing.laneCycle + 1) inst.addr data
  execCycle : IsGreatest
    {t | ∃ i < inst.size, byteTime older (c.timing.laneCycle + 2) data (byteAddr inst i) = t}
    c.timing.execCycle
  numLoadSqmiss : s'.numLoadSqmiss = s.numLoadSqmiss +
    if ∃ i < inst.size, fromCache older (c.timing.laneCycle + 2) (byteAddr inst i) then 1 else 0

section Run

variable {cfg : Config} {hk : Hooks P H} {s₀ s s' : Uarchsim P} {inst : DbInst} {c : Course P}

open Uarchsim

theorem StoresKept.ran (h₀ : StoresKept cfg [] s₀) {log : List (DbInst × Course P)}
    (h : Ran cfg hk s₀ log s) : StoresKept cfg log s := by
  induction h with
  | nil => exact h₀
  | snoc _ hc ih => exact ih.step hc

/-- A step counts a load that misses the store queue, and no other. -/
theorem Course.Of.numLoadSqmiss (h : Course.Of cfg hk s inst c s') :
    s'.numLoadSqmiss = s.numLoadSqmiss + c.timing.sqMiss.toNat := by
  obtain ⟨-, hlast⟩ := h.last_eq
  obtain ⟨-, -, hmanaged⟩ := h.managed_eq
  obtain ⟨-, hbefore⟩ := h.before_eq
  rw [hlast, hmanaged, h.written_eq, hbefore]

theorem StoresKept.forwards {log : List (DbInst × Course P)} (hs : StoresKept cfg log s)
    (h : Course.Of cfg hk s inst c s') (hload : inst.isLoad = true) :
    ∃ data, Forwards cfg (history cfg log) inst c s s' data := by
  obtain ⟨h₁, -, res, hexecutes⟩ := h.sameStores hs.latency
  obtain ⟨data, hdata, hsearch, hle⟩ := hexecutes.load hload
  have hreflects : Reflects c.before.res.SQ (history cfg log) := h₁.SQ ▸ hs.SQ
  rw [searchSQ_eq hreflects] at hsearch
  obtain ⟨hexec, hmiss⟩ := Prod.mk.inj hsearch
  have hsize : 1 ≤ inst.size := by
    by_contra hzero
    obtain hzero : inst.size = 0 := by omega
    rw [hzero] at hexec
    simp only [List.range_zero, List.map_nil, List.foldl_nil] at hexec
    omega
  refine ⟨data, { cached := hdata, execCycle := ?_, numLoadSqmiss := ?_ }⟩
  · rw [← hexec]
    exact isGreatest_foldl_max _ hsize
  · rw [h.numLoadSqmiss, ← hmiss]
    congr 1
    split
    · rename_i hany
      rw [show List.any _ _ = true by simpa using hany]
      rfl
    · rename_i hnone
      rw [show List.any _ _ = false by simpa using hnone]
      rfl

/-- A step on an instruction with a byte keeps the store queue, or stops elsewhere. -/
theorem latency_keeps (hl1 : 1 ≤ cfg.l1Latency) (hinst : inst.Readable) :
    Keeps cfg inst OffLoads fun _ r => r.L1.latency = cfg.l1Latency where
  ordinary _ := offLoads_of_ordinary
  later h _ := h
  caches h hcaches := hcaches.latency.trans h
  registers h _ := h
  track _ h seqNo piece := by
    apply (getValuePredictionReq_sameStores cfg _ _ seqNo piece inst).imp
    intro x hx
    exact hx.latency.trans h
  execute h := by
    apply (execute_forwards cfg _ _ inst h).mono
    · exact fun e he => he (fun _ => hinst.size) hl1
    · exact fun x hx => hx.same.latency.trans h
  drain h previous n := by
    apply (drainPrefetches_sameStores cfg previous _ n _).imp
    intro x hx
    exact hx.latency.trans h
  updateSQ h execCycle retired := by
    apply (updateSQ_forwards cfg _ inst execCycle retired).imp
    intro r' hr'
    exact hr'.1.trans h
  advance {c r} h := by
    apply (advanceBaseCycle_stops r.ldstLanes (r.nextBase c)).mono (fun e he => he.1 ▸ rfl)
    intro ldst _
    apply (advanceBaseCycle_stops r.aluLanes (r.nextBase c)).mono (fun e he => he.1 ▸ rfl)
    intro alu _
    exact h

/-- **Store-to-load forwarding.**  In every run, the execution cycle of a load is the
maximum of the times that the youngest older stores and the data cache give its
bytes, and it is counted as a miss when one of them comes from the cache; on a trace
of a file no assert about a load fails. -/
theorem forwarding_run (u : Unset) (cfg : Config) (hk : Hooks P H) (p : P)
    (hl1 : 1 ≤ cfg.l1Latency) :
    (∀ s₀ log s inst c s', new u cfg p = .ok s₀ → Ran cfg hk s₀ log s →
      Course.Of cfg hk s inst c s' → inst.isLoad = true →
        ∃ data, Forwards cfg (history cfg log) inst c s s' data) ∧
      ∀ v bytes insts, Trace.IsTrace v bytes insts →
        ∀ e, simulate u cfg hk p insts = .error (.abort e) → ofLoads e = false := by
  constructor
  · intro s₀ log s inst c s' hnew hran hc hload
    have hbuilt := (new_stops u cfg p).of_ok hnew
    have h₀ : StoresKept cfg [] s₀ :=
      { SQ := fun a => by rw [hbuilt.SQ]; rfl
        latency := hbuilt.latency }
    exact (h₀.ran hran).forwards hc hload
  · intro v bytes insts htrace e he
    have hreadable := htrace.readable
    have run : Ends (simulate u cfg hk p insts) (Admits OffLoads) fun s =>
        s.res.L1.latency = cfg.l1Latency := by
      apply simulate_keeps (I := fun _ r => r.L1.latency = cfg.l1Latency)
      · exact fun e => offLoads_of_ordinary
      · exact fun s hs => hs.latency
      · exact fun inst hinst => latency_keeps hl1 (hreadable inst hinst)
      · exact fun inst _ => ⟨Or.inr rfl, Or.inr rfl⟩
    exact run.of_error he

/-- A load of 8 bytes, four of which were stored. -/
def halfStored : DbInst × DbInst :=
  (regInst .store 64 (intReg 1) (intReg 2) {},
    { regInst .load 68 (intReg 1) {} (intReg 3) with addr := 4100 })

theorem forwarding_run_halfStored :
    ∃ (s₀ s s' : Uarchsim Unit) (c c' : Course Unit) (data : Nat),
      Ran {} idlePredictors s₀ [(halfStored.1, c)] s ∧
      Course.Of {} idlePredictors s halfStored.2 c' s' ∧
      Forwards {} (history {} [(halfStored.1, c)]) halfStored.2 c' s s' data := by
  obtain ⟨⟨s₀, c, s, c', s'⟩, h⟩ := exists_of_isOk (show (do
      let s₀ ← lift (new ⟨fun _ => ⟨0, 0, 0⟩, 0⟩ {} ())
      let (c, s) ← s₀.course {} idlePredictors halfStored.1
      let (c', s') ← s.course {} idlePredictors halfStored.2
      .ok (s₀, c, s, c', s') : Except (Stop Empty) _).isOk = true by decide +kernel)
  obtain ⟨_, hnew, h⟩ := bind_eq_ok.mp h
  obtain ⟨⟨_, _⟩, hc, h⟩ := bind_eq_ok.mp h
  obtain ⟨⟨_, _⟩, hc', h⟩ := bind_eq_ok.mp h
  cases h
  have hran := Ran.snoc Ran.nil (course_eq_ok hc)
  have hof := course_eq_ok hc'
  obtain ⟨data, hdata⟩ := (forwarding_run _ {} idlePredictors () (by decide)).1 s₀ _ s _ c' s'
    (lift_eq_ok.mp hnew) hran hof rfl
  exact ⟨s₀, s, s', c, c', data, hran, hof, hdata⟩

end Run

end CbpSim.Core
