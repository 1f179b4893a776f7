/-
  Memory/Traffic.lean --- what a cache misses, the next one is asked for.

  Source: src/lib/cache.cc, `cache_t::cache_t` and `cache_t::access`, and the
  constructor of src/lib/uarchsim.cc, which connects `IC` and `L1` to `L2`, and
  `L2` to `L3`.

  The events of a sequence of accesses are told apart from the counters, from the
  tags alone: a path of caches is walked down until one of them has the block.  A
  counter moves by the events it counts, so that all four are exact if they start
  at zero, and the constructor sets two of them.
-/
import CbpSim.Memory.Timing

set_option autoImplicit false

namespace CbpSim.Memory

open CbpSim.Foundation

/-! ## Counters -/

/-- A counter of a cache: of demand or prefetch traffic, of all accesses or of the
misses among them. -/
def Cache.counter (c : Cache) (pf misses : Bool) : Nat :=
  match pf, misses with
  | false, false => c.accesses
  | false, true => c.misses
  | true, false => c.pfAccesses
  | true, true => c.pfMisses

/-- A cache is asked for a block, and has it or not. -/
structure Event where
  level : Level
  pf : Bool
  miss : Bool
  deriving DecidableEq, Repr

/-- The counter of `level` that counts the event. -/
def Event.isCounted (level : Level) (pf misses : Bool) (e : Event) : Bool :=
  e.level == level && e.pf == pf && (e.miss || !misses)

/-- The number of events that a counter counts. -/
def tally (log : List Event) (level : Level) (pf misses : Bool) : Nat :=
  log.countP (Event.isCounted level pf misses)

theorem tally_append (log log' : List Event) (level : Level) (pf misses : Bool) :
    tally (log ++ log') level pf misses =
      tally log level pf misses + tally log' level pf misses :=
  List.countP_append

theorem tally_cons (e : Event) (log : List Event) (level : Level) (pf misses : Bool) :
    tally (e :: log) level pf misses =
      tally log level pf misses + (e.isCounted level pf misses).toNat := by
  rw [tally, List.countP_cons, tally]
  cases e.isCounted level pf misses with
  | false => rfl
  | true => rfl

theorem tally_of_level_ne {log : List Event} {level : Level} (h : ∀ e ∈ log, e.level ≠ level)
    (pf misses : Bool) : tally log level pf misses = 0 := by
  rw [tally, List.countP_eq_zero]
  intro e he
  simp [Event.isCounted, h e he]

/-- No more misses than accesses. -/
theorem tally_misses_le (log : List Event) (level : Level) (pf : Bool) :
    tally log level pf true ≤ tally log level pf false := by
  apply List.countP_mono_left
  intro e _ he
  simp only [Event.isCounted, Bool.and_eq_true] at he ⊢
  exact ⟨he.1, by simp⟩

namespace Cache

theorem counter_countAccess (c : Cache) (pf' pf misses : Bool) :
    (c.countAccess pf').counter pf misses =
      c.counter pf misses + (pf' == pf && !misses).toNat := by
  cases pf' <;> cases pf <;> cases misses <;> rfl

theorem counter_countMiss (c : Cache) (pf' pf misses : Bool) :
    (c.countMiss pf').counter pf misses = c.counter pf misses + (pf' == pf && misses).toNat := by
  cases pf' <;> cases pf <;> cases misses <;> rfl

@[simp] theorem counter_setWays (c : Cache) (index : Nat) (ways : List Block) (pf misses : Bool) :
    (c.setWays index ways).counter pf misses = c.counter pf misses := rfl

/-- A hit counts as an access, and asks nobody. -/
theorem access_hit {σ : Type} {c c' : Cache} {below below' : σ}
    {next : Nat → Except Abort (Nat × σ)} {cycle addr avail way : Nat} {pf : Bool}
    (h : c.access below next cycle addr pf = .ok (avail, c', below'))
    (hlookup : c.lookup addr = .hit way) :
    below' = below ∧ ∀ pf' misses,
      c'.counter pf' misses = c.counter pf' misses + (pf == pf' && !misses).toNat := by
  unfold access at h
  obtain ⟨_, -, h⟩ := bind_eq_ok.mp h
  dsimp only at h
  rw [show (c.countAccess pf).lookup addr = .hit way from hlookup] at h
  obtain ⟨ways, -, h⟩ := bind_eq_ok.mp h
  cases h
  exact ⟨rfl, fun pf' misses => c.counter_countAccess pf pf' misses⟩

/-- A miss counts twice, and asks the next level. -/
theorem access_miss {σ : Type} {c c' : Cache} {below below' : σ}
    {next : Nat → Except Abort (Nat × σ)} {cycle addr avail maxLruCtr : Nat}
    {victimWay : Option Nat} {pf : Bool}
    (h : c.access below next cycle addr pf = .ok (avail, c', below'))
    (hlookup : c.lookup addr = .miss maxLruCtr victimWay) :
    next (cycle + c.latency) = .ok (avail, below') ∧ ∀ pf' misses,
      c'.counter pf' misses = c.counter pf' misses + (pf == pf').toNat := by
  unfold access at h
  obtain ⟨_, -, h⟩ := bind_eq_ok.mp h
  dsimp only at h
  rw [show (c.countAccess pf).lookup addr = .miss maxLruCtr victimWay from hlookup] at h
  dsimp only at h
  split at h
  · cases h
  · cases victimWay with
    | none => cases h
    | some victimWay =>
      dsimp only at h
      split at h
      · cases h
      · obtain ⟨⟨fill, filled⟩, hnext, h⟩ := bind_eq_ok.mp h
        obtain ⟨ways, -, h⟩ := bind_eq_ok.mp h
        cases h
        refine ⟨hnext, fun pf' misses => ?_⟩
        rw [counter_setWays, counter_countMiss, counter_countAccess, Nat.add_assoc]
        cases pf == pf' <;> cases misses <;> rfl

end Cache

namespace Hierarchy

variable {h h' : Hierarchy}

/-! ## The events of an access -/

/-- Down a path of caches until one of them has the block. -/
def walk (h : Hierarchy) (addr : Nat) (pf : Bool) : List Level → List Event
  | [] => []
  | level :: path =>
    match (h level).lookup addr with
    | .hit _ => [⟨level, pf, false⟩]
    | .miss _ _ => ⟨level, pf, true⟩ :: h.walk addr pf path

/-- The events of a sequence of accesses. -/
def events (cfg : Config) : Hierarchy → List Request → List Event
  | _, [] => []
  | h, r :: requests =>
    h.walk r.addr r.pf r.level.path ++
      match access cfg h r with
      | .ok (_, h) => events cfg h requests
      | .error _ => []

theorem level_of_mem_walk {addr : Nat} {pf : Bool} {path : List Level} {e : Event}
    (he : e ∈ h.walk addr pf path) : e.level ∈ path := by
  induction path with
  | nil => cases he
  | cons level path ih =>
    rw [walk] at he
    split at he
    · rw [List.mem_singleton.mp he]
      exact List.mem_cons_self
    · rcases List.mem_cons.mp he with rfl | he
      · exact List.mem_cons_self
      · exact List.mem_cons_of_mem _ (ih he)

/-- The caches of a path, put where they are. -/
theorem replace_self (h : Hierarchy) (path : List Level) : h.replace path (path.map h) = h := by
  induction path with
  | nil => rfl
  | cons level path ih =>
    rw [List.map_cons, replace, ih]
    exact Function.update_eq_self level h

/-- **A walk moves the counters.**  Along a path without repetition each counter moves by
the events it counts. -/
theorem accessLevels_counter {mainMemoryLatency addr : Nat} {pf : Bool} {path : List Level}
    (hpath : path.Nodup) {cycle avail : Nat} {levels : List Cache}
    (haccess : accessLevels mainMemoryLatency (path.map h) cycle addr pf = .ok (avail, levels))
    (level : Level) (pf' misses : Bool) :
    (h.replace path levels level).counter pf' misses =
      (h level).counter pf' misses + tally (h.walk addr pf path) level pf' misses := by
  induction path generalizing cycle avail levels with
  | nil => rfl
  | cons top path ih =>
    obtain ⟨htop, hpath⟩ := List.nodup_cons.mp hpath
    rw [List.map_cons, accessLevels] at haccess
    obtain ⟨⟨avail', c, below⟩, htopAccess, hok⟩ := bind_eq_ok.mp haccess
    cases hok
    rw [replace, walk]
    cases hlookup : (h top).lookup addr with
    | hit way =>
      obtain ⟨rfl, hcounter⟩ := Cache.access_hit htopAccess hlookup
      dsimp only
      rw [tally_cons, replace_self]
      rcases eq_or_ne level top with rfl | hne
      · rw [Function.update_self, hcounter]
        simp [tally, Event.isCounted]
      · rw [Function.update_of_ne hne]
        simp [tally, Event.isCounted, hne.symm]
    | miss maxLruCtr victimWay =>
      obtain ⟨hnext, hcounter⟩ := Cache.access_miss htopAccess hlookup
      dsimp only
      rw [tally_cons]
      rcases eq_or_ne level top with rfl | hne
      · have hbelow : tally (h.walk addr pf path) level pf' misses = 0 :=
          tally_of_level_ne (fun e he heq => htop (by rw [← heq]; exact level_of_mem_walk he)) _ _
        rw [Function.update_self, hcounter, hbelow]
        simp [Event.isCounted]
      · rw [Function.update_of_ne hne, ih hpath hnext]
        simp [Event.isCounted, hne.symm]

theorem access_counter {cfg : Config} {r : Request} {avail : Nat}
    (haccess : access cfg h r = .ok (avail, h')) (level : Level) (pf misses : Bool) :
    (h' level).counter pf misses =
      (h level).counter pf misses + tally (h.walk r.addr r.pf r.level.path) level pf misses := by
  obtain ⟨⟨avail', levels⟩, hlevels, hok⟩ := bind_eq_ok.mp haccess
  cases hok
  have hpath : r.level.path.Nodup := by
    cases r.level with
    | IC => decide
    | L1 => decide
    | L2 => decide
    | L3 => decide
  exact accessLevels_counter hpath hlevels level pf misses

/-- A run moves each counter by the events it counts. -/
theorem run_counter {cfg : Config} {requests : List Request} {answers : List Nat}
    (hrun : run cfg h requests = .ok (answers, h')) (level : Level) (pf misses : Bool) :
    (h' level).counter pf misses =
      (h level).counter pf misses + tally (events cfg h requests) level pf misses := by
  induction requests generalizing h answers with
  | nil =>
    cases hrun
    rfl
  | cons r requests ih =>
    obtain ⟨⟨avail, h₁⟩, haccess, hrun⟩ := bind_eq_ok.mp hrun
    obtain ⟨⟨answers', h₂⟩, hrest, hok⟩ := bind_eq_ok.mp hrun
    cases hok
    rw [events, haccess, tally_append, ih hrest, access_counter haccess, Nat.add_assoc]

/-! ## Traffic between the levels -/

/-- Only `IC` and `L1` are asked from outside. -/
def Upper (requests : List Request) : Prop := ∀ r ∈ requests, r.level = .IC ∨ r.level = .L1

instance (requests : List Request) : Decidable (Upper requests) :=
  inferInstanceAs (Decidable (∀ r ∈ requests, _))

/-- A walk from the top asks each level for what the one above misses. -/
theorem walk_traffic (h : Hierarchy) {r : Request} (hr : r.level = .IC ∨ r.level = .L1)
    (pf : Bool) :
    tally (h.walk r.addr r.pf r.level.path) .L2 pf false =
      tally (h.walk r.addr r.pf r.level.path) .IC pf true +
        tally (h.walk r.addr r.pf r.level.path) .L1 pf true ∧
    tally (h.walk r.addr r.pf r.level.path) .L3 pf false =
      tally (h.walk r.addr r.pf r.level.path) .L2 pf true := by
  obtain ⟨level, cycle, addr, pf'⟩ := r
  rcases hr with rfl | rfl
  all_goals
    -- one walk for each level that may have the block
    simp only [Level.path, walk]
    split
    · cases pf' <;> cases pf <;> decide
    · split
      · cases pf' <;> cases pf <;> decide
      · split
        · cases pf' <;> cases pf <;> decide
        · cases pf' <;> cases pf <;> decide

theorem events_traffic {cfg : Config} {requests : List Request} (hupper : Upper requests)
    (pf : Bool) :
    tally (events cfg h requests) .L2 pf false =
      tally (events cfg h requests) .IC pf true + tally (events cfg h requests) .L1 pf true ∧
    tally (events cfg h requests) .L3 pf false = tally (events cfg h requests) .L2 pf true := by
  induction requests generalizing h with
  | nil => exact ⟨rfl, rfl⟩
  | cons r requests ih =>
    obtain ⟨hr, hrest⟩ := List.forall_mem_cons.mp hupper
    have hwalk := walk_traffic h hr pf
    rw [events]
    simp only [tally_append]
    cases access cfg h r with
    | error a => exact hwalk
    | ok x =>
      have htail := @ih x.2 hrest
      dsimp only
      omega

/-- The counters of demand or of prefetch traffic agree with each other and with the
events. -/
structure Conserved (pf : Bool) (log : List Event) (h : Hierarchy) : Prop where
  L2 : (h .L2).counter pf false = (h .IC).counter pf true + (h .L1).counter pf true
  L3 : (h .L3).counter pf false = (h .L2).counter pf true
  exact : ∀ level misses, (h level).counter pf misses = tally log level pf misses
  le : ∀ level, (h level).counter pf true ≤ (h level).counter pf false

/-- Counters that start at zero are conserved. -/
theorem run_conserved {cfg : Config} {pf : Bool}
    (hzero : ∀ level misses, (h level).counter pf misses = 0) {requests : List Request}
    (hupper : Upper requests) {answers : List Nat}
    (hrun : run cfg h requests = .ok (answers, h')) :
    Conserved pf (events cfg h requests) h' := by
  have hexact : ∀ level misses,
      (h' level).counter pf misses = tally (events cfg h requests) level pf misses := by
    intro level misses
    rw [run_counter hrun, hzero, Nat.zero_add]
  obtain ⟨hL2, hL3⟩ := @events_traffic h cfg requests hupper pf
  exact {
    L2 := by rw [hexact, hexact, hexact, hL2]
    L3 := by rw [hexact, hexact, hL3]
    exact := hexact
    le := fun level => by
      rw [hexact, hexact]
      exact tally_misses_le _ _ _ }

/-! ## The counters of new caches -/

/-- The constructor sets the counters of demand traffic, and leaves the others open. -/
theorem new_counter {u : Level → Unspecified} {cfg : Config} (hnew : new u cfg = .ok h)
    (level : Level) (misses : Bool) :
    (h level).counter false misses = 0 ∧
      (h level).counter true misses =
        if misses then (u level).pfMisses else (u level).pfAccesses := by
  have cache : ∀ {u : Unspecified} {size assoc blocksize latency : Nat} {c : Cache},
      Cache.new u size assoc blocksize latency = .ok c →
        c.counter false misses = 0 ∧
          c.counter true misses = if misses then u.pfMisses else u.pfAccesses := by
    intro u size assoc blocksize latency c hc
    obtain ⟨-, hc⟩ := guard_eq_ok.mp hc
    obtain ⟨-, hc⟩ := guard_eq_ok.mp hc
    obtain ⟨-, hc⟩ := guard_eq_ok.mp hc
    cases hc
    cases misses with
    | false => exact ⟨rfl, rfl⟩
    | true => exact ⟨rfl, rfl⟩
  obtain ⟨latency, hc⟩ := new_level hnew level
  exact cache hc

/-- Demand traffic is conserved. -/
theorem run_conserved_demand {u : Level → Unspecified} {cfg : Config} (hnew : new u cfg = .ok h)
    {requests : List Request} (hupper : Upper requests) {answers : List Nat}
    (hrun : run cfg h requests = .ok (answers, h')) :
    Conserved false (events cfg h requests) h' :=
  run_conserved (fun level misses => (new_counter hnew level misses).1) hupper hrun

/-- The accesses are answered, and the counters of both kinds of traffic agree with each
other and with the events. -/
def ConservesTraffic (cfg : Config) (h : Hierarchy) (requests : List Request) : Prop :=
  ∃ answers h', run cfg h requests = .ok (answers, h') ∧
    ∀ pf, Conserved pf (events cfg h requests) h'

/-- A cache that holds nothing yet. -/
structure Cold (c : Cache) : Prop where
  assoc : 0 < c.assoc
  indexed : 1 ≤ c.numSets → c.Indexed
  holds : c.Holds fun _ => []

theorem new_cold {u : Level → Unspecified} {cfg : Config} (hnew : new u cfg = .ok h)
    (level : Level) : Cold (h level) := by
  obtain ⟨latency, hc⟩ := new_level hnew level
  obtain ⟨hpos, hassoc, hholds, -⟩ := Cache.new_eq_ok hc
  exact ⟨hassoc ▸ hpos, Cache.new_indexed hc, hholds⟩

/-- The first access misses all the way down, and stops at a cache without a set. -/
theorem accessLevels_noSets (mainMemoryLatency : Nat) {levels : List Cache}
    (hcold : ∀ c ∈ levels, Cold c) (hnone : ∃ c ∈ levels, c.numSets = 0) (cycle addr : Nat)
    (pf : Bool) : accessLevels mainMemoryLatency levels cycle addr pf = .error .cacheIndex := by
  induction levels generalizing cycle with
  | nil =>
    obtain ⟨c, hc, -⟩ := hnone
    cases hc
  | cons c levels ih =>
    obtain ⟨hc, hlevels⟩ := List.forall_mem_cons.mp hcold
    rw [accessLevels]
    rcases Nat.eq_zero_or_pos c.numSets with hzero | hpos
    · rw [Cache.access_noSets hzero]
      rfl
    · have hbelow : ∃ c ∈ levels, c.numSets = 0 := by
        obtain ⟨d, hd, hzero⟩ := hnone
        rcases List.mem_cons.mp hd with rfl | hd
        · omega
        · exact ⟨d, hd, hzero⟩
      rw [Cache.access_stops levels pf hc.assoc (hc.indexed hpos addr) (hc.holds _)
        List.not_mem_nil (ih hlevels hbelow _)]
      rfl

/-- **Traffic is conserved from a clean start.**  All demand and prefetch accesses to `IC`
and `L1` of new caches are answered, and the counters of both kinds of traffic agree with
each other and with the events, exactly if the two counters that the constructor leaves
open happen to be zero in every cache, and a set fits into every cache. -/
theorem conservesTraffic_iff (u : Level → Unspecified) (cfg : Config) (hnew : new u cfg = .ok h) :
    (∀ requests, Upper requests → ConservesTraffic cfg h requests) ↔
      ∀ level : Level, ((u level).pfAccesses = 0 ∧ (u level).pfMisses = 0) ∧ level.HasSet cfg := by
  constructor
  · intro hall level
    constructor
    · -- an exact counter has moved by all it counts, so it started at zero
      obtain ⟨answers, h', hrun, hconserved⟩ := hall [] (by decide)
      have hstart : ∀ misses, (h level).counter true misses = 0 := by
        intro misses
        have hexact := (hconserved true).exact level misses
        rw [run_counter hrun] at hexact
        omega
      have hfalse := hstart false
      have htrue := hstart true
      rw [(new_counter hnew level _).2] at hfalse htrue
      exact ⟨hfalse, htrue⟩
    · -- each level is on the way from one of the two caches at the top
      obtain ⟨top, htop, hpath⟩ : ∃ top : Level, (top = .IC ∨ top = .L1) ∧ level ∈ top.path := by
        cases level with
        | IC => exact ⟨.IC, Or.inl rfl, by decide⟩
        | L1 => exact ⟨.L1, Or.inr rfl, by decide⟩
        | L2 => exact ⟨.L1, Or.inr rfl, by decide⟩
        | L3 => exact ⟨.L1, Or.inr rfl, by decide⟩
      obtain ⟨answers, h', hrun, -⟩ := hall [⟨top, 0, 0, false⟩]
        (List.forall_mem_singleton.mpr htop)
      obtain ⟨⟨avail, h₁⟩, haccess, -⟩ := bind_eq_ok.mp hrun
      obtain ⟨⟨avail', levels⟩, hlevels, -⟩ := bind_eq_ok.mp haccess
      apply (numSets_pos_iff hnew level).mp
      apply Nat.one_le_iff_ne_zero.mpr
      intro hnone
      rw [accessLevels_noSets _ (List.forall_mem_map.mpr fun level _ => new_cold hnew level)
        ⟨h level, List.mem_map_of_mem hpath, hnone⟩] at hlevels
      cases hlevels
  · intro hgood requests hupper
    obtain ⟨answers, h', hrun, -⟩ := (new_sound hnew fun level => (hgood level).2).run cfg requests
    refine ⟨answers, h', hrun, fun pf => ?_⟩
    cases pf with
    | false => exact run_conserved_demand hnew hupper hrun
    | true =>
      apply run_conserved _ hupper hrun
      intro level misses
      rw [(new_counter hnew level misses).2, (hgood level).1.1, (hgood level).1.2, ite_self]

/-- The default configuration, in memory that was zero. -/
theorem conservesTraffic_iff_cleanMemory :
    ∃ h, new (fun _ => ⟨0, 0, 0⟩) {} = .ok h ∧
      ∀ requests, Upper requests → ConservesTraffic {} h requests := by
  obtain ⟨h, hnew⟩ := exists_of_isOk
    (show (new (fun _ => ⟨0, 0, 0⟩) {}).isOk = true by decide +kernel)
  refine ⟨h, hnew, (conservesTraffic_iff _ _ hnew).mpr fun level => ⟨⟨rfl, rfl⟩, ?_⟩⟩
  cases level with
  | IC => decide
  | L1 => decide
  | L2 => decide
  | L3 => decide

/-- One prefetch, with 7 in `pf_misses` of each cache before it: there are eight misses
of one access. -/
theorem conservesTraffic_dirtyMemory :
    ∃ h answers h', new (fun _ => ⟨0, 0, 7⟩) {} = .ok h ∧
      run {} h [⟨.L1, 5, 64, true⟩] = .ok (answers, h') ∧
      (h' .L1).pfAccesses = 1 ∧ (h' .L1).pfMisses = 8 ∧
      ¬ ∀ requests, Upper requests → ConservesTraffic {} h requests := by
  obtain ⟨⟨answers, h'⟩, hok⟩ := exists_of_isOk (show (do
    let h ← new (fun _ => ⟨0, 0, 7⟩) {}
    let x ← run {} h [⟨.L1, 5, 64, true⟩]
    if ¬((x.2 .L1).pfAccesses = 1 ∧ (x.2 .L1).pfMisses = 8) then .error .cacheLru
      else Except.ok x).isOk = true by decide +kernel)
  obtain ⟨h, hnew, hok⟩ := bind_eq_ok.mp hok
  obtain ⟨x, hrun, hok⟩ := bind_eq_ok.mp hok
  obtain ⟨hcounts, hok⟩ := guard_eq_ok.mp hok
  cases hok
  obtain ⟨haccesses, hmisses⟩ := not_not.mp hcounts
  dsimp only at haccesses hmisses
  refine ⟨h, answers, h', hnew, hrun, haccesses, hmisses, fun hall => ?_⟩
  obtain ⟨answers₁, h₁, hrun₁, hconserved⟩ := hall [⟨.L1, 5, 64, true⟩] (by decide)
  obtain ⟨-, rfl⟩ := Prod.mk.inj (Except.ok.inj (hrun₁.symm.trans hrun))
  have hle : (h₁ .L1).pfMisses ≤ (h₁ .L1).pfAccesses := (hconserved true).le .L1
  omega

end Hierarchy

end CbpSim.Memory
