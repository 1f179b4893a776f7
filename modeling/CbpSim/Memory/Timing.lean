/-
  Memory/Timing.lean --- what the hierarchy holds does not depend on when it is
  asked.

  Source: src/lib/cache.cc, `cache_t::access` and `cache_t::update_lru`, and the
  constructor of src/lib/uarchsim.cc, which connects `IC` and `L1` to `L2`, and
  `L2` to `L3`.

  Two hierarchies are compared while they get the same accesses at different
  cycles.  Where a block is looked for, which way it replaces and what is counted
  depends on tags and ranks only, and a cycle flows from the caller to the
  timestamps and back by additions and maxima.
-/
import Mathlib.Data.List.Forall2
import Mathlib.Order.MinMax
import CbpSim.Common.Parameters
import CbpSim.Foundation.Outcome
import CbpSim.Memory.Geometry

set_option autoImplicit false

namespace CbpSim.Memory

open CbpSim.Foundation

/-! ## The hierarchy of the simulator -/

/-- A cache and the levels it misses into. -/
def Level.path : Level → List Level
  | .IC => [.IC, .L2, .L3]
  | .L1 => [.L1, .L2, .L3]
  | .L2 => [.L2, .L3]
  | .L3 => [.L3]

/-- The four caches of `uarchsim_t`. -/
abbrev Hierarchy := Level → Cache

/-- A call of `access`. -/
structure Request where
  level : Level
  cycle : Nat
  addr : Nat
  pf : Bool
  deriving DecidableEq, Repr

/-- Size, associativity and block size of a cache. -/
def Level.shape (cfg : Config) : Level → Nat × Nat × Nat
  | .IC => (cfg.icSize, cfg.icAssoc, cfg.icBlocksize)
  | .L1 => (cfg.l1Size, cfg.l1Assoc, cfg.l1Blocksize)
  | .L2 => (cfg.l2Size, cfg.l2Assoc, cfg.l2Blocksize)
  | .L3 => (cfg.l3Size, cfg.l3Assoc, cfg.l3Blocksize)

/-- The blocks of one set, as the 64-bit product that the constructor computes, fit into
the cache. -/
def Level.HasSet (cfg : Config) (level : Level) : Prop :=
  (level.shape cfg).2.1 * (level.shape cfg).2.2 % 2 ^ 64 ≤ (level.shape cfg).1

instance Level.decidableHasSet (cfg : Config) (level : Level) : Decidable (level.HasSet cfg) :=
  inferInstanceAs (Decidable (_ ≤ _))

namespace Hierarchy

/-- The caches as the constructor of `uarchsim_t` makes them; each has its own values
left open. -/
def new (u : Level → Unspecified) (cfg : Config) : Except Abort Hierarchy := do
  let L3 ← Cache.new (u .L3) cfg.l3Size cfg.l3Assoc cfg.l3Blocksize cfg.l3Latency
  let L2 ← Cache.new (u .L2) cfg.l2Size cfg.l2Assoc cfg.l2Blocksize cfg.l2Latency
  let L1 ← Cache.new (u .L1) cfg.l1Size cfg.l1Assoc cfg.l1Blocksize cfg.l1Latency
  let IC ← Cache.new (u .IC) cfg.icSize cfg.icAssoc cfg.icBlocksize 0
  .ok fun
    | .IC => IC
    | .L1 => L1
    | .L2 => L2
    | .L3 => L3

/-- The hierarchy with new caches on a path. -/
def replace (h : Hierarchy) : List Level → List Cache → Hierarchy
  | level :: path, c :: levels => Function.update (h.replace path levels) level c
  | _, _ => h

/-- An access to one of the caches: the cycle at which the block is available. -/
def access (cfg : Config) (h : Hierarchy) (r : Request) : Except Abort (Nat × Hierarchy) := do
  let (avail, levels) ←
    accessLevels cfg.mainMemoryLatency (r.level.path.map h) r.cycle r.addr r.pf
  .ok (avail, h.replace r.level.path levels)

/-- A sequence of accesses: the answers, and the hierarchy after them. -/
def run (cfg : Config) : Hierarchy → List Request → Except Abort (List Nat × Hierarchy)
  | h, [] => .ok ([], h)
  | h, r :: requests => do
    let (avail, h) ← access cfg h r
    let (answers, h) ← run cfg h requests
    .ok (avail :: answers, h)

end Hierarchy

/-! ## The latency -/

namespace Cache

/-- A stored cycle that has passed is no reason to wait. -/
theorem wait_eq (timestamp cycle : Nat) :
    (if timestamp > cycle then timestamp else cycle) = max cycle timestamp := by
  split
  · exact (max_eq_right (le_of_lt ‹_›)).symm
  · exact (max_eq_left (not_lt.mp ‹_›)).symm

/-- An answer is never before the latency has passed. -/
theorem access_latency {σ : Type} (c : Cache) (below : σ) {next : Nat → Except Abort (Nat × σ)}
    {Q : σ → Prop} (hbelow : Q below)
    (hnext : ∀ cycle, Ends (next cycle) (fun _ => True) fun x => cycle ≤ x.1 ∧ Q x.2)
    (cycle addr : Nat) (pf : Bool) :
    Ends (c.access below next cycle addr pf) (fun _ => True) fun x =>
      cycle + c.latency ≤ x.1 ∧ x.2.1.latency = c.latency ∧ Q x.2.2 := by
  unfold access
  dsimp only
  apply Ends.bind (Ends.of_any fun _ => trivial)
  intro ways _
  cases (c.countAccess pf).lookup addr with
  | hit way =>
    dsimp only
    apply Ends.bind (Ends.of_any fun _ => trivial)
    intro ways _
    rw [wait_eq]
    exact ⟨le_max_left _ _, rfl, hbelow⟩
  | miss maxLruCtr victimWay =>
    dsimp only
    split
    · trivial
    · cases victimWay with
      | none => trivial
      | some victimWay =>
        dsimp only
        split
        · trivial
        · apply Ends.bind (hnext _)
          rintro ⟨avail, levels⟩ ⟨havail, hlevels⟩
          apply Ends.bind (Ends.of_any fun _ => trivial)
          intro ways _
          exact ⟨havail, rfl, hlevels⟩

theorem accessLevels_latency (mainMemoryLatency : Nat) (levels : List Cache) (addr : Nat)
    (pf : Bool) : ∀ cycle,
      Ends (accessLevels mainMemoryLatency levels cycle addr pf) (fun _ => True) fun x =>
        cycle + (levels.head?.map latency).getD 0 ≤ x.1 ∧
          x.2.map latency = levels.map latency := by
  induction levels with
  | nil =>
    intro cycle
    exact ⟨Nat.le_add_right _ _, rfl⟩
  | cons c levels ih =>
    intro cycle
    rw [accessLevels]
    apply Ends.bind (access_latency c levels (Q := fun l => l.map latency = levels.map latency) rfl
      (fun cycle => (ih cycle).imp fun x hx => ⟨(Nat.le_add_right _ _).trans hx.1, hx.2⟩) cycle addr
      pf)
    rintro ⟨avail, c', levels'⟩ ⟨havail, hc, hlevels⟩
    exact ⟨havail, by rw [List.map_cons, List.map_cons, hc, hlevels]⟩

end Cache

/-! ## Side by side -/

/-- The same block, filled no later on the left if the left side is the `earlier`
one. -/
structure Block.SameAs (earlier : Prop) (b b' : Block) : Prop where
  valid : b.valid = b'.valid
  tag : b.tag = b'.tag
  lru : b.lru = b'.lru
  timestamp : earlier → b.timestamp ≤ b'.timestamp

/-- The same ways. -/
abbrev SameWays (earlier : Prop) (ways ways' : List Block) : Prop :=
  List.Forall₂ (Block.SameAs earlier) ways ways'

/-- The same cache: the same blocks and the same counts. -/
structure Cache.SameAs (earlier : Prop) (c c' : Cache) : Prop where
  numSets : c.numSets = c'.numSets
  blocks : ∀ set, SameWays earlier (c.blocks set) (c'.blocks set)
  numIndexBits : c.numIndexBits = c'.numIndexBits
  numOffsetBits : c.numOffsetBits = c'.numOffsetBits
  indexMask : c.indexMask = c'.indexMask
  assoc : c.assoc = c'.assoc
  latency : c.latency = c'.latency
  accesses : c.accesses = c'.accesses
  pfAccesses : c.pfAccesses = c'.pfAccesses
  misses : c.misses = c'.misses
  pfMisses : c.pfMisses = c'.pfMisses

/-- The same call, no later on the left if the left side is the `earlier` one. -/
structure Request.SameAs (earlier : Prop) (r r' : Request) : Prop where
  level : r.level = r'.level
  addr : r.addr = r'.addr
  pf : r.pf = r'.pf
  cycle : earlier → r.cycle ≤ r'.cycle

/-- The same hierarchy. -/
def Hierarchy.SameAs (earlier : Prop) (h h' : Hierarchy) : Prop :=
  ∀ level, Cache.SameAs earlier (h level) (h' level)

section SideBySide

variable {earlier : Prop}

theorem Block.SameAs.refl (b : Block) : b.SameAs earlier b := ⟨rfl, rfl, rfl, fun _ => le_rfl⟩

theorem Cache.SameAs.refl (c : Cache) : c.SameAs earlier c where
  numSets := rfl
  blocks _ := List.forall₂_same.mpr fun b _ => Block.SameAs.refl b
  numIndexBits := rfl
  numOffsetBits := rfl
  indexMask := rfl
  assoc := rfl
  latency := rfl
  accesses := rfl
  pfAccesses := rfl
  misses := rfl
  pfMisses := rfl

/-- The search of an access reads tags and ranks only. -/
theorem search_same (tag : Nat) {ways ways' : List Block} (h : SameWays earlier ways ways') :
    ∀ way maxLruCtr victimWay,
      Cache.search tag ways way maxLruCtr victimWay =
        Cache.search tag ways' way maxLruCtr victimWay := by
  induction h with
  | nil => intro way maxLruCtr victimWay; rfl
  | cons hb _ ih =>
    intro way maxLruCtr victimWay
    rw [Cache.search, Cache.search, hb.valid, hb.tag, hb.lru, ih, ih]

theorem getD_same {ways ways' : List Block} (h : SameWays earlier ways ways') (way : Nat) :
    (ways.getD way default).SameAs earlier (ways'.getD way default) := by
  induction h generalizing way with
  | nil => exact Block.SameAs.refl _
  | cons hb _ ih =>
    cases way with
    | zero => exact hb
    | succ way => exact ih way

theorem modify_same {f g : Block → Block} (hfg : ∀ b b', b.SameAs earlier b' →
    (f b).SameAs earlier (g b')) {ways ways' : List Block} (h : SameWays earlier ways ways')
    (way : Nat) : SameWays earlier (ways.modify way f) (ways'.modify way g) := by
  induction h generalizing way with
  | nil => simp
  | cons hb htail ih =>
    cases way with
    | zero =>
      rw [List.modify_zero_cons, List.modify_zero_cons]
      exact .cons (hfg _ _ hb) htail
    | succ way =>
      rw [List.modify_succ_cons, List.modify_succ_cons]
      exact .cons hb (ih way)

theorem any_same {p : Block → Bool} (hp : ∀ b b' : Block, b.lru = b'.lru → p b = p b')
    {ways ways' : List Block} (h : SameWays earlier ways ways') : ways.any p = ways'.any p := by
  induction h with
  | nil => rfl
  | cons hb _ ih => rw [List.any_cons, List.any_cons, hp _ _ hb.lru, ih]

/-- The update of the ranks. -/
theorem updateLru_same (assoc : Nat) {ways ways' : List Block} (h : SameWays earlier ways ways')
    (mruWay : Nat) : Alike (SameWays earlier) (Cache.updateLru assoc ways mruWay)
      (Cache.updateLru assoc ways' mruWay) := by
  unfold Cache.updateLru
  have hmru := (getD_same h mruWay).lru
  dsimp only
  rw [hmru, any_same (fun b b' hb => by rw [hb]) h]
  split
  · exact Alike.error _
  · apply modify_same
    · intro b b' hb
      exact ⟨hb.valid, hb.tag, rfl, hb.timestamp⟩
    · apply List.forall₂_map_left_iff.mpr
      apply List.forall₂_map_right_iff.mpr
      apply h.imp
      intro b b' hb
      rw [hb.lru]
      split
      · exact ⟨hb.valid, hb.tag, rfl, hb.timestamp⟩
      · exact hb

namespace Cache

variable {c c' : Cache}

theorem SameAs.indexOf_eq (h : c.SameAs earlier c') (addr : Nat) :
    c.indexOf addr = c'.indexOf addr := by
  rw [indexOf, indexOf, h.numOffsetBits, h.indexMask]

theorem SameAs.tagOf_eq (h : c.SameAs earlier c') (addr : Nat) : c.tagOf addr = c'.tagOf addr := by
  rw [tagOf, tagOf, h.numIndexBits, h.numOffsetBits]

theorem SameAs.lookup_eq (h : c.SameAs earlier c') (addr : Nat) :
    c.lookup addr = c'.lookup addr := by
  rw [lookup, lookup, h.tagOf_eq, h.indexOf_eq]
  exact search_same _ (h.blocks _) 0 0 none

theorem SameAs.waysAt (h : c.SameAs earlier c') (addr : Nat) :
    Alike (SameWays earlier) (c.waysAt (c.indexOf addr)) (c'.waysAt (c'.indexOf addr)) := by
  rw [h.indexOf_eq]
  unfold Cache.waysAt
  rw [h.numSets]
  split
  · exact Alike.error _
  · exact h.blocks _

theorem SameAs.countAccess (h : c.SameAs earlier c') (pf : Bool) :
    (c.countAccess pf).SameAs earlier (c'.countAccess pf) :=
  { h with
    accesses := by rw [Cache.countAccess, Cache.countAccess, h.accesses]
    pfAccesses := by rw [Cache.countAccess, Cache.countAccess, h.pfAccesses] }

theorem SameAs.countMiss (h : c.SameAs earlier c') (pf : Bool) :
    (c.countMiss pf).SameAs earlier (c'.countMiss pf) :=
  { h with
    misses := by rw [Cache.countMiss, Cache.countMiss, h.misses]
    pfMisses := by rw [Cache.countMiss, Cache.countMiss, h.pfMisses] }

theorem SameAs.setWays (h : c.SameAs earlier c') (index : Nat) {ways ways' : List Block}
    (hways : SameWays earlier ways ways') :
    (c.setWays index ways).SameAs earlier (c'.setWays index ways') :=
  { h with
    blocks := by
      intro set
      rw [Cache.setWays, Cache.setWays]
      dsimp only
      rcases eq_or_ne set index with rfl | hne
      · rw [Function.update_self, Function.update_self]
        exact hways
      · rw [Function.update_of_ne hne, Function.update_of_ne hne]
        exact h.blocks set }

/-- **One access.**  Both sides hit the same way or replace the same way, whatever
the cycles are. -/
theorem access_same {σ : Type} {S : σ → σ → Prop} {below below' : σ}
    {next next' : Nat → Except Abort (Nat × σ)} (h : c.SameAs earlier c') (hbelow : S below below')
    (hnext : ∀ cycle cycle', (earlier → cycle ≤ cycle') →
      Alike (fun x y => (earlier → x.1 ≤ y.1) ∧ S x.2 y.2) (next cycle) (next' cycle'))
    {cycle cycle' : Nat} (hcycle : earlier → cycle ≤ cycle') (addr : Nat) (pf : Bool) :
    Alike (fun x y => (earlier → x.1 ≤ y.1) ∧ x.2.1.SameAs earlier y.2.1 ∧ S x.2.2 y.2.2)
      (c.access below next cycle addr pf) (c'.access below' next' cycle' addr pf) := by
  have hcount := h.countAccess pf
  have hready : earlier → cycle + c.latency ≤ cycle' + c'.latency := fun he =>
    Nat.add_le_add (hcycle he) h.latency.le
  unfold access
  dsimp only
  apply Alike.bind (h.waysAt addr)
  intro ways ways' hways
  rw [hcount.lookup_eq]
  cases (c'.countAccess pf).lookup addr with
  | hit way =>
    have htimestamp := (getD_same hways way).timestamp
    dsimp only
    rw [hcount.assoc]
    apply Alike.bind (updateLru_same _ hways way)
    intro ways ways' hset
    rw [wait_eq, wait_eq]
    refine ⟨fun he => max_le_max (hready he) (htimestamp he), ?_, hbelow⟩
    rw [h.indexOf_eq]
    exact hcount.setWays _ hset
  | miss maxLruCtr victimWay =>
    have hmiss := hcount.countMiss pf
    dsimp only
    rw [hmiss.assoc]
    split
    · exact Alike.error _
    · cases victimWay with
      | none => exact Alike.error _
      | some victimWay =>
        dsimp only
        split
        · exact Alike.error _
        · apply Alike.bind (hnext _ _ hready)
          rintro ⟨avail, levels⟩ ⟨avail', levels'⟩ ⟨havail, hlevels⟩
          apply Alike.bind (updateLru_same _ _ _)
          · intro ways ways' hset
            refine ⟨havail, ?_, hlevels⟩
            rw [h.indexOf_eq]
            exact hmiss.setWays _ hset
          · apply modify_same _ hways
            intro b b' hb
            exact ⟨rfl, hmiss.tagOf_eq addr, hb.lru, havail⟩

/-- An access to a cache and the levels it misses into. -/
theorem accessLevels_same (mainMemoryLatency : Nat) {levels levels' : List Cache}
    (h : List.Forall₂ (Cache.SameAs earlier) levels levels') (addr : Nat) (pf : Bool) :
    ∀ cycle cycle', (earlier → cycle ≤ cycle') →
      Alike (fun x y => (earlier → x.1 ≤ y.1) ∧ List.Forall₂ (Cache.SameAs earlier) x.2 y.2)
        (accessLevels mainMemoryLatency levels cycle addr pf)
        (accessLevels mainMemoryLatency levels' cycle' addr pf) := by
  induction h with
  | nil =>
    intro cycle cycle' hcycle
    exact ⟨fun he => Nat.add_le_add_right (hcycle he) _, .nil⟩
  | cons hc hlevels ih =>
    intro cycle cycle' hcycle
    rw [accessLevels, accessLevels]
    apply Alike.bind (access_same hc hlevels ih hcycle addr pf)
    rintro ⟨avail, c₁, rest⟩ ⟨avail', c₁', rest'⟩ ⟨havail, hc₁, hrest⟩
    exact ⟨havail, .cons hc₁ hrest⟩

end Cache

namespace Hierarchy

variable {h h' : Hierarchy}

theorem SameAs.replace (hs : SameAs earlier h h') {levels levels' : List Cache}
    (hlevels : List.Forall₂ (Cache.SameAs earlier) levels levels') (path : List Level) :
    SameAs earlier (h.replace path levels) (h'.replace path levels') := by
  induction hlevels generalizing path with
  | nil =>
    cases path with
    | nil => exact hs
    | cons level path => exact hs
  | cons hc _ ih =>
    cases path with
    | nil => exact hs
    | cons level path =>
      intro l
      rw [Hierarchy.replace, Hierarchy.replace]
      rcases eq_or_ne l level with rfl | hne
      · rw [Function.update_self, Function.update_self]
        exact hc
      · rw [Function.update_of_ne hne, Function.update_of_ne hne]
        exact ih path l

/-- **One access to the hierarchy**, on both sides. -/
theorem access_same (cfg : Config) (hs : SameAs earlier h h') {r r' : Request}
    (hr : r.SameAs earlier r') :
    Alike (fun x y => (earlier → x.1 ≤ y.1) ∧ SameAs earlier x.2 y.2) (access cfg h r)
      (access cfg h' r') := by
  have hpath : List.Forall₂ (Cache.SameAs earlier) (r.level.path.map h) (r.level.path.map h') :=
    List.forall₂_map_left_iff.mpr (List.forall₂_map_right_iff.mpr
      (List.forall₂_same.mpr fun level _ => hs level))
  unfold access
  rw [← hr.level, ← hr.addr, ← hr.pf]
  apply Alike.bind (Cache.accessLevels_same _ hpath r.addr r.pf _ _ hr.cycle)
  rintro ⟨avail, levels⟩ ⟨avail', levels'⟩ ⟨havail, hlevels⟩
  exact ⟨havail, hs.replace hlevels _⟩

/-- A sequence of accesses, on both sides. -/
theorem run_same (cfg : Config) {requests requests' : List Request}
    (hr : List.Forall₂ (Request.SameAs earlier) requests requests') (hs : SameAs earlier h h') :
    Alike (fun x y => (earlier → List.Forall₂ (· ≤ ·) x.1 y.1) ∧ SameAs earlier x.2 y.2)
      (run cfg h requests) (run cfg h' requests') := by
  induction hr generalizing h h' with
  | nil => exact ⟨fun _ => .nil, hs⟩
  | cons hr _ ih =>
    rw [run, run]
    apply Alike.bind (access_same cfg hs hr)
    rintro ⟨avail, h₁⟩ ⟨avail', h₁'⟩ ⟨havail, hs₁⟩
    apply Alike.bind (ih hs₁)
    rintro ⟨answers, h₂⟩ ⟨answers', h₂'⟩ ⟨hanswers, hs₂⟩
    exact ⟨fun he => .cons (havail he) (hanswers he), hs₂⟩

end Hierarchy

end SideBySide

/-! ## One side -/

namespace Hierarchy

variable {h : Hierarchy}

/-- The latencies of the caches. -/
def latency (h : Hierarchy) (level : Level) : Nat := (h level).latency

theorem replace_latency (h : Hierarchy) {path : List Level} {levels : List Cache}
    (hlevels : levels.map Cache.latency = path.map h.latency) :
    (h.replace path levels).latency = h.latency := by
  induction path generalizing levels with
  | nil =>
    cases levels with
    | nil => rfl
    | cons c levels => rfl
  | cons level path ih =>
    cases levels with
    | nil => rfl
    | cons c levels =>
      obtain ⟨hc, hrest⟩ := List.cons.inj hlevels
      funext l
      rw [latency, replace]
      rcases eq_or_ne l level with rfl | hne
      · rw [Function.update_self, hc]
      · rw [Function.update_of_ne hne]
        exact congrFun (ih hrest) l

/-- What an access answers, and that it leaves the latencies alone. -/
theorem access_latency (cfg : Config) (h : Hierarchy) (r : Request) :
    Ends (access cfg h r) (fun _ => True) fun x =>
      r.cycle + h.latency r.level ≤ x.1 ∧ x.2.latency = h.latency := by
  unfold access
  apply Ends.bind (Cache.accessLevels_latency _ _ _ _ _)
  rintro ⟨avail, levels⟩ ⟨havail, hlevels⟩
  refine ⟨?_, h.replace_latency ?_⟩
  · cases hlevel : r.level with
    | IC => rwa [hlevel] at havail
    | L1 => rwa [hlevel] at havail
    | L2 => rwa [hlevel] at havail
    | L3 => rwa [hlevel] at havail
  · rw [hlevels, List.map_map]
    rfl

/-- No access to one of the caches aborts. -/
def Sound (h : Hierarchy) : Prop := ∀ level, (h level).Answers

theorem Sound.replace (hs : h.Sound) {levels : List Cache} (hlevels : ∀ c ∈ levels, c.Answers)
    (path : List Level) : (h.replace path levels).Sound := by
  induction path generalizing levels with
  | nil =>
    cases levels with
    | nil => exact hs
    | cons c levels => exact hs
  | cons level path ih =>
    cases levels with
    | nil => exact hs
    | cons c levels =>
      obtain ⟨hc, hrest⟩ := List.forall_mem_cons.mp hlevels
      intro l
      rw [Hierarchy.replace]
      rcases eq_or_ne l level with rfl | hne
      · rwa [Function.update_self]
      · rw [Function.update_of_ne hne]
        exact ih hrest l

theorem Sound.access (cfg : Config) (hs : h.Sound) (r : Request) :
    ∃ avail h', Hierarchy.access cfg h r = .ok (avail, h') ∧ h'.Sound := by
  have hpath : ∀ c ∈ r.level.path.map h, c.Answers :=
    List.forall_mem_map.mpr fun level _ => hs level
  obtain ⟨avail, levels, haccess, hlevels⟩ := Cache.accessLevels_answers cfg.mainMemoryLatency
    hpath r.cycle r.addr r.pf
  refine ⟨avail, h.replace r.level.path levels, ?_, hs.replace hlevels _⟩
  rw [Hierarchy.access, haccess]
  rfl

/-- Each cache is a new one of its own shape. -/
theorem new_level {u : Level → Unspecified} {cfg : Config} (hnew : new u cfg = .ok h)
    (level : Level) : ∃ latency, Cache.new (u level) (level.shape cfg).1 (level.shape cfg).2.1
      (level.shape cfg).2.2 latency = .ok (h level) := by
  obtain ⟨L3, hL3, hnew⟩ := bind_eq_ok.mp hnew
  obtain ⟨L2, hL2, hnew⟩ := bind_eq_ok.mp hnew
  obtain ⟨L1, hL1, hnew⟩ := bind_eq_ok.mp hnew
  obtain ⟨IC, hIC, hnew⟩ := bind_eq_ok.mp hnew
  obtain rfl := Except.ok.inj hnew
  cases level with
  | IC => exact ⟨_, hIC⟩
  | L1 => exact ⟨_, hL1⟩
  | L2 => exact ⟨_, hL2⟩
  | L3 => exact ⟨_, hL3⟩

/-- Where no set fits into a new cache, there is none. -/
theorem numSets_pos_iff {u : Level → Unspecified} {cfg : Config} (hnew : new u cfg = .ok h)
    (level : Level) : 1 ≤ (h level).numSets ↔ level.HasSet cfg := by
  obtain ⟨latency, hc⟩ := new_level hnew level
  obtain ⟨-, -, -, hnum, -⟩ := Cache.new_eq_ok hc
  obtain ⟨-, hbytes, -⟩ := Cache.new_blocksize hc
  rw [hnum, Nat.one_le_iff_ne_zero, ← Nat.pos_iff_ne_zero, Nat.div_pos_iff]
  exact and_iff_right (Nat.pos_of_ne_zero hbytes)

theorem new_sound {u : Level → Unspecified} {cfg : Config} (hnew : new u cfg = .ok h)
    (hsets : ∀ level : Level, level.HasSet cfg) : h.Sound := by
  intro level
  obtain ⟨latency, hc⟩ := new_level hnew level
  obtain ⟨hpos, hassoc, hholds, -⟩ := Cache.new_eq_ok hc
  exact {
    assoc := hassoc ▸ hpos
    indexed := Cache.new_indexed hc ((numSets_pos_iff hnew level).mpr (hsets level))
    holds := ⟨_, hholds⟩ }

/-- A sequence of accesses never aborts, and every answer comes after the latency. -/
theorem Sound.run (cfg : Config) (hs : h.Sound) (requests : List Request) :
    ∃ answers h', Hierarchy.run cfg h requests = .ok (answers, h') ∧
      List.Forall₂ (fun (r : Request) avail => r.cycle + h.latency r.level ≤ avail) requests
        answers := by
  induction requests generalizing h with
  | nil => exact ⟨[], h, rfl, .nil⟩
  | cons r requests ih =>
    obtain ⟨avail, h₁, haccess, hs₁⟩ := hs.access cfg r
    obtain ⟨havail, hlatency⟩ := (access_latency cfg h r).of_ok haccess
    obtain ⟨answers, h₂, hrun, hanswers⟩ := ih hs₁
    rw [hlatency] at hanswers
    refine ⟨avail :: answers, h₂, ?_, .cons havail hanswers⟩
    rw [Hierarchy.run, haccess, ok_bind]
    dsimp only
    rw [hrun]
    rfl

/-- The same calls at cycles that are in order. -/
theorem sameAs_of_cycles {requests requests' : List Request}
    (hcalls : List.Forall₂ (Request.SameAs False) requests requests')
    (hcycles : List.Forall₂ (fun r r' : Request => r.cycle ≤ r'.cycle) requests requests') :
    List.Forall₂ (Request.SameAs True) requests requests' := by
  induction hcalls with
  | nil => exact .nil
  | cons hr _ ih =>
    obtain ⟨hcycle, hrest⟩ := List.forall₂_cons.mp hcycles
    exact .cons ⟨hr.level, hr.addr, hr.pf, fun _ => hcycle⟩ (ih hrest)

/-- Both sequences of calls are answered, after the latency; they leave the same blocks
and counts; and if each cycle of the first is no later, neither is an answer or a
timestamp. -/
def IndependentOfTiming (cfg : Config) (h : Hierarchy) (requests requests' : List Request) :
    Prop :=
  ∃ answers h₁ answers' h₁', run cfg h requests = .ok (answers, h₁) ∧
    run cfg h requests' = .ok (answers', h₁') ∧ SameAs False h₁ h₁' ∧
    List.Forall₂ (fun (r : Request) avail => r.cycle + h.latency r.level ≤ avail) requests
      answers ∧
    (List.Forall₂ (fun r r' : Request => r.cycle ≤ r'.cycle) requests requests' →
      List.Forall₂ (· ≤ ·) answers answers' ∧ SameAs True h₁ h₁')

theorem Sound.independentOfTiming (cfg : Config) (hs : h.Sound)
    {requests requests' : List Request}
    (hcalls : List.Forall₂ (Request.SameAs False) requests requests') :
    IndependentOfTiming cfg h requests requests' := by
  obtain ⟨answers, h₁, hrun, hanswers⟩ := hs.run cfg requests
  obtain ⟨answers', h₁', hrun', -⟩ := hs.run cfg requests'
  have hrefl : ∀ earlier, SameAs earlier h h := fun _ level => Cache.SameAs.refl (h level)
  refine ⟨answers, h₁, answers', h₁', hrun, hrun', ?_, hanswers, ?_⟩
  · have hsame := run_same cfg hcalls (hrefl False)
    rw [hrun, hrun'] at hsame
    exact hsame.2
  · intro hcycles
    have hsame := run_same cfg (sameAs_of_cycles hcalls hcycles) (hrefl True)
    rw [hrun, hrun'] at hsame
    exact ⟨hsame.1 trivial, hsame.2⟩

/-- A call of a cache without a set stops the program. -/
theorem access_noSets (cfg : Config) {r : Request} (hsets : (h r.level).numSets = 0) :
    access cfg h r = .error .cacheIndex := by
  have hpath : ∃ rest, r.level.path = r.level :: rest := by
    cases r.level with
    | IC => exact ⟨_, rfl⟩
    | L1 => exact ⟨_, rfl⟩
    | L2 => exact ⟨_, rfl⟩
    | L3 => exact ⟨_, rfl⟩
  obtain ⟨rest, hpath⟩ := hpath
  rw [access, hpath, List.map_cons, accessLevels, Cache.access_noSets hsets]
  rfl

/-- **The contents do not depend on timing, and timing is monotone.**  Any two sequences
of the same calls to the caches of a new simulator, at any cycles, are answered and leave
the same blocks and counts, and earlier calls are answered earlier, exactly if a set fits
into each of the caches. -/
theorem independentOfTiming_iff (u : Level → Unspecified) (cfg : Config)
    (hnew : new u cfg = .ok h) :
    (∀ requests requests', List.Forall₂ (Request.SameAs False) requests requests' →
      IndependentOfTiming cfg h requests requests') ↔ ∀ level : Level, level.HasSet cfg := by
  constructor
  · intro hall level
    have hsame : List.Forall₂ (Request.SameAs False) [⟨level, 0, 0, false⟩]
        [⟨level, 0, 0, false⟩] := .cons ⟨rfl, rfl, rfl, False.elim⟩ .nil
    obtain ⟨answers, h₁, -, -, hrun, -⟩ := hall _ _ hsame
    obtain ⟨⟨avail, h₂⟩, haccess, -⟩ := bind_eq_ok.mp hrun
    apply (numSets_pos_iff hnew level).mp
    apply Nat.one_le_iff_ne_zero.mpr
    intro hnone
    rw [access_noSets cfg hnone] at haccess
    cases haccess
  · intro hsets requests requests' hcalls
    exact (new_sound hnew hsets).independentOfTiming cfg hcalls

/-- The caches of the default configuration. -/
theorem independentOfTiming_iff_default :
    ∃ h, new (fun _ => ⟨0, 0, 0⟩) {} = .ok h ∧
      ((∀ requests requests', List.Forall₂ (Request.SameAs False) requests requests' →
        IndependentOfTiming {} h requests requests') ↔ ∀ level : Level, level.HasSet {}) := by
  obtain ⟨h, hnew⟩ := exists_of_isOk
    (show (new (fun _ => ⟨0, 0, 0⟩) {}).isOk = true by decide +kernel)
  exact ⟨h, hnew, independentOfTiming_iff _ _ hnew⟩

/-- An instruction cache of 1 KiB with sets of 32 blocks is accepted, and its first access
stops the program. -/
theorem smallCache_stops : ∃ h, new (fun _ => ⟨0, 0, 0⟩)
      { icSize := 2 ^ 10, icAssoc := 32, icBlocksize := 64 } = .ok h ∧
    ¬ ∀ requests requests', List.Forall₂ (Request.SameAs False) requests requests' →
      IndependentOfTiming { icSize := 2 ^ 10, icAssoc := 32, icBlocksize := 64 } h requests
        requests' := by
  obtain ⟨h, hnew⟩ := exists_of_isOk (show (new (fun _ => ⟨0, 0, 0⟩)
    { icSize := 2 ^ 10, icAssoc := 32, icBlocksize := 64 }).isOk = true by decide +kernel)
  refine ⟨h, hnew, fun hall => ?_⟩
  have hsame : List.Forall₂ (Request.SameAs False) [⟨.IC, 0, 64, false⟩] [⟨.IC, 0, 64, false⟩] :=
    .cons ⟨rfl, rfl, rfl, False.elim⟩ .nil
  obtain ⟨answers, h₁, -, -, hrun, -⟩ := hall _ _ hsame
  have hnone : (h .IC).numSets = 0 := by
    obtain ⟨latency, hc⟩ := new_level hnew .IC
    exact (Cache.new_eq_ok hc).2.2.2.1
  rw [run, access_noSets _ hnone] at hrun
  cases hrun

end Hierarchy

end CbpSim.Memory
