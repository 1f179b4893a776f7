/-
  Memory/TrueLru.lean --- every run of accesses keeps true LRU order.

  A run feeds one cache a list of accesses.  The level below is arbitrary: each
  access comes with the cycle at which that level would answer.  The history of a
  set is the list of tags accessed in it, and after the run the set holds
  `recent assoc` of that history.

  Source: src/lib/cache.cc, `cache_t::cache_t` and `cache_t::access`.
-/
import CbpSim.Memory.Lru

set_option autoImplicit false

namespace CbpSim.Memory

open CbpSim.Foundation
open CbpSim.Foundation.Recency

/-- One call of `access`, and how the level below answers it. -/
structure Access where
  cycle : Nat
  addr : Nat
  pf : Bool
  fill : Nat → Nat

namespace Cache

/-- `access`, the level below answering with `a.fill`. -/
def step (c : Cache) (a : Access) : Except Abort Cache := do
  let (_, c, _) ← c.access () (fun cycle => .ok (a.fill cycle, ())) a.cycle a.addr a.pf
  .ok c

/-- The block of an address. -/
def blockOf (c : Cache) (addr : Nat) : Nat := addr >>> c.numOffsetBits

/-- The addresses of the accesses to a set, newest first. -/
def history (c : Cache) (accesses : List Access) (set : Nat) : List Nat :=
  ((accesses.map Access.addr).filter fun addr => c.indexOf addr == set).reverse

/-! ## Runs -/

variable {c c' : Cache}

theorem indexOf_congr (h : c'.geometry = c.geometry) (addr : Nat) :
    c'.indexOf addr = c.indexOf addr := by
  simp only [geometry, Prod.mk.injEq] at h
  simp only [indexOf, h]

theorem tagOf_congr (h : c'.geometry = c.geometry) (addr : Nat) :
    c'.tagOf addr = c.tagOf addr := by
  simp only [geometry, Prod.mk.injEq] at h
  simp only [tagOf, h]

theorem indexed_congr (h : c'.geometry = c.geometry) (hindexed : c.Indexed) : c'.Indexed := by
  intro addr
  rw [indexOf_congr h, show c'.numSets = c.numSets from (Prod.mk.inj h).1]
  exact hindexed addr

theorem assoc_congr (h : c'.geometry = c.geometry) : c'.assoc = c.assoc := by
  simp only [geometry, Prod.mk.injEq] at h
  exact h.2.2.2.2

/-- A change of one set. -/
theorem holds_update {l : Nat → List Nat} {set : Nat} {tags : List Nat}
    (hgeom : c'.geometry = c.geometry) (h : c.Holds l)
    (hset : Ranked c.assoc (c'.blocks set) tags)
    (hother : ∀ i, i ≠ set → c'.blocks i = c.blocks i) :
    c'.Holds (Function.update l set tags) := by
  intro i
  rw [assoc_congr hgeom]
  rcases eq_or_ne i set with rfl | hne
  · rwa [Function.update_self]
  · rw [Function.update_of_ne hne, hother i hne]
    exact h i

/-- One access touches its tag in its set. -/
theorem step_holds {l : Nat → List Nat} (hpos : 0 < c.assoc) (hindexed : c.Indexed)
    (h : c.Holds l) (a : Access) :
    ∃ c', c.step a = .ok c' ∧ c'.geometry = c.geometry ∧
      c'.Holds (Function.update l (c.indexOf a.addr)
        (touch c.assoc (c.tagOf a.addr) (l (c.indexOf a.addr)))) := by
  obtain ⟨avail, c', below, haccess, -, hgeom, hset, hother⟩ :=
    access_ranked () (fun cycle => .ok (a.fill cycle, ())) a.cycle a.addr a.pf hpos
      (hindexed a.addr) (h (c.indexOf a.addr)) ⟨_, rfl⟩
  refine ⟨c', ?_, hgeom, ?_⟩
  · rw [step, haccess]
    rfl
  · exact holds_update hgeom h hset hother

/-- A run touches, in every set, the tags of the accesses to it. -/
theorem run_holds {l : Nat → List Nat} (hpos : 0 < c.assoc) (hindexed : c.Indexed)
    (h : c.Holds l) (accesses : List Access) :
    ∃ c', Run step c accesses c' ∧ c'.geometry = c.geometry ∧
      c'.Holds fun i =>
        (((accesses.map Access.addr).filter fun addr => c.indexOf addr == i).map c.tagOf).foldl
          (fun l tag => touch c.assoc tag l) (l i) := by
  induction accesses generalizing c l with
  | nil => exact ⟨c, run_nil.mpr rfl, rfl, h⟩
  | cons a accesses ih =>
    obtain ⟨c₁, hstep, hgeom₁, hholds₁⟩ := step_holds hpos hindexed h a
    obtain ⟨c', hrun, hgeom, hholds⟩ := ih (assoc_congr hgeom₁ ▸ hpos)
      (indexed_congr hgeom₁ hindexed) hholds₁
    refine ⟨c', run_cons.mpr ⟨c₁, hstep, hrun⟩, hgeom.trans hgeom₁, ?_⟩
    intro i
    have hi := hholds i
    simp only [indexOf_congr hgeom₁, assoc_congr hgeom₁, funext (tagOf_congr hgeom₁)] at hi
    rcases eq_or_ne (c.indexOf a.addr) i with rfl | hne
    · simpa using hi
    · rw [Function.update_of_ne hne.symm] at hi
      simpa [List.filter_cons, hne] using hi

/-! ## Reading the invariant -/

/-- Sorted by their counters, the valid ways hold the listed tags. -/
theorem sorted_tags {assoc : Nat} {ways : List Block} {l : List Nat} (h : Ranked assoc ways l) :
    ((ways.mergeSort fun a b => a.lru ≤ b.lru).filter Block.valid).map Block.tag = l := by
  set sorted := ways.mergeSort fun a b => a.lru ≤ b.lru with hsorted
  have hperm : sorted.Perm ways := List.mergeSort_perm _ _
  have hranks : sorted.map Block.lru = List.range assoc := by
    have hle : List.Pairwise (fun a b : Block => decide (a.lru ≤ b.lru) = true) sorted := by
      apply List.pairwise_mergeSort
      · simp only [decide_eq_true_eq]
        omega
      · simp only [Bool.or_eq_true, decide_eq_true_eq]
        omega
    refine List.Perm.eq_of_pairwise (fun (a b : Nat) _ _ (hab : a ≤ b) => Nat.le_antisymm hab) ?_ ?_
      ((hperm.map _).trans h.ranks)
    · rw [List.pairwise_map]
      simpa using hle
    · exact List.pairwise_le_range
  have hkeys : sorted.map Block.key = (List.range assoc).map fun k => l[k]? := by
    rw [← hranks, List.map_map]
    exact List.map_congr_left fun b hb => h.keys b (hperm.mem_iff.mp hb)
  have hvalid : (sorted.filter Block.valid).map Block.tag = (sorted.map Block.key).filterMap id := by
    rw [List.filterMap_map, ← List.filterMap_eq_map, List.filterMap_filter]
    refine List.filterMap_congr fun b _ => ?_
    cases hb : b.valid <;> simp [Block.key, hb]
  rw [hvalid, hkeys, List.filterMap_map]
  exact filterMap_getElem?_range h.length_le

/-- A search hits exactly the tags that the set holds. -/
theorem lookup_hit_iff {l : List Nat} (addr : Nat) (hpos : 0 < c.assoc)
    (h : Ranked c.assoc (c.blocks (c.indexOf addr)) l) :
    (∃ way, c.lookup addr = .hit way) ↔ c.tagOf addr ∈ l := by
  obtain ⟨w, -, -, -, ⟨hmem, hsearch, -⟩ | ⟨hnot, hsearch, -⟩⟩ :=
    search_ranked (c.tagOf addr) h hpos
  · exact iff_of_true ⟨w, hsearch⟩ hmem
  · refine iff_of_false ?_ hnot
    rintro ⟨way, hhit⟩
    rw [lookup, hsearch] at hhit
    exact Lookup.noConfusion hhit

/-! ## The constructor -/

/-- What the constructor asserts, and what it makes of it. -/
theorem new_eq_ok {u : Unspecified} {size assoc blocksize latency : Nat}
    (h : Cache.new u size assoc blocksize latency = .ok c) :
    0 < assoc ∧ c.assoc = assoc ∧ c.Holds (fun _ => []) ∧
      c.numSets = size / (assoc * blocksize % 2 ^ 64) ∧
      isPow2 (size / (assoc * blocksize % 2 ^ 64)) = true ∧
      c.numIndexBits = log2 u (size / (assoc * blocksize % 2 ^ 64)) ∧
      c.indexMask = (size / (assoc * blocksize % 2 ^ 64) + (2 ^ 64 - 1)) % 2 ^ 64 := by
  unfold Cache.new at h
  split at h
  · cases h
  · simp only at h
    split at h
    · cases h
    · rename_i hbytes
      split at h
      · cases h
      · rename_i hsets
        obtain rfl := Except.ok.inj h
        refine ⟨?_, rfl, fun _ => ranked_new assoc, rfl, by simpa using hsets, rfl, rfl⟩
        rcases Nat.eq_zero_or_pos assoc with rfl | hpos
        · simp at hbytes
        · exact hpos

/-- A number other than 0 that passes `IsPow2` is a power of two. -/
theorem exists_pow_of_isPow2 {x : Nat} (hx : x ≠ 0) (h : isPow2 x = true) : ∃ k, x = 2 ^ k :=
  (Nat.and_sub_one_eq_zero_iff_isPowerOfTwo hx).mp (by simpa [isPow2] using h)

/-- With a power of two of sets, index and tag are the remainder and the quotient
of the block. -/
theorem new_geometry {u : Unspecified} {size assoc blocksize latency : Nat} (hsize : size < 2 ^ 64)
    (hsets : 1 ≤ size / (assoc * blocksize % 2 ^ 64))
    (h : Cache.new u size assoc blocksize latency = .ok c) :
    ∃ k, ∀ addr, c.indexOf addr = c.blockOf addr % 2 ^ k ∧ c.tagOf addr = c.blockOf addr / 2 ^ k := by
  obtain ⟨-, -, -, -, hpow, hbits, hmask⟩ := new_eq_ok h
  have hle : size / (assoc * blocksize % 2 ^ 64) ≤ size := Nat.div_le_self _ _
  generalize size / (assoc * blocksize % 2 ^ 64) = numSets at *
  have hne : numSets ≠ 0 := Nat.one_le_iff_ne_zero.mp hsets
  obtain ⟨k, rfl⟩ := exists_pow_of_isPow2 hne hpow
  refine ⟨k, fun addr => ⟨?_, ?_⟩⟩
  · have hmask' : c.indexMask = 2 ^ k - 1 := by
      rw [hmask]
      omega
    rw [indexOf, hmask', Nat.and_two_pow_sub_one_eq_mod, blockOf]
  · have hbits' : c.numIndexBits = k := by
      rw [hbits, log2, if_neg hne, Nat.log2_two_pow]
    rw [tagOf, blockOf, Nat.add_comm, Nat.shiftRight_add, hbits', Nat.shiftRight_eq_div_pow _ k]

/-- A cache with a set has one for every address. -/
theorem new_indexed {u : Unspecified} {size assoc blocksize latency : Nat}
    (h : Cache.new u size assoc blocksize latency = .ok c) (hsets : 1 ≤ c.numSets) :
    c.Indexed := by
  obtain ⟨-, -, -, hnum, -, -, hmask⟩ := new_eq_ok h
  rw [← hnum] at hmask
  intro addr
  have hle : c.indexOf addr ≤ c.indexMask := Nat.and_le_right
  have hlast : (c.numSets + (2 ^ 64 - 1)) % 2 ^ 64 ≤ c.numSets - 1 := by
    rw [show c.numSets + (2 ^ 64 - 1) = c.numSets - 1 + 2 ^ 64 by omega, Nat.add_mod_right]
    exact Nat.mod_le _ _
  omega

/-- A cache without a set has none for any address. -/
theorem access_noSets {σ : Type} (hsets : c.numSets = 0) (below : σ)
    (next : Nat → Except Abort (Nat × σ)) (cycle addr : Nat) (pf : Bool) :
    c.access below next cycle addr pf = .error .cacheIndex := by
  rw [access, waysAt_past (hsets ▸ Nat.zero_le _)]
  rfl

/-! ## The main result -/

/-- **True LRU.**  After any accesses to a new cache, all of which succeed, every
set holds exactly the tags last used in it, its counters are a permutation of the
ways, and an access hits exactly when its block is among the last `assoc`
distinct blocks of its set. -/
theorem access_runs_true_lru (u : Unspecified) (size assoc blocksize latency : Nat)
    (hsize : size < 2 ^ 64) (hsets : 1 ≤ size / (assoc * blocksize % 2 ^ 64))
    (hnew : Cache.new u size assoc blocksize latency = .ok c) (accesses : List Access) :
    ∃ c', Run step c accesses c' ∧ ∀ set,
      ((c'.blocks set).map Block.lru).Perm (List.range assoc) ∧
      (((c'.blocks set).filter Block.valid).map Block.tag).Nodup ∧
      (((c'.blocks set).mergeSort fun a b => a.lru ≤ b.lru).filter Block.valid).map Block.tag =
        recent assoc ((c.history accesses set).map c.tagOf) ∧
      ∀ addr, c.indexOf addr = set →
        ((∃ way, c'.lookup addr = .hit way) ↔
          c.blockOf addr ∈ recent assoc ((c.history accesses set).map c.blockOf)) := by
  obtain ⟨hpos, rfl, hholds, hnum, -⟩ := new_eq_ok hnew
  have hindexed := new_indexed hnew (hnum ▸ hsets)
  obtain ⟨c', hrun, hgeom, hends⟩ := run_holds hpos hindexed hholds accesses
  refine ⟨c', hrun, fun set => ?_⟩
  have hranked : Ranked c.assoc (c'.blocks set)
      (recent c.assoc ((c.history accesses set).map c.tagOf)) := by
    have hset := hends set
    beta_reduce at hset
    rw [assoc_congr hgeom] at hset
    rw [← recent_nil c.assoc, foldl_touch_recent, List.append_nil, ← List.map_reverse] at hset
    exact hset
  have hsorted := sorted_tags hranked
  refine ⟨hranked.ranks, ?_, hsorted, ?_⟩
  · have hperm := ((List.mergeSort_perm (c'.blocks set) fun a b => a.lru ≤ b.lru).filter
      Block.valid).map Block.tag
    exact hperm.nodup_iff.mp (hsorted ▸ recent_nodup _ _)
  · intro addr haddr
    have hhit := lookup_hit_iff addr (assoc_congr hgeom ▸ hpos)
      (by rw [indexOf_congr hgeom, haddr, assoc_congr hgeom]; exact hranked)
    rw [hhit, tagOf_congr hgeom]
    -- blocks of one set differ in their tags
    obtain ⟨k, hgeometry⟩ := new_geometry hsize hsets hnew
    have hinset : ∀ x ∈ (c.history accesses set), c.blockOf x % 2 ^ k = set := by
      intro x hx
      rw [← (hgeometry x).1]
      simpa using (List.mem_filter.mp (List.mem_reverse.mp hx)).2
    have hinj : ∀ a b, a % 2 ^ k = b % 2 ^ k → a / 2 ^ k = b / 2 ^ k → a = b := by
      intro a b hmod hdiv
      rw [← Nat.div_add_mod a (2 ^ k), hdiv, hmod, Nat.div_add_mod]
    have htags : (c.history accesses set).map c.tagOf =
        ((c.history accesses set).map c.blockOf).map (· / 2 ^ k) := by
      rw [List.map_map]
      exact List.map_congr_left fun x _ => (hgeometry x).2
    have hblocks : ∀ b ∈ (c.history accesses set).map c.blockOf, b % 2 ^ k = set := by
      intro b hb
      obtain ⟨x, hx, rfl⟩ := List.mem_map.mp hb
      exact hinset x hx
    rw [htags, recent_map _ _ _ fun a ha b hb => hinj a b ((hblocks a ha).trans (hblocks b hb).symm),
      (hgeometry addr).2, List.mem_map]
    constructor
    · rintro ⟨b, hb, hdiv⟩
      have hmem : b ∈ (c.history accesses set).map c.blockOf :=
        List.mem_eraseDups.mp (List.mem_of_mem_take hb)
      have hmod : b % 2 ^ k = c.blockOf addr % 2 ^ k := by
        rw [hblocks b hmem, ← (hgeometry addr).1, haddr]
      rwa [← hinj b _ hmod hdiv]
    · intro hmem
      exact ⟨_, hmem, rfl⟩

/-- A two-way cache of two sets, accessed at three blocks of one set. -/
theorem access_runs_true_lru_twoWays :
    ∃ c c', Cache.new ⟨0, 0, 0⟩ 128 2 32 3 = .ok c ∧
      Run step c [⟨5, 32, false, id⟩, ⟨9, 96, false, id⟩, ⟨7, 160, true, id⟩] c' ∧
      (∃ way, c'.lookup 100 = .hit way) ∧ ¬ ∃ way, c'.lookup 32 = .hit way := by
  obtain ⟨c', hrun, hsets⟩ := access_runs_true_lru ⟨0, 0, 0⟩ 128 2 32 3 (by decide) (by decide) rfl
    [⟨5, 32, false, id⟩, ⟨9, 96, false, id⟩, ⟨7, 160, true, id⟩]
  obtain ⟨-, -, -, hhit⟩ := hsets 1
  refine ⟨_, c', rfl, hrun, (hhit 100 rfl).mpr (by decide), ?_⟩
  exact fun hit => absurd ((hhit 32 rfl).mp hit) (by decide)

/-! ## The hierarchy -/

/-- What an access needs: ways, a set for every address, and tags by rank. -/
structure Answers (c : Cache) : Prop where
  assoc : 0 < c.assoc
  indexed : c.Indexed
  holds : ∃ l, c.Holds l

/-- **No access aborts.**  The levels of a hierarchy that hold tags by rank answer
every access and hold tags by rank afterwards. -/
theorem accessLevels_answers (mainMemoryLatency : Nat) {levels : List Cache}
    (h : ∀ c ∈ levels, c.Answers) (cycle addr : Nat) (pf : Bool) :
    ∃ avail levels', accessLevels mainMemoryLatency levels cycle addr pf = .ok (avail, levels') ∧
      ∀ c ∈ levels', c.Answers := by
  induction levels generalizing cycle with
  | nil => exact ⟨_, [], rfl, by simp⟩
  | cons c levels ih =>
    obtain ⟨hc, hlevels⟩ := List.forall_mem_cons.mp h
    obtain ⟨l, hholds⟩ := hc.holds
    obtain ⟨fill, filled, hnext, hfilled⟩ := ih hlevels (cycle + c.latency)
    obtain ⟨avail, c', levels', haccess, hbelow, hgeom, hset, hother⟩ :=
      access_ranked levels (fun cycle => accessLevels mainMemoryLatency levels cycle addr pf)
        cycle addr pf hc.assoc (hc.indexed addr) (hholds (c.indexOf addr)) ⟨_, hnext⟩
    have hc' : c'.Answers :=
      { assoc := assoc_congr hgeom ▸ hc.assoc
        indexed := indexed_congr hgeom hc.indexed
        holds := ⟨_, holds_update hgeom hholds hset hother⟩ }
    refine ⟨avail, c' :: levels', ?_, ?_⟩
    · rw [accessLevels, haccess]
      rfl
    · rcases hbelow with rfl | hbelow
      · exact List.forall_mem_cons.mpr ⟨hc', hlevels⟩
      · obtain ⟨rfl, rfl⟩ := Prod.mk.inj (Except.ok.inj (hbelow.symm.trans hnext))
        exact List.forall_mem_cons.mpr ⟨hc', hfilled⟩

end Cache
end CbpSim.Memory
