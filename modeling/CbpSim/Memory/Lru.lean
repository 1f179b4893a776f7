/-
  Memory/Lru.lean --- the caches are true LRU.

  Each set stores its recency order in per-way counters that are bumped in
  place.  The invariant `Ranked` reads them as ranks in the list of the most
  recently used tags: the counters are a permutation of the ranks, and the way of
  rank `k` holds the `k`-th most recent tag, or is invalid when there is none.
  One access touches one rank, hit or miss alike.

  Source: src/lib/cache.cc, `cache_t::access` and `cache_t::update_lru`.
-/
import CbpSim.Foundation.Recency
import CbpSim.Foundation.Run
import CbpSim.Memory.Cache

set_option autoImplicit false

namespace CbpSim.Memory

open CbpSim.Foundation
open CbpSim.Foundation.Recency

/-- What a way holds. -/
def Block.key (b : Block) : Option Nat := if b.valid then some b.tag else none

theorem Block.key_eq_some {b : Block} {tag : Nat} :
    b.key = some tag ↔ (b.valid && b.tag == tag) = true := by
  unfold Block.key
  cases b.valid <;> simp

/-- The way after rank `p` is touched. -/
def Block.bumped (p : Nat) (b : Block) : Block := { b with lru := bump p b.lru }

@[simp] theorem Block.bumped_lru (p : Nat) (b : Block) : (b.bumped p).lru = bump p b.lru := rfl
@[simp] theorem Block.bumped_key (p : Nat) (b : Block) : (b.bumped p).key = b.key := rfl

/-- The ways of a set hold the tags `l`, most recent first, by rank. -/
structure Ranked (assoc : Nat) (ways : List Block) (l : List Nat) : Prop where
  /-- the counters are a permutation of the ranks -/
  ranks : (ways.map Block.lru).Perm (List.range assoc)
  /-- the way of rank `k` holds the `k`-th tag -/
  keys : ∀ b ∈ ways, b.key = l[b.lru]?
  /-- no tag is listed twice -/
  nodup : l.Nodup
  /-- there is a way for every tag -/
  length_le : l.length ≤ assoc

namespace Ranked

variable {assoc : Nat} {ways : List Block} {l : List Nat}

theorem length_ways (h : Ranked assoc ways l) : ways.length = assoc := by
  simpa using h.ranks.length_eq

theorem lru_lt (h : Ranked assoc ways l) {b : Block} (hb : b ∈ ways) : b.lru < assoc :=
  List.mem_range.mp (h.ranks.mem_iff.mp (List.mem_map_of_mem hb))

/-- Two ways of one rank are one way. -/
theorem way_unique (h : Ranked assoc ways l) {v w : Nat} {a b : Block}
    (hv : ways[v]? = some a) (hw : ways[w]? = some b) (hlru : a.lru = b.lru) : v = w := by
  have hnodup : (ways.map Block.lru).Nodup := h.ranks.nodup_iff.mpr List.nodup_range
  have hvlt : v < ways.length := (List.getElem?_eq_some_iff.mp hv).1
  refine (List.getElem?_inj (by simpa using hvlt) hnodup).mp ?_
  rw [List.getElem?_map, List.getElem?_map, hv, hw]
  simp [hlru]

/-- A tag of the list sits in a way, under its rank. -/
theorem exists_way (h : Ranked assoc ways l) {k : Nat} (hk : k < assoc) :
    ∃ b ∈ ways, b.lru = k := by
  have hmem : k ∈ ways.map Block.lru := h.ranks.mem_iff.mpr (List.mem_range.mpr hk)
  obtain ⟨b, hb, hlru⟩ := List.mem_map.mp hmem
  exact ⟨b, hb, hlru⟩

/-- The tags held are the tags listed. -/
theorem mem_iff (h : Ranked assoc ways l) {tag : Nat} :
    tag ∈ l ↔ ∃ b ∈ ways, b.key = some tag := by
  constructor
  · intro hmem
    have hidx : l.idxOf tag < l.length := List.idxOf_lt_length_of_mem hmem
    obtain ⟨b, hb, hlru⟩ := h.exists_way (lt_of_lt_of_le hidx h.length_le)
    refine ⟨b, hb, ?_⟩
    rw [h.keys b hb, hlru, List.getElem?_eq_getElem hidx, List.getElem_idxOf hidx]
  · rintro ⟨b, hb, hkey⟩
    rw [h.keys b hb] at hkey
    exact List.mem_of_getElem? hkey

/-- Touching: the entry of rank `touched` now holds `tag`, the others are
bumped. -/
theorem map_touch (h : Ranked assoc ways l) (hpos : 0 < assoc) {tag : Nat}
    {f : Block → Block}
    (hlru : ∀ b ∈ ways, (f b).lru = bump (touched assoc tag l) b.lru)
    (hkey : ∀ b ∈ ways,
      (f b).key = if b.lru = touched assoc tag l then some tag else b.key) :
    Ranked assoc (ways.map f) (touch assoc tag l) := by
  have htouched := touched_lt (a := tag) h.length_le hpos
  refine ⟨?_, ?_, ?_, ?_⟩
  · have hmap : (ways.map f).map Block.lru =
        (ways.map Block.lru).map (bump (touched assoc tag l)) := by
      rw [List.map_map, List.map_map]
      exact List.map_congr_left hlru
    rw [hmap]
    exact (h.ranks.map _).trans (range_map_bump htouched)
  · intro b' hb'
    obtain ⟨b, hb, rfl⟩ := List.mem_map.mp hb'
    rw [hkey b hb, hlru b hb, touch_bump h.length_le (h.lru_lt hb), h.keys b hb]
  · refine List.Nodup.sublist (List.take_sublist _ _) ?_
    rw [List.nodup_cons]
    exact ⟨h.nodup.not_mem_erase, h.nodup.erase tag⟩
  · simp [touch]

end Ranked

/-- The ways the constructor makes are ranked, none holding a tag. -/
theorem ranked_new (assoc : Nat) :
    Ranked assoc ((List.range assoc).map fun j =>
      { valid := false, tag := 0, timestamp := 0, lru := j }) [] := by
  refine ⟨?_, ?_, List.nodup_nil, Nat.zero_le _⟩
  · simp [Function.comp_def]
  · intro b hb
    obtain ⟨j, -, rfl⟩ := List.mem_map.mp hb
    rfl

/-! ## The search -/

namespace Cache

/-- The loop over the ways: a hit is a way that holds the tag; a miss means that
none does, and its victim is a way of the largest counter. -/
theorem search_spec (tag : Nat) :
    ∀ (ways : List Block) (way maxLru : Nat) (victim : Option Nat),
      match search tag ways way maxLru victim with
      | .hit w => ∃ k b, w = way + k ∧ ways[k]? = some b ∧ b.key = some tag
      | .miss m v =>
        (∀ b ∈ ways, b.key ≠ some tag) ∧ maxLru ≤ m ∧ (∀ b ∈ ways, b.lru ≤ m) ∧
          ((v = victim ∧ m = maxLru ∧ ∀ b ∈ ways, b.lru < maxLru) ∨
            ∃ k b, v = some (way + k) ∧ ways[k]? = some b ∧ b.lru = m) := by
  intro ways
  induction ways with
  | nil => intro way maxLru victim; simp [search]
  | cons b ways ih =>
    intro way maxLru victim
    unfold search
    by_cases hkey : (b.valid && b.tag == tag) = true
    · simp only [hkey, if_true]
      exact ⟨0, b, rfl, rfl, Block.key_eq_some.mpr hkey⟩
    · have hne : b.key ≠ some tag := fun h => hkey (Block.key_eq_some.mp h)
      simp only [hkey, if_false, Bool.false_eq_true]
      by_cases hmax : b.lru ≥ maxLru
      · simp only [hmax, if_true]
        have hrest := ih (way + 1) b.lru (some way)
        cases hs : search tag ways (way + 1) b.lru (some way) with
        | hit w =>
          rw [hs] at hrest
          obtain ⟨k, b', rfl, hk, hb'⟩ := hrest
          exact ⟨k + 1, b', by omega, by simpa using hk, hb'⟩
        | miss m v =>
          rw [hs] at hrest
          obtain ⟨hnone, hle, hall, hvictim⟩ := hrest
          refine ⟨?_, by omega, ?_, Or.inr ?_⟩
          · simpa using ⟨hne, hnone⟩
          · simpa using ⟨hle, hall⟩
          · rcases hvictim with ⟨rfl, rfl, -⟩ | ⟨k, b', rfl, hk, hb'⟩
            · exact ⟨0, b, rfl, rfl, rfl⟩
            · exact ⟨k + 1, b', by rw [Nat.add_right_comm, Nat.add_assoc], by simpa using hk, hb'⟩
      · simp only [hmax, if_false]
        have hrest := ih (way + 1) maxLru victim
        cases hs : search tag ways (way + 1) maxLru victim with
        | hit w =>
          rw [hs] at hrest
          obtain ⟨k, b', rfl, hk, hb'⟩ := hrest
          exact ⟨k + 1, b', by omega, by simpa using hk, hb'⟩
        | miss m v =>
          rw [hs] at hrest
          obtain ⟨hnone, hle, hall, hvictim⟩ := hrest
          refine ⟨by simpa using ⟨hne, hnone⟩, hle, ?_, ?_⟩
          · simp only [List.mem_cons, forall_eq_or_imp]
            exact ⟨by omega, hall⟩
          · rcases hvictim with ⟨rfl, rfl, hlt⟩ | ⟨k, b', rfl, hk, hb'⟩
            · refine Or.inl ⟨rfl, rfl, ?_⟩
              simp only [List.mem_cons, forall_eq_or_imp]
              exact ⟨by omega, hlt⟩
            · exact Or.inr ⟨k + 1, b', by rw [Nat.add_right_comm, Nat.add_assoc],
                by simpa using hk, hb'⟩

/-- On ranked ways a search hits the way of the rank it touches when the tag is
held, and else ends with the way of the last rank. -/
theorem search_ranked {assoc : Nat} {ways : List Block} {l : List Nat} (tag : Nat)
    (h : Ranked assoc ways l) (hpos : 0 < assoc) :
    ∃ w b, ways[w]? = some b ∧ b.lru = touched assoc tag l ∧
      ((tag ∈ l ∧ search tag ways 0 0 none = .hit w ∧ b.key = some tag) ∨
        (tag ∉ l ∧ search tag ways 0 0 none = .miss (assoc - 1) (some w) ∧ w < assoc)) := by
  have hspec := search_spec tag ways 0 0 none
  cases hs : search tag ways 0 0 none with
  | hit w =>
    rw [hs] at hspec
    obtain ⟨k, b, hw, hk, hkey⟩ := hspec
    obtain rfl : w = k := by omega
    have hb : b ∈ ways := List.mem_of_getElem? hk
    have hmem : tag ∈ l := h.mem_iff.mpr ⟨b, hb, hkey⟩
    refine ⟨w, b, hk, ?_, Or.inl ⟨hmem, rfl, hkey⟩⟩
    have hrank : l[b.lru]? = some tag := by rw [← h.keys b hb, hkey]
    obtain ⟨hlt, hget⟩ := List.getElem?_eq_some_iff.mp hrank
    rw [touched, if_pos hmem, ← hget, h.nodup.idxOf_getElem]
  | miss m v =>
    rw [hs] at hspec
    obtain ⟨hnone, -, hall, hvictim⟩ := hspec
    have hnot : tag ∉ l := fun hmem => by
      obtain ⟨b, hb, hkey⟩ := h.mem_iff.mp hmem
      exact hnone b hb hkey
    obtain ⟨last, hlast, hlru⟩ := h.exists_way (k := assoc - 1) (by omega)
    rcases hvictim with ⟨-, rfl, hlt⟩ | ⟨w, b, hv, hw, hm⟩
    · exact absurd (hlt last hlast) (Nat.not_lt_zero _)
    · rw [Nat.zero_add] at hv
      have hb : b ∈ ways := List.mem_of_getElem? hw
      have := h.lru_lt hb
      have := hall last hlast
      obtain rfl : m = assoc - 1 := by omega
      refine ⟨w, b, hw, by rw [touched, if_neg hnot]; exact hm, Or.inr ⟨hnot, by rw [hv], ?_⟩⟩
      rw [← h.length_ways]
      exact (List.getElem?_eq_some_iff.mp hw).1

/-- `update_lru` on ranked counters bumps the ranks; its assert holds. -/
theorem updateLru_eq {assoc : Nat} {ways ranked : List Block} {l : List Nat} {w : Nat} {b : Block}
    (h : Ranked assoc ranked l) (hsame : ways.map Block.lru = ranked.map Block.lru)
    (hw : ways[w]? = some b) :
    updateLru assoc ways w = .ok (ways.map (Block.bumped b.lru)) := by
  have hget : ways.getD w default = b := by
    rw [List.getD_eq_getElem?_getD, hw]; rfl
  have hlt : ∀ a ∈ ways, a.lru < assoc := fun a ha =>
    List.mem_range.mp (h.ranks.mem_iff.mp (hsame ▸ List.mem_map_of_mem ha))
  have hnodup : (ways.map Block.lru).Nodup :=
    hsame ▸ h.ranks.nodup_iff.mpr List.nodup_range
  unfold updateLru
  simp only [hget]
  rw [if_neg]
  · congr 1
    refine List.ext_getElem? fun k => ?_
    rw [List.getElem?_modify, List.getElem?_map, List.getElem?_map]
    cases hk : ways[k]? with
    | none => simp
    | some a =>
      simp only [Option.map_some]
      have hwk : w = k ↔ a.lru = b.lru := by
        constructor
        · rintro rfl
          rw [hw] at hk
          rw [Option.some.inj hk]
        · intro hlru
          have hwlt : w < ways.length := (List.getElem?_eq_some_iff.mp hw).1
          refine (List.getElem?_inj (by simpa using hwlt) hnodup).mp ?_
          rw [List.getElem?_map, List.getElem?_map, hk, hw]
          simp [hlru]
      by_cases heq : w = k
      · have hlru := hwk.mp heq
        simp [heq, Block.bumped, bump, hlru]
      · have hlru : ¬ a.lru = b.lru := fun h => heq (hwk.mpr h)
        simp only [heq, if_false, Block.bumped, bump, hlru]
        split <;> simp
  · intro hany
    obtain ⟨a, ha, hbad⟩ := List.any_eq_true.mp hany
    have hb : b ∈ ways := List.mem_of_getElem? hw
    have := hlt b hb
    simp only [Bool.and_eq_true, decide_eq_true_eq] at hbad
    omega

/-! ## One access -/

/-- What fixes the set and the tag of an address. -/
def geometry (c : Cache) : Nat × Nat × Nat × Nat × Nat :=
  (c.numSets, c.numIndexBits, c.numOffsetBits, c.indexMask, c.assoc)

/-- Every address falls into a set. -/
def Indexed (c : Cache) : Prop := ∀ addr, c.indexOf addr < c.numSets

/-- Every set `i` holds the tags `l i`. -/
def Holds (c : Cache) (l : Nat → List Nat) : Prop := ∀ i, Ranked c.assoc (c.blocks i) (l i)

/-- The block brought in by a miss, and the bump of the counters, are one change
of every way. -/
theorem modify_map_bumped {assoc : Nat} {ways : List Block} {l : List Nat} {w : Nat} {b : Block}
    (h : Ranked assoc ways l) (hw : ways[w]? = some b) (fill : Block → Block) (p : Nat) :
    (ways.modify w fill).map (Block.bumped p) =
      ways.map fun a => (if a.lru = b.lru then fill a else a).bumped p := by
  refine List.ext_getElem? fun k => ?_
  rw [List.getElem?_map, List.getElem?_map, List.getElem?_modify]
  cases hk : ways[k]? with
  | none => rfl
  | some a =>
    have hwk : w = k ↔ a.lru = b.lru := by
      constructor
      · rintro rfl
        rw [hw] at hk
        rw [Option.some.inj hk]
      · intro hlru
        exact h.way_unique hw hk hlru.symm
    rcases eq_or_ne w k with heq | hne
    · simp [heq, hwk.mp heq]
    · have hlru : ¬ a.lru = b.lru := fun hlru => hne (hwk.mpr hlru)
      simp [hne, hlru]

/-- **The step lemma.**  When there is a set for the address and the next level answers,
so does the access; it touches the tag in that set and leaves the other sets alone. -/
theorem access_ranked {σ : Type} {c : Cache} (below : σ) (next : Nat → Except Abort (Nat × σ))
    {l : List Nat} (cycle addr : Nat) (pf : Bool)
    (hpos : 0 < c.assoc) (hindex : c.indexOf addr < c.numSets)
    (h : Ranked c.assoc (c.blocks (c.indexOf addr)) l)
    (hnext : ∃ answer, next (cycle + c.latency) = .ok answer) :
    ∃ avail c' below', c.access below next cycle addr pf = .ok (avail, c', below') ∧
      (below' = below ∨ next (cycle + c.latency) = .ok (avail, below')) ∧
      c'.geometry = c.geometry ∧
      Ranked c.assoc (c'.blocks (c.indexOf addr)) (touch c.assoc (c.tagOf addr) l) ∧
      ∀ i, i ≠ c.indexOf addr → c'.blocks i = c.blocks i := by
  obtain ⟨w, b, hw, hlru, ⟨hmem, hsearch, hkey⟩ | ⟨hnot, hsearch, hlt⟩⟩ :=
    search_ranked (c.tagOf addr) h hpos
  · -- a hit bumps the ranks and keeps the tags
    have hupdate := updateLru_eq h rfl hw
    have hranked : Ranked c.assoc ((c.blocks (c.indexOf addr)).map (Block.bumped b.lru))
        (touch c.assoc (c.tagOf addr) l) := by
      refine h.map_touch hpos (fun a _ => by rw [Block.bumped_lru, hlru]) ?_
      intro a ha
      rw [Block.bumped_key]
      split
      · rename_i heq
        rw [h.keys a ha, heq, ← hlru, ← h.keys b (List.mem_of_getElem? hw), hkey]
      · rfl
    have hlookup : (c.countAccess pf).lookup addr = .hit w := hsearch
    have hget : (c.blocks (c.indexOf addr)).getD w default = b := by
      rw [List.getD_eq_getElem?_getD, hw]; rfl
    refine ⟨if b.timestamp > cycle + c.latency then b.timestamp else cycle + c.latency,
      (c.countAccess pf).setWays (c.indexOf addr)
        ((c.blocks (c.indexOf addr)).map (Block.bumped b.lru)), below, ?_, Or.inl rfl, rfl, ?_, ?_⟩
    · rw [access, waysAt_ok hindex, ok_bind]
      simp only [hlookup, hget]
      change (updateLru c.assoc _ w >>= _) = _
      rw [hupdate]
      rfl
    · simpa [setWays, countAccess] using hranked
    · intro i hi
      simp [setWays, countAccess, hi]
  · -- a miss refills the way of the last rank first
    obtain ⟨⟨avail, below'⟩, hanswer⟩ := hnext
    let fill : Block → Block := fun a =>
      { a with valid := true, tag := c.tagOf addr, timestamp := avail }
    have hsame : ((c.blocks (c.indexOf addr)).modify w fill).map Block.lru =
        (c.blocks (c.indexOf addr)).map Block.lru := by
      refine List.ext_getElem? fun k => ?_
      rw [List.getElem?_map, List.getElem?_map, List.getElem?_modify]
      rcases eq_or_ne w k with heq | hne <;> cases (c.blocks (c.indexOf addr))[k]? <;>
        simp [*, fill]
    have hwfill : ((c.blocks (c.indexOf addr)).modify w fill)[w]? = some (fill b) := by
      rw [List.getElem?_modify, hw]
      simp
    have hupdate := updateLru_eq h hsame hwfill
    let ways := (c.blocks (c.indexOf addr)).map fun a =>
      (if a.lru = b.lru then fill a else a).bumped b.lru
    rw [modify_map_bumped h hw] at hupdate
    have hranked : Ranked c.assoc ways (touch c.assoc (c.tagOf addr) l) := by
      refine h.map_touch hpos ?_ ?_
      · intro a _
        rw [Block.bumped_lru, hlru]
        split <;> rfl
      · intro a _
        rw [Block.bumped_key, hlru]
        split <;> rfl
    have hlookup : (c.countAccess pf).lookup addr = .miss (c.assoc - 1) (some w) := hsearch
    refine ⟨avail, ((c.countAccess pf).countMiss pf).setWays (c.indexOf addr) ways, below',
      ?_, Or.inr hanswer, rfl, ?_, ?_⟩
    · rw [access, waysAt_ok hindex, ok_bind]
      simp only [hlookup]
      rw [if_neg (by simp [countMiss, countAccess]),
        if_neg (by simpa [countMiss, countAccess] using hlt)]
      change (next (cycle + c.latency) >>= _) = _
      rw [hanswer]
      change (updateLru c.assoc ((c.blocks (c.indexOf addr)).modify w fill) w >>= _) = _
      rw [hupdate]
      rfl
    · simpa [setWays, countMiss, countAccess] using hranked
    · intro i hi
      simp [setWays, countMiss, countAccess, hi]

/-- A miss stops where the next level stops. -/
theorem access_stops {σ : Type} {c : Cache} (below : σ) {next : Nat → Except Abort (Nat × σ)}
    {l : List Nat} {cycle addr : Nat} (pf : Bool) {e : Abort} (hpos : 0 < c.assoc)
    (hindex : c.indexOf addr < c.numSets)
    (h : Ranked c.assoc (c.blocks (c.indexOf addr)) l) (hnot : c.tagOf addr ∉ l)
    (hnext : next (cycle + c.latency) = .error e) :
    c.access below next cycle addr pf = .error e := by
  obtain ⟨w, b, -, -, ⟨hmem, -⟩ | ⟨-, hsearch, hlt⟩⟩ := search_ranked (c.tagOf addr) h hpos
  · exact absurd hmem hnot
  · have hlookup : (c.countAccess pf).lookup addr = .miss (c.assoc - 1) (some w) := hsearch
    rw [access, waysAt_ok hindex, ok_bind]
    simp only [hlookup]
    rw [if_neg (by simp [countMiss, countAccess]),
      if_neg (by simpa [countMiss, countAccess] using hlt)]
    change (next (cycle + c.latency) >>= _) = _
    rw [hnext]
    rfl

end Cache
end CbpSim.Memory
