/-
  Memory/Fills.lean --- a block that was not asked for is not in the cache.

  Source: src/lib/cache.cc, `cache_t::access`.

  A way is filled for the address of an access only, so the first access to a block is a
  miss, and it is answered after the latency of the next level.  Of the four caches the
  instruction cache is looked at, into which no other one misses.
-/
import CbpSim.Memory.Contents

set_option autoImplicit false

namespace CbpSim.Memory

open CbpSim.Foundation

namespace Cache

variable {c c' : Cache} {addrs : List Nat}

/-! ## One cache -/

/-- Every way that holds a tag was filled for one of the addresses. -/
def FilledFrom (c : Cache) (addrs : List Nat) : Prop :=
  ∀ index, ∀ b ∈ c.blocks index, ∀ tag, b.key = some tag →
    ∃ addr ∈ addrs, c.indexOf addr = index ∧ c.tagOf addr = tag

theorem FilledFrom.mono {addrs' : List Nat} (h : c.FilledFrom addrs) (hsub : addrs ⊆ addrs') :
    c.FilledFrom addrs' := by
  intro index b hb tag hkey
  obtain ⟨addr, haddr, hat⟩ := h index b hb tag hkey
  exact ⟨addr, hsub haddr, hat⟩

theorem new_filledFrom {u : Unspecified} {size assoc blocksize latency : Nat}
    (h : Cache.new u size assoc blocksize latency = .ok c) : c.FilledFrom [] := by
  obtain ⟨-, -, hholds, -⟩ := new_eq_ok h
  intro index b hb tag hkey
  rw [(hholds index).keys b hb] at hkey
  cases hkey

/-- A way moves among the ranks, and keeps what it holds. -/
theorem updateLru_key {assoc : Nat} {ways ways' : List Block} {way : Nat}
    (h : updateLru assoc ways way = .ok ways') {b : Block} (hb : b ∈ ways') :
    ∃ b' ∈ ways, b.key = b'.key := by
  obtain ⟨-, h⟩ := guard_eq_ok.mp h
  obtain rfl := Except.ok.inj h
  have hmap : ∀ a ∈ ways.map fun b : Block =>
      if b.lru < (ways.getD way default).lru then { b with lru := b.lru + 1 } else b,
      ∃ b' ∈ ways, a.key = b'.key := by
    refine List.forall_mem_map.mpr fun a ha => ⟨a, ha, ?_⟩
    split
    · rfl
    · rfl
  obtain ⟨k, hk⟩ := List.mem_iff_getElem?.mp hb
  rw [List.getElem?_modify, Option.map_eq_map, Option.map_eq_some_iff] at hk
  obtain ⟨a, ha, rfl⟩ := hk
  obtain ⟨b', hb', hkey⟩ := hmap a (List.mem_of_getElem? ha)
  refine ⟨b', hb', ?_⟩
  split
  · exact hkey
  · exact hkey

/-- A set of which each way holds what it held, or the tag of `addr`. -/
theorem FilledFrom.setWays (h : c.FilledFrom addrs) (addr : Nat) {ways : List Block}
    (hways : ∀ b ∈ ways, (∃ b' ∈ c.blocks (c.indexOf addr), b.key = b'.key) ∨
      b.key = some (c.tagOf addr)) :
    (c.setWays (c.indexOf addr) ways).FilledFrom (addrs ++ [addr]) := by
  intro index b hb tag hkey
  have hb : b ∈ Function.update c.blocks (c.indexOf addr) ways index := hb
  rcases eq_or_ne index (c.indexOf addr) with rfl | hne
  · rw [Function.update_self] at hb
    rcases hways b hb with ⟨b', hb', hsame⟩ | hfilled
    · obtain ⟨a, ha, hat⟩ := h _ b' hb' tag (hsame ▸ hkey)
      exact ⟨a, List.mem_append_left _ ha, hat⟩
    · refine ⟨addr, by simp, rfl, ?_⟩
      exact Option.some.inj (hfilled.symm.trans hkey)
  · rw [Function.update_of_ne hne] at hb
    obtain ⟨a, ha, hat⟩ := h _ b hb tag hkey
    exact ⟨a, List.mem_append_left _ ha, hat⟩

/-- An access fills ways for its own address only. -/
theorem access_filledFrom {σ : Type} {below below' : σ} {next : Nat → Except Abort (Nat × σ)}
    {cycle addr avail : Nat} {pf : Bool}
    (h : c.access below next cycle addr pf = .ok (avail, c', below')) :
    c'.geometry = c.geometry ∧ (c.FilledFrom addrs → c'.FilledFrom (addrs ++ [addr])) := by
  unfold access at h
  obtain ⟨ways, hways, h⟩ := bind_eq_ok.mp h
  obtain ⟨-, hways⟩ := guard_eq_ok.mp hways
  obtain rfl := Except.ok.inj hways
  dsimp only at h
  cases hlookup : (c.countAccess pf).lookup addr with
  | hit way =>
    rw [hlookup] at h
    obtain ⟨ways', hupdate, h⟩ := bind_eq_ok.mp h
    cases h
    refine ⟨rfl, fun hfilled => ?_⟩
    exact FilledFrom.setWays (c := c.countAccess pf) hfilled addr fun b hb =>
      Or.inl (updateLru_key hupdate hb)
  | miss maxLruCtr victimWay =>
    rw [hlookup] at h
    dsimp only at h
    obtain ⟨-, h⟩ := guard_eq_ok.mp h
    cases victimWay with
    | none => cases h
    | some victimWay =>
      dsimp only at h
      obtain ⟨-, h⟩ := guard_eq_ok.mp h
      obtain ⟨⟨fill, filled⟩, -, h⟩ := bind_eq_ok.mp h
      obtain ⟨ways', hupdate, h⟩ := bind_eq_ok.mp h
      cases h
      refine ⟨rfl, fun hfilled => ?_⟩
      refine FilledFrom.setWays (c := (c.countAccess pf).countMiss pf) hfilled addr fun b hb => ?_
      obtain ⟨b', hb', hkey⟩ := updateLru_key hupdate hb
      obtain ⟨k, hk⟩ := List.mem_iff_getElem?.mp hb'
      rw [List.getElem?_modify, Option.map_eq_map, Option.map_eq_some_iff] at hk
      obtain ⟨a, ha, rfl⟩ := hk
      split at hkey
      · exact Or.inr hkey
      · exact Or.inl ⟨a, List.mem_of_getElem? ha, hkey⟩

/-- An address that shares no set and tag with the others is missed. -/
theorem FilledFrom.lookup_miss (h : c.FilledFrom addrs) {addr : Nat}
    (hfresh : ∀ a ∈ addrs, ¬ (c.indexOf a = c.indexOf addr ∧ c.tagOf a = c.tagOf addr)) :
    ∃ maxLruCtr victimWay, c.lookup addr = .miss maxLruCtr victimWay := by
  have hsearch := search_spec (c.tagOf addr) (c.blocks (c.indexOf addr)) 0 0 none
  cases hlookup : c.lookup addr with
  | miss maxLruCtr victimWay => exact ⟨maxLruCtr, victimWay, rfl⟩
  | hit way =>
    rw [show search _ _ 0 0 none = .hit way from hlookup] at hsearch
    obtain ⟨k, b, -, hk, hkey⟩ := hsearch
    obtain ⟨a, ha, hat⟩ := h _ b (List.mem_of_getElem? hk) _ hkey
    exact absurd hat (hfresh a ha)

/-- In a set a tag stands for one block. -/
theorem new_sameBlock {u : Unspecified} {size assoc blocksize latency : Nat}
    (h : Cache.new u size assoc blocksize latency = .ok c) (hsets : c.numSets ≠ 0) {a b : Nat}
    (hindex : c.indexOf a = c.indexOf b) (htag : c.tagOf a = c.tagOf b) :
    a / blocksize % 2 ^ 64 = b / blocksize % 2 ^ 64 := by
  obtain ⟨-, -, -, hnum, hpow, hbits, hmask⟩ := new_eq_ok h
  obtain ⟨hblock, hbytes, hoffset⟩ := new_blocksize h
  rw [← hnum] at hpow hbits hmask
  have hne : blocksize ≠ 0 := by
    rintro rfl
    simp at hbytes
  obtain ⟨o, rfl⟩ := exists_pow_of_isPow2 hne hblock
  obtain ⟨k, hk⟩ := exists_pow_of_isPow2 hsets hpow
  rw [log2, if_neg hne, Nat.log2_two_pow] at hoffset
  rw [log2, if_neg hsets, hk, Nat.log2_two_pow] at hbits
  have hmask' : c.indexMask = 2 ^ min k 64 - 1 := by
    rw [hmask, hk]
    rcases Nat.lt_or_ge k 64 with hlt | hge
    · have hpos := Nat.two_pow_pos k
      have hle : 2 ^ k < 2 ^ 64 := Nat.pow_lt_pow_right (by decide) hlt
      rw [Nat.min_eq_left hlt.le]
      omega
    · obtain ⟨d, rfl⟩ := Nat.exists_eq_add_of_le hge
      rw [Nat.min_eq_right hge, Nat.pow_add, Nat.mul_add_mod]
      rfl
  have hindexOf : ∀ addr, c.indexOf addr = addr / 2 ^ o % 2 ^ min k 64 := fun addr => by
    rw [indexOf, hoffset, hmask', Nat.and_two_pow_sub_one_eq_mod, Nat.shiftRight_eq_div_pow]
  have htagOf : ∀ addr, c.tagOf addr = addr / 2 ^ o / 2 ^ k := fun addr => by
    rw [tagOf, hoffset, hbits, Nat.add_comm, Nat.shiftRight_add, Nat.shiftRight_eq_div_pow,
      Nat.shiftRight_eq_div_pow]
  rw [hindexOf, hindexOf] at hindex
  rw [htagOf, htagOf] at htag
  rcases Nat.lt_or_ge k 64 with hlt | hge
  · rw [Nat.min_eq_left hlt.le] at hindex
    rw [← Nat.div_add_mod (a / 2 ^ o) (2 ^ k), htag, hindex, Nat.div_add_mod]
  · rwa [Nat.min_eq_right hge] at hindex

end Cache

/-! ## The instruction cache -/

namespace Hierarchy

variable {cfg : Config} {h h' : Hierarchy} {addrs : List Nat}

/-- The addresses that `IC` was asked for. -/
def askedIC (log : List Exchange) : List Nat :=
  (log.filter fun e => e.1.level == .IC).map fun e => e.1.addr

/-- An access to another cache leaves `IC` alone. -/
theorem replace_IC {path : List Level} (hpath : .IC ∉ path) (levels : List Cache) :
    h.replace path levels .IC = h .IC := by
  induction path generalizing levels with
  | nil => rfl
  | cons level path ih =>
    obtain ⟨hne, hpath⟩ := not_or.mp (List.mem_cons.not.mp hpath)
    cases levels with
    | nil => rfl
    | cons c levels =>
      rw [replace, Function.update_of_ne hne]
      exact ih hpath levels

variable (addrs) in
/-- What an access makes of `IC`. -/
theorem access_fills {r : Request} {avail : Nat} (haccess : access cfg h r = .ok (avail, h')) :
    (h' .IC).geometry = (h .IC).geometry ∧
      ((h .IC).FilledFrom addrs → (h' .IC).FilledFrom (addrs ++ askedIC [(r, avail)])) := by
  obtain ⟨⟨avail', levels⟩, hlevels, hok⟩ := bind_eq_ok.mp haccess
  cases hok
  rcases eq_or_ne r.level .IC with hlevel | hne
  · rw [hlevel] at hlevels ⊢
    obtain ⟨⟨_, ic, below⟩, hic, hok⟩ := bind_eq_ok.mp hlevels
    cases hok
    have hasked : askedIC [(r, avail)] = [r.addr] := by simp [askedIC, hlevel]
    have hreplaced : h.replace (Level.path .IC) (ic :: below) .IC = ic := by
      rw [Level.path, replace, Function.update_self]
    rw [hasked, hreplaced]
    exact Cache.access_filledFrom hic
  · have hpath : .IC ∉ r.level.path := by
      cases hlevel : r.level with
      | IC => exact absurd hlevel hne
      | L1 => decide
      | L2 => decide
      | L3 => decide
    have hasked : askedIC [(r, avail)] = [] := by simp [askedIC, hne]
    rw [replace_IC hpath, hasked, List.append_nil]
    exact ⟨rfl, id⟩

variable (addrs) in
/-- What a sequence of accesses makes of `IC`, and of the latencies. -/
theorem Serves.fills {log : List Exchange} (hserves : Serves cfg h log h') :
    h'.latency = h.latency ∧ (h' .IC).geometry = (h .IC).geometry ∧
      ((h .IC).FilledFrom addrs → (h' .IC).FilledFrom (addrs ++ askedIC log)) := by
  induction log generalizing h addrs with
  | nil =>
    obtain ⟨-, rfl⟩ := Prod.mk.inj (Except.ok.inj hserves)
    exact ⟨rfl, rfl, fun hfilled => by rwa [askedIC, List.filter_nil, List.map_nil,
      List.append_nil]⟩
  | cons e log ih =>
    obtain ⟨⟨avail, h₁⟩, haccess, hrest⟩ := bind_eq_ok.mp hserves
    obtain ⟨⟨answers, h₂⟩, hrun, hok⟩ := bind_eq_ok.mp hrest
    obtain ⟨hanswers, rfl⟩ := Prod.mk.inj (Except.ok.inj hok)
    obtain ⟨rfl, rfl⟩ := List.cons.inj hanswers
    obtain ⟨hgeometry, hfills⟩ := access_fills addrs haccess
    obtain ⟨hlatency, hgeometry', hfills'⟩ := ih (addrs ++ askedIC [e]) hrun
    refine ⟨hlatency.trans ((access_latency cfg h e.1).of_ok haccess).2,
      hgeometry'.trans hgeometry, fun hfilled => ?_⟩
    have hsplit : askedIC (e :: log) = askedIC [e] ++ askedIC log := by
      rw [askedIC, askedIC, askedIC, ← List.map_append, ← List.filter_append,
        List.singleton_append]
    rw [hsplit, ← List.append_assoc]
    exact hfills' (hfills hfilled)

/-- An access that answers falls into a set. -/
theorem access_indexed {cycle addr avail : Nat}
    (haccess : access cfg h ⟨.IC, cycle, addr, false⟩ = .ok (avail, h')) :
    (h .IC).indexOf addr < (h .IC).numSets := by
  obtain ⟨⟨avail', levels⟩, hlevels, -⟩ := bind_eq_ok.mp haccess
  obtain ⟨⟨_, ic, below⟩, hic, -⟩ := bind_eq_ok.mp hlevels
  obtain ⟨ways, hways, -⟩ := bind_eq_ok.mp hic
  exact Nat.lt_of_not_le (guard_eq_ok.mp hways).1

/-- **A miss of `IC` waits** for the latency of `L2` at least. -/
theorem access_waits {cycle addr avail maxLruCtr : Nat} {victimWay : Option Nat}
    (haccess : access cfg h ⟨.IC, cycle, addr, false⟩ = .ok (avail, h'))
    (hmiss : (h .IC).lookup addr = .miss maxLruCtr victimWay) :
    cycle + h.latency .L2 ≤ avail := by
  obtain ⟨⟨avail', levels⟩, hlevels, hok⟩ := bind_eq_ok.mp haccess
  cases hok
  obtain ⟨⟨_, ic, below⟩, hic, hok⟩ := bind_eq_ok.mp hlevels
  cases hok
  obtain ⟨hnext, -⟩ := Cache.access_miss hic hmiss
  have hlatency := ((Cache.accessLevels_latency _ _ _ _ _).of_ok hnext).1
  have hle : cycle + h.latency .L2 ≤ cycle + (h .IC).latency + h.latency .L2 := by omega
  exact hle.trans hlatency

end Hierarchy

end CbpSim.Memory
