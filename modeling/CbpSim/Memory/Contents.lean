/-
  Memory/Contents.lean --- what the caches hold, without the cycles.

  Source: src/lib/cache.cc, `cache_t::access`.

  `run` answers a list of requests; `Serves` writes down each request with its
  answer.  Which way is hit or replaced is decided by tags and ranks alone, so
  caches with the same contents go through the same contents for any cycles and any
  latencies.
-/
import CbpSim.Memory.Traffic

set_option autoImplicit false

namespace CbpSim.Memory

open CbpSim.Foundation

/-! ## Requests and answers -/

/-- A request and the cycle it was answered with. -/
abbrev Exchange := Request × Nat

namespace Hierarchy

variable {cfg : Config} {h h₁ h₂ : Hierarchy}

/-- From `h` the caches give these answers to these requests, and are `h'` then. -/
def Serves (cfg : Config) (h : Hierarchy) (log : List Exchange) (h' : Hierarchy) : Prop :=
  run cfg h (log.map (·.1)) = .ok (log.map (·.2), h')

theorem Serves.nil (h : Hierarchy) : Serves cfg h [] h := rfl

theorem Serves.cons {r : Request} {avail : Nat} {log : List Exchange}
    (haccess : access cfg h r = .ok (avail, h₁)) (hlog : Serves cfg h₁ log h₂) :
    Serves cfg h ((r, avail) :: log) h₂ := by
  unfold Serves at hlog ⊢
  rw [List.map_cons, List.map_cons, run, haccess, ok_bind]
  dsimp only
  rw [hlog]
  rfl

theorem Serves.single {r : Request} {avail : Nat} (haccess : access cfg h r = .ok (avail, h₁)) :
    Serves cfg h [(r, avail)] h₁ :=
  .cons haccess (.nil h₁)

/-- Logs are written one after the other. -/
theorem Serves.append {log log' : List Exchange} (hlog : Serves cfg h log h₁)
    (hlog' : Serves cfg h₁ log' h₂) : Serves cfg h (log ++ log') h₂ := by
  induction log generalizing h with
  | nil =>
    obtain ⟨-, rfl⟩ := Prod.mk.inj (Except.ok.inj hlog)
    exact hlog'
  | cons e log ih =>
    obtain ⟨⟨avail, h₃⟩, haccess, hrest⟩ := bind_eq_ok.mp hlog
    obtain ⟨⟨answers, h₄⟩, hrun, hok⟩ := bind_eq_ok.mp hrest
    obtain ⟨hanswers, rfl⟩ := Prod.mk.inj (Except.ok.inj hok)
    obtain ⟨rfl, rfl⟩ := List.cons.inj hanswers
    exact .cons haccess (ih hrun)

/-! ## Counters -/

/-- The requests of one kind to one cache. -/
def asked (requests : List Request) (level : Level) (pf : Bool) : Nat :=
  requests.countP fun r => r.level == level && r.pf == pf

theorem asked_append (requests requests' : List Request) (level : Level) (pf : Bool) :
    asked (requests ++ requests') level pf = asked requests level pf + asked requests' level pf :=
  List.countP_append

/-- Requests of one kind. -/
theorem asked_of_kind {requests : List Request} {level : Level} {pf : Bool}
    (h : ∀ r ∈ requests, r.level = level ∧ r.pf = pf) (level' : Level) (pf' : Bool) :
    asked requests level' pf' = if level = level' ∧ pf = pf' then requests.length else 0 := by
  rw [asked]
  split
  · rename_i heq
    rw [List.countP_eq_length]
    intro r hr
    simp [h r hr, heq]
  · rename_i hne
    rw [List.countP_eq_zero]
    intro r hr
    simpa [h r hr] using hne

/-- A request is the first event of its walk, and the only one at the top. -/
theorem walk_top (h : Hierarchy) {r : Request} (hr : r.level = .IC ∨ r.level = .L1)
    {level : Level} (hlevel : level = .IC ∨ level = .L1) (pf : Bool) :
    tally (h.walk r.addr r.pf r.level.path) level pf false = asked [r] level pf := by
  have hbelow : ∀ path : List Level, (∀ l ∈ path, l = .L2 ∨ l = .L3) →
      tally (h.walk r.addr r.pf path) level pf false = 0 := by
    intro path hpath
    apply tally_of_level_ne
    intro e he
    rcases hpath _ (level_of_mem_walk he) with hl | hl
    · rcases hlevel with rfl | rfl <;> simp [hl]
    · rcases hlevel with rfl | rfl <;> simp [hl]
  obtain ⟨rest, hpath, hrest⟩ : ∃ rest, r.level.path = r.level :: rest ∧
      ∀ l ∈ rest, l = .L2 ∨ l = .L3 := by
    rcases hr with hr | hr
    · exact ⟨[.L2, .L3], by rw [hr]; rfl, by simp⟩
    · exact ⟨[.L2, .L3], by rw [hr]; rfl, by simp⟩
  have hzero : tally [] level pf false = 0 := rfl
  have hfirst : ∀ miss, Event.isCounted level pf false ⟨r.level, r.pf, miss⟩ =
      (r.level == level && r.pf == pf) := by
    intro miss
    rw [Event.isCounted, Bool.not_false, Bool.or_true, Bool.and_true]
  rw [hpath, walk, asked, List.countP_singleton]
  split
  · rw [tally_cons, hzero, hfirst, Nat.zero_add, Bool.toNat, Bool.cond_eq_ite]
  · rw [tally_cons, hbelow rest hrest, hfirst, Nat.zero_add, Bool.toNat, Bool.cond_eq_ite]

/-- What the caches at the top are asked for is what is sent to them. -/
theorem tally_top {requests : List Request} (hupper : Upper requests) {answers : List Nat}
    (hrun : run cfg h requests = .ok (answers, h₁)) {level : Level}
    (hlevel : level = .IC ∨ level = .L1) (pf : Bool) :
    tally (events cfg h requests) level pf false = asked requests level pf := by
  induction requests generalizing h answers with
  | nil => rfl
  | cons r requests ih =>
    obtain ⟨hr, hrest⟩ := List.forall_mem_cons.mp hupper
    obtain ⟨⟨avail, h₂⟩, haccess, hrun⟩ := bind_eq_ok.mp hrun
    obtain ⟨⟨answers', h₃⟩, hrest', hok⟩ := bind_eq_ok.mp hrun
    cases hok
    have hsplit : asked (r :: requests) level pf = asked [r] level pf + asked requests level pf :=
      asked_append [r] requests level pf
    rw [events, haccess, tally_append, walk_top h hr hlevel pf, hsplit]
    exact congrArg _ (ih hrest hrest')

/-- What the counters of a hierarchy have moved by. -/
structure Moved (requests : List Request) (pf : Bool) (h h' : Hierarchy) : Prop where
  IC : (h' .IC).counter pf false = (h .IC).counter pf false + asked requests .IC pf
  L1 : (h' .L1).counter pf false = (h .L1).counter pf false + asked requests .L1 pf
  L2 : (h' .L2).counter pf false + (h .IC).counter pf true + (h .L1).counter pf true =
    (h .L2).counter pf false + (h' .IC).counter pf true + (h' .L1).counter pf true
  L3 : (h' .L3).counter pf false + (h .L2).counter pf true =
    (h .L3).counter pf false + (h' .L2).counter pf true
  still : asked requests .IC pf = 0 → (h' .IC).counter pf true = (h .IC).counter pf true

theorem Serves.moved {log : List Exchange} (hserves : Serves cfg h log h₁)
    (hupper : Upper (log.map (·.1))) (pf : Bool) : Moved (log.map (·.1)) pf h h₁ := by
  have hcounter := run_counter hserves
  obtain ⟨hL2, hL3⟩ := @events_traffic h cfg _ hupper pf
  have hIC := tally_top hupper hserves (Or.inl rfl) pf
  have hL1 := tally_top hupper hserves (Or.inr rfl) pf
  exact {
    IC := by rw [hcounter, hIC]
    L1 := by rw [hcounter, hL1]
    L2 := by
      rw [hcounter .L2, hcounter .IC, hcounter .L1]
      omega
    L3 := by
      rw [hcounter .L3, hcounter .L2]
      omega
    still := by
      intro hnone
      have hle := tally_misses_le (events cfg h (log.map (·.1))) .IC pf
      rw [hcounter]
      omega }

end Hierarchy

/-- What a request asks, without the cycle. -/
def Request.asks (r : Request) : Level × Nat × Bool := (r.level, r.addr, r.pf)

/-! ## Contents -/

/-- The same tags and ranks in each set, and the same demand accesses and misses.  What an
address indexes is compared where there are sets. -/
structure Cache.SameContents (c c' : Cache) : Prop where
  numSets : c.numSets = c'.numSets
  indexing : 0 < c.numSets → c.numIndexBits = c'.numIndexBits ∧
    c.numOffsetBits = c'.numOffsetBits ∧ c.indexMask = c'.indexMask
  assoc : c.assoc = c'.assoc
  blocks : ∀ set, SameWays False (c.blocks set) (c'.blocks set)
  accesses : c.accesses = c'.accesses
  misses : c.misses = c'.misses

/-- The same contents of all caches. -/
def Hierarchy.SameContents (h h' : Hierarchy) : Prop :=
  ∀ level, (h level).SameContents (h' level)

namespace Cache

variable {c c' : Cache}

theorem SameContents.indexOf_eq (h : c.SameContents c') (hpos : 0 < c.numSets) (addr : Nat) :
    c.indexOf addr = c'.indexOf addr := by
  obtain ⟨-, hoffset, hmask⟩ := h.indexing hpos
  rw [indexOf, indexOf, hoffset, hmask]

theorem SameContents.tagOf_eq (h : c.SameContents c') (hpos : 0 < c.numSets) (addr : Nat) :
    c.tagOf addr = c'.tagOf addr := by
  obtain ⟨hindex, hoffset, -⟩ := h.indexing hpos
  rw [tagOf, tagOf, hindex, hoffset]

theorem SameContents.lookup_eq (h : c.SameContents c') (hpos : 0 < c.numSets) (addr : Nat) :
    c.lookup addr = c'.lookup addr := by
  rw [lookup, lookup, h.tagOf_eq hpos, h.indexOf_eq hpos]
  exact search_same _ (h.blocks _) 0 0 none

/-- Where a set is read there are sets. -/
theorem SameContents.waysAt (h : c.SameContents c') (addr : Nat) :
    Alike (fun ways ways' => 0 < c.numSets ∧ SameWays False ways ways')
      (c.waysAt (c.indexOf addr)) (c'.waysAt (c'.indexOf addr)) := by
  rcases Nat.eq_zero_or_pos c.numSets with hzero | hpos
  · rw [waysAt_past (hzero ▸ Nat.zero_le _), waysAt_past (h.numSets ▸ hzero ▸ Nat.zero_le _)]
    exact Alike.error _
  · rw [h.indexOf_eq hpos]
    unfold Cache.waysAt
    rw [h.numSets]
    split
    · exact Alike.error _
    · exact ⟨h.numSets ▸ hpos, h.blocks _⟩

theorem SameContents.countAccess (h : c.SameContents c') (pf : Bool) :
    (c.countAccess pf).SameContents (c'.countAccess pf) :=
  { h with accesses := by rw [Cache.countAccess, Cache.countAccess, h.accesses] }

theorem SameContents.countMiss (h : c.SameContents c') (pf : Bool) :
    (c.countMiss pf).SameContents (c'.countMiss pf) :=
  { h with misses := by rw [Cache.countMiss, Cache.countMiss, h.misses] }

theorem SameContents.setWays (h : c.SameContents c') (index : Nat) {ways ways' : List Block}
    (hways : SameWays False ways ways') :
    (c.setWays index ways).SameContents (c'.setWays index ways') :=
  { h with
    blocks := by
      intro set
      rw [Cache.setWays, Cache.setWays]
      dsimp only
      rcases eq_or_ne set index with rfl | hne
      · rw [Function.update_self, Function.update_self]
        exact hways
      · rw [Function.update_of_ne hne, Function.update_of_ne hne]
        exact h.blocks set }

/-- **One access.**  Caches with the same contents have the same contents afterwards,
whatever the cycles and the latencies are. -/
theorem access_sameContents {σ τ : Type} {S : σ → τ → Prop} {below : σ} {below' : τ}
    {next : Nat → Except Abort (Nat × σ)} {next' : Nat → Except Abort (Nat × τ)}
    (h : c.SameContents c') (hbelow : S below below')
    (hnext : ∀ cycle cycle', Alike (fun x y => S x.2 y.2) (next cycle) (next' cycle'))
    (cycle cycle' addr : Nat) (pf : Bool) :
    Alike (fun x y => x.2.1.SameContents y.2.1 ∧ S x.2.2 y.2.2)
      (c.access below next cycle addr pf) (c'.access below' next' cycle' addr pf) := by
  have hcount := h.countAccess pf
  have hmiss := hcount.countMiss pf
  unfold access
  dsimp only
  apply Alike.bind (h.waysAt addr)
  rintro ways ways' ⟨hpos, hways⟩
  rw [hcount.lookup_eq hpos, h.indexOf_eq hpos]
  cases (c'.countAccess pf).lookup addr with
  | hit way =>
    dsimp only
    rw [hcount.assoc]
    apply Alike.bind (updateLru_same _ hways way)
    intro ways ways' hset
    exact ⟨hcount.setWays _ hset, hbelow⟩
  | miss maxLruCtr victimWay =>
    dsimp only
    rw [hmiss.assoc]
    split
    · exact Alike.error _
    · cases victimWay with
      | none => exact Alike.error _
      | some victimWay =>
        dsimp only
        split
        · exact Alike.error _
        · apply Alike.bind (hnext _ _)
          rintro ⟨avail, levels⟩ ⟨avail', levels'⟩ hlevels
          apply Alike.bind (updateLru_same _ _ _)
          · intro ways ways' hset
            exact ⟨hmiss.setWays _ hset, hlevels⟩
          · apply modify_same _ hways
            intro b b' hb
            exact ⟨rfl, hmiss.tagOf_eq hpos addr, hb.lru, False.elim⟩

/-- An access to a cache and the levels it misses into. -/
theorem accessLevels_sameContents (latency latency' : Nat) {levels levels' : List Cache}
    (h : List.Forall₂ SameContents levels levels') (addr : Nat) (pf : Bool) : ∀ cycle cycle',
      Alike (fun x y => List.Forall₂ SameContents x.2 y.2)
        (accessLevels latency levels cycle addr pf)
        (accessLevels latency' levels' cycle' addr pf) := by
  induction h with
  | nil =>
    intro cycle cycle'
    exact .nil
  | cons hc hlevels ih =>
    intro cycle cycle'
    rw [accessLevels, accessLevels]
    apply Alike.bind (access_sameContents hc hlevels ih cycle cycle' addr pf)
    rintro ⟨avail, c₁, rest⟩ ⟨avail', c₁', rest'⟩ ⟨hc₁, hrest⟩
    exact .cons hc₁ hrest

end Cache

namespace Hierarchy

variable {cfg cfg' : Config} {h h' : Hierarchy}

theorem SameContents.replace (hs : h.SameContents h') {levels levels' : List Cache}
    (hlevels : List.Forall₂ Cache.SameContents levels levels') (path : List Level) :
    (h.replace path levels).SameContents (h'.replace path levels') := by
  induction hlevels generalizing path with
  | nil =>
    cases path with
    | nil => exact hs
    | cons level path => exact hs
  | cons hc _ ih =>
    cases path with
    | nil => exact hs
    | cons level path =>
      intro l
      rw [Hierarchy.replace, Hierarchy.replace]
      rcases eq_or_ne l level with rfl | hne
      · rw [Function.update_self, Function.update_self]
        exact hc
      · rw [Function.update_of_ne hne, Function.update_of_ne hne]
        exact ih path l

/-- One access to the hierarchy. -/
theorem access_sameContents (hs : h.SameContents h') {r r' : Request} (hr : r.asks = r'.asks) :
    Alike (fun x y => x.2.SameContents y.2) (access cfg h r) (access cfg' h' r') := by
  obtain ⟨hlevel, hr⟩ := Prod.mk.inj hr
  obtain ⟨haddr, hpf⟩ := Prod.mk.inj hr
  have hpath : List.Forall₂ Cache.SameContents (r.level.path.map h) (r.level.path.map h') :=
    List.forall₂_map_left_iff.mpr (List.forall₂_map_right_iff.mpr
      (List.forall₂_same.mpr fun level _ => hs level))
  unfold access
  rw [← hlevel, ← haddr, ← hpf]
  apply Alike.bind (Cache.accessLevels_sameContents _ _ hpath r.addr r.pf _ _)
  rintro ⟨avail, levels⟩ ⟨avail', levels'⟩ hlevels
  exact hs.replace hlevels _

/-- **The contents depend on what is asked.**  The same requests at any cycles, with any
latencies, leave caches of the same contents with the same contents. -/
theorem run_sameContents (hs : h.SameContents h') {requests requests' : List Request}
    (hr : requests.map Request.asks = requests'.map Request.asks) :
    Alike (fun x y => x.2.SameContents y.2) (run cfg h requests) (run cfg' h' requests') := by
  induction requests generalizing h h' requests' with
  | nil =>
    obtain rfl := List.map_eq_nil_iff.mp hr.symm
    exact hs
  | cons r requests ih =>
    obtain ⟨r', requests', rfl, hr', hrest⟩ := List.map_eq_cons_iff.mp hr.symm
    rw [run, run]
    apply Alike.bind (access_sameContents hs hr'.symm)
    rintro ⟨avail, h₁⟩ ⟨avail', h₁'⟩ hs₁
    apply Alike.bind (ih hs₁ hrest.symm)
    rintro ⟨answers, h₂⟩ ⟨answers', h₂'⟩ hs₂
    exact hs₂

end Hierarchy

end CbpSim.Memory
