/-
  Foundation/Search.lean --- depth-first search with a set of visited nodes.

  The search runs over a graph given by the successors of each node, cycles and all.
  What one call adds to the visited nodes is closed under successors up to what was
  visited before, and everything it adds is reachable; so a search that starts with
  nothing visited ends with the nodes reachable from its first.  The fuel bounds the
  depth of the recursion, and as many units as there are nodes suffice.
-/
import Mathlib.Data.Finset.Card
import Mathlib.Logic.Relation
import CbpSim.Foundation.Run

set_option autoImplicit false

namespace CbpSim.Foundation.Search

open Relation

variable {α : Type} [DecidableEq α] (next : α → List α)

/-- The search below `node`, `visited` being what was visited before. -/
def dfs : Nat → α → Finset α → Option (Finset α)
  | 0, _, _ => none
  | fuel + 1, node, visited =>
    if node ∈ visited then some visited
    else (next node).foldlM (fun visited succ => dfs fuel succ visited) (insert node visited)

/-- The graph of the search. -/
def Edge (x y : α) : Prop := y ∈ next x

variable {next}

/-- What a search that starts from the nodes of `starts` adds to the visited ones. -/
structure Explored (next : α → List α) (starts : List α) (visited visited' : Finset α) : Prop where
  subset : visited ⊆ visited'
  start : ∀ x ∈ starts, x ∈ visited'
  closed : ∀ x ∈ visited', x ∉ visited → ∀ y ∈ next x, y ∈ visited'
  reached : ∀ x ∈ visited', x ∈ visited ∨ ∃ y ∈ starts, ReflTransGen (Edge next) y x

variable {visited visited' visited'' : Finset α}

omit [DecidableEq α] in
theorem Explored.refl : Explored next [] visited visited where
  subset := Finset.Subset.refl _
  start _ hx := by cases hx
  closed _ hx hnot := absurd hx hnot
  reached _ hx := Or.inl hx

/-- One search after another. -/
theorem Explored.trans {x : α} {xs : List α} (h : Explored next [x] visited visited')
    (h' : Explored next xs visited' visited'') : Explored next (x :: xs) visited visited'' where
  subset := h.subset.trans h'.subset
  start y hy := by
    rcases List.mem_cons.mp hy with rfl | hy
    · exact h'.subset (h.start y (List.mem_singleton_self y))
    · exact h'.start y hy
  closed y hy hnot z hz := by
    by_cases hbefore : y ∈ visited'
    · exact h'.subset (h.closed y hbefore hnot z hz)
    · exact h'.closed y hy hbefore z hz
  reached y hy := by
    rcases h'.reached y hy with hbefore | ⟨z, hz, hreach⟩
    · rcases h.reached y hbefore with hold | ⟨z, hz, hreach⟩
      · exact Or.inl hold
      · obtain rfl := List.mem_singleton.mp hz
        exact Or.inr ⟨z, List.mem_cons_self, hreach⟩
    · exact Or.inr ⟨z, List.mem_cons_of_mem x hz, hreach⟩

/-- A node that was not visited is explored with its successors. -/
theorem Explored.node {x : α} (h : Explored next (next x) (insert x visited) visited') :
    Explored next [x] visited visited' where
  subset := (Finset.subset_insert x visited).trans h.subset
  start y hy := by
    obtain rfl := List.mem_singleton.mp hy
    exact h.subset (Finset.mem_insert_self y visited)
  closed y hy hnot z hz := by
    by_cases hyx : y = x
    · exact h.start z (hyx ▸ hz)
    · exact h.closed y hy (by simp [hyx, hnot]) z hz
  reached y hy := by
    rcases h.reached y hy with hbefore | ⟨z, hz, hreach⟩
    · rcases Finset.mem_insert.mp hbefore with rfl | hold
      · exact Or.inr ⟨y, List.mem_singleton_self y, .refl⟩
      · exact Or.inl hold
    · exact Or.inr ⟨x, List.mem_singleton_self x, .head hz hreach⟩

/-- A loop of searches explores from all its nodes when each search does. -/
theorem explored_foldlM {f : Finset α → α → Option (Finset α)}
    (hf : ∀ x visited visited', f visited x = some visited' → Explored next [x] visited visited')
    {xs : List α} (h : xs.foldlM f visited = some visited') :
    Explored next xs visited visited' := by
  induction xs generalizing visited with
  | nil =>
    obtain rfl : visited = visited' := by simpa using h
    exact Explored.refl
  | cons x xs ih =>
    rw [List.foldlM_cons] at h
    obtain ⟨mid, hx, hxs⟩ := Option.bind_eq_some_iff.mp h
    exact (hf x visited mid hx).trans (ih hxs)

theorem dfs_explored {fuel : Nat} {node : α}
    (h : dfs next fuel node visited = some visited') :
    Explored next [node] visited visited' := by
  induction fuel generalizing node visited visited' with
  | zero => cases h
  | succ fuel ih =>
    rw [dfs] at h
    split at h
    · rename_i hvisited
      obtain rfl := Option.some.inj h
      refine ⟨Finset.Subset.refl _, ?_, fun x hx hnot => absurd hx hnot, fun x hx => Or.inl hx⟩
      intro x hx
      rwa [List.mem_singleton.mp hx]
    · exact (explored_foldlM (fun x _ _ hx => ih hx) h).node

/-- With more fuel than there are nodes left to visit a search ends. -/
theorem dfs_isSome {nodes : Finset α} (hclosed : ∀ x ∈ nodes, ∀ y ∈ next x, y ∈ nodes)
    {fuel : Nat} {node : α} (hnode : node ∈ nodes) (hfuel : (nodes \ visited).card < fuel) :
    ∃ visited', dfs next fuel node visited = some visited' := by
  induction fuel generalizing node visited with
  | zero => omega
  | succ fuel ih =>
    rw [dfs]
    split
    · exact ⟨visited, rfl⟩
    · rename_i hnot
      have hless : (nodes \ insert node visited).card < fuel := by
        have hmem : node ∈ nodes \ visited := Finset.mem_sdiff.mpr ⟨hnode, hnot⟩
        have hcard := Finset.card_erase_lt_of_mem hmem
        rw [← Finset.sdiff_insert] at hcard
        omega
      have loop : ∀ xs : List α, (∀ x ∈ xs, x ∈ nodes) → ∀ visited : Finset α,
          (nodes \ visited).card < fuel → ∃ visited',
            xs.foldlM (fun visited succ => dfs next fuel succ visited) visited =
              some visited' := by
        intro xs
        induction xs with
        | nil => exact fun _ visited _ => ⟨visited, rfl⟩
        | cons x xs ihxs =>
          intro hxs visited hcard
          obtain ⟨mid, hmid⟩ := ih (hxs x List.mem_cons_self) hcard
          have hsubset := Finset.sdiff_subset_sdiff (Finset.Subset.refl nodes)
            (dfs_explored hmid).subset
          obtain ⟨visited', hrest⟩ := ihxs (fun y hy => hxs y (List.mem_cons_of_mem x hy)) mid
            (lt_of_le_of_lt (Finset.card_le_card hsubset) hcard)
          refine ⟨visited', ?_⟩
          rw [List.foldlM_cons]
          exact Option.bind_eq_some_iff.mpr ⟨mid, hmid, hrest⟩
      exact loop (next node) (hclosed node hnode) _ hless

/-- **A search from nothing visited** ends with the nodes reachable from its first. -/
theorem dfs_exact {nodes : Finset α} (hclosed : ∀ x ∈ nodes, ∀ y ∈ next x, y ∈ nodes)
    {node : α} (hnode : node ∈ nodes) :
    ∃ visited, (∀ fuel, nodes.card < fuel → dfs next fuel node ∅ = some visited) ∧
      ∀ x, x ∈ visited ↔ ReflTransGen (Edge next) node x := by
  have hexact : ∀ {fuel visited}, dfs next fuel node ∅ = some visited →
      ∀ x, x ∈ visited ↔ ReflTransGen (Edge next) node x := by
    intro fuel visited hsearch x
    have h := dfs_explored hsearch
    constructor
    · intro hx
      rcases h.reached x hx with hnone | ⟨y, hy, hreach⟩
      · cases Finset.notMem_empty x hnone
      · rwa [← List.mem_singleton.mp hy]
    · intro hreach
      induction hreach with
      | refl => exact h.start node (List.mem_singleton_self node)
      | tail _ hstep ih => exact h.closed _ ih (Finset.notMem_empty _) _ hstep
  have ends : ∀ fuel, nodes.card < fuel → ∃ visited, dfs next fuel node ∅ = some visited := by
    intro fuel hfuel
    apply dfs_isSome hclosed hnode
    rwa [Finset.sdiff_empty]
  obtain ⟨visited, hvisited⟩ := ends (nodes.card + 1) (Nat.lt_succ_self _)
  refine ⟨visited, ?_, hexact hvisited⟩
  intro fuel hfuel
  obtain ⟨visited', hvisited'⟩ := ends fuel hfuel
  rw [hvisited']
  congr 1
  ext x
  rw [hexact hvisited', hexact hvisited]

end CbpSim.Foundation.Search
