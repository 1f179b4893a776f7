/-
  Predictor/DependencyClosure.lean --- the dependences of a register.

  Source: src/cond_branch_predictor_interface.cc, `DependencyGraph` and the part of
  `notify_instr_decode` that asks it.

  The graph is what the calls have left: an edge stands as long as neither of its
  registers was deleted after it was added.  `getAllDependencies` searches it depth
  first.  The order in which an `unordered_set` is walked through is not known to the
  program, so the search is about any order.
-/
import Mathlib.Data.List.Sort
import CbpSim.Foundation.Search
import CbpSim.Predictor.Interface

set_option autoImplicit false

namespace CbpSim.Predictor

open CbpSim.Foundation Relation

/-- An order in which the elements of an `unordered_set` are walked through. -/
structure WalkOrder where
  walk : Finset Nat → List Nat
  mem_walk : ∀ s a, a ∈ walk s ↔ a ∈ s

/-- The ascending order. -/
def WalkOrder.ascending : WalkOrder where
  walk s := Quot.liftOn s.val (List.insertionSort (· ≤ ·)) fun l l' hperm =>
    List.Perm.eq_of_sortedLE List.sortedLE_insertionSort List.sortedLE_insertionSort
      ((List.perm_insertionSort _ l).trans (hperm.trans (List.perm_insertionSort _ l').symm))
  mem_walk := by
    rintro ⟨⟨l⟩, hl⟩ a
    exact List.mem_insertionSort (· ≤ ·)

namespace DependencyGraph

/-! ## The search -/

/-- `dfs`.  The fuel bounds the depth of the recursion. -/
def dfs (order : WalkOrder) (graph : DependencyGraph) :
    Nat → Nat → Finset Nat → Option (Finset Nat)
  | 0, _, _ => none
  | fuel + 1, node, visited =>
    if node ∈ visited then some visited
    else
      let visited := insert node visited
      match graph node with
      | some dependencies =>
        (order.walk dependencies).foldlM (fun visited src => dfs order graph fuel src visited)
          visited
      | none => some visited

/-- `getAllDependencies`. -/
def getAllDependencies (order : WalkOrder) (graph : DependencyGraph) (fuel dest : Nat) :
    Option (Finset Nat) := do
  let visited ← dfs order graph fuel dest ∅
  some (visited.erase dest)

/-- `loadCount` of `notify_instr_decode`, in 16 bits. -/
def loadCount (order : WalkOrder) (graph : DependencyGraph) (fuel : Nat) (srcRegs : List Nat) :
    Option Nat :=
  if onlyFlags srcRegs then some 0
  else srcRegs.foldlM (fun count src => do
    let dependencies ← graph.getAllDependencies order fuel src
    some ((count + dependencies.card) % 2 ^ 16)) 0

/-- The sources that `dfs` goes on to from a node. -/
def sources (order : WalkOrder) (graph : DependencyGraph) (node : Nat) : List Nat :=
  ((graph node).map order.walk).getD []

theorem dfs_eq (order : WalkOrder) (graph : DependencyGraph) (fuel node : Nat)
    (visited : Finset Nat) :
    dfs order graph fuel node visited = Search.dfs (sources order graph) fuel node visited := by
  induction fuel generalizing node visited with
  | zero => rfl
  | succ fuel ih =>
    have hloop : (fun visited src => dfs order graph fuel src visited) =
        fun visited src => Search.dfs (sources order graph) fuel src visited := by
      funext visited src
      exact ih src visited
    rw [dfs, Search.dfs, sources, hloop]
    cases graph node with
    | none => rfl
    | some dependencies => rfl

/-! ## Edges -/

/-- A dependence of `dest` on `src` in the graph. -/
def Edge (graph : DependencyGraph) (dest src : Nat) : Prop := src ∈ (graph dest).getD ∅

theorem edge_iff_mem_sources (order : WalkOrder) (graph : DependencyGraph) (dest src : Nat) :
    graph.Edge dest src ↔ src ∈ sources order graph dest := by
  unfold Edge sources
  cases graph dest with
  | none => simp
  | some dependencies => exact (order.mem_walk dependencies src).symm

theorem edge_addDependency (graph : DependencyGraph) (dest src a b : Nat) :
    (graph.addDependency dest src).Edge a b ↔ (a = dest ∧ b = src) ∨ graph.Edge a b := by
  unfold Edge addDependency
  by_cases ha : a = dest
  · subst ha
    simp
  · simp [ha]

theorem edge_deleteDestination (graph : DependencyGraph) (dest a b : Nat) :
    (graph.deleteDestination dest).Edge a b ↔ a ≠ dest ∧ b ≠ dest ∧ graph.Edge a b := by
  unfold Edge deleteDestination
  by_cases ha : a = dest
  · simp [ha]
  · cases hgraph : graph a with
    | none => simp [ha]
    | some dependencies => simp [ha]

/-! ## Calls -/

/-- A call that changes the graph. -/
inductive Call where
  | addDependency (dest src : Nat)
  | deleteDestination (dest : Nat)
  deriving DecidableEq, Repr

/-- One call. -/
def call (graph : DependencyGraph) : Call → DependencyGraph
  | .addDependency dest src => graph.addDependency dest src
  | .deleteDestination dest => graph.deleteDestination dest

/-- The graph after the calls. -/
def built (calls : List Call) : DependencyGraph := calls.foldl call fun _ => none

theorem built_concat (calls : List Call) (c : Call) :
    built (calls ++ [c]) = (built calls).call c := by
  rw [built, List.foldl_append]
  rfl

/-- `dest` was made to depend on `src`, and neither register was deleted since. -/
def Depends (calls : List Call) (dest src : Nat) : Prop :=
  ∃ before after, calls = before ++ .addDependency dest src :: after ∧
    .deleteDestination dest ∉ after ∧ .deleteDestination src ∉ after

theorem not_depends_nil (a b : Nat) : ¬ Depends [] a b := by
  rintro ⟨before, after, hcalls, -⟩
  simp at hcalls

/-- A dependence after one more call. -/
theorem depends_concat (calls : List Call) (c : Call) (a b : Nat) :
    Depends (calls ++ [c]) a b ↔ c = .addDependency a b ∨
      Depends calls a b ∧ c ≠ .deleteDestination a ∧ c ≠ .deleteDestination b := by
  constructor
  · rintro ⟨before, after, hcalls, ha, hb⟩
    rcases List.eq_nil_or_concat after with rfl | ⟨after, last, rfl⟩
    · exact Or.inl (List.singleton_inj.mp (List.append_inj' hcalls rfl).2)
    · rw [List.concat_eq_append, ← List.cons_append, ← List.append_assoc] at hcalls
      obtain ⟨rfl, hlast⟩ := List.append_inj' hcalls rfl
      obtain rfl : c = last := List.singleton_inj.mp hlast
      simp only [List.concat_eq_append, List.mem_append, List.mem_singleton, not_or] at ha hb
      exact Or.inr ⟨⟨before, after, rfl, ha.1, hb.1⟩, Ne.symm ha.2, Ne.symm hb.2⟩
  · rintro (rfl | ⟨⟨before, after, rfl, ha, hb⟩, hca, hcb⟩)
    · exact ⟨calls, [], rfl, List.not_mem_nil, List.not_mem_nil⟩
    · refine ⟨before, after ++ [c], by simp, ?_, ?_⟩
      · simp [ha, Ne.symm hca]
      · simp [hb, Ne.symm hcb]

/-- **The edges of a built graph** are the dependences that still stand. -/
theorem edge_built (calls : List Call) (a b : Nat) :
    (built calls).Edge a b ↔ Depends calls a b := by
  induction calls using List.reverseRecOn with
  | nil => exact iff_of_false (Finset.notMem_empty b) (not_depends_nil a b)
  | append_singleton calls c ih =>
    rw [built_concat, depends_concat, ← ih]
    cases c with
    | addDependency dest src =>
      rw [call, edge_addDependency]
      simp [eq_comm]
    | deleteDestination dest =>
      rw [call, edge_deleteDestination]
      simp only [reduceCtorEq, false_or, ne_eq, Call.deleteDestination.injEq, eq_comm]
      tauto

/-! ## Termination -/

/-- The registers that a call names. -/
def Call.registers : Call → List Nat
  | .addDependency dest src => [dest, src]
  | .deleteDestination dest => [dest]

/-- The registers that the calls name. -/
def registers (calls : List Call) : Finset Nat := (calls.flatMap Call.registers).toFinset

theorem card_registers_le (calls : List Call) : (registers calls).card ≤ 2 * calls.length := by
  refine (List.toFinset_card_le _).trans ?_
  induction calls with
  | nil => exact Nat.zero_le _
  | cons c calls ih =>
    rw [List.flatMap_cons, List.length_append, List.length_cons]
    have hc : c.registers.length ≤ 2 := by
      cases c with
      | addDependency dest src => exact Nat.le_refl 2
      | deleteDestination dest => exact Nat.le_succ 1
    omega

theorem Depends.mem_registers {calls : List Call} {a b : Nat} (h : Depends calls a b) :
    b ∈ registers calls := by
  obtain ⟨before, after, rfl, -⟩ := h
  simp [registers, Call.registers]

/-- The registers other than `d` that are reachable from it, as `getAllDependencies` answers
them with enough fuel. -/
theorem exists_dependencies (order : WalkOrder) (calls : List Call) (d : Nat) :
    ∃ dependencies,
      (∀ fuel, 2 * calls.length + 2 ≤ fuel →
        (built calls).getAllDependencies order fuel d = some dependencies) ∧
      ∀ r, r ∈ dependencies ↔ r ≠ d ∧ ReflTransGen (built calls).Edge d r := by
  have hedge : Search.Edge (sources order (built calls)) = (built calls).Edge := by
    funext a b
    exact propext (edge_iff_mem_sources order (built calls) a b).symm
  have hclosed : ∀ a ∈ insert d (registers calls), ∀ b ∈ sources order (built calls) a,
      b ∈ insert d (registers calls) := by
    intro a _ b hb
    have hdepends := (edge_built calls a b).mp ((edge_iff_mem_sources order _ a b).mpr hb)
    exact Finset.mem_insert_of_mem hdepends.mem_registers
  obtain ⟨visited, hends, hvisited⟩ := Search.dfs_exact hclosed (Finset.mem_insert_self d _)
  refine ⟨visited.erase d, ?_, ?_⟩
  · intro fuel hfuel
    have hcard := (Finset.card_insert_le d (registers calls)).trans
      (Nat.succ_le_succ (card_registers_le calls))
    rw [getAllDependencies, dfs_eq, hends fuel (by omega)]
    rfl
  · intro r
    rw [Finset.mem_erase, hvisited, hedge]

/-- `loadCount` adds up the dependences of the sources. -/
theorem loadCount_eq (order : WalkOrder) (calls : List Call) (srcRegs : List Nat)
    (hflags : onlyFlags srcRegs = false) :
    ∃ dependencies : Nat → Finset Nat,
      (∀ d r, r ∈ dependencies d ↔ r ≠ d ∧ ReflTransGen (built calls).Edge d r) ∧
      ∀ fuel, 2 * calls.length + 2 ≤ fuel → (built calls).loadCount order fuel srcRegs =
        some ((srcRegs.map fun src => (dependencies src).card).sum % 2 ^ 16) := by
  choose dependencies hends hmem using exists_dependencies order calls
  refine ⟨dependencies, hmem, ?_⟩
  intro fuel hfuel
  have loop : ∀ (regs : List Nat) (count : Nat), count < 2 ^ 16 →
      (regs.foldlM (fun count src => do
        let found ← (built calls).getAllDependencies order fuel src
        some ((count + found.card) % 2 ^ 16)) count : Option Nat) =
          some ((count + (regs.map fun src => (dependencies src).card).sum) % 2 ^ 16) := by
    intro regs
    induction regs with
    | nil =>
      intro count hcount
      rw [List.foldlM_nil, List.map_nil, List.sum_nil, Nat.add_zero, Nat.mod_eq_of_lt hcount]
      rfl
    | cons reg regs ih =>
      intro count _
      rw [List.foldlM_cons, hends reg fuel hfuel]
      refine (ih _ (Nat.mod_lt _ (by decide))).trans ?_
      rw [List.map_cons, List.sum_cons, Nat.mod_add_mod, Nat.add_assoc]
  rw [loadCount, if_neg (by simp [hflags]), loop srcRegs 0 (by decide), Nat.zero_add]

/-- **Dependences are closed.**  In a graph built by any calls, with cycles or without,
`getAllDependencies` ends and answers the registers other than its own that are reachable
along the dependences that stand; and `deleteDestination` takes away the edges of its
register and no other. -/
theorem getAllDependencies_exact (order : WalkOrder) (calls : List Call) (d : Nat) :
    (∃ dependencies,
      (∀ fuel, 2 * calls.length + 2 ≤ fuel →
        (built calls).getAllDependencies order fuel d = some dependencies) ∧
      ∀ r, r ∈ dependencies ↔ r ≠ d ∧ ReflTransGen (built calls).Edge d r) ∧
    (∀ a b, (built calls).Edge a b ↔ Depends calls a b) ∧
    ∀ a b, ((built calls).deleteDestination d).Edge a b ↔
      a ≠ d ∧ b ≠ d ∧ (built calls).Edge a b :=
  ⟨exists_dependencies order calls d, edge_built calls, edge_deleteDestination (built calls) d⟩

/-- A cycle of three registers, one of them with itself, and a fourth that was deleted. -/
example : (built [.addDependency 1 2, .addDependency 2 3, .addDependency 3 1, .addDependency 3 3,
    .addDependency 2 4, .deleteDestination 4]).getAllDependencies .ascending 14 1 =
      some {2, 3} := by decide +kernel

end DependencyGraph

end CbpSim.Predictor
