/-
  Foundation/Ranks.lean --- slots numbered by the recency of their last use.

  The ranks of `n` slots are a numbering of them from `0`, the slot used longest
  ago, to `n - 1`, the slot used last.  Using a slot PROMOTES it: the slots ranked
  above it slip down by one and it takes the last place.  A slot that holds a tag
  is given to another tag only when its rank is `0`; by then `n - 1` other tags
  were used since its own last use.
-/
import Mathlib.Data.Finset.Card
import Mathlib.Data.List.Nodup
import Mathlib.Tactic

set_option autoImplicit false

namespace CbpSim.Foundation.Ranks

variable {α : Type}

/-- The ranks number `n` slots: they are below `n` and different. -/
structure Numbers (n : Nat) (rank : Nat → Nat) : Prop where
  lt : ∀ i < n, rank i < n
  inj : ∀ i < n, ∀ j < n, rank i = rank j → i = j

/-- The ranks after a use of `slot`. -/
def promote (n : Nat) (rank : Nat → Nat) (slot i : Nat) : Nat :=
  if i = slot then n - 1 else if rank slot < rank i then rank i - 1 else rank i

@[simp] theorem promote_self (n : Nat) (rank : Nat → Nat) (slot : Nat) :
    promote n rank slot slot = n - 1 := if_pos rfl

theorem promote_of_ne {n : Nat} {rank : Nat → Nat} {slot i : Nat} (h : i ≠ slot) :
    promote n rank slot i = if rank slot < rank i then rank i - 1 else rank i := if_neg h

theorem promote_congr {n : Nat} {rank rank' : Nat → Nat} {slot i : Nat}
    (hslot : rank slot = rank' slot) (hi : rank i = rank' i) :
    promote n rank slot i = promote n rank' slot i := by
  unfold promote
  rw [hslot, hi]

namespace Numbers

variable {n : Nat} {rank : Nat → Nat}

theorem ne (h : Numbers n rank) {i j : Nat} (hi : i < n) (hj : j < n) (hij : i ≠ j) :
    rank i ≠ rank j := fun heq => hij (h.inj i hi j hj heq)

/-- A promotion keeps the order of the other slots. -/
theorem promote_lt_iff (h : Numbers n rank) {slot i j : Nat} (hslot : slot < n) (hi : i < n)
    (hj : j < n) (hi' : i ≠ slot) (hj' : j ≠ slot) :
    promote n rank slot i < promote n rank slot j ↔ rank i < rank j := by
  have hne := h.ne hi hslot hi'
  have hne' := h.ne hj hslot hj'
  rw [promote_of_ne hi', promote_of_ne hj']
  split
  · split
    · omega
    · omega
  · split
    · omega
    · omega

/-- The slot promoted is ranked above all others. -/
theorem promote_lt (h : Numbers n rank) {slot i : Nat} (hslot : slot < n) (hi : i < n)
    (hi' : i ≠ slot) : promote n rank slot i < n - 1 := by
  have hne := h.ne hi hslot hi'
  have hlt := h.lt i hi
  have hlt' := h.lt slot hslot
  rw [promote_of_ne hi']
  split
  · omega
  · omega

theorem promote (h : Numbers n rank) {slot : Nat} (hslot : slot < n) :
    Numbers n (promote n rank slot) where
  lt i hi := by
    by_cases hi' : i = slot
    · rw [hi', promote_self]
      omega
    · have := h.promote_lt hslot hi hi'
      omega
  inj i hi j hj heq := by
    by_cases hi' : i = slot
    · by_cases hj' : j = slot
      · rw [hi', hj']
      · have := h.promote_lt hslot hj hj'
        rw [hi', promote_self] at heq
        omega
    · by_cases hj' : j = slot
      · have := h.promote_lt hslot hi hi'
        rw [hj', promote_self] at heq
        omega
      · -- neither moved past the other
        apply h.inj i hi j hj
        have hlt := h.promote_lt_iff hslot hi hj hi' hj'
        have hgt := h.promote_lt_iff hslot hj hi hj' hi'
        omega

theorem perm (h : Numbers n rank) : ((List.range n).map rank).Perm (List.range n) := by
  have hnodup : ((List.range n).map rank).Nodup := by
    refine List.Nodup.map_on ?_ List.nodup_range
    intro i hi j hj heq
    exact h.inj i (List.mem_range.mp hi) j (List.mem_range.mp hj) heq
  have hsub : (List.range n).map rank ⊆ List.range n := by
    intro r hr
    obtain ⟨i, hi, rfl⟩ := List.mem_map.mp hr
    exact List.mem_range.mpr (h.lt i (List.mem_range.mp hi))
  exact (hnodup.subperm hsub).perm_of_length_le (by simp)

/-- Every rank is taken. -/
theorem exists_slot (h : Numbers n rank) {r : Nat} (hr : r < n) : ∃ i < n, rank i = r := by
  have hmem := h.perm.mem_iff.mpr (List.mem_range.mpr hr)
  obtain ⟨i, hi, heq⟩ := List.mem_map.mp hmem
  exact ⟨i, List.mem_range.mp hi, heq⟩

end Numbers

/-! ## Retention -/

/-- Every slot ranked above `slot` holds a tag used since the last promotion of
`slot`. -/
def KeptSince (n : Nat) (rank : Nat → Nat) (tag : Nat → α) (slot : Nat) (used : List α) : Prop :=
  ∀ i < n, rank slot < rank i → tag i ∈ used

namespace KeptSince

variable {n : Nat} {rank : Nat → Nat} {tag tag' : Nat → α} {slot : Nat} {used : List α}

theorem promoted (h : Numbers n rank) (hslot : slot < n) :
    KeptSince n (promote n rank slot) tag slot [] := by
  intro i hi hlt
  have := (h.promote hslot).lt i hi
  rw [promote_self] at hlt
  omega

theorem mono (h : KeptSince n rank tag slot used) (a : α) :
    KeptSince n rank tag slot (a :: used) :=
  fun i hi hlt => List.mem_cons_of_mem a (h i hi hlt)

/-- The use of another slot, which holds `a` from then on. -/
theorem other (h : KeptSince n rank tag slot used) (hnum : Numbers n rank) (hslot : slot < n)
    {user : Nat} (huser : user < n) (hne : slot ≠ user) (hsame : ∀ i, i ≠ user → tag' i = tag i) :
    KeptSince n (promote n rank user) tag' slot (tag' user :: used) := by
  intro i hi hlt
  by_cases hi' : i = user
  · rw [hi']
    exact List.mem_cons_self
  · rw [hnum.promote_lt_iff huser hslot hi hne hi'] at hlt
    rw [hsame i hi']
    exact List.mem_cons_of_mem _ (h i hi hlt)

/-- The ranks matter on the slots only. -/
theorem congr (h : KeptSince n rank tag slot used) {rank' : Nat → Nat} (hslot : slot < n)
    (hrank : ∀ i < n, rank' i = rank i) (htag : ∀ i < n, tag' i = tag i) :
    KeptSince n rank' tag' slot used := by
  intro i hi hlt
  rw [hrank slot hslot, hrank i hi] at hlt
  rw [htag i hi]
  exact h i hi hlt

/-- A slot ranked `0` was outlived by the tags of all others: one tag more, in no
slot, makes them `n`. -/
theorem le_card [DecidableEq α] (h : KeptSince n rank tag slot used) (hnum : Numbers n rank)
    (hslot : slot < n) (hzero : rank slot = 0)
    (hdistinct : ∀ i < n, ∀ j < n, i ≠ slot → j ≠ slot → tag i = tag j → i = j)
    {a : α} (ha : ∀ i < n, tag i ≠ a) : n ≤ (a :: used).toFinset.card := by
  rw [← Finset.card_range n]
  refine Finset.card_le_card_of_injOn (fun i => if i = slot then a else tag i) ?_ ?_
  · intro i hi
    have hi := Finset.mem_range.mp hi
    refine List.mem_toFinset.mpr ?_
    dsimp only
    split
    · exact List.mem_cons_self
    · rename_i hne
      have hpos := hnum.ne hi hslot hne
      exact List.mem_cons_of_mem _ (h i hi (by omega))
  · intro i hi j hj heq
    have hi := Finset.mem_range.mp hi
    have hj := Finset.mem_range.mp hj
    dsimp only at heq
    split at heq
    · split at heq
      · omega
      · exact absurd heq.symm (ha j hj)
    · split at heq
      · exact absurd heq (ha i hi)
      · exact hdistinct i hi j hj ‹_› ‹_› heq

end KeptSince

end CbpSim.Foundation.Ranks
