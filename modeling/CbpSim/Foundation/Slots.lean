/-
  Foundation/Slots.lean --- how long lists are whose elements have slots in time.

  Where a cycle has room for so many elements, a list that is done before a cycle has
  not more elements than there was room for.  Where an element comes a distance after
  the one `w` places before it, every `w` elements take the distance once.
-/
import Mathlib.Tactic

set_option autoImplicit false

namespace CbpSim.Foundation

variable {α : Type}

/-- No more elements than room before the cycle `n`. -/
theorem length_le_mul {slot : α → Nat} {limit n : Nat} {L : List α}
    (hroom : ∀ c, L.countP (fun x => slot x == c) ≤ limit) (hbound : ∀ x ∈ L, slot x < n) :
    L.length ≤ limit * n := by
  induction n generalizing L with
  | zero =>
    cases L with
    | nil => exact Nat.zero_le _
    | cons x L => exact absurd (hbound x List.mem_cons_self) (Nat.not_lt_zero _)
  | succ n ih =>
    -- the elements of the last cycle, and the others
    have hsplit := L.length_eq_countP_add_countP fun x => slot x == n
    have hothers : (L.filter fun x => !(slot x == n)).length ≤ limit * n := by
      apply ih
      · intro c
        exact (List.filter_sublist.countP_le).trans (hroom c)
      · intro x hx
        obtain ⟨hmem, hne⟩ := List.mem_filter.mp hx
        have hlt := hbound x hmem
        have hne : slot x ≠ n := by simpa using hne
        omega
    have hlast := hroom n
    rw [← List.countP_eq_length_filter] at hothers
    rw [Nat.mul_succ]
    have hnot : (L.countP fun x => decide ¬(slot x == n) = true) =
        L.countP fun x => !(slot x == n) := by
      congr 1
      funext x
      cases slot x == n <;> rfl
    omega

/-- Elements of a kind. -/
theorem countP_le_mul {kind : α → Bool} {slot : α → Nat} {limit n : Nat} {L : List α}
    (hroom : ∀ c, L.countP (fun x => kind x && slot x == c) ≤ limit)
    (hbound : ∀ x ∈ L, slot x < n) : L.countP kind ≤ limit * n := by
  rw [List.countP_eq_length_filter]
  apply length_le_mul
  · intro c
    rw [List.countP_filter]
    refine le_trans (le_of_eq ?_) (hroom c)
    congr 1
    funext x
    rw [Bool.and_comm]
  · intro x hx
    exact hbound x (List.mem_of_mem_filter hx)

/-- Elements of a kind that share their slots with nothing after them. -/
theorem countP_le_of_apart {kind : α → Bool} {slot : α → Nat} {n : Nat} {L : List α}
    (hapart : L.Pairwise fun x y => kind x → slot x ≠ slot y) (hbound : ∀ x ∈ L, slot x < n) :
    L.countP kind ≤ n := by
  rw [← Nat.one_mul n]
  apply countP_le_mul _ hbound
  intro c
  induction hapart with
  | nil => exact Nat.zero_le 1
  | cons hx _ ih =>
    rename_i x L _
    rw [List.countP_cons]
    split
    · rename_i hslot
      simp only [Bool.and_eq_true, beq_iff_eq] at hslot
      have hnone : L.countP (fun y => kind y && slot y == c) = 0 := by
        rw [List.countP_eq_zero]
        intro y hy heq
        simp only [Bool.and_eq_true, beq_iff_eq] at heq
        exact hx y hy hslot.1 (hslot.2.trans heq.2.symm)
      rw [hnone]
    · exact ih fun y hy => hbound y (List.mem_cons_of_mem _ hy)

/-- The distances that are behind an element. -/
theorem spaced {f : α → Nat} {d w : Nat} (hw : 0 < w) {L : List α} (hstart : ∀ x ∈ L, d ≤ f x)
    (hspace : ∀ (i : Nat) (x y : α), L[i]? = some x → L[i + w]? = some y → f x + d ≤ f y)
    (i : Nat) (x : α) (hx : L[i]? = some x) : (i / w + 1) * d ≤ f x := by
  induction i using Nat.strong_induction_on generalizing x with
  | _ i ih =>
    by_cases hlt : i < w
    · rw [Nat.div_eq_of_lt hlt, Nat.zero_add, Nat.one_mul]
      exact hstart x (List.mem_of_getElem? hx)
    · have hlast : i < L.length := (List.getElem?_eq_some_iff.mp hx).1
      have hbefore : i - w < L.length := by omega
      have hspaced := hspace (i - w) L[i - w] x (List.getElem?_eq_getElem hbefore)
        (by rw [Nat.sub_add_cancel (Nat.le_of_not_lt hlt)]; exact hx)
      have hih := ih (i - w) (by omega) L[i - w] (List.getElem?_eq_getElem hbefore)
      have hdiv : i / w = (i - w) / w + 1 := Nat.div_eq_sub_div hw (Nat.le_of_not_lt hlt)
      rw [hdiv, Nat.add_mul, Nat.one_mul]
      omega

end CbpSim.Foundation
