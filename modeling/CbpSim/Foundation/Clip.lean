/-
  Foundation/Clip.lean --- arrays without end, cut to their size.

  A model keeps an array as a function of the index.  `clip n d f` is the function with
  what lies past the `n` elements forgotten.  A function of the array that commutes with
  `clip` neither reads nor writes past the end.
-/
import Mathlib.Tactic

set_option autoImplicit false

namespace CbpSim.Foundation

variable {α β : Type} {n : Nat} {d : α}

/-- The first `n` elements of `f`, and `d` for the others. -/
def clip (n : Nat) (d : α) (f : Nat → α) (i : Nat) : α := if i < n then f i else d

/-- Inside its size an array is read as it is. -/
@[simp] theorem clip_of_lt {f : Nat → α} {i : Nat} (h : i < n) : clip n d f i = f i := if_pos h

/-- Inside its size an array is written as it is. -/
theorem clip_update {f : Nat → α} {i : Nat} (x : α) (h : i < n) :
    clip n d (Function.update f i x) = Function.update (clip n d f) i x := by
  funext j
  rcases eq_or_ne j i with rfl | hne
  · rw [clip_of_lt h, Function.update_self, Function.update_self]
  · rw [Function.update_of_ne hne, clip, clip, Function.update_of_ne hne]

/-- Every element takes the same step. -/
theorem clip_map {g : α → β} (f : Nat → α) : clip n (g d) (g ∘ f) = g ∘ clip n d f := by
  funext i
  rw [Function.comp_apply, clip, clip]
  split
  · rfl
  · rfl

end CbpSim.Foundation
