/-
  Foundation/Ring.lean --- a ring of slots standing for a function of time.

  A ring of `depth` slots with a moving base can stand for a function
  `f : Nat → α` that is constant (`zero`) from `base + depth` on: the value of a
  live time `c`, `base ≤ c < base + depth`, sits in slot `c % depth`.  The rules
  below say how that survives a write, a move of the base and a growth of the
  ring.  Growth is the delicate one: slots keep their index, so it is only right
  for the live times whose index under the new size is the old one.
-/
import Mathlib.Data.Nat.Bitwise
import Mathlib.Tactic

set_option autoImplicit false

namespace CbpSim.Foundation.Ring

variable {α : Type} {zero : α} {depth base : Nat} {slots f : Nat → α}

/-- Two times of one window share a slot only when they are equal. -/
theorem eq_of_mod_eq {c d : Nat} (hc : base ≤ c) (hc' : c < base + depth)
    (hd : base ≤ d) (hd' : d < base + depth) (h : c % depth = d % depth) : c = d := by
  have hmod : c ≡ d [MOD depth] := h
  rcases Nat.le_total c d with hle | hle
  · have hdvd : depth ∣ d - c := (Nat.modEq_iff_dvd' hle).mp hmod
    have hzero : d - c = 0 := Nat.eq_zero_of_dvd_of_lt hdvd (by omega)
    omega
  · have hdvd : depth ∣ c - d := (Nat.modEq_iff_dvd' hle).mp hmod.symm
    have hzero : c - d = 0 := Nat.eq_zero_of_dvd_of_lt hdvd (by omega)
    omega

/-- The slots of a ring of size `depth` with base `base` stand for `f`. -/
structure Represents (zero : α) (depth base : Nat) (slots f : Nat → α) : Prop where
  /-- the slot of a live time holds its value -/
  live : ∀ c, base ≤ c → c < base + depth → slots (c % depth) = f c
  /-- `f` is `zero` past the window -/
  beyond : ∀ c, base + depth ≤ c → f c = zero

theorem represents_const (zero : α) (depth base : Nat) :
    Represents zero depth base (fun _ => zero) (fun _ => zero) :=
  ⟨fun _ _ _ => rfl, fun _ _ => rfl⟩

/-- Writing the slot of a live time writes the function at that time. -/
theorem Represents.write (h : Represents zero depth base slots f) {c : Nat} (v : α)
    (hc : base ≤ c) (hc' : c < base + depth) :
    Represents zero depth base (Function.update slots (c % depth) v)
      (Function.update f c v) := by
  refine ⟨?_, ?_⟩
  · intro d hd hd'
    by_cases hdc : d = c
    · subst hdc; simp
    · have hne : d % depth ≠ c % depth := fun heq => hdc (eq_of_mod_eq hd hd' hc hc' heq)
      rw [Function.update_of_ne hne, Function.update_of_ne hdc, h.live d hd hd']
  · intro d hd
    have hdc : d ≠ c := by omega
    rw [Function.update_of_ne hdc, h.beyond d hd]

/-- Moving the base past one time, after emptying its slot. -/
theorem Represents.advance (h : Represents zero depth base slots f) :
    Represents zero depth (base + 1) (Function.update slots (base % depth) zero) f := by
  refine ⟨?_, ?_⟩
  · intro c hc hc'
    by_cases hlast : c = base + depth
    · subst hlast
      rw [Nat.add_mod_right, Function.update_self, h.beyond _ le_rfl]
    · have hne : c % depth ≠ base % depth := fun heq =>
        absurd (eq_of_mod_eq (by omega) (by omega) le_rfl (by omega) heq) (by omega)
      rw [Function.update_of_ne hne, h.live c (by omega) (by omega)]
  · intro c hc
    exact h.beyond c (by omega)

/-- Growing the ring to a multiple of its size, old slots keeping their index,
is right when every live time with a value other than `zero` keeps its index. -/
theorem Represents.grow (h : Represents zero depth base slots f) (hdepth : 0 < depth)
    {depth' : Nat} (hle : depth ≤ depth') (hdvd : depth ∣ depth')
    (hkeep : ∀ c, base ≤ c → c < base + depth → f c ≠ zero → c % depth' < depth) :
    Represents zero depth' base (fun i => if i < depth then slots i else zero) f := by
  have hmod : ∀ c, c % depth' < depth → c % depth' = c % depth := fun c hlt => by
    rw [← Nat.mod_mod_of_dvd c hdvd, Nat.mod_eq_of_lt hlt]
  refine ⟨?_, fun c hc => h.beyond c (by omega)⟩
  intro c hc hc'
  by_cases hslot : c % depth' < depth
  · simp only [hslot, if_true]
    rw [hmod c hslot]
    by_cases hwin : c < base + depth
    · exact h.live c hc hwin
    · -- a new time in an old slot: the old time `d` of that slot has no value
      obtain ⟨d, hd, hd', hsame⟩ :
          ∃ d, base ≤ d ∧ d < base + depth ∧ d % depth = c % depth := by
        refine ⟨base + (c - base) % depth, by omega, ?_, ?_⟩
        · have := Nat.mod_lt (c - base) hdepth
          omega
        · rw [Nat.add_mod_mod, Nat.add_sub_cancel' hc]
      rw [h.beyond c (by omega), ← hsame, h.live d hd hd']
      by_contra hne
      have hkept := hkeep d hd hd' hne
      have hidx : d % depth' = c % depth' := by rw [hmod d hkept, hmod c hslot, hsame]
      have := eq_of_mod_eq hd (by omega) hc hc' hidx
      omega
  · -- a fresh slot: neither a new time nor an old one has a value there
    simp only [hslot, if_false]
    by_cases hwin : c < base + depth
    · by_contra hne
      exact hslot (hkeep c hc hwin (Ne.symm hne))
    · exact (h.beyond c (by omega)).symm

end CbpSim.Foundation.Ring
