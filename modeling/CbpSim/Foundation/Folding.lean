/-
  Foundation/Folding.lean --- a long sequence of bits folded into a short word.

  The fold of a sequence at width `c` has bit `j` of the sequence at place `j % c`,
  several bits of one place together by exclusive or.  When a bit comes in at the
  front, every other one moves one place up, and the last place wraps around to
  the first.  Moving and wrapping are linear in exclusive or, so a fold is kept up
  to date by a shift, the bit that comes in and the bit that goes out.
-/
import Mathlib.Data.Nat.Bitwise
import Mathlib.Tactic

set_option autoImplicit false

namespace CbpSim.Foundation

variable {c n : Nat}

/-! ## Words -/

/-- What lies above the `c` low places, moved down by `c` and then cut. -/
def wrap (c x : Nat) : Nat := (x ^^^ (x >>> c)) &&& (2 ^ c - 1)

theorem wrap_xor (c x y : Nat) : wrap c (x ^^^ y) = wrap c x ^^^ wrap c y := by
  apply Nat.eq_of_testBit_eq
  intro i
  simp only [wrap, Nat.testBit_and, Nat.testBit_xor, Nat.testBit_shiftRight]
  cases (2 ^ c - 1).testBit i <;> cases x.testBit i <;> cases y.testBit i <;>
    cases x.testBit (c + i) <;> cases y.testBit (c + i) <;> rfl

/-- A word of `c` places stays as it is. -/
theorem wrap_of_lt {x : Nat} (hx : x < 2 ^ c) : wrap c x = x := by
  rw [wrap, Nat.shiftRight_eq_div_pow, Nat.div_eq_of_lt hx, Nat.xor_zero,
    Nat.and_two_pow_sub_one_eq_mod, Nat.mod_eq_of_lt hx]

theorem wrap_lt (c x : Nat) : wrap c x < 2 ^ c := by
  rw [wrap, Nat.and_two_pow_sub_one_eq_mod]
  exact Nat.mod_lt _ (Nat.two_pow_pos c)

theorem testBit_wrap {i : Nat} (hi : i < c) (x : Nat) :
    (wrap c x).testBit i = (x.testBit i ^^ x.testBit (c + i)) := by
  rw [wrap, Nat.and_two_pow_sub_one_eq_mod, Nat.testBit_mod_two_pow, Nat.testBit_xor,
    Nat.testBit_shiftRight]
  simp [hi]

/-- Two words that agree in their `c` places. -/
theorem eq_of_testBit_lt {x y : Nat} (hx : x < 2 ^ c) (hy : y < 2 ^ c)
    (h : ∀ i, i < c → x.testBit i = y.testBit i) : x = y := by
  apply Nat.eq_of_testBit_eq
  intro i
  rcases Nat.lt_or_ge i c with hi | hi
  · exact h i hi
  · have hpow := Nat.pow_le_pow_right (by decide : 0 < 2) hi
    rw [Nat.testBit_lt_two_pow (by omega), Nat.testBit_lt_two_pow (by omega)]

/-- Wrapping may wait until after the next shift. -/
theorem wrap_wrap_shiftLeft (hc : 0 < c) {x : Nat} (hx : x < 2 ^ (2 * c - 1)) :
    wrap c (wrap c x <<< 1) = wrap c (x <<< 1) := by
  refine eq_of_testBit_lt (wrap_lt c _) (wrap_lt c _) fun i hi => ?_
  rw [testBit_wrap hi, testBit_wrap hi]
  have hhigh (j : Nat) (hj : c ≤ j) : (wrap c x).testBit j = false := by
    have hpow := Nat.pow_le_pow_right (by decide : 0 < 2) hj
    exact Nat.testBit_lt_two_pow (lt_of_lt_of_le (wrap_lt c x) hpow)
  simp only [Nat.testBit_shiftLeft]
  rcases Nat.eq_zero_or_pos i with rfl | hpos
  · -- the last place wraps around, and nothing lies where it would come from next
    have htop : x.testBit (2 * c - 1) = false := Nat.testBit_lt_two_pow hx
    have hlast := testBit_wrap (show c - 1 < c by omega) x
    have hindex : c + (c - 1) = 2 * c - 1 := by omega
    rw [hindex, htop] at hlast
    simp [hlast]
  · have hplace := testBit_wrap (show i - 1 < c by omega) x
    have hindex : c + (i - 1) = c + i - 1 := by omega
    rw [hindex] at hplace
    rw [hhigh (c + i - 1) (by omega), hplace]
    simp [show 1 ≤ i from hpos, show 1 ≤ c + i by omega]

/-- A word that is moved up and wrapped around is 0 only if it was. -/
theorem wrap_shiftLeft_eq_zero_iff {x k : Nat} (hx : x < 2 ^ c) (hk : k ≤ c) :
    wrap c (x <<< k) = 0 ↔ x = 0 := by
  constructor
  · intro hzero
    refine eq_of_testBit_lt hx (Nat.two_pow_pos c) fun i hi => ?_
    have hhigh (j : Nat) (hj : c ≤ j) : x.testBit j = false := by
      have hpow := Nat.pow_le_pow_right (by decide : 0 < 2) hj
      exact Nat.testBit_lt_two_pow (lt_of_lt_of_le hx hpow)
    rw [Nat.zero_testBit]
    rcases Nat.lt_or_ge (i + k) c with hlt | hge
    · have hbit := testBit_wrap hlt (x <<< k)
      rw [hzero, Nat.zero_testBit, Nat.testBit_shiftLeft, Nat.testBit_shiftLeft,
        hhigh (c + (i + k) - k) (by omega)] at hbit
      simpa using hbit.symm
    · have hbit := testBit_wrap (show i + k - c < c by omega) (x <<< k)
      have hindex : c + (i + k - c) - k = i := by omega
      rw [hzero, Nat.zero_testBit, Nat.testBit_shiftLeft, Nat.testBit_shiftLeft, hindex] at hbit
      simpa [show ¬ k ≤ i + k - c by omega, show k ≤ c + (i + k - c) by omega] using hbit.symm
  · rintro rfl
    rw [Nat.zero_shiftLeft]
    exact wrap_of_lt (Nat.two_pow_pos c)

theorem bit_shiftLeft_lt (b : Bool) {k : Nat} (hk : k < c) : b.toNat <<< k < 2 ^ c := by
  rw [Nat.shiftLeft_eq]
  have hb := Bool.toNat_le b
  calc b.toNat * 2 ^ k ≤ 1 * 2 ^ k := Nat.mul_le_mul_right _ hb
    _ = 2 ^ k := Nat.one_mul _
    _ < 2 ^ c := Nat.pow_lt_pow_right (by omega) hk

/-- The bit just above the word comes back at its first place. -/
theorem wrap_bit_top (b : Bool) (hc : 0 < c) : wrap c (b.toNat <<< c) = b.toNat := by
  have hb : b.toNat < 2 ^ c := by simpa using bit_shiftLeft_lt b hc
  rw [wrap, Nat.shiftLeft_shiftRight, Nat.and_xor_distrib_right, Nat.and_two_pow_sub_one_eq_mod,
    Nat.and_two_pow_sub_one_eq_mod, Nat.mod_eq_of_lt hb, Nat.shiftLeft_eq, Nat.mul_mod_left,
    Nat.zero_xor]

/-- A bit moves one place up, from the last place to the first. -/
theorem wrap_bit_succ (b : Bool) (hc : 0 < c) (j : Nat) :
    wrap c ((b.toNat <<< (j % c)) <<< 1) = b.toNat <<< ((j + 1) % c) := by
  have hlt := Nat.mod_lt j hc
  rw [← Nat.shiftLeft_add]
  by_cases hlast : j % c + 1 = c
  · have hwrapped : (j + 1) % c = 0 := by
      rw [← Nat.mod_add_mod, hlast, Nat.mod_self]
    rw [hlast, hwrapped, wrap_bit_top b hc, Nat.shiftLeft_zero]
  · have hnext : (j + 1) % c = j % c + 1 := by
      rw [← Nat.mod_add_mod, Nat.mod_eq_of_lt (by omega)]
    rw [hnext, wrap_of_lt (bit_shiftLeft_lt b (by omega))]

/-! ## Folds -/

/-- The first `n` bits, bit `j` at place `j % c`. -/
def foldBits (c : Nat) (bit : Nat → Bool) : Nat → Nat
  | 0 => 0
  | n + 1 => foldBits c bit n ^^^ ((bit n).toNat <<< (n % c))

/-- A sequence with a bit in front of it. -/
def consBit (b : Bool) (bit : Nat → Bool) : Nat → Bool
  | 0 => b
  | n + 1 => bit n

@[simp] theorem consBit_zero (b : Bool) (bit : Nat → Bool) : consBit b bit 0 = b := rfl

theorem foldBits_lt (hc : 0 < c) (bit : Nat → Bool) (n : Nat) : foldBits c bit n < 2 ^ c := by
  induction n with
  | zero => exact Nat.two_pow_pos c
  | succ n ih => exact Nat.xor_lt_two_pow ih (bit_shiftLeft_lt _ (Nat.mod_lt n hc))

/-- The fold of no bits but zeros. -/
theorem foldBits_false (c n : Nat) : foldBits c (fun _ => false) n = 0 := by
  induction n with
  | zero => rfl
  | succ n ih =>
    rw [foldBits, ih]
    simp

/-- A bit in front moves all others one place up. -/
theorem foldBits_consBit (hc : 0 < c) (b : Bool) (bit : Nat → Bool) (n : Nat) :
    foldBits c (consBit b bit) (n + 1) = b.toNat ^^^ wrap c (foldBits c bit n <<< 1) := by
  induction n with
  | zero =>
    have hwrap : wrap c (0 <<< 1) = 0 := wrap_of_lt (Nat.two_pow_pos c)
    rw [foldBits, foldBits, foldBits, hwrap]
    simp [consBit]
  | succ n ih =>
    rw [foldBits, ih, foldBits, Nat.shiftLeft_xor_distrib, wrap_xor, wrap_bit_succ _ hc,
      Nat.xor_assoc]
    rfl

/-- **The update of a fold.**  A shift by one place, the bit that comes in, and the bit
that goes out at the place where it would go. -/
theorem wrap_update (hc : 0 < c) (b : Bool) (bit : Nat → Bool) (n : Nat) :
    wrap c (foldBits c bit n <<< 1 ^^^ b.toNat ^^^ (consBit b bit n).toNat <<< (n % c)) =
      foldBits c (consBit b bit) n := by
  have hb : b.toNat < 2 ^ c := by simpa using bit_shiftLeft_lt b hc
  rw [wrap_xor, wrap_xor, wrap_of_lt hb, wrap_of_lt (bit_shiftLeft_lt _ (Nat.mod_lt n hc)),
    Nat.xor_comm _ b.toNat, ← foldBits_consBit hc, foldBits, Nat.xor_assoc, Nat.xor_self,
    Nat.xor_zero]

end CbpSim.Foundation
