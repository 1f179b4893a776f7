/-
  Foundation/Accumulate.lean --- sums in a register of another width.

  A list of words below `k` is summed in a signed register of `m` values: every
  partial sum is brought into the register.  Where `m` divides `k` the register
  holds the sum modulo its own size, whatever the partial sums did on the way.
  Read back as a word it is the sum only where no bit was lost.
-/
import Mathlib.Algebra.Group.Defs
import Mathlib.Data.List.Basic
import Mathlib.Tactic

set_option autoImplicit false

namespace CbpSim.Foundation

/-- The sum of words below `k` in a signed register of `m` values. -/
def signedSum (k m : Nat) (v : List Nat) : Int :=
  v.foldl (fun (init : Int) (x : Nat) => Int.bmod ((init + x) % k) m) 0

section

variable {k m : Nat}

/-- A word is brought into the register modulo the register. -/
theorem bmod_emod_of_dvd (hmk : m ∣ k) (a : Int) : Int.bmod (a % k) m = Int.bmod a m := by
  obtain ⟨c, rfl⟩ := hmk
  have hdiv : a % (m * c : Nat) = a - m * (c * (a / (m * c : Nat))) := by
    rw [Int.emod_def]
    push_cast
    ring
  rw [hdiv, Int.sub_mul_bmod_self_left]

theorem foldl_bmod (hmk : m ∣ k) (v : List Nat) (a : Int) :
    v.foldl (fun (init : Int) (x : Nat) => Int.bmod ((init + x) % k) m) (Int.bmod a m) =
      Int.bmod (a + v.sum) m := by
  induction v generalizing a with
  | nil => simp
  | cons x v ih =>
    rw [List.foldl_cons, bmod_emod_of_dvd hmk, Int.bmod_add_bmod, ih, List.sum_cons]
    push_cast
    rw [add_assoc]

theorem signedSum_eq (hmk : m ∣ k) (v : List Nat) : signedSum k m v = Int.bmod v.sum m := by
  have h := foldl_bmod hmk v 0
  rw [Int.zero_bmod, zero_add] at h
  exact h

/-- Read back with its sign, a word of the register has the register's value. -/
theorem bmod_signedSum_emod (hm : 0 < m) (hmk : m ∣ k) (hk : 0 < k) (v : List Nat) :
    Int.bmod (signedSum k m v % k).toNat k = Int.bmod v.sum m := by
  have hle := Nat.le_of_dvd hk hmk
  have hlow := Int.le_bmod (x := v.sum) hm
  have hhigh := Int.bmod_lt (x := v.sum) hm
  rw [Int.toNat_of_nonneg (Int.emod_nonneg _ (by omega)), Int.emod_bmod, signedSum_eq hmk]
  exact Int.bmod_eq_of_le (by omega) (by omega)

/-- A sum that fits a word is read back from a register of half the values up to
the register's sign, and from there on only where it is a negative number's word. -/
theorem signedSum_emod_eq_iff {h : Nat} (hh : 0 < h) (hmk : 2 * h ∣ k) {v : List Nat}
    (hv : v.sum < k) :
    (signedSum k (2 * h) v % k).toNat = v.sum ↔ v.sum < h ∨ k - h ≤ v.sum := by
  have hk : 2 * h ≤ k := Nat.le_of_dvd (by omega) hmk
  rw [signedSum_eq hmk]
  have hlow := Int.le_bmod (x := v.sum) (m := 2 * h) (by omega)
  have hhigh := Int.bmod_lt (x := v.sum) (m := 2 * h) (by omega)
  constructor
  · intro heq
    rcases lt_or_ge (Int.bmod v.sum (2 * h)) 0 with hneg | hpos
    · have : Int.bmod v.sum (2 * h) % k = Int.bmod v.sum (2 * h) + k := by
        rw [← Int.add_emod_right, Int.emod_eq_of_lt (by omega) (by omega)]
      omega
    · rw [Int.emod_eq_of_lt hpos (by omega)] at heq
      omega
  · rintro (hlt | hge)
    · rw [Int.bmod_eq_of_le (by omega) (by omega), Int.emod_eq_of_lt (by omega) (by omega)]
      exact Int.toNat_natCast _
    · obtain ⟨c, rfl⟩ := hmk
      have hneg : Int.bmod v.sum (2 * h) = v.sum - (2 * h * c : Nat) := by
        have hshift : (v.sum : Int) = (v.sum - (2 * h * c : Nat)) + (2 * h : Nat) * c := by
          push_cast
          ring
        rw [hshift, Int.add_mul_bmod_self_left, Int.bmod_eq_of_le (by omega) (by omega)]
        omega
      rw [hneg, Int.sub_emod_right, Int.emod_eq_of_lt (by omega) (by omega)]
      exact Int.toNat_natCast _

end

end CbpSim.Foundation
