/-
  Foundation/Amortised.lean --- how often a marked step can happen.

  A quantity of the state that has a bound, that every marked step raises, and that the
  other steps lower by no more than their input pays, bounds the marked steps of every
  run.  The quantity is often a sum over an array of which a step writes one cell.
-/
import CbpSim.Foundation.Run

set_option autoImplicit false

namespace CbpSim.Foundation

variable {ε σ α : Type}

/-! ## Marked steps -/

/-- The marked steps of a run, which ends where the machine aborts. -/
def marks (step : σ → α → Except ε σ) (mark : σ → α → Bool) : σ → List α → Nat
  | _, [] => 0
  | s, a :: inputs =>
    match step s a with
    | .ok s' => (mark s a).toNat + marks step mark s' inputs
    | .error _ => 0

/-- The amortised bound. -/
theorem marks_le (step : σ → α → Except ε σ) (mark : σ → α → Bool) (I : σ → Prop) (V : σ → Nat)
    (pays : α → Nat) {bound : Nat} (hbound : ∀ s, I s → V s ≤ bound)
    (hstep : ∀ s a s', I s → step s a = .ok s' → I s' ∧ V s + (mark s a).toNat ≤ V s' + pays a)
    {s : σ} (hs : I s) (inputs : List α) :
    V s + marks step mark s inputs ≤ bound + (inputs.map pays).sum := by
  induction inputs generalizing s with
  | nil => exact hbound s hs
  | cons a inputs ih =>
    rw [List.map_cons, List.sum_cons, marks]
    cases hnext : step s a with
    | error e =>
      have := hbound s hs
      dsimp only
      omega
    | ok s' =>
      obtain ⟨hs', hgain⟩ := hstep s a s' hs hnext
      have := ih hs'
      dsimp only
      omega

/-! ## Sums over an array -/

/-- The sum of what the first `n` cells are worth. -/
def worth (value : α → Nat) (n : Nat) (cells : Nat → α) : Nat :=
  ∑ i ∈ Finset.range n, value (cells i)

theorem worth_update (value : α → Nat) {n i : Nat} (hi : i < n) (cells : Nat → α) (x : α) :
    worth value n (Function.update cells i x) + value (cells i) =
      worth value n cells + value x := by
  have hmem := Finset.mem_range.mpr hi
  have hothers : ∑ j ∈ (Finset.range n).erase i, value (Function.update cells i x j) =
      ∑ j ∈ (Finset.range n).erase i, value (cells j) := by
    apply Finset.sum_congr rfl
    intro j hj
    rw [Function.update_of_ne (Finset.ne_of_mem_erase hj)]
  rw [worth, worth, ← Finset.add_sum_erase _ _ hmem, ← Finset.add_sum_erase _ _ hmem, hothers,
    Function.update_self]
  omega

theorem worth_le {value : α → Nat} {limit : Nat} (n : Nat) {cells : Nat → α}
    (h : ∀ i, value (cells i) ≤ limit) : worth value n cells ≤ limit * n := by
  have hle := Finset.sum_le_card_nsmul (Finset.range n) _ limit fun i _ => h i
  rw [Finset.card_range, smul_eq_mul, Nat.mul_comm] at hle
  exact hle

end CbpSim.Foundation
