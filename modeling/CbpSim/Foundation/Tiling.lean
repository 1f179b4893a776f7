/-
  Foundation/Tiling.lean --- intervals of addresses that wrap around.

  A `span` is the set of the addresses from one on, `size` of them, modulo `M`.  Pieces
  tile a span when no two of them share an address and together they are the span.
  Pieces of equal size, the integer quotient and at least one, tile it exactly when
  their number divides its size.
-/
import Mathlib.Tactic
import Mathlib.Data.Nat.ModEq
import Mathlib.Data.Set.Disjoint
import Mathlib.Order.CompletePartialOrder

set_option autoImplicit false

namespace CbpSim.Foundation

/-- The addresses from `addr` on, `size` of them. -/
def span (M addr size : Nat) : Set Nat := {a | ∃ i < size, a = (addr + i) % M}

/-- The pieces, each an address and a size, are disjoint and make up the span. -/
structure Tiles (M : Nat) (pieces : List (Nat × Nat)) (addr size : Nat) : Prop where
  disjoint : pieces.Pairwise fun p q => Disjoint (span M p.1 p.2) (span M q.1 q.2)
  union : ∀ a, a ∈ span M addr size ↔ ∃ p ∈ pieces, a ∈ span M p.1 p.2

/-- `n` pieces of an equal part of `m`, at least one address each. -/
def equalPieces (M addr n m : Nat) : List (Nat × Nat) :=
  (List.range n).map fun p => ((addr + p * (m / n)) % M, max 1 (m / n))

section Span

variable {M addr : Nat}

/-- Offsets below the modulus name different addresses. -/
theorem offset_inj {x y : Nat} (hx : x < M) (hy : y < M) (h : (addr + x) % M = (addr + y) % M) :
    x = y := by
  have hmod : x ≡ y [MOD M] := Nat.ModEq.add_left_cancel' addr h
  exact hmod.eq_of_lt_of_lt hx hy

/-- The addresses of a piece at an offset. -/
theorem mem_span_offset {offset size a : Nat} :
    a ∈ span M ((addr + offset) % M) size ↔ ∃ i < size, a = (addr + (offset + i)) % M := by
  unfold span
  simp only [Set.mem_ofPred_eq, Nat.mod_add_mod, Nat.add_assoc]

end Span

/-! ## Equal pieces -/

section Equal

variable {M addr n m : Nat}

/-- Division with remainder of an offset by the size of a piece. -/
theorem exists_piece {q x : Nat} (hx : x < n * q) : ∃ p < n, ∃ i < q, x = p * q + i := by
  have hq : 0 < q := Nat.pos_of_mul_pos_left (Nat.zero_lt_of_lt hx)
  refine ⟨x / q, Nat.div_lt_of_lt_mul (Nat.mul_comm n q ▸ hx), x % q, Nat.mod_lt x hq, ?_⟩
  rw [Nat.mul_comm]
  exact (Nat.div_add_mod x q).symm

/-- An offset belongs to one piece. -/
theorem piece_unique {q p p' i i' : Nat} (hi : i < q) (hi' : i' < q)
    (h : p * q + i = p' * q + i') : p = p' := by
  have hdiv : ∀ {p i : Nat}, i < q → (p * q + i) / q = p := by
    intro p i hi
    rw [Nat.mul_comm, Nat.mul_add_div (Nat.zero_lt_of_lt hi), Nat.div_eq_of_lt hi, Nat.add_zero]
  exact (hdiv hi).symm.trans (h ▸ hdiv hi')

theorem offset_lt {q p i : Nat} (hp : p < n) (hi : i < q) : p * q + i < n * q :=
  calc p * q + i < p * q + q := Nat.add_lt_add_left hi _
    _ = (p + 1) * q := (Nat.succ_mul p q).symm
    _ ≤ n * q := Nat.mul_le_mul_right q hp

/-- Pieces whose number divides the size tile it. -/
theorem tiles_of_dvd (hm : 0 < m) (hM : m ≤ M) (hdvd : n ∣ m) :
    Tiles M (equalPieces M addr n m) addr m := by
  obtain ⟨q, rfl⟩ := hdvd
  have hn : 0 < n := Nat.pos_of_mul_pos_right hm
  have hq : 0 < q := Nat.pos_of_mul_pos_left hm
  have hpieces : equalPieces M addr n (n * q) =
      (List.range n).map fun p => ((addr + p * q) % M, q) := by
    unfold equalPieces
    rw [Nat.mul_div_cancel_left q hn, Nat.max_eq_right hq]
  rw [hpieces]
  constructor
  · rw [List.pairwise_map]
    refine List.nodup_range.imp_of_mem ?_
    intro p p' hp hp' hne
    rw [Set.disjoint_left]
    intro a ha ha'
    obtain ⟨i, hi, rfl⟩ := mem_span_offset.mp ha
    obtain ⟨i', hi', heq⟩ := mem_span_offset.mp ha'
    have hlt := (offset_lt (List.mem_range.mp hp) hi).trans_le hM
    have hlt' := (offset_lt (List.mem_range.mp hp') hi').trans_le hM
    exact hne (piece_unique hi hi' (offset_inj hlt hlt' heq))
  · intro a
    constructor
    · rintro ⟨x, hx, rfl⟩
      obtain ⟨p, hp, i, hi, rfl⟩ := exists_piece hx
      exact ⟨_, List.mem_map_of_mem (List.mem_range.mpr hp), mem_span_offset.mpr ⟨i, hi, rfl⟩⟩
    · rintro ⟨piece, hpiece, ha⟩
      obtain ⟨p, hp, rfl⟩ := List.mem_map.mp hpiece
      obtain ⟨i, hi, rfl⟩ := mem_span_offset.mp ha
      exact ⟨p * q + i, offset_lt (List.mem_range.mp hp) hi, rfl⟩

/-- More pieces than addresses share the first. -/
theorem not_tiles_of_lt (hm : 0 < m) (hlt : m < n) : ¬ Tiles M (equalPieces M addr n m) addr m := by
  intro h
  have hzero : m / n = 0 := Nat.div_eq_of_lt hlt
  have hlen : (equalPieces M addr n m).length = n := by simp [equalPieces]
  have hshared : ∀ i (hi : i < (equalPieces M addr n m).length), (equalPieces M addr n m)[i] =
      (addr % M, 1) := by
    intro i hi
    simp [equalPieces, hzero]
  have hdisjoint := List.pairwise_iff_getElem.mp h.disjoint 0 1 (by omega) (by omega) (by omega)
  rw [hshared, hshared] at hdisjoint
  exact Set.disjoint_left.mp hdisjoint ⟨0, Nat.one_pos, rfl⟩ ⟨0, Nat.one_pos, rfl⟩

/-- With a remainder the pieces end too early. -/
theorem not_tiles_of_rest (hn : 0 < n) (hle : n ≤ m) (hM : m ≤ M) (hrest : n * (m / n) < m) :
    ¬ Tiles M (equalPieces M addr n m) addr m := by
  intro h
  have hq : 1 ≤ m / n := Nat.div_pos hle hn
  obtain ⟨piece, hpiece, ha⟩ := (h.union _).mp ⟨n * (m / n), hrest, rfl⟩
  obtain ⟨p, hp, rfl⟩ := List.mem_map.mp hpiece
  dsimp only at ha
  rw [Nat.max_eq_right hq] at ha
  obtain ⟨i, hi, heq⟩ := mem_span_offset.mp ha
  have hlt := offset_lt (List.mem_range.mp hp) hi
  have := offset_inj (hrest.trans_le hM) (hlt.trans (hrest.trans_le hM)) heq
  omega

/-- **Equal pieces tile exactly when their number divides the size.** -/
theorem tiles_equalPieces (hn : 0 < n) (hm : 0 < m) (hM : m ≤ M) :
    Tiles M (equalPieces M addr n m) addr m ↔ n ∣ m := by
  constructor
  · intro h
    by_contra hdvd
    rcases Nat.lt_or_ge m n with hlt | hle
    · exact not_tiles_of_lt hm hlt h
    · have hrest : n * (m / n) < m :=
        lt_of_le_of_ne (Nat.mul_div_le m n) fun heq => hdvd ⟨m / n, heq.symm⟩
      exact not_tiles_of_rest hn hle hM hrest h
  · exact tiles_of_dvd hm hM

end Equal

end CbpSim.Foundation
