/-
  Foundation/Log.lean --- logs that grow at their end.

  A log is a list to which entries are appended.  What is said of every entry and
  the entries before it is checked once, when the entry is appended.
-/
import Mathlib.Data.List.Forall2
import Mathlib.Tactic

set_option autoImplicit false

namespace CbpSim.Foundation

variable {α : Type}

/-- `p` holds of every entry of the log and the entries before it. -/
def EveryEntry (p : List α → α → Prop) (log : List α) : Prop :=
  ∀ older x younger, log = older ++ x :: younger → p older x

theorem everyEntry_nil {p : List α → α → Prop} : EveryEntry p [] := by
  intro older x younger h
  exact absurd h.symm (List.append_ne_nil_of_right_ne_nil _ (List.cons_ne_nil _ _))

/-- An entry is appended. -/
theorem everyEntry_concat {p : List α → α → Prop} {log : List α} {a : α} :
    EveryEntry p (log ++ [a]) ↔ EveryEntry p log ∧ p log a := by
  constructor
  · intro h
    refine ⟨?_, h log a [] rfl⟩
    intro older x younger heq
    apply h older x (younger ++ [a])
    rw [heq, List.append_assoc, List.cons_append]
  · rintro ⟨hlog, ha⟩ older x younger heq
    rcases List.eq_nil_or_concat younger with rfl | ⟨front, b, rfl⟩
    · obtain ⟨rfl, hx⟩ := List.append_inj' heq rfl
      obtain rfl := List.singleton_inj.mp hx
      exact ha
    · rw [List.concat_eq_append, ← List.cons_append, ← List.append_assoc] at heq
      exact hlog older x front (List.append_inj' heq rfl).1

theorem everyEntry_iff {p : List α → α → Prop} {log : List α} :
    EveryEntry p log ↔ ∀ i : Fin log.length, p (log.take i) log[i] := by
  constructor
  · intro h i
    apply h _ _ (log.drop (i + 1))
    rw [Fin.getElem_fin, List.getElem_cons_drop, List.take_append_drop]
  · rintro h older x younger rfl
    have hi : older.length < (older ++ x :: younger).length := by simp
    simpa using h ⟨older.length, hi⟩

instance EveryEntry.decidable {p : List α → α → Prop} [∀ older x, Decidable (p older x)]
    (log : List α) : Decidable (EveryEntry p log) :=
  decidable_of_iff _ everyEntry_iff.symm

/-! ## Logs in order -/

section Ordered

variable {p : α → Bool} {xs : List α}

/-- What holds along a list until it fails for good is dropped by a filter. -/
theorem dropWhile_eq_filter (h : xs.Pairwise fun x y => p y → p x) :
    xs.dropWhile p = xs.filter fun x => !p x := by
  induction xs with
  | nil => rfl
  | cons x xs ih =>
    obtain ⟨hx, hxs⟩ := List.pairwise_cons.mp h
    cases hp : p x with
    | true => rw [List.dropWhile_cons_of_pos hp, List.filter_cons_of_neg (by simp [hp]), ih hxs]
    | false =>
      rw [List.dropWhile_cons_of_neg (by simp [hp]), List.filter_cons_of_pos (by simp [hp])]
      congr 1
      symm
      rw [List.filter_eq_self]
      intro y hy
      cases hpy : p y with
      | true => exact absurd (hx y hy hpy) (by simp [hp])
      | false => rfl

theorem takeWhile_eq_filter (h : xs.Pairwise fun x y => p y → p x) :
    xs.takeWhile p = xs.filter p := by
  induction xs with
  | nil => rfl
  | cons x xs ih =>
    obtain ⟨hx, hxs⟩ := List.pairwise_cons.mp h
    cases hp : p x with
    | true => rw [List.takeWhile_cons_of_pos hp, List.filter_cons_of_pos hp, ih hxs]
    | false =>
      rw [List.takeWhile_cons_of_neg (by simp [hp]), List.filter_cons_of_neg (by simp [hp])]
      symm
      rw [List.filter_eq_nil_iff]
      intro y hy hpy
      exact absurd (hx y hy hpy) (by simp [hp])

/-- The part of an ordered log before `m` is the part before `n` and what is between
them. -/
theorem filter_lt_append {time : α → Nat} (h : xs.Pairwise fun x y => time x ≤ time y) {n m : Nat}
    (hnm : n ≤ m) :
    xs.filter (fun x => decide (time x < m)) =
      xs.filter (fun x => decide (time x < n)) ++
        xs.filter fun x => decide (n ≤ time x) && decide (time x < m) := by
  induction xs with
  | nil => rfl
  | cons x xs ih =>
    obtain ⟨hx, hxs⟩ := List.pairwise_cons.mp h
    rcases Nat.lt_or_ge (time x) n with hlt | hge
    · have hlt' : time x < m := hlt.trans_le hnm
      simp only [List.filter_cons, hlt, hlt', not_le.mpr hlt, decide_true, decide_false, if_true,
        Bool.false_and, Bool.false_eq_true, if_false, ih hxs, List.cons_append]
    · -- nothing after `x` is before `n`
      have hnil : xs.filter (fun y => decide (time y < n)) = [] := by
        rw [List.filter_eq_nil_iff]
        intro y hy hlt
        exact absurd (hge.trans (hx y hy)) (not_le.mpr (of_decide_eq_true hlt))
      simp only [List.filter_cons, not_lt.mpr hge, hge, decide_true, decide_false, Bool.true_and,
        Bool.false_eq_true, if_false, ih hxs, hnil, List.nil_append]

end Ordered

/-! ## Logs with keys -/

section Keys

variable {κ : Type} [DecidableEq κ] {key : α → κ} {xs : List α}

/-- An entry is the only one with its key. -/
theorem filter_key_eq (h : (xs.map key).Nodup) {x : α} (hx : x ∈ xs) :
    xs.filter (fun y => key y == key x) = [x] := by
  induction xs with
  | nil => cases hx
  | cons y xs ih =>
    rw [List.map_cons, List.nodup_cons] at h
    rcases List.mem_cons.mp hx with rfl | hmem
    · rw [List.filter_cons_of_pos (by simp)]
      congr 1
      rw [List.filter_eq_nil_iff]
      intro z hz heq
      exact h.1 (beq_iff_eq.mp heq ▸ List.mem_map_of_mem hz)
    · rw [List.filter_cons_of_neg]
      · exact ih h.2 hmem
      · intro heq
        exact h.1 (beq_iff_eq.mp heq ▸ List.mem_map_of_mem hmem)

/-- Searching an ordered log for a key finds its entry. -/
theorem find?_key_eq {key : α → Nat} (h : xs.Pairwise fun x y => key x < key y) {x : α}
    (hx : x ∈ xs) : xs.find? (fun y => decide (key x ≤ key y)) = some x := by
  induction xs with
  | nil => cases hx
  | cons y xs ih =>
    obtain ⟨hy, hxs⟩ := List.pairwise_cons.mp h
    rcases List.mem_cons.mp hx with rfl | hmem
    · rw [List.find?_cons_of_pos (by simp)]
    · rw [List.find?_cons_of_neg]
      · exact ih hxs hmem
      · simpa using hy x hmem

end Keys

/-! ## Two logs side by side -/

section SideBySide

variable {β γ : Type} {R : α → β → Prop} {p : α → Bool} {q : β → Bool}

theorem forall₂_dropWhile (hpq : ∀ a b, R a b → p a = q b) {xs : List α} {ys : List β}
    (h : List.Forall₂ R xs ys) : List.Forall₂ R (xs.dropWhile p) (ys.dropWhile q) := by
  induction h with
  | nil => exact .nil
  | @cons a b xs ys hab htail ih =>
    cases hq : q b with
    | true =>
      rwa [List.dropWhile_cons_of_pos (by rw [hpq a b hab, hq]), List.dropWhile_cons_of_pos hq]
    | false =>
      rw [List.dropWhile_cons_of_neg (by simp [hpq a b hab, hq]),
        List.dropWhile_cons_of_neg (by simp [hq])]
      exact .cons hab htail

theorem forall₂_takeWhile (hpq : ∀ a b, R a b → p a = q b) {xs : List α} {ys : List β}
    (h : List.Forall₂ R xs ys) : List.Forall₂ R (xs.takeWhile p) (ys.takeWhile q) := by
  induction h with
  | nil => exact .nil
  | @cons a b xs ys hab htail ih =>
    cases hq : q b with
    | true =>
      rw [List.takeWhile_cons_of_pos (by rw [hpq a b hab, hq]), List.takeWhile_cons_of_pos hq]
      exact .cons hab ih
    | false =>
      rw [List.takeWhile_cons_of_neg (by simp [hpq a b hab, hq]),
        List.takeWhile_cons_of_neg (by simp [hq])]
      exact .nil

theorem forall₂_find? (hpq : ∀ a b, R a b → p a = q b) {xs : List α} {ys : List β}
    (h : List.Forall₂ R xs ys) {b : β} (hb : ys.find? q = some b) :
    ∃ a, xs.find? p = some a ∧ R a b := by
  induction h with
  | nil => cases hb
  | @cons a b' xs ys hab htail ih =>
    cases hq : q b' with
    | true =>
      rw [List.find?_cons_of_pos hq] at hb
      rw [List.find?_cons_of_pos (by rw [hpq a b' hab, hq])]
      exact ⟨a, rfl, Option.some.inj hb ▸ hab⟩
    | false =>
      rw [List.find?_cons_of_neg (by simp [hq])] at hb
      rw [List.find?_cons_of_neg (by simp [hpq a b' hab, hq])]
      exact ih hb

theorem map_eq_map_of_forall₂ {f : α → γ} {g : β → γ} {xs : List α} {ys : List β}
    (h : List.Forall₂ R xs ys) (hfg : ∀ a b, R a b → b ∈ ys → f a = g b) :
    xs.map f = ys.map g := by
  induction h with
  | nil => rfl
  | @cons a b xs ys hab htail ih =>
    rw [List.map_cons, List.map_cons, hfg a b hab List.mem_cons_self,
      ih fun a' b' h hb => hfg a' b' h (List.mem_cons_of_mem _ hb)]

end SideBySide

end CbpSim.Foundation
