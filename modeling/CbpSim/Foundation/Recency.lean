/-
  Foundation/Recency.lean --- the most recently used distinct elements of a
  history, and their update.

  A history is a list, newest first.  `recent n h` are its `n` most recently used
  distinct elements, most recent first; `touch n a` is what using `a` does to
  them.  A table that stores each element together with its RANK in this list
  updates it by counting up the ranks below the one touched: `touch_bump` is the
  fact that makes such in-place counters right.
-/
import Mathlib.Data.List.Nodup
import Mathlib.Tactic

set_option autoImplicit false

namespace CbpSim.Foundation.Recency

variable {α : Type} [DecidableEq α]

/-- The `n` most recently used distinct elements of a history. -/
def recent (n : Nat) (history : List α) : List α := history.eraseDups.take n

/-- Use `a`: it comes first, the rest keeps its order, and at most `n` remain. -/
def touch (n : Nat) (a : α) (l : List α) : List α := (a :: l.erase a).take n

/-! ## Removing duplicates -/

theorem eraseDups_filter (p : α → Bool) (l : List α) :
    (l.filter p).eraseDups = l.eraseDups.filter p := by
  induction hn : l.length using Nat.strong_induction_on generalizing l with
  | _ n ih =>
    cases l with
    | nil => simp
    | cons a l =>
      have hlt : (l.filter fun b => !b == a).length < n := by
        have := List.length_filter_le (fun b => !b == a) l
        simp only [List.length_cons] at hn
        omega
      have hrest := ih _ hlt (l.filter fun b => !b == a) rfl
      rw [List.eraseDups_cons]
      cases hp : p a with
      | true =>
        rw [List.filter_cons_of_pos hp, List.filter_cons_of_pos hp, List.eraseDups_cons,
          ← hrest, List.filter_filter, List.filter_filter]
        simp only [Bool.and_comm]
      | false =>
        rw [List.filter_cons_of_neg (by simp [hp]), List.filter_cons_of_neg (by simp [hp]),
          ← hrest, List.filter_filter]
        congr 1
        refine List.filter_congr ?_
        intro b _
        cases hb : p b with
        | false => simp
        | true =>
          have hne : b ≠ a := by
            rintro rfl
            rw [hp] at hb
            exact Bool.noConfusion hb
          simp [hne]

theorem nodup_eraseDups (l : List α) : l.eraseDups.Nodup := by
  induction l with
  | nil => simp
  | cons a l ih =>
    rw [List.eraseDups_cons, eraseDups_filter, List.nodup_cons]
    exact ⟨by simp, ih.filter _⟩

theorem eraseDups_cons_erase (a : α) (l : List α) :
    (a :: l).eraseDups = a :: l.eraseDups.erase a := by
  rw [List.eraseDups_cons, eraseDups_filter, (nodup_eraseDups l).erase_eq_filter]
  rfl

/-! ## Recency -/

@[simp] theorem recent_nil (n : Nat) : recent n ([] : List α) = [] := by simp [recent]

theorem recent_nodup (n : Nat) (h : List α) : (recent n h).Nodup :=
  (nodup_eraseDups h).sublist (List.take_sublist n _)

theorem take_erase_take (a : α) (l : List α) (n : Nat) :
    ((l.take (n + 1)).erase a).take n = (l.erase a).take n := by
  induction l generalizing n with
  | nil => simp
  | cons b l ih =>
    by_cases hb : b = a
    · subst hb; simp
    · rw [List.take_succ_cons, List.erase_cons_tail (by simpa using hb),
        List.erase_cons_tail (by simpa using hb)]
      cases n with
      | zero => simp
      | succ n => rw [List.take_succ_cons, List.take_succ_cons, ih n]

/-- One more use is one touch. -/
theorem recent_cons (n : Nat) (a : α) (h : List α) :
    recent n (a :: h) = touch n a (recent n h) := by
  unfold recent touch
  rw [eraseDups_cons_erase]
  cases n with
  | zero => simp
  | succ n => rw [List.take_succ_cons, List.take_succ_cons, take_erase_take]

/-- A sequence of touches, oldest first, is one longer history. -/
theorem foldl_touch_recent (n : Nat) (uses h : List α) :
    uses.foldl (fun l a => touch n a l) (recent n h) = recent n (uses.reverse ++ h) := by
  induction uses generalizing h with
  | nil => rfl
  | cons a uses ih =>
    rw [List.foldl_cons, ← recent_cons, ih, List.reverse_cons, List.append_assoc,
      List.singleton_append]

/-- Renaming the elements of a history, distinct ones apart, renames the recent
ones. -/
theorem recent_map {β : Type} [DecidableEq β] (n : Nat) (f : α → β) (h : List α)
    (hinj : ∀ a ∈ h, ∀ b ∈ h, f a = f b → a = b) :
    recent n (h.map f) = (recent n h).map f := by
  unfold recent
  rw [List.map_take]
  congr 1
  induction h with
  | nil => rfl
  | cons a h ih =>
    have hrest := ih fun a ha b hb =>
      hinj a (List.mem_cons_of_mem _ ha) b (List.mem_cons_of_mem _ hb)
    have hnodup : (h.eraseDups.map f).Nodup := hrest ▸ nodup_eraseDups (h.map f)
    rw [List.map_cons, eraseDups_cons_erase, eraseDups_cons_erase, hrest, List.map_cons]
    congr 1
    rw [(nodup_eraseDups h).erase_eq_filter, hnodup.erase_eq_filter, List.filter_map]
    congr 1
    refine List.filter_congr fun b hb => ?_
    have hb' : b ∈ h := List.mem_eraseDups.mp hb
    have hiff : f b = f a ↔ b = a :=
      ⟨hinj b (List.mem_cons_of_mem _ hb') a List.mem_cons_self, congrArg f⟩
    simp [bne, hiff, BEq.beq]

/-! ## Ranks -/

/-- The rank touched by a use of `a` in a table of `n` ranks: the one of `a`, or
the last one when `a` is not there. -/
def touched (n : Nat) (a : α) (l : List α) : Nat := if a ∈ l then l.idxOf a else n - 1

/-- The rank that an entry of rank `j` gets when rank `p` is touched. -/
def bump (p j : Nat) : Nat := if j < p then j + 1 else if j = p then 0 else j

theorem touched_lt {n : Nat} {a : α} {l : List α} (hlen : l.length ≤ n) (hn : 0 < n) :
    touched n a l < n := by
  unfold touched
  split
  · rename_i hmem
    exact lt_of_lt_of_le (List.idxOf_lt_length_of_mem hmem) hlen
  · omega

theorem bump_lt {n p j : Nat} (hp : p < n) (hj : j < n) : bump p j < n := by
  unfold bump
  split
  · omega
  · split <;> omega

theorem bump_injective (p : Nat) : Function.Injective (bump p) := by
  intro i j h
  unfold bump at h
  split at h <;> split at h <;> (try split at h) <;> (try split at h) <;> omega

/-- A list is what its ranks hold. -/
theorem filterMap_getElem?_range {β : Type} {l : List β} {n : Nat} (hlen : l.length ≤ n) :
    (List.range n).filterMap (fun k => l[k]?) = l := by
  induction l generalizing n with
  | nil => simp
  | cons b l ih =>
    obtain ⟨m, rfl⟩ : ∃ m, n = m + 1 := ⟨n - 1, by simp only [List.length_cons] at hlen; omega⟩
    rw [List.range_succ_eq_map, List.filterMap_cons, List.filterMap_map]
    have hrest := ih (n := m) (by simpa using hlen)
    simpa [Function.comp_def] using hrest

/-- Touching a rank permutes the ranks. -/
theorem range_map_bump {n p : Nat} (hp : p < n) :
    ((List.range n).map (bump p)).Perm (List.range n) := by
  have hnodup : ((List.range n).map (bump p)).Nodup :=
    List.Nodup.map (bump_injective p) List.nodup_range
  refine (List.subperm_of_subset hnodup ?_).perm_of_length_le (by simp)
  intro j hj
  obtain ⟨i, hi, rfl⟩ := List.mem_map.mp hj
  exact List.mem_range.mpr (bump_lt hp (List.mem_range.mp hi))

/-- An entry other than the one touched keeps its element under its new rank;
the entry touched now carries `a`. -/
theorem touch_bump {n : Nat} {a : α} {l : List α} (hlen : l.length ≤ n) {j : Nat} (hj : j < n) :
    (touch n a l)[bump (touched n a l) j]? =
      if j = touched n a l then some a else l[j]? := by
  unfold touch touched bump
  by_cases hmem : a ∈ l
  · have hidx : l.idxOf a < l.length := List.idxOf_lt_length_of_mem hmem
    have herase : l.erase a = l.eraseIdx (l.idxOf a) := List.erase_eq_eraseIdx_of_idxOf rfl
    have htake : (a :: l.erase a).take n = a :: l.eraseIdx (l.idxOf a) := by
      rw [herase, List.take_of_length_le]
      rw [List.length_cons, List.length_eraseIdx_of_lt hidx]
      omega
    simp only [hmem, if_true, htake]
    rcases Nat.lt_trichotomy j (l.idxOf a) with hlt | heq | hgt
    · simp only [hlt, if_true, List.getElem?_cons_succ, List.getElem?_eraseIdx_of_lt hlt]
      rw [if_neg (by omega)]
    · simp [heq]
    · obtain ⟨i, rfl⟩ : ∃ i, j = i + 1 := ⟨j - 1, by omega⟩
      have hne : ¬ i + 1 < l.idxOf a := by omega
      have hne' : ¬ i + 1 = l.idxOf a := by omega
      simp only [hne, hne', if_false, List.getElem?_cons_succ]
      exact List.getElem?_eraseIdx_of_ge (by omega)
  · simp only [hmem, if_false, List.erase_of_not_mem hmem]
    by_cases hlast : j = n - 1
    · simp only [hlast, if_false, if_true, lt_irrefl]
      rw [List.getElem?_take_of_lt (by omega), List.getElem?_cons_zero]
    · have hlt : j < n - 1 := by omega
      simp only [hlt, hlast, if_true, if_false]
      rw [List.getElem?_take_of_lt (by omega), List.getElem?_cons_succ]

end CbpSim.Foundation.Recency
