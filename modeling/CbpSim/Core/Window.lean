/-
  Core/Window.lean --- the window holds what has not retired.

  The evaluation of a cycle takes from the front of the window, and the other
  stages leave the window alone.  Since retire cycles never decrease, the window is
  exactly the instructions whose retire cycle is not evaluated yet, whatever the
  configuration.
-/
import CbpSim.Core.Simulation
import CbpSim.Foundation.Log

set_option autoImplicit false

namespace CbpSim.Core

open CbpSim.Foundation

variable {P H : Type}

/-- The program stopped in a hook. -/
def InHook : Stop H → Prop
  | .hook _ => True
  | .abort _ => False

/-- The program did not stop at an assert of `step` about the window. -/
def OffWindow (e : Stop H) : Prop := e ≠ .abort .stepWindowSize ∧ e ≠ .abort .stepFrontRetire

theorem InHook.offWindow {e : Stop H} (h : InHook e) : OffWindow e := by
  cases e with
  | hook r => exact ⟨by simp, by simp⟩
  | abort site => exact absurd h id

theorem offWindow_of_elsewhere {e : Abort} (h : Elsewhere e) :
    OffWindow (.abort e : Stop H) := by
  constructor
  · rintro ⟨⟩
    cases h
  · rintro ⟨⟩
    cases h

namespace Pipeline

/-! ## What the stages leave alone -/

/-- From `p` to `p'` the notifications `events` were delivered, and nothing else. -/
def Tells (p : Pipeline P) (events : List Event) (p' : Pipeline P) : Prop :=
  ∃ hooks, p' = { p with hooks := hooks, events := p.events ++ events }

theorem Tells.refl (p : Pipeline P) : p.Tells [] p := ⟨p.hooks, by rw [List.append_nil]⟩

theorem Tells.trans {p q r : Pipeline P} {es es' : List Event} (h : p.Tells es q)
    (h' : q.Tells es' r) : p.Tells (es ++ es') r := by
  obtain ⟨_, rfl⟩ := h
  obtain ⟨hooks, rfl⟩ := h'
  exact ⟨hooks, by rw [← List.append_assoc]⟩

theorem Tells.window {p p' : Pipeline P} {es : List Event} (h : p.Tells es p') :
    p'.window = p.window := by
  obtain ⟨_, rfl⟩ := h
  rfl

/-- The notification that an entry of the window gets. -/
def notice (stage : Stage) (cycle : Nat) (w : WindowEntry) : Event where
  stage := stage
  seqNo := w.seqNo
  piece := w.piece
  pc := w.pc
  cycle := cycle

theorem tells_deliver (p : Pipeline P) (hooks : P) (stage : Stage) (w : WindowEntry)
    (cycle : Nat) : p.Tells [notice stage cycle w] (p.deliver hooks stage w cycle) :=
  ⟨hooks, rfl⟩

/-- Only notifications were delivered between `p` and `p'`. -/
def OnlyTells (p p' : Pipeline P) : Prop := ∃ events, p.Tells events p'

theorem OnlyTells.refl (p : Pipeline P) : p.OnlyTells p := ⟨[], Tells.refl p⟩

theorem OnlyTells.trans {p q r : Pipeline P} (h : p.OnlyTells q) (h' : q.OnlyTells r) :
    p.OnlyTells r := by
  obtain ⟨es, h⟩ := h
  obtain ⟨es', h'⟩ := h'
  exact ⟨es ++ es', h.trans h'⟩

theorem onlyTells_deliver (p : Pipeline P) (hooks : P) (stage : Stage) (w : WindowEntry)
    (cycle : Nat) : p.OnlyTells (p.deliver hooks stage w cycle) :=
  ⟨_, tells_deliver p hooks stage w cycle⟩

section Stages

variable {hk : Hooks P H} {cycle : Nat}

theorem locateEntryInWindow_ends (p : Pipeline P) (seqNo piece : Nat) :
    Ends (lift (H := H) (p.locateEntryInWindow seqNo piece)) OffWindow fun _ => True := by
  apply ends_mapError.mpr
  unfold locateEntryInWindow
  split
  · apply Ends.ite
    · intro _
      trivial
    · intro _
      exact ⟨by simp, by simp⟩
  · exact ⟨by simp, by simp⟩

theorem call_ends {α : Type} (x : Except H α) : Ends (call x) InHook fun _ => True :=
  ends_mapError.mpr (Ends.of_any fun _ => trivial)

theorem call_offWindow {α : Type} (x : Except H α) : Ends (call x) OffWindow fun _ => True :=
  (call_ends x).mono (fun _ => InHook.offWindow) fun _ h => h

theorem notifyDecode_ends (q : QueueEntry) (p : Pipeline P) :
    Ends (notifyDecode hk cycle q p) OffWindow p.OnlyTells := by
  unfold notifyDecode
  apply Ends.bind (locateEntryInWindow_ends _ _ _)
  intro w _
  apply Ends.ite
  · intro _
    exact ⟨by simp, by simp⟩
  · intro _
    apply Ends.bind (call_offWindow _)
    intro hooks _
    exact onlyTells_deliver _ _ _ _ _

theorem notifyAgen_ends (q : QueueEntry) (p : Pipeline P) :
    Ends (notifyAgen hk cycle q p) OffWindow p.OnlyTells := by
  unfold notifyAgen
  apply Ends.bind (locateEntryInWindow_ends _ _ _)
  intro w _
  apply Ends.ite
  · intro _
    exact ⟨by simp, by simp⟩
  · intro _
    apply Ends.ite
    · intro _
      exact ⟨by simp, by simp⟩
    · intro _
      apply Ends.ite
      · intro _
        exact ⟨by simp, by simp⟩
      · intro _
        split
        · apply Ends.bind (call_offWindow _)
          intro hooks _
          exact onlyTells_deliver _ _ _ _ _
        · exact ⟨by simp, by simp⟩

theorem notifyExecute_ends (q : QueueEntry) (p : Pipeline P) :
    Ends (notifyExecute hk cycle q p) OffWindow p.OnlyTells := by
  unfold notifyExecute
  apply Ends.bind (locateEntryInWindow_ends _ _ _)
  intro w _
  apply Ends.ite
  · intro _
    exact ⟨by simp, by simp⟩
  · intro _
    apply Ends.bind (call_offWindow _)
    intro hooks _
    exact onlyTells_deliver _ _ _ _ _

/-- The loop of `eval_decode`, in any pipeline. -/
theorem evalDecodeLoop_frame (queue : List QueueEntry) (p : Pipeline P) :
    Ends (evalDecodeLoop hk cycle queue p) OffWindow fun x => p.OnlyTells x.2 := by
  induction queue generalizing p with
  | nil => exact OnlyTells.refl p
  | cons q queue ih =>
    rw [evalDecodeLoop]
    apply Ends.ite
    · intro _
      exact ⟨by simp, by simp⟩
    · intro _
      apply Ends.ite
      · intro _
        apply Ends.bind (notifyDecode_ends q p)
        intro p' hp'
        exact (ih p').imp fun _ => hp'.trans
      · intro _
        exact OnlyTells.refl p

/-- The loop of the other two queues, in any pipeline. -/
theorem evalQueue_frame {notify : QueueEntry → Pipeline P → Except (Stop H) (Pipeline P)}
    {late : Abort} (hlate : OffWindow (.abort late : Stop H))
    (hnotify : ∀ q p, Ends (notify q p) OffWindow p.OnlyTells) (queue : List QueueEntry)
    (p : Pipeline P) :
    Ends (evalQueue notify late cycle queue p) OffWindow fun x => p.OnlyTells x.2 := by
  induction queue generalizing p with
  | nil => exact OnlyTells.refl p
  | cons q queue ih =>
    rw [evalQueue]
    apply Ends.ite
    · intro _
      exact hlate
    · intro _
      apply Ends.ite
      · intro _
        apply Ends.bind (hnotify q p)
        intro p' hp'
        exact (ih p').imp fun _ => hp'.trans
      · intro _
        apply Ends.bind (ih p)
        intro x hx
        exact hx

end Stages

/-! ## Retirement -/

/-- The entry is to retire in the cycle, or before. -/
def retires (cycle : Nat) (w : WindowEntry) : Bool := decide (w.retireCycle ≤ cycle)

/-- The loop of `eval_retire` commits the front of the window. -/
theorem evalRetireLoop_ends (cfg : Config) (hk : Hooks P H) (cycle : Nat)
    (window : List WindowEntry) (p : Pipeline P) :
    Ends (evalRetireLoop cfg hk cycle window p) InHook fun x =>
      x.1 = window.dropWhile (retires cycle) ∧
      p.Tells ((window.takeWhile (retires cycle)).map (notice .commit cycle)) x.2 := by
  induction window generalizing p with
  | nil => exact ⟨rfl, Tells.refl p⟩
  | cons w window ih =>
    rw [evalRetireLoop]
    apply Ends.ite
    · intro hretires
      have hw : retires cycle w = true := decide_eq_true hretires
      rw [List.dropWhile_cons_of_pos hw, List.takeWhile_cons_of_pos hw]
      apply Ends.bind (Q := p.Tells [notice .commit cycle w])
      · unfold notifyCommit
        apply Ends.bind (call_ends _)
        intro hooks _
        apply Ends.bind (Q := fun _ => True)
        · apply Ends.ite
          · intro _
            exact call_ends _
          · intro _
            trivial
        · intro hooks' _
          exact tells_deliver _ _ _ _ _
      · intro p' hp'
        apply (ih p').imp
        rintro x ⟨hrest, hx⟩
        exact ⟨hrest, hp'.trans hx⟩
    · intro hlater
      have hw : ¬ retires cycle w = true := by simpa [retires] using hlater
      rw [List.dropWhile_cons_of_neg hw, List.takeWhile_cons_of_neg hw]
      exact ⟨rfl, Tells.refl p⟩

/-- A cycle takes from the window what retires, and fails no assert about it. -/
theorem evalCycle_window (cfg : Config) (hk : Hooks P H) (cycle : Nat) (p : Pipeline P) :
    Ends (p.evalCycle cfg hk cycle) OffWindow fun p' =>
      p'.window = p.window.dropWhile (retires cycle) ∧ p'.evaluated = cycle + 1 := by
  unfold evalCycle
  apply Ends.bind (Q := fun p' => p'.window = p.window)
  · apply Ends.bind (evalDecodeLoop_frame p.DQ p)
    rintro ⟨queue, _⟩ ⟨events, hooks, rfl⟩
    rfl
  intro p₁ h₁
  apply Ends.bind (Q := fun p' => p'.window = p.window)
  · apply Ends.bind (evalQueue_frame ⟨by simp, by simp⟩ notifyAgen_ends p₁.AQ p₁)
    rintro ⟨queue, _⟩ ⟨events, hooks, rfl⟩
    exact h₁
  intro p₂ h₂
  apply Ends.bind (Q := fun p' => p'.window = p.window)
  · apply Ends.bind (evalQueue_frame ⟨by simp, by simp⟩ notifyExecute_ends p₂.EQ p₂)
    rintro ⟨queue, _⟩ ⟨events, hooks, rfl⟩
    exact h₂
  intro p₃ h₃
  apply Ends.bind (Q := fun p' => p'.window = p.window.dropWhile (retires cycle))
  · apply Ends.bind ((evalRetireLoop_ends cfg hk cycle p₃.window p₃).mono
      (fun _ => InHook.offWindow) fun _ h => h)
    rintro ⟨rest, _⟩ ⟨rfl, _⟩
    rw [← h₃]
    rfl
  intro p₄ h₄
  exact ⟨h₄, rfl⟩

end Pipeline

/-! ## The invariant of the window -/

/-- The retire cycle is not among the first `n` cycles. -/
def unretired (n : Nat) (x : Fetched P) : Bool := decide (n ≤ x.retireCycle)

/-- The window holds, in program order, the instructions of `L` whose retire cycle is
not evaluated; the retire cycles do not decrease. -/
structure InWindow (L : List (Fetched P)) (p : Pipeline P) : Prop where
  window : List.Forall₂ Describes p.window (L.filter (unretired p.evaluated))
  ordered : L.Pairwise fun x y => x.retireCycle ≤ y.retireCycle

theorem Describes.retires_eq {w : WindowEntry} {x : Fetched P} (h : Describes w x) (cycle : Nat) :
    Pipeline.retires cycle w = !unretired (cycle + 1) x := by
  rw [Pipeline.retires, unretired, h.retireCycle, ← decide_not]
  exact decide_eq_decide.mpr not_lt.symm

namespace InWindow

variable {L : List (Fetched P)} {p p' : Pipeline P} {cycle : Nat}

theorem ordered_unretired (h : InWindow L p) (n cycle : Nat) :
    (L.filter (unretired n)).Pairwise fun x y =>
      (!unretired (cycle + 1) y) = true → (!unretired (cycle + 1) x) = true := by
  apply (h.ordered.sublist List.filter_sublist).imp
  intro x y hxy hy
  simp only [unretired, Bool.not_eq_true', decide_eq_false_iff_not, not_le] at hy ⊢
  exact hxy.trans_lt hy

/-- A cycle takes what retires in it. -/
theorem evalCycle (h : InWindow L p) (hnext : p.evaluated ≤ cycle + 1)
    (hwindow : p'.window = p.window.dropWhile (Pipeline.retires cycle))
    (hevaluated : p'.evaluated = cycle + 1) : InWindow L p' where
  window := by
    have hdrop := forall₂_dropWhile (p := Pipeline.retires cycle)
      (q := fun x : Fetched P => !unretired (cycle + 1) x)
      (fun w x hwx => hwx.retires_eq cycle) h.window
    rw [dropWhile_eq_filter (h.ordered_unretired p.evaluated cycle), List.filter_filter] at hdrop
    rw [hwindow, hevaluated]
    convert hdrop using 2
    funext x
    simp only [unretired, Bool.not_not]
    rw [← Bool.decide_and]
    exact decide_eq_decide.mpr ⟨fun hx => ⟨hx, hnext.trans hx⟩, And.left⟩
  ordered := h.ordered

theorem length_eq (h : InWindow L p) :
    p.window.length = (L.filter (unretired p.evaluated)).length :=
  h.window.length_eq

/-- The retire cycles in the window. -/
theorem retireCycles_eq (h : InWindow L p) :
    p.window.map (·.retireCycle) = (L.filter (unretired p.evaluated)).map (·.retireCycle) :=
  map_eq_map_of_forall₂ h.window fun _ _ hwx _ => hwx.retireCycle

/-- What is in the window retires after the cycles evaluated. -/
theorem evaluated_le (h : InWindow L p) {w : WindowEntry} (hw : w ∈ p.window) :
    p.evaluated ≤ w.retireCycle := by
  have hmem : w.retireCycle ∈ p.window.map (·.retireCycle) := List.mem_map_of_mem hw
  rw [h.retireCycles_eq] at hmem
  obtain ⟨x, hx, heq⟩ := List.mem_map.mp hmem
  rw [← heq]
  exact of_decide_eq_true (List.mem_filter.mp hx).2

/-- The youngest instruction in the window retires last. -/
theorem retire_le_back (h : InWindow L p) {x : Fetched P} (hx : x ∈ L)
    (hlater : p.evaluated ≤ x.retireCycle) : x.retireCycle ≤ p.backRetire := by
  have hmem : x ∈ L.filter (unretired p.evaluated) :=
    List.mem_filter.mpr ⟨hx, decide_eq_true hlater⟩
  obtain ⟨front, y, heq⟩ := List.eq_nil_or_concat' _ |>.resolve_left (List.ne_nil_of_mem hmem)
  have hback : p.backRetire = y.retireCycle := by
    rw [Pipeline.backRetire, ← List.getLast?_map, h.retireCycles_eq, heq]
    simp
  have hordered := h.ordered.sublist (List.filter_sublist (p := unretired p.evaluated))
  rw [heq] at hmem hordered
  rw [hback]
  rcases List.mem_append.mp hmem with hfront | hlast
  · exact (List.pairwise_append.mp hordered).2.2 x hfront y (List.mem_singleton_self y)
  · rw [List.mem_singleton.mp hlast]

/-- An instruction is dispatched that executes after the cycles evaluated. -/
theorem dispatch (h : InWindow L p) {x : Fetched P} {w : WindowEntry} (hwx : Describes w x)
    (hlater : p.evaluated ≤ x.execCycle) (hretire : x.retireCycle = max x.execCycle p.backRetire)
    (hwindow : p'.window = p.window ++ [w]) (hevaluated : p'.evaluated = p.evaluated) :
    InWindow (L ++ [x]) p' where
  window := by
    have hx : unretired p.evaluated x = true := by
      apply decide_eq_true
      rw [hretire]
      exact hlater.trans (le_max_left _ _)
    rw [hwindow, hevaluated, List.filter_append, List.filter_cons_of_pos hx, List.filter_nil]
    exact List.rel_append h.window (.cons hwx .nil)
  ordered := by
    refine List.pairwise_append.mpr ⟨h.ordered, List.pairwise_singleton _ _, ?_⟩
    intro y hy z hz
    rw [List.mem_singleton.mp hz, hretire]
    rcases Nat.lt_or_ge y.retireCycle p.evaluated with hretired | hlate
    · exact (hretired.le.trans hlater).trans (le_max_left _ _)
    · exact (h.retire_le_back hy hlate).trans (le_max_right _ _)

end InWindow

end CbpSim.Core
