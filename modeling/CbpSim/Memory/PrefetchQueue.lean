/-
  Memory/PrefetchQueue.lean --- the queue of prefetches over whole runs.

  Source: src/lib/stride_prefetcher.h, `generate`, `issue` and `put_back`.

  A prefetch enters at the back, before a sort, and leaves at the front: issued
  or, past its deadline, dropped.  `put_back` returns it to the front.
-/
import Mathlib.Data.List.TakeWhile
import CbpSim.Foundation.Outcome
import CbpSim.Memory.Prefetcher

set_option autoImplicit false

namespace CbpSim.Memory

open CbpSim.Foundation

/-! ## The order of the queue -/

instance : Std.Total Prefetch.older where
  total p q := by
    rcases Nat.lt_trichotomy p.cycleGenerated q.cycleGenerated with h | h | h
    · exact Or.inl (Or.inl h)
    · exact (Nat.le_total p.address q.address).imp (fun ha => Or.inr ⟨h, ha⟩)
        fun ha => Or.inr ⟨h.symm, ha⟩
    · exact Or.inr (Or.inl h)

instance : IsTrans Prefetch Prefetch.older where
  trans p q r hpq hqr := by
    unfold Prefetch.older at *
    omega

theorem Prefetch.older.le {p q : Prefetch} (h : p.older q) : p.cycleGenerated ≤ q.cycleGenerated := by
  rcases h with h | ⟨h, -⟩
  · exact h.le
  · exact h.le

namespace StridePrefetcher

/-! ## The operations -/

/-- The prefetch that `generate` makes of an entry. -/
def request (e : RptEntry) (cycle : Nat) : Prefetch where
  address := (e.currentAddress + e.stride * prefetchMultiplier) % 2 ^ 64
  cycleGenerated := cycle

/-- The queue holds a prefetch of the line of `pf`. -/
def Pending (p : StridePrefetcher) (pf : Prefetch) : Prop := ∃ q ∈ p.queue, q.line = pf.line

instance (p : StridePrefetcher) (pf : Prefetch) : Decidable (p.Pending pf) :=
  inferInstanceAs (Decidable (∃ q ∈ p.queue, q.line = pf.line))

/-- `generate` of a moving entry. -/
theorem generate_eq (p : StridePrefetcher) {e : RptEntry} (he : e.stride ≠ 0) (cycle : Nat) :
    p.generate e cycle =
      if p.Pending (request e cycle) then
        { p with statDuplicatePfFiltered := p.statDuplicatePfFiltered + 1 }
      else
        { p with
          queue := (p.queue ++ [request e cycle]).insertionSort Prefetch.older
          statGenerated := p.statGenerated + 1 } := by
  have hiff : (p.queue.any fun q => q.line == (request e cycle).line) = true ↔
      p.Pending (request e cycle) := by
    simp only [List.any_eq_true, beq_iff_eq, Pending]
  rw [generate, if_neg he]
  exact if_congr hiff rfl rfl

/-- A lookahead queues the prefetch of a steady, moving entry whose line is not
pending; else it touches no more than two counters. -/
theorem lookahead_cases (p : StridePrefetcher) (pc cycle : Nat) :
    (∃ filtered still, p.lookahead pc cycle =
        { p with statDuplicatePfFiltered := filtered, statStrideZero := still }) ∨
      ∃ e, p.findTag pc = some e ∧ e.state = .steadyState ∧ e.stride ≠ 0 ∧
        ¬ p.Pending (request e cycle) ∧
        p.lookahead pc cycle =
          { p with
            queue := (p.queue ++ [request e cycle]).insertionSort Prefetch.older
            statGenerated := p.statGenerated + 1 } := by
  unfold lookahead
  split
  case h_1 hfind => exact Or.inl ⟨_, _, rfl⟩
  case h_2 e hfind =>
    split
    case isFalse hstate => exact Or.inl ⟨_, _, rfl⟩
    case isTrue hstate =>
      by_cases hstride : e.stride = 0
      · rw [generate, if_pos hstride]
        exact Or.inl ⟨_, _, rfl⟩
      · rw [generate_eq p hstride]
        by_cases hpending : p.Pending (request e cycle)
        · rw [if_pos hpending]
          exact Or.inl ⟨_, _, rfl⟩
        · rw [if_neg hpending]
          exact Or.inr ⟨e, hfind, hstate, hstride, hpending, rfl⟩

/-- `issue` drops the untimely prefetches at the front; then it takes the next one
out, or leaves it because it is not generated yet. -/
theorem issue_cases (p : StridePrefetcher) (cycle : Nat) :
    ∃ untimely rest, p.queue = untimely ++ rest ∧
      (∀ q ∈ untimely, q.cycleGenerated + pfMustIssueBeforeCycles < cycle) ∧
      ((∀ pf ∈ rest.head?, cycle < pf.cycleGenerated) ∧ p.issue cycle = (none, { p with
          queue := rest
          statDroppedUntimelyPf := p.statDroppedUntimelyPf + untimely.length }) ∨
        ∃ pf queue, rest = pf :: queue ∧
          pf.cycleGenerated ≤ cycle ∧ cycle ≤ pf.cycleGenerated + pfMustIssueBeforeCycles ∧
          p.issue cycle = (some pf, { p with
            queue := queue
            statDroppedUntimelyPf := p.statDroppedUntimelyPf + untimely.length
            statIssued := p.statIssued + 1 })) := by
  refine ⟨_, _, (List.takeWhile_append_dropWhile
    (p := fun q => decide (q.cycleGenerated + pfMustIssueBeforeCycles < cycle))).symm, ?_, ?_⟩
  · intro q hq
    have huntimely := List.mem_takeWhile_imp hq
    exact of_decide_eq_true huntimely
  · unfold issue
    dsimp only
    split
    case h_1 hdrop =>
      rw [hdrop]
      exact Or.inl ⟨fun pf hpf => by simp at hpf, rfl⟩
    case h_2 q queue hdrop =>
      have htimely := List.head?_dropWhile_not
        (fun q : Prefetch => decide (q.cycleGenerated + pfMustIssueBeforeCycles < cycle)) p.queue
      rw [hdrop] at htimely
      simp only [List.head?_cons, decide_eq_false_iff_not, not_lt] at htimely
      split
      case isTrue hgen => exact Or.inr ⟨q, queue, hdrop, hgen, htimely, rfl⟩
      case isFalse hgen =>
        refine Or.inl ⟨fun pf hpf => ?_, rfl⟩
        rw [hdrop] at hpf
        obtain rfl : q = pf := Option.some.inj hpf
        exact not_le.mp hgen

theorem train_queue {p q : StridePrefetcher} {pc address : Nat} (h : p.train pc address = .ok q) :
    q.queue = p.queue ∧ q.statGenerated = p.statGenerated ∧ q.statIssued = p.statIssued ∧
      q.statDroppedUntimelyPf = p.statDroppedUntimelyPf ∧ q.statPutBack = p.statPutBack := by
  unfold train at h
  split at h
  · obtain ⟨victim, -, h⟩ := bind_eq_ok.mp h
    cases h
    exact ⟨rfl, rfl, rfl, rfl, rfl⟩
  · obtain ⟨e, -, h⟩ := bind_eq_ok.mp h
    dsimp only at h
    split at h
    · cases h
      exact ⟨rfl, rfl, rfl, rfl, rfl⟩
    · cases h
      exact ⟨rfl, rfl, rfl, rfl, rfl⟩

end StridePrefetcher

/-! ## Calls and runs -/

/-- A call on the prefetcher. -/
inductive PrefetchCall where
  | train (pc address : Nat)
  | lookahead (pc cycle : Nat)
  | issue (cycle : Nat)
  | putBack (pf : Prefetch)
  deriving DecidableEq, Repr

namespace StridePrefetcher

/-- One call. -/
def call (p : StridePrefetcher) : PrefetchCall → Except Abort StridePrefetcher
  | .train pc address => p.train pc address
  | .lookahead pc cycle => .ok (p.lookahead pc cycle)
  | .issue cycle => .ok (p.issue cycle).2
  | .putBack pf => .ok (p.putBack pf)

end StridePrefetcher

/-- A prefetcher together with the prefetch that its last call issued, if that
call was an `issue`. -/
structure Watched where
  prefetcher : StridePrefetcher
  issued : Option Prefetch

namespace Watched

/-- A prefetcher just constructed. -/
def new : Watched := ⟨.new, none⟩

/-- One call. -/
def call (w : Watched) (c : PrefetchCall) : Except Abort Watched := do
  let p ← w.prefetcher.call c
  .ok ⟨p, match c with
    | .issue cycle => (w.prefetcher.issue cycle).1
    | _ => none⟩

/-- Only the prefetch just issued is put back. -/
def ReturnsIssued (w : Watched) : PrefetchCall → Prop
  | .putBack pf => w.issued = some pf
  | _ => True

instance (w : Watched) (c : PrefetchCall) : Decidable (w.ReturnsIssued c) :=
  match c with
  | .putBack pf => inferInstanceAs (Decidable (w.issued = some pf))
  | .train _ _ => .isTrue trivial
  | .lookahead _ _ => .isTrue trivial
  | .issue _ => .isTrue trivial

end Watched

/-! ## Order, lines and accounts -/

namespace StridePrefetcher

/-- The queue is sorted, its lines are different, and every prefetch generated is
issued for good, dropped or queued. -/
structure Disciplined (p : StridePrefetcher) : Prop where
  sorted : p.queue.Pairwise Prefetch.older
  lines : p.queue.Pairwise fun q r => q.line ≠ r.line
  returned : p.statPutBack ≤ p.statIssued
  accounted : p.statGenerated =
    p.statIssued - p.statPutBack + p.statDroppedUntimelyPf + p.queue.length

theorem disciplined_new : Disciplined new where
  sorted := List.Pairwise.nil
  lines := List.Pairwise.nil
  returned := le_rfl
  accounted := rfl

theorem Disciplined.train {p q : StridePrefetcher} (h : p.Disciplined) {pc address : Nat}
    (hok : p.train pc address = .ok q) : q.Disciplined := by
  obtain ⟨hqueue, hgenerated, hissued, hdropped, hback⟩ := train_queue hok
  exact {
    sorted := by rw [hqueue]; exact h.sorted
    lines := by rw [hqueue]; exact h.lines
    returned := by rw [hback, hissued]; exact h.returned
    accounted := by rw [hqueue, hgenerated, hissued, hdropped, hback]; exact h.accounted }

theorem Disciplined.lookahead {p : StridePrefetcher} (h : p.Disciplined) (pc cycle : Nat) :
    (p.lookahead pc cycle).Disciplined := by
  rcases p.lookahead_cases pc cycle with ⟨_, _, heq⟩ | ⟨e, -, -, -, hpending, heq⟩
  · rw [heq]
    exact ⟨h.sorted, h.lines, h.returned, h.accounted⟩
  · rw [heq]
    have hperm := List.perm_insertionSort Prefetch.older (p.queue ++ [request e cycle])
    refine ⟨List.pairwise_insertionSort _ _, ?_, h.returned, ?_⟩
    · refine (hperm.pairwise_iff fun hne => Ne.symm hne).mpr ?_
      refine List.pairwise_append.mpr ⟨h.lines, List.pairwise_singleton _ _, ?_⟩
      intro q hq r hr hline
      obtain rfl := List.mem_singleton.mp hr
      exact hpending ⟨q, hq, hline⟩
    · have haccounted := h.accounted
      simp only [hperm.length_eq, List.length_append, List.length_singleton]
      omega

/-- After an `issue` the prefetch taken out is before every one left, on a line of
its own, and may be put back. -/
theorem Disciplined.issue {p : StridePrefetcher} (h : p.Disciplined) (cycle : Nat) :
    (p.issue cycle).2.Disciplined ∧
      ∀ pf, (p.issue cycle).1 = some pf → ((p.issue cycle).2.putBack pf).Disciplined := by
  obtain ⟨untimely, rest, hqueue, -, hissue⟩ := p.issue_cases cycle
  have hsorted := h.sorted
  have hlines := h.lines
  have haccounted := h.accounted
  have hreturned := h.returned
  rw [hqueue] at hsorted hlines haccounted
  have hsorted := (List.pairwise_append.mp hsorted).2.1
  have hlines := (List.pairwise_append.mp hlines).2.1
  rw [List.length_append] at haccounted
  rcases hissue with ⟨-, heq⟩ | ⟨pf, queue, hrest, -, -, heq⟩
  · rw [heq]
    refine ⟨⟨hsorted, hlines, hreturned, ?_⟩, fun pf hpf => by cases hpf⟩
    show p.statGenerated = p.statIssued - p.statPutBack +
      (p.statDroppedUntimelyPf + untimely.length) + rest.length
    omega
  · rw [heq]
    subst hrest
    rw [List.length_cons] at haccounted
    refine ⟨⟨hsorted.of_cons, hlines.of_cons, ?_, ?_⟩, ?_⟩
    · show p.statPutBack ≤ p.statIssued + 1
      omega
    · show p.statGenerated = p.statIssued + 1 - p.statPutBack +
        (p.statDroppedUntimelyPf + untimely.length) + queue.length
      omega
    · intro pf' hpf'
      obtain rfl : pf = pf' := Option.some.inj hpf'
      refine ⟨hsorted, hlines, ?_, ?_⟩
      · show p.statPutBack + 1 ≤ p.statIssued + 1
        omega
      · show p.statGenerated = p.statIssued + 1 - (p.statPutBack + 1) +
          (p.statDroppedUntimelyPf + untimely.length) + (queue.length + 1)
        omega

end StridePrefetcher

/-- The invariant of a run that puts back only what was just issued. -/
structure Watched.Sound (w : Watched) : Prop where
  disciplined : w.prefetcher.Disciplined
  returnable : ∀ pf, w.issued = some pf → (w.prefetcher.putBack pf).Disciplined

theorem Watched.Sound.call {w w' : Watched} (h : w.Sound) {c : PrefetchCall}
    (hback : w.ReturnsIssued c) (hok : w.call c = .ok w') : w'.Sound := by
  obtain ⟨p, hp, hok⟩ := bind_eq_ok.mp hok
  cases hok
  cases c with
  | train pc address => exact ⟨h.disciplined.train hp, fun pf hpf => by cases hpf⟩
  | lookahead pc cycle =>
    cases hp
    exact ⟨h.disciplined.lookahead pc cycle, fun pf hpf => by cases hpf⟩
  | issue cycle =>
    cases hp
    exact ⟨(h.disciplined.issue cycle).1, (h.disciplined.issue cycle).2⟩
  | putBack pf =>
    cases hp
    exact ⟨h.returnable pf hback, fun pf hpf => by cases hpf⟩

/-- **No prefetch is lost or duplicated.**  In every run of calls that puts back
only what was just issued, the queue is sorted by cycle and address, its lines are
different, what is issued keeps its deadline, and the accounts add up. -/
theorem queue_disciplined {calls : List PrefetchCall} {w : Watched}
    (hback : EveryStep Watched.call .new calls Watched.ReturnsIssued)
    (hrun : Run Watched.call .new calls w) :
    w.prefetcher.queue.Pairwise Prefetch.older ∧
      w.prefetcher.queue.Pairwise (fun q r => q.line ≠ r.line) ∧
      (∀ cycle pf, (w.prefetcher.issue cycle).1 = some pf →
        pf.cycleGenerated ≤ cycle ∧ cycle ≤ pf.cycleGenerated + pfMustIssueBeforeCycles) ∧
      w.prefetcher.statPutBack ≤ w.prefetcher.statIssued ∧
      w.prefetcher.statGenerated = w.prefetcher.statIssued - w.prefetcher.statPutBack +
        w.prefetcher.statDroppedUntimelyPf + w.prefetcher.queue.length := by
  have hsound : w.Sound := hrun.induct_of_every hback
    ⟨StridePrefetcher.disciplined_new, fun pf hpf => by cases hpf⟩
    fun _ _ _ h hfit hok => h.call hfit hok
  refine ⟨hsound.disciplined.sorted, hsound.disciplined.lines, ?_,
    hsound.disciplined.returned, hsound.disciplined.accounted⟩
  intro cycle pf hpf
  obtain ⟨_, _, -, -, ⟨-, heq⟩ | ⟨pf', _, -, hgenerated, hdeadline, heq⟩⟩ :=
    w.prefetcher.issue_cases cycle
  · rw [heq] at hpf
    cases hpf
  · rw [heq] at hpf
    obtain rfl : pf' = pf := Option.some.inj hpf
    exact ⟨hgenerated, hdeadline⟩

/-- Three loads with a stride of one line and a lookahead that queues the next line
but one: it is issued at cycle 7, put back, and dropped at cycle 14. -/
def returnedCalls : List PrefetchCall :=
  [.train 1 0, .train 1 64, .train 1 128, .lookahead 1 5, .issue 7, .putBack ⟨256, 5⟩, .issue 14]

/-- In the run of `returnedCalls` the one prefetch is dropped. -/
theorem queue_disciplined_returned :
    ∃ w, Run Watched.call .new returnedCalls w ∧
      w.prefetcher.statGenerated = 1 ∧ w.prefetcher.statDroppedUntimelyPf = 1 ∧
      w.prefetcher.statGenerated = w.prefetcher.statIssued - w.prefetcher.statPutBack +
        w.prefetcher.statDroppedUntimelyPf + w.prefetcher.queue.length := by
  have heval : (returnedCalls.foldlM Watched.call .new).toOption.map
      (fun w => (w.prefetcher.statGenerated, w.prefetcher.statDroppedUntimelyPf)) =
        some (1, 1) := by
    decide +kernel
  obtain ⟨w, hrun, hstats⟩ := observe_eq_some.mp heval
  obtain ⟨hgenerated, hdropped⟩ := Prod.mk.inj hstats
  have hback : EveryStep Watched.call .new returnedCalls Watched.ReturnsIssued := by
    decide +kernel
  exact ⟨w, hrun, hgenerated, hdropped, (queue_disciplined hback hrun).2.2.2.2⟩

end CbpSim.Memory
