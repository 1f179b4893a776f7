/-
  Memory/Backlog.lean --- how many prefetches may be queued.

  Source: src/lib/stride_prefetcher.h, `lookahead`, `generate`, `issue` and `put_back`.

  `PF_QUEUE_SIZE` is declared and never read: a push does not look at the size.  What
  bounds the queue are the calls.  The addresses that a program counter was trained
  with say whether a lookahead pushes (up to a lost entry, of which there is none before
  1025 program counters were trained), lines pushed before say whether the push is
  filtered, and an `issue` that comes late enough surely takes a prefetch out.  The
  backlog counts these, without table or queue, and the queue is never longer.
-/
import Mathlib.Data.List.Infix
import Mathlib.Data.List.Lattice
import Mathlib.Data.List.Perm.Subperm
import CbpSim.Memory.PrefetchTable

set_option autoImplicit false

namespace CbpSim.Memory

open CbpSim.Foundation

/-- `PF_QUEUE_SIZE`. -/
def pfQueueSize : Nat := 32

/-- In every state of the run the queue is within its declared size. -/
def QueueWithin (calls : List PrefetchCall) : Prop :=
  Throughout StridePrefetcher.call .new calls fun p => p.queue.length ≤ pfQueueSize

/-! ## What the calls say about an entry -/

namespace RptEntry

/-- The entry of a program counter that was trained at these addresses since it got
the entry, the latest first. -/
def ofTrainings : List Nat → Option RptEntry
  | [] => none
  | address :: earlier =>
    match ofTrainings earlier with
    | none => some { state := .initial, currentAddress := address, stride := 0 }
    | some e => (e.train address).toOption

/-- Entries that move alike. -/
structure Alike (e f : RptEntry) : Prop where
  state : e.state = f.state
  currentAddress : e.currentAddress = f.currentAddress
  stride : e.stride = f.stride

/-- Training keeps entries alike. -/
theorem Alike.train {e f w : RptEntry} (h : e.Alike f) {address : Nat}
    (hw : f.train address = .ok w) : ∃ v, e.train address = .ok v ∧ v.Alike w := by
  obtain ⟨hstate, haddress, hstride⟩ := h
  unfold RptEntry.train at hw ⊢
  rw [haddress, hstride, hstate]
  dsimp only at hw ⊢
  cases hf : f.state with
  | invalid =>
    rw [hf] at hw
    cases hw
  | initial =>
    rw [hf] at hw
    dsimp only at hw ⊢
    split at hw
    · cases hw
      exact ⟨_, if_pos ‹_›, rfl, rfl, rfl⟩
    · cases hw
      exact ⟨_, if_neg ‹_›, rfl, rfl, rfl⟩
  | transient =>
    rw [hf] at hw
    dsimp only at hw ⊢
    split at hw
    · cases hw
      exact ⟨_, if_pos ‹_›, rfl, rfl, rfl⟩
    · cases hw
      exact ⟨_, if_neg ‹_›, rfl, rfl, rfl⟩
  | steadyState =>
    rw [hf] at hw
    dsimp only at hw ⊢
    split at hw
    · cases hw
      exact ⟨_, if_pos ‹_›, rfl, rfl, rfl⟩
    · cases hw
      exact ⟨_, if_neg ‹_›, rfl, rfl, rfl⟩
  | noPrediction =>
    rw [hf] at hw
    dsimp only at hw ⊢
    split at hw
    · cases hw
      exact ⟨_, if_pos ‹_›, rfl, rfl, rfl⟩
    · cases hw
      exact ⟨_, if_neg ‹_›, rfl, rfl, rfl⟩

/-- The entry is what one of these lists of trainings makes. -/
def Recalls (e : RptEntry) (histories : List (List Nat)) : Prop :=
  ∃ history ∈ histories, ∃ f, ofTrainings history = some f ∧ f.Alike e

/-- An entry just allocated. -/
theorem Recalls.allocated {e : RptEntry} {address : Nat} {histories : List (List Nat)}
    (hmem : [address] ∈ histories) (hstate : e.state = .initial)
    (haddress : e.currentAddress = address) (hstride : e.stride = 0) : e.Recalls histories :=
  ⟨[address], hmem, _, rfl, hstate.symm, haddress.symm, hstride.symm⟩

theorem Recalls.train {e w : RptEntry} {histories histories' : List (List Nat)} {address : Nat}
    (h : e.Recalls histories) (hgrow : ∀ history ∈ histories, address :: history ∈ histories')
    (hw : e.train address = .ok w) : w.Recalls histories' := by
  obtain ⟨history, hmem, f, hf, halike⟩ := h
  obtain ⟨v, hv, hvw⟩ := halike.train hw
  refine ⟨address :: history, hgrow history hmem, v, ?_, hvw⟩
  rw [ofTrainings, hf]
  show (f.train address).toOption = some v
  rw [hv]
  rfl

/-- The rank of an entry does not count. -/
theorem Recalls.of_lru {e : RptEntry} {histories : List (List Nat)} (h : e.Recalls histories)
    (lru : Nat) : ({ e with lru := lru } : RptEntry).Recalls histories := by
  obtain ⟨history, hmem, f, hf, halike⟩ := h
  exact ⟨history, hmem, f, hf, halike.state, halike.currentAddress, halike.stride⟩

end RptEntry

namespace StridePrefetcher

/-- The trainings of `pc`, the latest first, of which one list made its entry.  It is the
list of all of them, or of those since the entry may have been given to another program
counter: when more were trained than the table has entries.  The calls are listed in
that order too. -/
def histories (pc : Nat) : List PrefetchCall → List (List Nat)
  | [] => [[]]
  | .train pc' address :: earlier =>
    if pc' = pc then
      let kept := (histories pc earlier).map (address :: ·)
      if numRptEntries < (trained earlier).dedup.length then [address] :: kept else kept
    else histories pc earlier
  | _ :: earlier => histories pc earlier

variable {earlier : List PrefetchCall}

/-- Other calls train nothing. -/
theorem histories_of_ne {c : PrefetchCall} (h : ∀ pc address, c ≠ .train pc address) (pc : Nat) :
    histories pc (c :: earlier) = histories pc earlier := by
  cases c with
  | train pc' address => exact absurd rfl (h pc' address)
  | lookahead _ _ => rfl
  | issue _ => rfl
  | putBack _ => rfl

theorem histories_train_of_ne {pc pc' : Nat} (h : pc' ≠ pc) (address : Nat) :
    histories pc (.train pc' address :: earlier) = histories pc earlier := if_neg h

theorem cons_mem_histories {pc address : Nat} {history : List Nat}
    (h : history ∈ histories pc earlier) :
    address :: history ∈ histories pc (.train pc address :: earlier) := by
  have hkept : address :: history ∈ (histories pc earlier).map (address :: ·) :=
    List.mem_map.mpr ⟨history, h, rfl⟩
  rw [histories, if_pos rfl]
  dsimp only
  split
  · exact List.mem_cons_of_mem _ hkept
  · exact hkept

/-- A program counter that was not trained has the empty history only. -/
theorem histories_of_untrained {pc : Nat} (h : pc ∉ trained earlier) :
    histories pc earlier = [[]] := by
  induction earlier with
  | nil => rfl
  | cons c earlier ih =>
    by_cases htrain : ∃ pc' address, c = .train pc' address
    · obtain ⟨pc', address, rfl⟩ := htrain
      have h : pc ∉ pc' :: trained earlier := h
      rw [histories_train_of_ne (List.ne_of_not_mem_cons h).symm,
        ih (List.not_mem_of_not_mem_cons h)]
    · have hother : ∀ pc' address, c ≠ .train pc' address :=
        fun pc' address heq => htrain ⟨pc', address, heq⟩
      rw [trained_of_ne hother] at h
      rw [histories_of_ne hother, ih h]

/-- A program counter without entry begins a new history. -/
theorem singleton_mem_histories {p : StridePrefetcher} (hfilled : Filled p (trained earlier))
    {pc : Nat} (habsent : ∀ i < numRptEntries, (p.way i).tag ≠ pc) (address : Nat) :
    [address] ∈ histories pc (.train pc address :: earlier) := by
  by_cases htrained : pc ∈ trained earlier
  · have hmany := hfilled.card_of_forgotten htrained habsent
    rw [List.card_toFinset] at hmany
    rw [histories, if_pos rfl]
    dsimp only
    rw [if_pos hmany]
    exact List.mem_cons_self
  · refine cons_mem_histories ?_
    rw [histories_of_untrained htrained]
    exact List.mem_singleton_self _

/-- As long as no more program counters were trained than the table has entries, the
history of each is known. -/
theorem histories_of_few (pc : Nat)
    (hfew : (trained earlier).toFinset.card ≤ numRptEntries) :
    ∃ history, histories pc earlier = [history] := by
  induction earlier with
  | nil => exact ⟨[], rfl⟩
  | cons c earlier ih =>
    by_cases htrain : ∃ pc' address, c = .train pc' address
    · obtain ⟨pc', address, rfl⟩ := htrain
      have hsub : (trained earlier).toFinset ⊆ (pc' :: trained earlier).toFinset := by
        rw [List.toFinset_cons]
        exact Finset.subset_insert _ _
      have hle := (Finset.card_le_card hsub).trans hfew
      obtain ⟨history, heq⟩ := ih hle
      rw [List.card_toFinset] at hle
      rw [histories, heq]
      split
      · exact ⟨address :: history, if_neg (not_lt.mpr hle)⟩
      · exact ⟨history, rfl⟩
    · have hother : ∀ pc' address, c ≠ .train pc' address :=
        fun pc' address heq => htrain ⟨pc', address, heq⟩
      rw [trained_of_ne hother] at hfew
      rw [histories_of_ne hother]
      exact ih hfew

/-- No program counter has lost its entry then. -/
theorem Filled.findTag_of_trained {p : StridePrefetcher} (hfilled : Filled p (trained earlier))
    (hfew : (trained earlier).toFinset.card ≤ numRptEntries) {pc : Nat}
    (htrained : pc ∈ trained earlier) :
    ∃ i < numRptEntries, p.findTag pc = some (p.way i) ∧ (p.way i).tag = pc ∧
      (p.way i).state ≠ .invalid := by
  have hfound : (p.findTag pc).isSome := by
    rw [findTag, List.find?_isSome]
    by_contra habsent
    refine (hfilled.card_of_forgotten htrained fun i hi htag => habsent ?_).not_ge hfew
    have hi : i < p.rpt.length := by rw [hfilled.table.length]; exact hi
    exact ⟨p.way i, way_eq_getElem hi ▸ List.getElem_mem hi, by simpa using htag⟩
  obtain ⟨e, hfind⟩ := Option.isSome_iff_exists.mp hfound
  obtain ⟨i, hi, rfl⟩ := exists_way (List.mem_of_find?_eq_some hfind)
  rw [hfilled.table.length] at hi
  have htag : (p.way i).tag = pc := by simpa using List.find?_some hfind
  refine ⟨i, hi, hfind, htag, fun hinvalid => ?_⟩
  have hunused := hfilled.table.unused i hi hinvalid
  exact (hfilled.held i hi hinvalid pc htrained).1 (htag.symm.trans hunused)

/-- Every entry in use is what the trainings of its program counter make. -/
def Remembers (p : StridePrefetcher) (earlier : List PrefetchCall) : Prop :=
  ∀ i < numRptEntries, (p.way i).state ≠ .invalid →
    (p.way i).Recalls (histories (p.way i).tag earlier)

theorem remembers_new : Remembers new [] := by
  intro i hi hvalid
  rw [way_new hi] at hvalid
  exact absurd rfl hvalid

theorem Remembers.of_rpt {p q : StridePrefetcher} (h : p.Remembers earlier)
    (heq : q.rpt = p.rpt) : q.Remembers earlier := by
  obtain ⟨rpt, _⟩ := q
  subst heq
  exact h

theorem Remembers.train {p q : StridePrefetcher} (h : p.Remembers earlier)
    (hfilled : Filled p (trained earlier)) {pc address : Nat} (hok : p.train pc address = .ok q) :
    q.Remembers (.train pc address :: earlier) := by
  obtain ⟨q', v, w, promoted, hok', hat, hcase⟩ :=
    hfilled.table.train address (hfilled.full_of_train hok)
  obtain rfl : q' = q := Except.ok.inj (hok'.symm.trans hok)
  intro i hi hvalid
  by_cases hiv : i = v
  · -- the entry trained
    subst hiv
    rw [hat.tag_self, hat.way i hi, if_pos rfl]
    refine RptEntry.Recalls.of_lru ?_ _
    rcases hcase with ⟨habsent, -, -, hstate, haddress, hstride⟩ | ⟨htag, hvalid, hw, -⟩
    · exact .allocated (singleton_mem_histories hfilled habsent address) hstate haddress hstride
    · exact (htag ▸ h i hi hvalid).train (fun _ => cons_mem_histories) hw
  · -- no other entry carries the program counter
    rw [hat.state_of_ne hi hiv] at hvalid
    rw [hat.tag_of_ne hi hiv, histories_train_of_ne fun heq => hat.only i hi hiv hvalid heq.symm,
      hat.way i hi, if_neg hiv]
    exact (h i hi hvalid).of_lru _

theorem Remembers.call {p q : StridePrefetcher} (h : p.Remembers earlier)
    (hfilled : Filled p (trained earlier)) {c : PrefetchCall} (hok : p.call c = .ok q) :
    q.Remembers (c :: earlier) := by
  by_cases htrain : ∃ pc address, c = .train pc address
  · obtain ⟨pc, address, rfl⟩ := htrain
    exact h.train hfilled hok
  · have hother : ∀ pc address, c ≠ .train pc address :=
      fun pc address heq => htrain ⟨pc, address, heq⟩
    obtain ⟨q', hok', hrpt⟩ := call_rpt (p := p) hother
    obtain rfl : q' = q := Except.ok.inj (hok'.symm.trans hok)
    intro i hi hvalid
    rw [histories_of_ne hother]
    exact h.of_rpt hrpt i hi hvalid

end StridePrefetcher

/-! ## The backlog -/

/-- The prefetches that a lookahead of `pc` may ask for: its entry is steady and moves. -/
def requests (earlier : List PrefetchCall) (pc cycle : Nat) : List Prefetch :=
  (((StridePrefetcher.histories pc earlier).filterMap RptEntry.ofTrainings).filter fun e =>
    e.state = .steadyState ∧ e.stride ≠ 0).map fun e => StridePrefetcher.request e cycle

/-- What a list of calls may leave in the queue: the prefetches, their lines, a line
twice when it was put back, and how many there are at most. -/
structure Backlog where
  prefetches : List Prefetch
  lines : List Nat
  size : Nat
  deriving DecidableEq, Repr

namespace Backlog

/-- Nothing is queued. -/
def empty : Backlog := ⟨[], [], 0⟩

/-- The backlog after one more call. -/
def next (earlier : List PrefetchCall) (b : Backlog) : PrefetchCall → Backlog
  | .train _ _ => b
  | .lookahead pc cycle =>
    let asked := requests earlier pc cycle
    let lines := asked.map Prefetch.line ∪ b.lines
    if asked = [] then b
    -- no more than one prefetch, and on a line of its own
    else ⟨asked ++ b.prefetches, lines, min (b.size + 1) lines.length⟩
  | .issue cycle =>
    -- all are dropped
    if ∀ pf ∈ b.prefetches, pf.cycleGenerated + pfMustIssueBeforeCycles < cycle then empty
    -- the first one is issued, if it is not dropped
    else if ∀ pf ∈ b.prefetches, pf.cycleGenerated ≤ cycle then
      if b.size ≤ 1 then empty else { b with size := b.size - 1 }
    else b
  | .putBack pf => ⟨pf :: b.prefetches, pf.line :: b.lines, b.size + 1⟩

end Backlog

/-- The backlog of a list of calls, the latest first. -/
def backlog : List PrefetchCall → Backlog
  | [] => .empty
  | c :: earlier => (backlog earlier).next earlier c

namespace Backlog

/-- The backlog covers the queue. -/
structure Covers (b : Backlog) (queue : List Prefetch) : Prop where
  prefetches : ∀ pf ∈ queue, pf ∈ b.prefetches
  lines : (queue.map Prefetch.line).Subperm b.lines
  size : queue.length ≤ b.size

variable {b : Backlog} {p q : StridePrefetcher} {earlier : List PrefetchCall}

theorem covers_nil (b : Backlog) : b.Covers [] where
  prefetches pf hpf := by cases hpf
  lines := List.nil_subperm
  size := Nat.zero_le _

/-- What a lookahead pushes is a request. -/
theorem mem_requests (htable : p.Table) (h : p.Remembers earlier) {pc : Nat} {e : RptEntry}
    (hfind : p.findTag pc = some e) (hstate : e.state = .steadyState) (hstride : e.stride ≠ 0)
    (cycle : Nat) : StridePrefetcher.request e cycle ∈ requests earlier pc cycle := by
  obtain ⟨i, hi, rfl⟩ := StridePrefetcher.exists_way (List.mem_of_find?_eq_some hfind)
  rw [htable.length] at hi
  have htag : (p.way i).tag = pc := by simpa using List.find?_some hfind
  have hvalid : (p.way i).state ≠ .invalid := by rw [hstate]; decide
  obtain ⟨history, hhistory, f, hf, halike⟩ := h i hi hvalid
  rw [htag] at hhistory
  refine List.mem_map.mpr ⟨f, List.mem_filter.mpr ⟨?_, ?_⟩, ?_⟩
  · exact List.mem_filterMap.mpr ⟨history, hhistory, hf⟩
  · rw [halike.state, halike.stride]
    exact decide_eq_true ⟨hstate, hstride⟩
  · rw [StridePrefetcher.request, StridePrefetcher.request, halike.currentAddress, halike.stride]

/-- One more push on a line that is not pending, as a lookahead makes it. -/
theorem Covers.push {queue queue' asked : List Prefetch} (h : b.Covers queue) {pf : Prefetch}
    (hperm : queue'.Perm (queue ++ [pf])) (hmem : pf ∈ asked)
    (hline : ∀ q ∈ queue, q.line ≠ pf.line) :
    (Backlog.mk (asked ++ b.prefetches) (asked.map Prefetch.line ∪ b.lines)
      (min (b.size + 1) (asked.map Prefetch.line ∪ b.lines).length)).Covers queue' := by
  have hlines : (queue'.map Prefetch.line).Subperm (asked.map Prefetch.line ∪ b.lines) := by
    have hpush : (queue'.map Prefetch.line).Perm (pf.line :: queue.map Prefetch.line) :=
      (hperm.trans (List.perm_append_singleton pf queue)).map _
    refine hpush.subperm.trans (List.cons_subperm_of_not_mem_of_mem ?_ ?_ ?_)
    · intro hpending
      obtain ⟨q, hq, heq⟩ := List.mem_map.mp hpending
      exact hline q hq heq
    · exact List.mem_union_iff.mpr (Or.inl (List.mem_map_of_mem hmem))
    · exact h.lines.trans (List.suffix_union_right _ _).sublist.subperm
  refine ⟨?_, hlines, Nat.le_min.mpr ⟨?_, ?_⟩⟩
  · intro q hq
    rcases List.mem_append.mp (hperm.mem_iff.mp hq) with hq | hq
    · exact List.mem_append_right _ (h.prefetches q hq)
    · exact List.mem_append_left _ (List.mem_singleton.mp hq ▸ hmem)
  · rw [hperm.length_eq, List.length_append, List.length_singleton]
    exact Nat.succ_le_succ h.size
  · rw [← List.length_map Prefetch.line]
    exact hlines.length_le

/-- A lookahead that pushes nothing. -/
theorem Covers.stay {queue : List Prefetch} (h : b.Covers queue) (asked : List Prefetch) :
    (Backlog.mk (asked ++ b.prefetches) (asked.map Prefetch.line ∪ b.lines)
      (min (b.size + 1) (asked.map Prefetch.line ∪ b.lines).length)).Covers queue := by
  have hlines : (queue.map Prefetch.line).Subperm (asked.map Prefetch.line ∪ b.lines) :=
    h.lines.trans (List.suffix_union_right _ _).sublist.subperm
  refine ⟨fun q hq => List.mem_append_right _ (h.prefetches q hq), hlines,
    Nat.le_min.mpr ⟨h.size.trans (Nat.le_succ _), ?_⟩⟩
  rw [← List.length_map Prefetch.line]
  exact hlines.length_le

theorem Covers.lookahead (h : b.Covers p.queue) (htable : p.Table) (hp : p.Remembers earlier)
    (pc cycle : Nat) :
    (b.next earlier (.lookahead pc cycle)).Covers (p.lookahead pc cycle).queue := by
  unfold next
  dsimp only
  rcases p.lookahead_cases pc cycle with
    ⟨_, _, heq⟩ | ⟨e, hfind, hstate, hstride, hpending, heq⟩
  · rw [heq]
    split
    · exact h
    · exact h.stay _
  · have hmem := mem_requests htable hp hfind hstate hstride cycle
    rw [heq, if_neg (List.ne_nil_of_mem hmem)]
    refine h.push (List.perm_insertionSort _ _) hmem ?_
    intro q hq hline
    exact hpending ⟨q, hq, hline⟩

theorem Covers.suffix {queue queue' : List Prefetch} (h : b.Covers queue)
    (hsuffix : queue' <:+ queue) {size : Nat} (hsize : queue'.length ≤ size) :
    ({ b with size := size } : Backlog).Covers queue' where
  prefetches pf hpf := h.prefetches pf (hsuffix.subset hpf)
  lines := (hsuffix.sublist.map _).subperm.trans h.lines
  size := hsize

/-- Past every deadline `issue` empties the queue. -/
theorem issue_late (p : StridePrefetcher) {cycle : Nat}
    (hlate : ∀ pf ∈ p.queue, pf.cycleGenerated + pfMustIssueBeforeCycles < cycle) :
    (p.issue cycle).2.queue = [] := by
  obtain ⟨untimely, rest, hqueue, -, ⟨hhead, heq⟩ | ⟨pf, queue, hrest, -, hdeadline, -⟩⟩ :=
    p.issue_cases cycle
  · rw [heq]
    show rest = []
    cases rest with
    | nil => rfl
    | cons pf rest =>
      have hmem : pf ∈ p.queue := by rw [hqueue]; exact List.mem_append_right _ List.mem_cons_self
      have hnot := hhead pf rfl
      have := hlate pf hmem
      omega
  · have hmem : pf ∈ p.queue := by
      rw [hqueue, hrest]; exact List.mem_append_right _ List.mem_cons_self
    have := hlate pf hmem
    omega

/-- `issue` leaves a rear part of the queue, a shorter one when all are generated. -/
theorem issue_suffix (p : StridePrefetcher) (cycle : Nat) :
    (p.issue cycle).2.queue <:+ p.queue ∧
      ((∀ pf ∈ p.queue, pf.cycleGenerated ≤ cycle) →
        (p.issue cycle).2.queue.length ≤ p.queue.length - 1) := by
  obtain ⟨untimely, rest, hqueue, -, ⟨hhead, heq⟩ | ⟨pf, queue, hrest, -, -, heq⟩⟩ :=
    p.issue_cases cycle
  · rw [heq]
    refine ⟨⟨untimely, hqueue.symm⟩, ?_⟩
    intro hgenerated
    show rest.length ≤ _
    cases rest with
    | nil => exact Nat.zero_le _
    | cons pf rest =>
      have hmem : pf ∈ p.queue := by rw [hqueue]; exact List.mem_append_right _ List.mem_cons_self
      have hnot := hhead pf rfl
      have := hgenerated pf hmem
      omega
  · rw [heq, hqueue, hrest]
    refine ⟨⟨untimely ++ [pf], by simp⟩, fun _ => ?_⟩
    rw [List.length_append, List.length_cons]
    show queue.length ≤ _
    omega

theorem Covers.issue (h : b.Covers p.queue) (cycle : Nat) :
    (b.next earlier (.issue cycle)).Covers (p.issue cycle).2.queue := by
  obtain ⟨hsuffix, hshorter⟩ := issue_suffix p cycle
  have hsize := h.size
  unfold next
  dsimp only
  split
  · rename_i hlate
    rw [issue_late p fun pf hpf => hlate pf (h.prefetches pf hpf)]
    exact covers_nil _
  · split
    · rename_i hgenerated
      have hlength := hshorter fun pf hpf => hgenerated pf (h.prefetches pf hpf)
      split
      · have hnil : (p.issue cycle).2.queue = [] := List.eq_nil_of_length_eq_zero (by omega)
        rw [hnil]
        exact covers_nil _
      · exact h.suffix hsuffix (by omega)
    · exact h.suffix hsuffix (hsuffix.length_le.trans hsize)

theorem Covers.putBack (h : b.Covers p.queue) (pf : Prefetch) :
    (b.next earlier (.putBack pf)).Covers (p.putBack pf).queue where
  prefetches q hq := by
    rcases List.mem_cons.mp hq with rfl | hq
    · exact List.mem_cons_self
    · exact List.mem_cons_of_mem _ (h.prefetches q hq)
  lines := (List.subperm_cons pf.line).mpr h.lines
  size := Nat.succ_le_succ h.size

/-- One call. -/
theorem Covers.call (h : b.Covers p.queue) (htable : p.Table) (hp : p.Remembers earlier)
    {c : PrefetchCall} (hok : p.call c = .ok q) : (b.next earlier c).Covers q.queue := by
  cases c with
  | train pc address =>
    rw [(StridePrefetcher.train_queue hok).1]
    exact h
  | lookahead pc cycle =>
    cases hok
    exact h.lookahead htable hp pc cycle
  | issue cycle =>
    cases hok
    exact h.issue cycle
  | putBack pf =>
    cases hok
    exact h.putBack pf

end Backlog

/-- **The queue is covered by the backlog of the calls.** -/
theorem backlog_covers {calls : List PrefetchCall} {p : StridePrefetcher}
    (hrun : Run StridePrefetcher.call .new calls p) :
    p.Remembers calls.reverse ∧ (backlog calls.reverse).Covers p.queue := by
  induction calls using List.reverseRecOn generalizing p with
  | nil =>
    obtain rfl := run_nil.mp hrun
    exact ⟨StridePrefetcher.remembers_new, Backlog.covers_nil _⟩
  | append_singleton calls c ih =>
    obtain ⟨u, hfront, hok⟩ := run_concat.mp hrun
    obtain ⟨hremembers, hcovers⟩ := ih hfront
    have hfilled := StridePrefetcher.filled_of_run hfront
    rw [List.reverse_append, List.reverse_singleton, List.singleton_append]
    exact ⟨hremembers.call hfilled hok, hcovers.call hfilled.table hremembers hok⟩

/-- **The requests are exact** while no entry is lost: a lookahead asks for a prefetch
just when it finds a steady entry that moves. -/
theorem requests_ne_nil_iff {calls : List PrefetchCall} {p : StridePrefetcher}
    (hrun : Run StridePrefetcher.call .new calls p)
    (hfew : (StridePrefetcher.trained calls.reverse).toFinset.card ≤ numRptEntries)
    (pc cycle : Nat) :
    requests calls.reverse pc cycle ≠ [] ↔
      ∃ e, p.findTag pc = some e ∧ e.state = .steadyState ∧ e.stride ≠ 0 := by
  have hfilled := StridePrefetcher.filled_of_run hrun
  have hremembers := (backlog_covers hrun).1
  constructor
  · intro hasked
    obtain ⟨pf, hpf⟩ := List.exists_mem_of_ne_nil _ hasked
    obtain ⟨f, hf, -⟩ := List.mem_map.mp hpf
    obtain ⟨hf, hsteady⟩ := List.mem_filter.mp hf
    obtain ⟨history, hmem, hhistory⟩ := List.mem_filterMap.mp hf
    have htrained : pc ∈ StridePrefetcher.trained calls.reverse := by
      by_contra hnot
      rw [StridePrefetcher.histories_of_untrained hnot, List.mem_singleton] at hmem
      rw [hmem] at hhistory
      cases hhistory
    obtain ⟨i, hi, hfind, htag, hvalid⟩ := hfilled.findTag_of_trained hfew htrained
    -- the entry is what its only history makes
    obtain ⟨history', hmem', f', hhistory', halike⟩ := hremembers i hi hvalid
    obtain ⟨only, honly⟩ := StridePrefetcher.histories_of_few pc hfew
    rw [htag, honly, List.mem_singleton] at hmem'
    rw [honly, List.mem_singleton] at hmem
    rw [hmem] at hhistory
    rw [hmem', hhistory] at hhistory'
    obtain rfl := Option.some.inj hhistory'
    have hsteady := of_decide_eq_true hsteady
    rw [halike.state, halike.stride] at hsteady
    exact ⟨p.way i, hfind, hsteady⟩
  · rintro ⟨e, hfind, hstate, hstride⟩
    exact List.ne_nil_of_mem
      (Backlog.mem_requests hfilled.table hremembers hfind hstate hstride cycle)

/-- **The queue stays within its declared size** in every run of calls whose backlog
does at every call. -/
theorem queueWithin_run {calls : List PrefetchCall}
    (hbacklog : ∀ front, front <+: calls → (backlog front.reverse).size ≤ pfQueueSize) :
    QueueWithin calls := by
  rintro front back p rfl hrun
  exact (backlog_covers hrun).2.size.trans (hbacklog front ⟨back, rfl⟩)

/-- Loads of one instruction with a stride of one line, fetched in one cycle: each
looks ahead and trains. -/
def strideLoads (n : Nat) : List PrefetchCall :=
  (List.range n).flatMap fun k => [.lookahead 1 0, .train 1 (64 * k)]

/-- Thirty-four of them fill the queue up to one; a prefetch is issued, one more is
queued and the one issued is put back; past the deadline all are dropped. -/
def filledCalls : List PrefetchCall :=
  strideLoads 34 ++ [.issue 3, .lookahead 1 3, .putBack ⟨256, 0⟩, .issue 12]

/-- The backlog of these calls is within the size. -/
theorem queueWithin_run_filled : QueueWithin filledCalls := by
  have hbacklog : ∀ front ∈ filledCalls.inits, (backlog front.reverse).size ≤ pfQueueSize := by
    decide +kernel
  exact queueWithin_run fun front hfront => hbacklog front ((List.mem_inits _ _).mpr hfront)

/-- The 36th load queues the 33rd prefetch. -/
theorem queue_grows_past_size :
    (∃ p, Run StridePrefetcher.call .new (strideLoads 36) p ∧ p.queue.length = 33) ∧
      ¬ QueueWithin (strideLoads 36) := by
  have heval : ((strideLoads 36).foldlM StridePrefetcher.call .new).toOption.map
      (fun p => p.queue.length) = some 33 := by
    decide +kernel
  obtain ⟨p, hrun, hlength⟩ := observe_eq_some.mp heval
  refine ⟨⟨p, hrun, hlength⟩, ?_⟩
  intro hwithin
  have hle : p.queue.length ≤ pfQueueSize :=
    hwithin (strideLoads 36) [] p (List.append_nil _).symm hrun
  rw [hlength] at hle
  exact absurd hle (by decide)

end CbpSim.Memory
