/-
  Memory/PrefetchTable.lean --- the reference prediction table over whole runs.

  Source: src/lib/stride_prefetcher.h, `victim_way`, `update_lru` and `train`.

  The `lru` fields number the entries, so there is always a victim; a program
  counter is in one valid entry at most.  An entry never used carries the tag
  `0xdeadbeef`, and a lookup does not ask whether an entry is valid: training on
  that program counter finds an unused entry as long as there is one.
-/
import CbpSim.Foundation.Ranks
import CbpSim.Memory.PrefetchQueue

set_option autoImplicit false

namespace CbpSim.Memory

open CbpSim.Foundation
open CbpSim.Foundation.Ranks (Numbers promote)

/-- The tag of an entry never used. -/
def placeholderTag : Nat := 0xdeadbeef

namespace StridePrefetcher

/-! ## Entries by position -/

/-- The entry at a position. -/
def way (p : StridePrefetcher) (i : Nat) : RptEntry := p.rpt.getD i default

/-- The `lru` field of the entry at a position. -/
def rank (p : StridePrefetcher) (i : Nat) : Nat := (p.way i).lru

theorem way_eq_getElem {p : StridePrefetcher} {i : Nat} (hi : i < p.rpt.length) :
    p.way i = p.rpt[i] := by
  rw [way, List.getD_eq_getElem?_getD, List.getElem?_eq_getElem hi, Option.getD_some]

theorem exists_way {p : StridePrefetcher} {e : RptEntry} (he : e ∈ p.rpt) :
    ∃ i < p.rpt.length, p.way i = e := by
  obtain ⟨i, hi, rfl⟩ := List.mem_iff_getElem.mp he
  exact ⟨i, hi, way_eq_getElem hi⟩

theorem way_modify {p : StridePrefetcher} {v i : Nat} (f : RptEntry → RptEntry)
    (hi : i < p.rpt.length) :
    (p.rpt.modify v f).getD i default = if i = v then f (p.way i) else p.way i := by
  rw [List.getD_eq_getElem?_getD, List.getElem?_modify, List.getElem?_eq_getElem hi,
    way_eq_getElem hi]
  by_cases hv : v = i
  · simp [hv]
  · simp [hv, Ne.symm hv]

theorem way_set {p : StridePrefetcher} {v i : Nat} (e : RptEntry) (hi : i < p.rpt.length) :
    (p.rpt.set v e).getD i default = if i = v then e else p.way i := by
  rw [List.getD_eq_getElem?_getD, List.getElem?_set, List.getElem?_eq_getElem hi,
    way_eq_getElem hi]
  by_cases hv : v = i
  · simp [hv, hi]
  · simp [hv, Ne.symm hv]

/-- `update_lru` is a promotion. -/
theorem way_updateLru {p : StridePrefetcher} (hlength : p.rpt.length = numRptEntries)
    {v i : Nat} (hi : i < numRptEntries) :
    (p.updateLru v).way i = { p.way i with lru := promote numRptEntries p.rank v i } := by
  have hi' : i < p.rpt.length := by rw [hlength]; exact hi
  unfold updateLru
  rw [way, List.getD_eq_getElem?_getD, List.getElem?_modify, List.getElem?_map,
    List.getElem?_eq_getElem hi', ← way_eq_getElem hi']
  unfold promote rank way
  by_cases hv : v = i
  · subst hv
    simp
  · simp only [hv, Ne.symm hv, if_false, Option.map_some]
    split
    · rfl
    · rfl

/-! ## The invariant of the table -/

/-- The table is numbered by its `index` and its `lru` fields, and no two valid
entries carry one tag. -/
structure Table (p : StridePrefetcher) : Prop where
  length : p.rpt.length = numRptEntries
  index : ∀ i < numRptEntries, (p.way i).index = i
  ranks : Numbers numRptEntries p.rank
  /-- an entry never used carries the placeholder -/
  unused : ∀ i < numRptEntries, (p.way i).state = .invalid → (p.way i).tag = placeholderTag
  distinct : ∀ i < numRptEntries, ∀ j < numRptEntries, (p.way i).state ≠ .invalid →
    (p.way j).state ≠ .invalid → (p.way i).tag = (p.way j).tag → i = j
  /-- the entries never used are the first victims -/
  unusedFirst : ∀ i < numRptEntries, ∀ j < numRptEntries, (p.way i).state = .invalid →
    (p.way j).state ≠ .invalid → p.rank i < p.rank j

theorem way_new {i : Nat} (hi : i < numRptEntries) : new.way i = { index := i, lru := i } := by
  simp only [way, new, List.getD_eq_getElem?_getD, List.getElem?_map, List.getElem?_range hi,
    Option.map_some, Option.getD_some]

theorem table_new : Table new where
  length := by simp [new]
  index i hi := by rw [way_new hi]
  ranks := by
    constructor
    · intro i hi
      rw [rank, way_new hi]
      exact hi
    · intro i hi j hj heq
      rw [rank, rank, way_new hi, way_new hj] at heq
      exact heq
  unused i hi _ := by rw [way_new hi]; rfl
  distinct i hi _ _ hvalid := by
    rw [way_new hi] at hvalid
    exact absurd rfl hvalid
  unusedFirst _ _ j hj _ hvalid := by
    rw [way_new hj] at hvalid
    exact absurd rfl hvalid

/-- The victim is the entry of rank `0`. -/
theorem Table.victimWay {p : StridePrefetcher} (h : p.Table) :
    ∃ v < numRptEntries, p.rank v = 0 ∧ p.victimWay = .ok v := by
  unfold StridePrefetcher.victimWay
  cases hfind : p.rpt.find? fun e => e.lru == 0 with
  | none =>
    obtain ⟨v, hv, hzero⟩ := h.ranks.exists_slot (show 0 < numRptEntries by decide)
    have hv' : v < p.rpt.length := by rw [h.length]; exact hv
    have hnot := List.find?_eq_none.mp hfind (p.way v) (by
      rw [way_eq_getElem hv']; exact List.getElem_mem hv')
    exact absurd hzero (by simpa [rank] using hnot)
  | some e =>
    obtain ⟨v, hv, rfl⟩ := exists_way (List.mem_of_find?_eq_some hfind)
    rw [h.length] at hv
    have hzero := List.find?_some hfind
    exact ⟨v, hv, by simpa [rank] using hzero, congrArg Except.ok (h.index v hv)⟩

end StridePrefetcher

/-! ## One training -/

/-- The state switch of a valid entry has no failing case. -/
theorem RptEntry.train_valid {e : RptEntry} (he : e.state ≠ .invalid) (address : Nat) :
    ∃ w, e.train address = .ok w ∧ w.tag = e.tag ∧ w.index = e.index ∧ w.lru = e.lru ∧
      w.state ≠ .invalid := by
  unfold RptEntry.train
  dsimp only
  cases hstate : e.state with
  | invalid => exact absurd hstate he
  | initial =>
    dsimp only
    split
    · exact ⟨_, rfl, rfl, rfl, rfl, by simp⟩
    · exact ⟨_, rfl, rfl, rfl, rfl, by simp⟩
  | transient =>
    dsimp only
    split
    · exact ⟨_, rfl, rfl, rfl, rfl, by simp⟩
    · exact ⟨_, rfl, rfl, rfl, rfl, by simp⟩
  | steadyState =>
    dsimp only
    split
    · exact ⟨_, rfl, rfl, rfl, rfl, by simp⟩
    · exact ⟨_, rfl, rfl, rfl, rfl, by simp⟩
  | noPrediction =>
    dsimp only
    split
    · exact ⟨_, rfl, rfl, rfl, rfl, by simp⟩
    · exact ⟨_, rfl, rfl, rfl, rfl, by simp⟩

namespace StridePrefetcher

/-- A training on `pc` that leaves `w` at position `v`, promoted or not. -/
structure TrainedAt (p q : StridePrefetcher) (pc v : Nat) (w : RptEntry) (promoted : Bool) :
    Prop where
  length : q.rpt.length = numRptEntries
  lt : v < numRptEntries
  tag : w.tag = pc
  valid : w.state ≠ .invalid
  index : w.index = v
  /-- no other valid entry carries `pc` -/
  only : ∀ i < numRptEntries, i ≠ v → (p.way i).state ≠ .invalid → (p.way i).tag ≠ pc
  /-- an entry filled for the first time is promoted -/
  filled : promoted = false → (p.way v).state ≠ .invalid
  way : ∀ i < numRptEntries, q.way i =
    { (if i = v then w else p.way i) with
      lru := if promoted then promote numRptEntries p.rank v i else p.rank i }

namespace TrainedAt

variable {p q : StridePrefetcher} {pc v : Nat} {w : RptEntry} {promoted : Bool}

theorem rank_eq (h : TrainedAt p q pc v w promoted) {i : Nat} (hi : i < numRptEntries) :
    q.rank i = if promoted then promote numRptEntries p.rank v i else p.rank i := by
  rw [rank, h.way i hi]

theorem rank_promoted (h : TrainedAt p q pc v w true) {i : Nat} (hi : i < numRptEntries) :
    q.rank i = promote numRptEntries p.rank v i := by
  rw [h.rank_eq hi, if_pos rfl]

theorem tag_self (h : TrainedAt p q pc v w promoted) : (q.way v).tag = pc := by
  rw [h.way v h.lt, if_pos rfl]
  exact h.tag

theorem valid_self (h : TrainedAt p q pc v w promoted) : (q.way v).state ≠ .invalid := by
  rw [h.way v h.lt, if_pos rfl]
  exact h.valid

theorem tag_of_ne (h : TrainedAt p q pc v w promoted) {i : Nat} (hi : i < numRptEntries)
    (hne : i ≠ v) : (q.way i).tag = (p.way i).tag := by
  rw [h.way i hi, if_neg hne]

theorem state_of_ne (h : TrainedAt p q pc v w promoted) {i : Nat} (hi : i < numRptEntries)
    (hne : i ≠ v) : (q.way i).state = (p.way i).state := by
  rw [h.way i hi, if_neg hne]

/-- Training keeps the table. -/
theorem table (h : TrainedAt p q pc v w promoted) (hp : p.Table) : q.Table where
  length := h.length
  index i hi := by
    rw [h.way i hi]
    split
    · rename_i heq
      exact heq ▸ h.index
    · exact hp.index i hi
  ranks := by
    have hrank : ∀ i < numRptEntries,
        q.rank i = (if promoted then promote numRptEntries p.rank v else p.rank) i := by
      intro i hi
      rw [h.rank_eq hi]
      split
      · rfl
      · rfl
    have hnum : Numbers numRptEntries
        (if promoted then promote numRptEntries p.rank v else p.rank) := by
      split
      · exact hp.ranks.promote h.lt
      · exact hp.ranks
    constructor
    · intro i hi
      rw [hrank i hi]
      exact hnum.lt i hi
    · intro i hi j hj heq
      rw [hrank i hi, hrank j hj] at heq
      exact hnum.inj i hi j hj heq
  unused i hi hinvalid := by
    have hne : i ≠ v := fun heq => h.valid_self (heq ▸ hinvalid)
    rw [h.state_of_ne hi hne] at hinvalid
    rw [h.tag_of_ne hi hne]
    exact hp.unused i hi hinvalid
  distinct i hi j hj hvalid hvalid' heq := by
    by_cases hi' : i = v
    · by_cases hj' : j = v
      · rw [hi', hj']
      · rw [hi', h.tag_self, h.tag_of_ne hj hj'] at heq
        rw [h.state_of_ne hj hj'] at hvalid'
        exact absurd heq.symm (h.only j hj hj' hvalid')
    · by_cases hj' : j = v
      · rw [hj', h.tag_self, h.tag_of_ne hi hi'] at heq
        rw [h.state_of_ne hi hi'] at hvalid
        exact absurd heq (h.only i hi hi' hvalid)
      · rw [h.tag_of_ne hi hi', h.tag_of_ne hj hj'] at heq
        rw [h.state_of_ne hi hi'] at hvalid
        rw [h.state_of_ne hj hj'] at hvalid'
        exact hp.distinct i hi j hj hvalid hvalid' heq
  unusedFirst i hi j hj hinvalid hvalid := by
    have hi' : i ≠ v := fun heq => h.valid_self (heq ▸ hinvalid)
    rw [h.state_of_ne hi hi'] at hinvalid
    rw [h.rank_eq hi, h.rank_eq hj]
    by_cases hj' : j = v
    · subst hj'
      cases hprom : promoted with
      | true =>
        simp only [if_true, Ranks.promote_self]
        exact hp.ranks.promote_lt h.lt hi hi'
      | false => exact hp.unusedFirst i hi j hj hinvalid (h.filled hprom)
    · rw [h.state_of_ne hj hj'] at hvalid
      have hlt := hp.unusedFirst i hi j hj hinvalid hvalid
      split
      · exact (hp.ranks.promote_lt_iff h.lt hi hj hi' hj').mpr hlt
      · exact hlt

end TrainedAt

/-- Writing an entry and promoting it. -/
theorem way_written_updateLru {p p' : StridePrefetcher} {v i : Nat} {w : RptEntry}
    (hlength : p'.rpt.length = numRptEntries) (hv : v < numRptEntries)
    (hway : ∀ i < numRptEntries, p'.way i = if i = v then w else p.way i)
    (hlru : w.lru = p.rank v) (hi : i < numRptEntries) :
    (p'.updateLru v).way i =
      { (if i = v then w else p.way i) with lru := promote numRptEntries p.rank v i } := by
  have hrank : ∀ i < numRptEntries, p'.rank i = p.rank i := by
    intro i hi
    rw [rank, hway i hi]
    split
    · rename_i heq
      rw [hlru, heq]
    · rfl
  rw [way_updateLru hlength hi, hway i hi, Ranks.promote_congr (hrank v hv) (hrank i hi)]

/-- What a training does: it fills the victim when no entry carries the program
counter, else it moves the first entry that does. -/
theorem Table.train {p : StridePrefetcher} (h : p.Table) {pc : Nat} (address : Nat)
    (hpc : pc = placeholderTag → ∀ i < numRptEntries, (p.way i).state ≠ .invalid) :
    ∃ q v w promoted, p.train pc address = .ok q ∧ TrainedAt p q pc v w promoted ∧
      ((∀ i < numRptEntries, (p.way i).tag ≠ pc) ∧ p.rank v = 0 ∧ promoted = true ∧
          w.state = .initial ∧ w.currentAddress = address ∧ w.stride = 0 ∨
        (p.way v).tag = pc ∧ (p.way v).state ≠ .invalid ∧ (p.way v).train address = .ok w ∧
          promoted = decide (w.stride ≠ 0)) := by
  unfold StridePrefetcher.train
  split
  case h_1 hfind =>
    -- no entry carries the program counter
    have hmiss : ∀ i < numRptEntries, (p.way i).tag ≠ pc := by
      intro i hi
      have hi' : i < p.rpt.length := by rw [h.length]; exact hi
      have hnot := List.findIdx?_eq_none_iff.mp hfind (p.way i) (by
        rw [way_eq_getElem hi']; exact List.getElem_mem hi')
      simpa using hnot
    obtain ⟨v, hv, hzero, hvictim⟩ := h.victimWay
    rw [hvictim, ok_bind]
    refine ⟨_, v, { p.way v with
        state := .initial, tag := pc, prevAddress := 0xdeadbeef, currentAddress := address
        stride := 0 }, true, rfl, ?_, Or.inl ⟨hmiss, hzero, rfl, rfl, rfl, rfl⟩⟩
    refine {
      length := by simp [updateLru, h.length]
      lt := hv
      tag := rfl
      valid := by simp
      index := h.index v hv
      only := fun i hi _ _ => hmiss i hi
      filled := fun hfalse => by cases hfalse
      way := ?_ }
    intro i hi
    refine way_written_updateLru (by simp [h.length]) hv ?_ rfl hi
    intro i hi
    refine (way_modify _ (by rw [h.length]; exact hi)).trans ?_
    split
    · rename_i heq
      rw [heq]
    · rfl
  case h_2 v hfind =>
    -- the first entry that carries it is valid
    obtain ⟨hv', htag, hbefore⟩ := List.findIdx?_eq_some_iff_getElem.mp hfind
    have hv : v < numRptEntries := by rw [← h.length]; exact hv'
    rw [← way_eq_getElem hv'] at htag
    have htag : (p.way v).tag = pc := by simpa using htag
    have hvalid : (p.way v).state ≠ .invalid := by
      intro hinvalid
      exact hpc (htag ▸ h.unused v hv hinvalid) v hv hinvalid
    obtain ⟨w, hw, hwtag, hwindex, hwlru, hwvalid⟩ := RptEntry.train_valid hvalid address
    have hgetD : p.rpt.getD v default = p.way v := rfl
    rw [hgetD, hw, ok_bind]
    refine ⟨_, v, w, decide (w.stride ≠ 0), rfl, ?_, Or.inr ⟨htag, hvalid, hw, rfl⟩⟩
    refine {
      length := ?_
      lt := hv
      tag := hwtag.trans htag
      valid := hwvalid
      index := hwindex.trans (h.index v hv)
      only := fun i hi hne hi' heq => hne (h.distinct i hi v hv hi' hvalid (heq.trans htag.symm))
      filled := fun _ => hvalid
      way := ?_ }
    · split
      · simp [h.length]
      · simp [updateLru, h.length]
    · intro i hi
      have hset : ∀ i < numRptEntries,
          (p.rpt.set v w).getD i default = if i = v then w else p.way i :=
        fun i hi => way_set w (by rw [h.length]; exact hi)
      by_cases hstride : w.stride = 0
      · rw [if_pos hstride]
        simp only [hstride, ne_eq, not_true_eq_false, decide_false, if_false, Bool.false_eq_true]
        refine (hset i hi).trans ?_
        split
        · rename_i heq
          rw [heq, rank, ← hwlru]
        · rfl
      · rw [if_neg hstride, hwindex, h.index v hv]
        simp only [hstride, ne_eq, not_false_eq_true, decide_true, if_true]
        exact way_written_updateLru (by simp [h.length]) hv hset hwlru hi

/-- The table lies in the entries alone. -/
theorem Table.of_rpt {p q : StridePrefetcher} (h : p.Table) (heq : q.rpt = p.rpt) : q.Table := by
  obtain ⟨rpt, _⟩ := q
  subst heq
  exact ⟨h.length, h.index, h.ranks, h.unused, h.distinct, h.unusedFirst⟩

theorem lookahead_rpt (p : StridePrefetcher) (pc cycle : Nat) :
    (p.lookahead pc cycle).rpt = p.rpt := by
  rcases p.lookahead_cases pc cycle with ⟨_, _, heq⟩ | ⟨e, -, -, -, -, heq⟩
  · rw [heq]
  · rw [heq]

theorem issue_rpt (p : StridePrefetcher) (cycle : Nat) : (p.issue cycle).2.rpt = p.rpt := by
  obtain ⟨_, _, -, -, ⟨-, heq⟩ | ⟨_, _, -, -, -, heq⟩⟩ := p.issue_cases cycle
  · rw [heq]
  · rw [heq]

/-! ## Runs on real program counters -/

/-- The call trains on no program counter that an unused entry carries. -/
def Real : PrefetchCall → Prop
  | .train pc _ => pc ≠ placeholderTag
  | _ => True

/-- A call that does not train keeps the entries. -/
theorem call_rpt {p : StridePrefetcher} {c : PrefetchCall} (h : ∀ pc address, c ≠ .train pc address) :
    ∃ q, p.call c = .ok q ∧ q.rpt = p.rpt := by
  cases c with
  | train pc address => exact absurd rfl (h pc address)
  | lookahead pc cycle => exact ⟨_, rfl, p.lookahead_rpt pc cycle⟩
  | issue cycle => exact ⟨_, rfl, p.issue_rpt cycle⟩
  | putBack pf => exact ⟨_, rfl, rfl⟩

/-- A call on a real program counter returns and keeps the table. -/
theorem Table.call {p : StridePrefetcher} (h : p.Table) {c : PrefetchCall} (hreal : Real c) :
    ∃ q, p.call c = .ok q ∧ q.Table := by
  by_cases htrain : ∃ pc address, c = .train pc address
  · obtain ⟨pc, address, rfl⟩ := htrain
    obtain ⟨q, v, w, promoted, hok, hat, -⟩ := h.train address fun heq => absurd heq hreal
    exact ⟨q, hok, hat.table h⟩
  · obtain ⟨q, hok, hrpt⟩ := call_rpt (p := p) fun pc address heq => htrain ⟨pc, address, heq⟩
    exact ⟨q, hok, h.of_rpt hrpt⟩

theorem Table.run {p : StridePrefetcher} (h : p.Table) {calls : List PrefetchCall}
    (hreal : ∀ c ∈ calls, Real c) : ∃ q, Run StridePrefetcher.call p calls q ∧ q.Table := by
  induction calls generalizing p with
  | nil => exact ⟨p, run_nil.mpr rfl, h⟩
  | cons c calls ih =>
    obtain ⟨q, hok, hq⟩ := h.call (hreal c List.mem_cons_self)
    obtain ⟨r, hrun, hr⟩ := ih hq fun c' hc' => hreal c' (List.mem_cons_of_mem _ hc')
    exact ⟨r, run_cons.mpr ⟨q, hok, hrun⟩, hr⟩

theorem map_way {p : StridePrefetcher} (hlength : p.rpt.length = numRptEntries) {β : Type}
    (f : RptEntry → β) : p.rpt.map f = (List.range numRptEntries).map fun i => f (p.way i) := by
  apply List.ext_getElem
  · simp [hlength]
  · intro i hi hi'
    rw [List.length_map] at hi
    simp [way_eq_getElem hi]

end StridePrefetcher

/-- **The table keeps its invariant.**  After every sequence of calls that trains on
real program counters the `lru` fields are a permutation, each entry carries its own
index, valid entries carry different tags, and there is a victim. -/
theorem table_invariant {calls : List PrefetchCall}
    (hreal : ∀ pc address, .train pc address ∈ calls → pc ≠ 0xdeadbeef) :
    ∃ p, Run StridePrefetcher.call .new calls p ∧
      (p.rpt.map (·.lru)).Perm (List.range numRptEntries) ∧
      p.rpt.map (·.index) = List.range numRptEntries ∧
      p.rpt.Pairwise (fun e f => e.state ≠ .invalid → f.state ≠ .invalid → e.tag ≠ f.tag) ∧
      ∃ victim < numRptEntries, p.victimWay = .ok victim := by
  have hcalls : ∀ c ∈ calls, StridePrefetcher.Real c := by
    intro c hc
    cases c with
    | train pc address => exact hreal pc address hc
    | lookahead pc cycle => trivial
    | issue cycle => trivial
    | putBack pf => trivial
  obtain ⟨p, hrun, h⟩ := StridePrefetcher.table_new.run hcalls
  obtain ⟨victim, hlt, -, hvictim⟩ := h.victimWay
  refine ⟨p, hrun, ?_, ?_, ?_, victim, hlt, hvictim⟩
  · rw [StridePrefetcher.map_way h.length]
    exact h.ranks.perm
  · rw [StridePrefetcher.map_way h.length]
    refine (List.map_congr_left ?_).trans (List.map_id _)
    intro i hi
    exact h.index i (List.mem_range.mp hi)
  · rw [List.pairwise_iff_getElem]
    intro i j hi hj hij hvalid hvalid' heq
    rw [← StridePrefetcher.way_eq_getElem hi] at hvalid heq
    rw [← StridePrefetcher.way_eq_getElem hj] at hvalid' heq
    rw [h.length] at hi hj
    exact absurd (h.distinct i hi j hj hvalid hvalid' heq) hij.ne

/-- Two instructions trained, one of them twice, and a lookahead. -/
theorem table_invariant_twoPcs :
    ∃ p, Run StridePrefetcher.call .new
        [.train 4 64, .lookahead 4 0, .train 8 128, .train 4 128] p ∧
      ∃ victim < numRptEntries, p.victimWay = .ok victim := by
  obtain ⟨p, hrun, -, -, -, hvictim⟩ := @table_invariant
    [.train 4 64, .lookahead 4 0, .train 8 128, .train 4 128] (by
      simp only [List.mem_cons, PrefetchCall.train.injEq]
      rintro pc address (⟨rfl, -⟩ | h | ⟨rfl, -⟩ | ⟨rfl, -⟩ | h)
      · decide
      · cases h
      · decide
      · decide
      · cases h)
  exact ⟨p, hrun, hvictim⟩

/-! ## Loads -/

/-- What the prefetcher is told of a load. -/
structure TrainingLoad where
  pc : Nat
  addr : Nat
  fetchCycle : Nat
  deriving DecidableEq, Repr

/-- The program counter the prefetcher is given. -/
def TrainingLoad.pcKey (l : TrainingLoad) : Nat := l.pc >>> 2

namespace StridePrefetcher

/-- `step` feeds a load: lookahead, then training. -/
def load (p : StridePrefetcher) (l : TrainingLoad) : Except Abort StridePrefetcher :=
  (p.lookahead l.pcKey l.fetchCycle).train l.pcKey l.addr

/-- The program counters that calls trained, in the order of the calls. -/
def trained (calls : List PrefetchCall) : List Nat :=
  calls.filterMap fun
    | .train pc _ => some pc
    | _ => none

/-- Other calls train nothing. -/
theorem trained_of_ne {c : PrefetchCall} (h : ∀ pc address, c ≠ .train pc address)
    (calls : List PrefetchCall) : trained (c :: calls) = trained calls := by
  cases c with
  | train pc address => exact absurd rfl (h pc address)
  | lookahead _ _ => rfl
  | issue _ => rfl
  | putBack _ => rfl

/-- The table after training on the program counters `used`: as long as an entry is
unused the table holds all of them, and the placeholder is none of them. -/
structure Filled (p : StridePrefetcher) (used : List Nat) : Prop where
  table : p.Table
  tags : ∀ i < numRptEntries, (p.way i).state ≠ .invalid → (p.way i).tag ∈ used
  held : ∀ i < numRptEntries, (p.way i).state = .invalid → ∀ tag ∈ used,
    tag ≠ placeholderTag ∧
      ∃ j < numRptEntries, (p.way j).state ≠ .invalid ∧ (p.way j).tag = tag

theorem filled_new : Filled new [] where
  table := table_new
  tags i hi hvalid := by
    rw [way_new hi] at hvalid
    exact absurd rfl hvalid
  held _ _ _ tag htag := by cases htag

namespace Filled

variable {p : StridePrefetcher} {used : List Nat}

theorem of_rpt (h : Filled p used) {q : StridePrefetcher} (heq : q.rpt = p.rpt) :
    Filled q used := by
  obtain ⟨rpt, _⟩ := q
  subst heq
  exact ⟨h.table.of_rpt rfl, h.tags, h.held⟩

/-- The table is full exactly when as many program counters were used as it has
entries. -/
theorem full_iff (h : Filled p used) :
    (∀ i < numRptEntries, (p.way i).state ≠ .invalid) ↔
      numRptEntries ≤ used.toFinset.card := by
  constructor
  · intro hfull
    rw [← Finset.card_range numRptEntries]
    refine Finset.card_le_card_of_injOn (fun i => (p.way i).tag) ?_ ?_
    · intro i hi
      have hi := Finset.mem_range.mp hi
      exact List.mem_toFinset.mpr (h.tags i hi (hfull i hi))
    · intro i hi j hj heq
      have hi := Finset.mem_range.mp hi
      have hj := Finset.mem_range.mp hj
      exact h.table.distinct i hi j hj (hfull i hi) (hfull j hj) heq
  · intro hcard u hu hinvalid
    -- every tag used sits in an entry other than `u`
    have hsub : used.toFinset ⊆
        ((Finset.range numRptEntries).erase u).image fun i => (p.way i).tag := by
      intro tag htag
      obtain ⟨-, j, hj, hvalid, heq⟩ := h.held u hu hinvalid tag (List.mem_toFinset.mp htag)
      refine Finset.mem_image.mpr ⟨j, Finset.mem_erase.mpr ⟨?_, Finset.mem_range.mpr hj⟩, heq⟩
      rintro rfl
      exact hvalid hinvalid
    have hle := (Finset.card_le_card hsub).trans Finset.card_image_le
    rw [Finset.card_erase_of_mem (Finset.mem_range.mpr hu), Finset.card_range] at hle
    have hpos : 0 < numRptEntries := by decide
    omega

/-- Training on the placeholder while an entry is unused finds an unused entry. -/
theorem train_unused (h : Filled p used) {u : Nat} (hu : u < numRptEntries)
    (hinvalid : (p.way u).state = .invalid) (address : Nat) :
    p.train placeholderTag address = .error .prefetchInvalid := by
  unfold StridePrefetcher.train
  split
  case h_1 hfind =>
    have hu' : u < p.rpt.length := by rw [h.table.length]; exact hu
    have hnot := List.findIdx?_eq_none_iff.mp hfind (p.way u) (by
      rw [way_eq_getElem hu']; exact List.getElem_mem hu')
    rw [h.table.unused u hu hinvalid] at hnot
    simp at hnot
  case h_2 v hfind =>
    obtain ⟨hv, htag, -⟩ := List.findIdx?_eq_some_iff_getElem.mp hfind
    rw [← way_eq_getElem hv] at htag
    have htag : (p.way v).tag = placeholderTag := by simpa using htag
    rw [h.table.length] at hv
    have hstate : (p.way v).state = .invalid := by
      by_contra hvalid
      exact (h.held u hu hinvalid _ (h.tags v hv hvalid)).1 htag
    have hgetD : p.rpt.getD v default = p.way v := rfl
    rw [hgetD, RptEntry.train, hstate]
    rfl

/-- Any other training returns. -/
theorem train (h : Filled p used) {pc : Nat} (address : Nat)
    (hpc : pc = placeholderTag → ∀ i < numRptEntries, (p.way i).state ≠ .invalid) :
    ∃ q, p.train pc address = .ok q ∧ Filled q (pc :: used) := by
  obtain ⟨q, v, w, promoted, hok, hat, hcase⟩ := h.table.train address hpc
  refine ⟨q, hok, hat.table h.table, ?_, ?_⟩
  · intro i hi hvalid
    by_cases hne : i = v
    · rw [hne, hat.tag_self]
      exact List.mem_cons_self
    · rw [hat.state_of_ne hi hne] at hvalid
      rw [hat.tag_of_ne hi hne]
      exact List.mem_cons_of_mem _ (h.tags i hi hvalid)
  · intro u hu hinvalid tag htag
    have huv : u ≠ v := fun heq => hat.valid_self (heq ▸ hinvalid)
    rw [hat.state_of_ne hu huv] at hinvalid
    rcases List.mem_cons.mp htag with rfl | htag
    · exact ⟨fun heq => hpc heq u hu hinvalid, v, hat.lt, hat.valid_self, hat.tag_self⟩
    · obtain ⟨hreal, j, hj, hvalid, heq⟩ := h.held u hu hinvalid tag htag
      refine ⟨hreal, j, hj, ?_⟩
      by_cases hjv : j = v
      · -- the entry of a used tag is not the victim: `u` is ranked below it
        rcases hcase with ⟨-, hzero, -⟩ | ⟨hvtag, -⟩
        · have hlt := h.table.unusedFirst u hu j hj hinvalid hvalid
          rw [hjv, hzero] at hlt
          exact absurd hlt (Nat.not_lt_zero _)
        · rw [hjv] at heq ⊢
          exact ⟨hat.valid_self, by rw [hat.tag_self, ← hvtag, heq]⟩
      · rw [hat.state_of_ne hj hjv, hat.tag_of_ne hj hjv]
        exact ⟨hvalid, heq⟩

/-- A training that returned was no early training on the placeholder. -/
theorem full_of_train (h : Filled p used) {q : StridePrefetcher} {pc address : Nat}
    (hok : p.train pc address = .ok q) :
    pc = placeholderTag → ∀ i < numRptEntries, (p.way i).state ≠ .invalid := by
  rintro rfl i hi hinvalid
  rw [h.train_unused hi hinvalid] at hok
  cases hok

theorem of_train (h : Filled p used) {q : StridePrefetcher} {pc address : Nat}
    (hok : p.train pc address = .ok q) : Filled q (pc :: used) := by
  obtain ⟨q', hok', hq'⟩ := h.train address (h.full_of_train hok)
  obtain rfl : q' = q := Except.ok.inj (hok'.symm.trans hok)
  exact hq'

theorem call {earlier : List PrefetchCall} (h : Filled p (trained earlier))
    {q : StridePrefetcher} {c : PrefetchCall} (hok : p.call c = .ok q) :
    Filled q (trained (c :: earlier)) := by
  by_cases htrain : ∃ pc address, c = .train pc address
  · obtain ⟨pc, address, rfl⟩ := htrain
    exact h.of_train hok
  · have hother : ∀ pc address, c ≠ .train pc address :=
      fun pc address heq => htrain ⟨pc, address, heq⟩
    obtain ⟨q', hok', hrpt⟩ := call_rpt (p := p) hother
    obtain rfl : q' = q := Except.ok.inj (hok'.symm.trans hok)
    rw [trained_of_ne hother]
    exact h.of_rpt hrpt

/-- **A program counter that lost its entry** was one of more than there are entries. -/
theorem card_of_forgotten (h : Filled p used) {pc : Nat} (hmem : pc ∈ used)
    (habsent : ∀ i < numRptEntries, (p.way i).tag ≠ pc) :
    numRptEntries < used.toFinset.card := by
  have hfull : ∀ i < numRptEntries, (p.way i).state ≠ .invalid := by
    intro i hi hinvalid
    obtain ⟨-, j, hj, -, heq⟩ := h.held i hi hinvalid pc hmem
    exact habsent j hj heq
  -- the entries have different tags, and none of them is `pc`
  have hle : (Finset.range numRptEntries).card ≤ (used.toFinset.erase pc).card := by
    refine Finset.card_le_card_of_injOn (fun i => (p.way i).tag) ?_ ?_
    · intro i hi
      have hi := Finset.mem_range.mp hi
      exact Finset.mem_erase.mpr
        ⟨habsent i hi, List.mem_toFinset.mpr (h.tags i hi (hfull i hi))⟩
    · intro i hi j hj heq
      have hi := Finset.mem_range.mp hi
      have hj := Finset.mem_range.mp hj
      exact h.table.distinct i hi j hj (hfull i hi) (hfull j hj) heq
  rw [Finset.card_range] at hle
  exact hle.trans_lt (Finset.card_erase_lt_of_mem (List.mem_toFinset.mpr hmem))

/-- A load of the placeholder needs a full table; every other load returns. -/
theorem load (h : Filled p used) (l : TrainingLoad) :
    if l.pcKey = placeholderTag ∧ used.toFinset.card < numRptEntries then
      p.load l = .error .prefetchInvalid
    else ∃ q, p.load l = .ok q ∧ Filled q (l.pcKey :: used) := by
  have hahead : Filled (p.lookahead l.pcKey l.fetchCycle) used :=
    h.of_rpt (p.lookahead_rpt l.pcKey l.fetchCycle)
  split
  case isTrue hfails =>
    obtain ⟨hpc, hcard⟩ := hfails
    have hnot : ¬ ∀ i < numRptEntries,
        ((p.lookahead l.pcKey l.fetchCycle).way i).state ≠ .invalid := by
      rw [hahead.full_iff]
      omega
    push Not at hnot
    obtain ⟨u, hu, hinvalid⟩ := hnot
    have herror := hahead.train_unused hu hinvalid l.addr
    rwa [← hpc] at herror
  case isFalse hreturns =>
    refine hahead.train l.addr ?_
    intro hpc
    rw [hahead.full_iff]
    by_contra hcard
    exact hreturns ⟨hpc, by omega⟩

/-- After a run of loads their program counters were used. -/
theorem run_loads {loads : List TrainingLoad} {q : StridePrefetcher}
    (hrun : Run StridePrefetcher.load new loads q) :
    Filled q (loads.map (·.pcKey)).reverse := by
  induction loads using List.reverseRecOn generalizing q with
  | nil => exact run_nil.mp hrun ▸ filled_new
  | append_singleton loads l ih =>
    obtain ⟨u, hrun, hl⟩ := run_concat.mp hrun
    have hload := (ih hrun).load l
    split at hload
    · rw [hl] at hload
      cases hload
    · obtain ⟨q', hl', hq'⟩ := hload
      obtain rfl : q = q' := Except.ok.inj (hl.symm.trans hl')
      simpa using hq'

end Filled

/-- Every state that a run reaches is filled by its trainings. -/
theorem filled_of_run {calls : List PrefetchCall} {p : StridePrefetcher}
    (hrun : Run StridePrefetcher.call new calls p) : Filled p (trained calls.reverse) := by
  induction calls using List.reverseRecOn generalizing p with
  | nil => exact run_nil.mp hrun ▸ filled_new
  | append_singleton calls c ih =>
    obtain ⟨u, hfront, hok⟩ := run_concat.mp hrun
    rw [List.reverse_append, List.reverse_singleton, List.singleton_append]
    exact (ih hfront).call hok

/-- Every state that a run reaches has a table. -/
theorem table_of_run {calls : List PrefetchCall} {p : StridePrefetcher}
    (hrun : Run StridePrefetcher.call new calls p) : p.Table := (filled_of_run hrun).table

end StridePrefetcher

/-- Every load whose shifted program counter is the placeholder comes after loads of
as many different program counters as the table has entries. -/
def PlaceholderLate (loads : List TrainingLoad) : Prop :=
  ∀ front l back, loads = front ++ l :: back → l.pcKey = placeholderTag →
    numRptEntries ≤ (front.map (·.pcKey)).toFinset.card

/-- **Training fails exactly on an early placeholder.**  A sequence of loads meets no
assertion of `train` exactly when the program counter that unused entries carry is
trained only on a full table. -/
theorem loads_return_iff (loads : List TrainingLoad) :
    (∃ p, Run StridePrefetcher.load .new loads p) ↔ PlaceholderLate loads := by
  constructor
  · rintro ⟨p, hrun⟩ front l back rfl hpc
    obtain ⟨u, hfront, hrest⟩ := run_append.mp hrun
    obtain ⟨q, hl, -⟩ := run_cons.mp hrest
    have hload := (StridePrefetcher.Filled.run_loads hfront).load l
    by_contra hearly
    rw [if_pos ⟨hpc, by rw [List.toFinset_reverse]; omega⟩, hl] at hload
    cases hload
  · intro hlate
    cases hrun : loads.foldlM StridePrefetcher.load .new with
    | ok p => exact ⟨p, hrun⟩
    | error e =>
      obtain ⟨front, l, back, u, heq, hfront, herror⟩ := foldlM_eq_error.mp hrun
      have hload := (StridePrefetcher.Filled.run_loads hfront).load l
      split at hload
      · rename_i hfails
        have hcard := hlate front l back heq hfails.1
        rw [List.toFinset_reverse] at hfails
        omega
      · obtain ⟨q, hok, -⟩ := hload
        rw [hok] at herror
        cases herror

/-- The first load of a run, at a program counter that shifts to the placeholder. -/
def placeholderLoad : TrainingLoad := { pc := 0x37ab6fbbc, addr := 0, fetchCycle := 0 }

/-- It aborts. -/
theorem placeholder_load_aborts :
    placeholderLoad.pc < 2 ^ 64 ∧
      StridePrefetcher.load .new placeholderLoad = .error .prefetchInvalid ∧
      ¬ ∃ p, Run StridePrefetcher.load .new [placeholderLoad] p := by
  have herror : StridePrefetcher.load .new placeholderLoad = .error .prefetchInvalid := by
    decide +kernel
  refine ⟨by decide, herror, ?_⟩
  rintro ⟨p, hrun⟩
  obtain ⟨q, hok, -⟩ := run_cons.mp hrun
  rw [herror] at hok
  cases hok

end CbpSim.Memory
