/-
  Memory/Strides.lean --- constant strides are learned and kept.

  Source: src/lib/stride_prefetcher.h, `train`, `lookahead` and `generate`.

  The stride of an instruction settles in three trainings, and each of them makes
  its entry the one used last.  Until the next one the entry is a victim only after
  every other entry was given to, or used by, a program counter of its own.
-/
import CbpSim.Memory.PrefetchTable

set_option autoImplicit false

namespace CbpSim.Memory

open CbpSim.Foundation
open CbpSim.Foundation.Ranks (KeptSince)

/-! ## Strided calls -/

/-- The program counters that the calls train. -/
def trainedPcs (calls : List PrefetchCall) : List Nat :=
  calls.filterMap fun
    | .train pc _ => some pc
    | _ => none

/-- Calls between two trainings of `pc`: they train fewer other program counters
than the table has entries, and no placeholder. -/
structure Gap (pc : Nat) (gap : List PrefetchCall) : Prop where
  others : ∀ other ∈ trainedPcs gap, other ≠ pc ∧ other ≠ placeholderTag
  few : (trainedPcs gap).toFinset.card ≤ numRptEntries - 1

/-- Trainings of `pc` at `a`, `a + s`, `a + 2 * s`, …, a gap after each. -/
def strided (pc s : Nat) : Nat → List (List PrefetchCall) → List PrefetchCall
  | _, [] => []
  | a, gap :: gaps => .train pc a :: gap ++ strided pc s ((a + s) % 2 ^ 64) gaps

/-- The state and the stride of an entry after its `n`-th training. -/
def stage (s : Nat) : Nat → PrefetcherState × Nat
  | 0 => (.invalid, 0)
  | 1 => (.initial, 0)
  | 2 => (.transient, s)
  | _ => (.steadyState, s)

/-- The entry `e` has seen `n` trainings at addresses `s` apart, the last at
`address`. -/
structure RptEntry.Follows (e : RptEntry) (s n address : Nat) : Prop where
  address : e.currentAddress = address
  stage : (e.state, e.stride) = stage s n

/-- The stride found between two addresses `s` apart. -/
theorem stride_eq {s : Nat} (a : Nat) (hs : s < 2 ^ 64) :
    ((a + s) % 2 ^ 64 + (2 ^ 64 - a % 2 ^ 64)) % 2 ^ 64 = s := by
  omega

/-- One more training at the same distance is one more stage. -/
theorem RptEntry.Follows.train {e w : RptEntry} {s n a : Nat} (h : e.Follows s (n + 1) a)
    (hs : s < 2 ^ 64) (hs' : s ≠ 0)
    (hw : e.train ((a + s) % 2 ^ 64) = .ok w) : w.Follows s (n + 2) ((a + s) % 2 ^ 64) := by
  obtain ⟨haddress, hstage⟩ := h
  unfold RptEntry.train at hw
  simp only [haddress, stride_eq a hs] at hw
  match n, hstage with
  | 0, hstage =>
    obtain ⟨hstate, hstride⟩ := Prod.mk.inj hstage
    simp only [hstate, hstride, beq_eq_false_iff_ne.mpr hs', Bool.false_eq_true, if_false] at hw
    cases hw
    exact ⟨rfl, rfl⟩
  | 1, hstage =>
    obtain ⟨hstate, hstride⟩ := Prod.mk.inj hstage
    simp only [hstate, hstride, beq_self_eq_true, if_true] at hw
    cases hw
    exact ⟨rfl, rfl⟩
  | n + 2, hstage =>
    obtain ⟨hstate, hstride⟩ := Prod.mk.inj hstage
    simp only [hstate, hstride, beq_self_eq_true, if_true] at hw
    cases hw
    exact ⟨rfl, rfl⟩

namespace StridePrefetcher

/-- The table holds an entry of `pc` that has seen `n` trainings; the entries used
since carry tags of `used`. -/
structure Learning (p : StridePrefetcher) (pc s n address : Nat) (used : List Nat) : Prop where
  table : p.Table
  entry : ∃ v < numRptEntries, (p.way v).tag = pc ∧ (p.way v).state ≠ .invalid ∧
    (p.way v).Follows s n address ∧ KeptSince numRptEntries p.rank (fun i => (p.way i).tag) v used

namespace Learning

variable {p : StridePrefetcher} {pc s n address : Nat} {used : List Nat}

theorem of_rpt (h : Learning p pc s n address used) {q : StridePrefetcher}
    (heq : q.rpt = p.rpt) : Learning q pc s n address used := by
  obtain ⟨rpt, _⟩ := q
  subst heq
  exact ⟨h.table.of_rpt rfl, h.entry⟩

/-- An entry that was promoted starts over: none was used since. -/
theorem of_promoted {q : StridePrefetcher} {u : Nat} {w : RptEntry} (hp : p.Table)
    (hat : TrainedAt p q pc u w true) (hfollows : w.Follows s n address) :
    Learning q pc s n address [] := by
  have hway := hat.way u hat.lt
  rw [if_pos rfl] at hway
  refine ⟨hat.table hp, u, hat.lt, hat.tag_self, hat.valid_self, ?_, ?_⟩
  · rw [hway]
    exact ⟨hfollows.address, hfollows.stage⟩
  · exact (KeptSince.promoted hp.ranks hat.lt).congr hat.lt (fun i hi => hat.rank_promoted hi)
      fun _ _ => rfl

/-- Training another program counter: the entry stays, since it is the victim only
when all others were used. -/
theorem trainOther (h : Learning p pc s n address used) {other : Nat} (hother : other ≠ pc)
    (hreal : other ≠ placeholderTag) (hused : ∀ tag ∈ used, tag ≠ placeholderTag)
    (hfew : (other :: used).toFinset.card ≤ numRptEntries - 1) (addr : Nat) :
    ∃ q, p.train other addr = .ok q ∧ Learning q pc s n address (other :: used) := by
  obtain ⟨v, hv, htag, hvalid, hfollows, hkept⟩ := h.entry
  obtain ⟨q, u, w, promoted, hok, hat, hcase⟩ :=
    h.table.train addr fun heq => absurd heq hreal
  have hvu : v ≠ u := by
    rintro rfl
    rcases hcase with ⟨hmiss, hzero, -⟩ | ⟨hutag, -⟩
    · -- all others were used since, and hold different tags
      have hall := hkept.le_card h.table.ranks hv hzero (a := other) (by
        intro i hi j hj hne hne' heq
        have hpos : ∀ k < numRptEntries, k ≠ v → (p.way k).state ≠ .invalid := by
          intro k hk hkv hinvalid
          have hrank := h.table.ranks.ne hk hv hkv
          exact hused _ (hkept k hk (by omega)) (h.table.unused k hk hinvalid)
        exact h.table.distinct i hi j hj (hpos i hi hne) (hpos j hj hne') heq) hmiss
      have : 0 < numRptEntries := by decide
      omega
    · exact hother (hutag.symm.trans htag)
  have hway := hat.way v hv
  rw [if_neg hvu] at hway
  refine ⟨q, hok, hat.table h.table, v, hv, ?_, ?_, ?_, ?_⟩
  · rw [hway]
    exact htag
  · rw [hway]
    exact hvalid
  · rw [hway]
    exact ⟨hfollows.address, hfollows.stage⟩
  · cases hprom : promoted with
    | true =>
      rw [hprom] at hat
      have htags : ∀ i < numRptEntries, (q.way i).tag = if i = u then other else (p.way i).tag := by
        intro i hi
        split
        · rename_i heq
          rw [heq, hat.tag_self]
        · rename_i hne
          exact hat.tag_of_ne hi hne
      have hkept' : KeptSince numRptEntries (Ranks.promote numRptEntries p.rank u)
          (fun i => if i = u then other else (p.way i).tag) v
          ((if u = u then other else (p.way u).tag) :: used) :=
        hkept.other h.table.ranks hv hat.lt hvu fun i hi => if_neg hi
      rw [if_pos rfl] at hkept'
      exact hkept'.congr hv (fun i hi => hat.rank_promoted hi) htags
    | false =>
      have hrank : ∀ i < numRptEntries, q.rank i = p.rank i := by
        intro i hi
        rw [hat.rank_eq hi, hprom]
        rfl
      have htags : ∀ i < numRptEntries, (q.way i).tag = (p.way i).tag := by
        intro i hi
        by_cases hne : i = u
        · rcases hcase with ⟨-, -, htrue, -⟩ | ⟨hutag, -⟩
          · rw [hprom] at htrue
            cases htrue
          · rw [hne, hat.tag_self, hutag]
        · exact hat.tag_of_ne hi hne
      exact (hkept.mono other).congr hv hrank htags

/-- One call of a gap. -/
theorem callOther (h : Learning p pc s n address used) {c : PrefetchCall}
    (hothers : ∀ other ∈ trainedPcs [c], other ≠ pc ∧ other ≠ placeholderTag)
    (hused : ∀ tag ∈ used, tag ≠ placeholderTag)
    (hfew : (trainedPcs [c] ++ used).toFinset.card ≤ numRptEntries - 1) :
    ∃ q, p.call c = .ok q ∧ Learning q pc s n address (trainedPcs [c] ++ used) := by
  by_cases htrain : ∃ other addr, c = .train other addr
  · obtain ⟨other, addr, rfl⟩ := htrain
    obtain ⟨hne, hreal⟩ := hothers other List.mem_cons_self
    exact h.trainOther hne hreal hused hfew addr
  · have hpcs : trainedPcs [c] = [] := by
      cases c with
      | train other addr => exact absurd ⟨other, addr, rfl⟩ htrain
      | lookahead _ _ => rfl
      | issue _ => rfl
      | putBack _ => rfl
    obtain ⟨q, hok, hrpt⟩ := call_rpt (p := p) fun other addr heq => htrain ⟨other, addr, heq⟩
    rw [hpcs]
    exact ⟨q, hok, h.of_rpt hrpt⟩

theorem trainedPcs_cons (c : PrefetchCall) (calls : List PrefetchCall) :
    trainedPcs (c :: calls) = trainedPcs [c] ++ trainedPcs calls :=
  List.filterMap_append (l := [c]) ..

/-- The calls of a gap, one after another. -/
theorem runOthers (h : Learning p pc s n address used) {gap : List PrefetchCall}
    (hothers : ∀ other ∈ trainedPcs gap, other ≠ pc ∧ other ≠ placeholderTag)
    (hused : ∀ tag ∈ used, tag ≠ placeholderTag)
    (hfew : (trainedPcs gap ++ used).toFinset.card ≤ numRptEntries - 1) :
    ∃ q used', Run StridePrefetcher.call p gap q ∧ Learning q pc s n address used' := by
  induction gap generalizing p used with
  | nil => exact ⟨p, used, run_nil.mpr rfl, h⟩
  | cons c gap ih =>
    rw [trainedPcs_cons] at hothers hfew
    have hothers' : ∀ other ∈ trainedPcs [c], other ≠ pc ∧ other ≠ placeholderTag :=
      fun other hmem => hothers other (List.mem_append_left _ hmem)
    have hsub : (trainedPcs [c] ++ used).toFinset ⊆
        (trainedPcs [c] ++ trainedPcs gap ++ used).toFinset := by
      intro tag
      simp only [List.mem_toFinset, List.mem_append]
      tauto
    obtain ⟨q, hok, hq⟩ := h.callOther hothers' hused ((Finset.card_le_card hsub).trans hfew)
    obtain ⟨r, used', hrun, hr⟩ := ih hq
      (fun other hmem => hothers other (List.mem_append_right _ hmem))
      (by
        intro tag hmem
        rcases List.mem_append.mp hmem with hmem | hmem
        · exact (hothers' tag hmem).2
        · exact hused tag hmem)
      (by
        rw [← List.append_assoc]
        refine le_trans (Finset.card_le_card ?_) hfew
        intro tag
        simp only [List.mem_toFinset, List.mem_append]
        tauto)
    exact ⟨r, used', run_cons.mpr ⟨q, hok, hrun⟩, hr⟩

/-- The next training of the program counter itself. -/
theorem trainSelf (h : Learning p pc s (n + 1) address used) (hpc : pc ≠ placeholderTag)
    (hs : s < 2 ^ 64) (hs' : s ≠ 0) :
    ∃ q, p.train pc ((address + s) % 2 ^ 64) = .ok q ∧
      Learning q pc s (n + 2) ((address + s) % 2 ^ 64) [] := by
  obtain ⟨v, hv, htag, hvalid, hfollows, -⟩ := h.entry
  obtain ⟨q, u, w, promoted, hok, hat, hcase⟩ :=
    h.table.train ((address + s) % 2 ^ 64) fun heq => absurd heq hpc
  rcases hcase with ⟨hmiss, -⟩ | ⟨hutag, huvalid, hw, hprom⟩
  · exact absurd htag (hmiss v hv)
  · obtain rfl : u = v :=
      h.table.distinct u hat.lt v hv huvalid hvalid (hutag.trans htag.symm)
    have hnext := hfollows.train hs hs' hw
    have hstride : w.stride ≠ 0 := by
      have hstage := (Prod.mk.inj hnext.stage).2
      cases n with
      | zero => exact hstage ▸ hs'
      | succ n => exact hstage ▸ hs'
    rw [hprom, decide_eq_true hstride] at hat
    exact ⟨q, hok, of_promoted h.table hat hnext⟩

/-- The first training of a program counter that is in no entry. -/
theorem first {p : StridePrefetcher} {pc s address : Nat} (h : p.Table)
    (hpc : pc ≠ placeholderTag) (hnew : p.findTag pc = none) :
    ∃ q, p.train pc address = .ok q ∧ Learning q pc s 1 address [] := by
  obtain ⟨q, u, w, promoted, hok, hat, hcase⟩ := h.train address fun heq => absurd heq hpc
  rcases hcase with ⟨-, -, hprom, hstate, haddress, hstride⟩ | ⟨hutag, -⟩
  · rw [hprom] at hat
    exact ⟨q, hok, of_promoted h hat ⟨haddress, Prod.ext hstate hstride⟩⟩
  · have hu : u < p.rpt.length := by rw [h.length]; exact hat.lt
    have hnot := List.find?_eq_none.mp hnew (p.way u) (by
      rw [way_eq_getElem hu]; exact List.getElem_mem hu)
    exact absurd hutag (by simpa using hnot)

/-- A lookup finds the entry. -/
theorem findTag (h : Learning p pc s n address used) (hpc : pc ≠ placeholderTag) :
    ∃ e, p.findTag pc = some e ∧ e.Follows s n address := by
  obtain ⟨v, hv, htag, hvalid, hfollows, -⟩ := h.entry
  have hv' : v < p.rpt.length := by rw [h.table.length]; exact hv
  unfold StridePrefetcher.findTag
  cases hfind : p.rpt.find? fun e => e.tag == pc with
  | none =>
    have hnot := List.find?_eq_none.mp hfind (p.way v) (by
      rw [way_eq_getElem hv']; exact List.getElem_mem hv')
    exact absurd htag (by simpa using hnot)
  | some e =>
    obtain ⟨u, hu, rfl⟩ := exists_way (List.mem_of_find?_eq_some hfind)
    rw [h.table.length] at hu
    have hutag : (p.way u).tag = pc := by simpa using List.find?_some hfind
    have huvalid : (p.way u).state ≠ .invalid :=
      fun hinvalid => hpc (hutag.symm.trans (h.table.unused u hu hinvalid))
    obtain rfl : u = v := h.table.distinct u hu v hv huvalid hvalid (hutag.trans htag.symm)
    exact ⟨_, rfl, hfollows⟩

/-- The rounds after the first. -/
theorem rounds (h : Learning p pc s (n + 1) address used) (hpc : pc ≠ placeholderTag)
    (hs : s < 2 ^ 64) (hs' : s ≠ 0) {gaps : List (List PrefetchCall)}
    (hgaps : ∀ gap ∈ gaps, Gap pc gap) :
    ∃ q used', Run StridePrefetcher.call p (strided pc s ((address + s) % 2 ^ 64) gaps) q ∧
      Learning q pc s (n + 1 + gaps.length)
        (if gaps = [] then address else (address + gaps.length * s) % 2 ^ 64) used' := by
  induction gaps generalizing p n address used with
  | nil => exact ⟨p, used, run_nil.mpr rfl, h⟩
  | cons gap gaps ih =>
    obtain ⟨q, hok, hq⟩ := h.trainSelf hpc hs hs'
    have hgap := hgaps gap List.mem_cons_self
    obtain ⟨r, used', hrun, hr⟩ := hq.runOthers hgap.others (by simp)
      (by rw [List.append_nil]; exact hgap.few)
    obtain ⟨t, used'', hrest, ht⟩ := ih hr fun g hg => hgaps g (List.mem_cons_of_mem _ hg)
    refine ⟨t, used'', ?_, ?_⟩
    · rw [strided, List.cons_append]
      exact run_cons.mpr ⟨q, hok, run_append.mpr ⟨r, hrun, hrest⟩⟩
    · have hcount : n + 1 + 1 + gaps.length = n + 1 + (gap :: gaps).length := by
        rw [List.length_cons]; omega
      have haddress : (if gaps = [] then (address + s) % 2 ^ 64
          else ((address + s) % 2 ^ 64 + gaps.length * s) % 2 ^ 64) =
          (address + (gap :: gaps).length * s) % 2 ^ 64 := by
        rw [List.length_cons, Nat.add_mul, Nat.one_mul]
        split
        · rename_i hnil
          simp [hnil]
        · rw [Nat.mod_add_mod]
          congr 1
          omega
      rw [hcount, haddress] at ht
      rwa [if_neg (by simp)]

end Learning

/-- A lookahead of a steady entry requests the address two strides on. -/
theorem lookahead_steady {p : StridePrefetcher} {pc : Nat} {e : RptEntry}
    (hfind : p.findTag pc = some e) (hstate : e.state = .steadyState) (hstride : e.stride ≠ 0)
    (cycle : Nat) :
    p.lookahead pc cycle =
      if p.Pending (request e cycle) then
        { p with statDuplicatePfFiltered := p.statDuplicatePfFiltered + 1 }
      else
        { p with
          queue := (p.queue ++ [request e cycle]).insertionSort Prefetch.older
          statGenerated := p.statGenerated + 1 } := by
  rw [lookahead, hfind]
  dsimp only
  rw [if_pos hstate, generate_eq p hstride]

end StridePrefetcher

/-- **Constant strides are learned and kept.**  From any reachable state without an
entry of `pc`, let `pc` be trained at addresses `s` apart with fewer other program
counters than entries in each gap.  At the end of every such sequence the table holds
`pc`; from the third training on its entry is steady with stride `s`, and a lookahead
requests the address two strides on, unless its line is pending. -/
theorem strides_learned {before : List PrefetchCall} {p : StridePrefetcher}
    (hreach : Run StridePrefetcher.call .new before p) {pc a s : Nat}
    (hpc : pc ≠ 0xdeadbeef) (hnew : p.findTag pc = none)
    (ha : a < 2 ^ 64) (hs : s < 2 ^ 64) (hs' : s ≠ 0)
    {gaps : List (List PrefetchCall)} (hne : gaps ≠ []) (hgaps : ∀ gap ∈ gaps, Gap pc gap) :
    ∃ q e, Run StridePrefetcher.call p (strided pc s a gaps) q ∧ q.findTag pc = some e ∧
      e.currentAddress = (a + (gaps.length - 1) * s) % 2 ^ 64 ∧
      (3 ≤ gaps.length → e.state = .steadyState ∧ e.stride = s ∧
        ∀ cycle, ∃ pf : Prefetch, pf.address = (e.currentAddress + 2 * s) % 2 ^ 64 ∧
          pf.cycleGenerated = cycle ∧
          q.lookahead pc cycle =
            if q.Pending pf then
              { q with statDuplicatePfFiltered := q.statDuplicatePfFiltered + 1 }
            else
              { q with
                queue := (q.queue ++ [pf]).insertionSort Prefetch.older
                statGenerated := q.statGenerated + 1 }) := by
  cases gaps with
  | nil => exact absurd rfl hne
  | cons gap gaps =>
    obtain ⟨p₁, hok, h₁⟩ : ∃ q, p.train pc a = .ok q ∧
        StridePrefetcher.Learning q pc s 1 a [] :=
      StridePrefetcher.Learning.first (StridePrefetcher.table_of_run hreach) hpc hnew
    have hgap := hgaps gap List.mem_cons_self
    obtain ⟨p₂, used, hrun, h₂⟩ := h₁.runOthers hgap.others (by simp)
      (by rw [List.append_nil]; exact hgap.few)
    obtain ⟨q, used', hrest, hq⟩ := h₂.rounds hpc hs hs'
      fun g hg => hgaps g (List.mem_cons_of_mem _ hg)
    obtain ⟨e, hfind, haddress, hstage⟩ := hq.findTag hpc
    refine ⟨q, e, ?_, hfind, ?_, ?_⟩
    · rw [strided, List.cons_append]
      exact run_cons.mpr ⟨p₁, hok, run_append.mpr ⟨p₂, hrun, hrest⟩⟩
    · rw [haddress, List.length_cons, Nat.add_sub_cancel]
      split
      · rename_i hnil
        rw [hnil, List.length_nil, Nat.zero_mul, Nat.add_zero, Nat.mod_eq_of_lt ha]
      · rfl
    · intro hthree
      obtain ⟨n, hn⟩ : ∃ n, 0 + 1 + gaps.length = n + 3 := by
        rw [List.length_cons] at hthree
        exact ⟨gaps.length - 2, by omega⟩
      rw [hn] at hstage
      obtain ⟨hstate, hstride⟩ := Prod.mk.inj hstage
      refine ⟨hstate, hstride, fun cycle => ⟨StridePrefetcher.request e cycle, ?_, rfl, ?_⟩⟩
      · rw [StridePrefetcher.request, hstride, prefetchMultiplier, Nat.mul_comm]
      · exact StridePrefetcher.lookahead_steady hfind hstate (by rw [hstride]; exact hs') cycle

/-- Three trainings with a stride of one line, another instruction in between. -/
theorem strides_learned_threeRounds :
    ∃ q e, Run StridePrefetcher.call .new (strided 4 64 0 [[], [.train 8 4096], []]) q ∧
      q.findTag 4 = some e ∧ e.currentAddress = 128 ∧ e.state = .steadyState ∧ e.stride = 64 := by
  obtain ⟨q, e, hrun, hfind, haddress, hsteady⟩ :=
    @strides_learned [] .new (run_nil.mpr rfl) 4 0 64 (by decide) (by decide +kernel) (by decide)
      (by decide) (by decide) [[], [.train 8 4096], []] (by decide) (by
        intro gap hgap
        simp only [List.mem_cons, List.not_mem_nil, or_false] at hgap
        rcases hgap with rfl | rfl | rfl
        · exact ⟨by simp [trainedPcs], by decide⟩
        · exact ⟨by simp [trainedPcs, placeholderTag], by decide⟩
        · exact ⟨by simp [trainedPcs], by decide⟩)
  obtain ⟨hstate, hstride, -⟩ := hsteady (by decide)
  exact ⟨q, e, hrun, hfind, haddress, hstate, hstride⟩

end CbpSim.Memory
