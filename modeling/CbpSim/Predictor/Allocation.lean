/-
  Predictor/Allocation.lean --- what an update changes of the tagged tables.

  Source: src/cbp2016_tage_sc_l.h, the allocation and the prediction counters of
  `update`.

  The loop tries the banks of later and later pairs, each bank once.  Since no two of
  them share an entry, the entry that it finds is the one from before the update, and
  what it makes of it is what the update leaves, up to the ageing.
-/
import CbpSim.Predictor.Interleaving

set_option autoImplicit false

namespace CbpSim.Predictor

open CbpSim.Foundation

/-! ## The entry of a bank -/

/-- Place `i` of the table of `bank` is the entry of bank `b`. -/
def Lookup.IsEntry (l : Lookup) (b bank i : Nat) : Prop := SameTable bank b ∧ i = l.gi b

/-- The pair that a bank is in: the two have one history length. -/
def bankPair (bank : Nat) : Nat := (bank + 1) / 2

/-- An entry that is given to the branch. -/
def GEntry.renew (e : GEntry) (l : Lookup) (resolveDir : Bool) (bank : Nat) : GEntry :=
  { e with tag := l.gtag bank, ctr := if resolveDir then 0 else -1 }

/-- An entry that is kept, but trusted less. -/
def GEntry.weaken (e : GEntry) : GEntry :=
  { e with ctr := if e.ctr > 0 then e.ctr - 1 else e.ctr + 1 }

theorem GEntry.weaken_strength {e : GEntry} (h : 3 < e.strength) :
    e.weaken.strength + 2 = e.strength := by
  unfold GEntry.weaken GEntry.strength at *
  dsimp only
  split <;> omega

/-- An entry that the allocation may take. -/
def GEntry.Free (e : GEntry) : Prop := e.u = 0 ∧ e.strength ≤ 3

/-- Later pairs have longer histories. -/
theorem histLength_lt_of_bankPair {i j : Nat} (hi : 0 < i) (hj : j ≤ nHist)
    (h : bankPair i < bankPair j) : histLength i < histLength j := by
  have hall : ∀ i ≤ nHist, ∀ j ≤ nHist, 0 < i → bankPair i < bankPair j →
      histLength i < histLength j := by decide +kernel
  have hle : i ≤ nHist := by
    unfold bankPair at h
    omega
  exact hall i hle j hj hi h

namespace Tables

/-- Banks of one table. -/
theorem gtable_congr (t : Tables) {bank bank' : Nat} (h : SameTable bank bank') (i : Nat) :
    t.gtable bank i = t.gtable bank' i := by
  unfold gtable
  by_cases hlow : bank < born
  · rw [if_pos hlow, if_pos (h.mp hlow)]
  · rw [if_neg hlow, if_neg fun hlow' => hlow (h.mpr hlow')]

/-- A write of what is there. -/
theorem setGtable_gtable (t : Tables) (bank i : Nat) :
    t.setGtable bank i (t.gtable bank i) = t := by
  unfold setGtable gtable
  by_cases hlow : bank < born
  · rw [if_pos hlow, if_pos hlow, Function.update_eq_self]
  · rw [if_neg hlow, if_neg hlow, Function.update_eq_self]

@[simp] theorem tick_setGtable (t : Tables) (bank i : Nat) (e : GEntry) :
    (t.setGtable bank i e).tick = t.tick := by
  unfold setGtable
  split
  · rfl
  · rfl

end Tables

/-! ## The body of the loop -/

/-- What the body does with a bank. -/
theorem Alloc.tryBank_cases (a : Alloc) (l : Lookup) (resolveDir : Bool) (bank : Nat) :
    let e := a.tables.gtable bank (l.gi bank)
    let write := fun e => a.tables.setGtable bank (l.gi bank) e
    noSkip bank = false ∧ a.tryBank l resolveDir bank = a ∨
      noSkip bank = true ∧
        (e.u ≠ 0 ∧ a.tryBank l resolveDir bank = { a with penalty := a.penalty + 1 } ∨
        e.Free ∧ a.t ≤ 0 ∧ a.tryBank l resolveDir bank =
          { a with tables := write (e.renew l resolveDir bank), na := a.na + 1, stop := true } ∨
        e.Free ∧ 0 < a.t ∧ a.tryBank l resolveDir bank =
          { a with
            tables := write (e.renew l resolveDir bank)
            na := a.na + 1
            i := a.i + 2
            done := true
            t := a.t - 1 } ∨
        e.u = 0 ∧ 3 < e.strength ∧
          a.tryBank l resolveDir bank = { a with tables := write e.weaken }) := by
  dsimp only
  unfold Alloc.tryBank
  cases hskip : noSkip bank with
  | false => exact Or.inl ⟨rfl, rfl⟩
  | true =>
    refine Or.inr ⟨rfl, ?_⟩
    rw [if_neg (by decide)]
    dsimp only
    by_cases hu : (a.tables.gtable bank (l.gi bank)).u = 0
    · rw [if_neg (by simpa using hu)]
      by_cases hweak : (a.tables.gtable bank (l.gi bank)).strength ≤ 3
      · rw [if_pos hweak]
        by_cases ht : a.t ≤ 0
        · exact Or.inr (Or.inl ⟨⟨hu, hweak⟩, ht, if_pos ht⟩)
        · exact Or.inr (Or.inr (Or.inl ⟨⟨hu, hweak⟩, Int.not_le.mp ht, if_neg ht⟩))
      · exact Or.inr (Or.inr (Or.inr ⟨hu, Nat.not_le.mp hweak, if_neg hweak⟩))
    · exact Or.inl ⟨hu, if_pos (by simpa using hu)⟩

/-! ## The loop -/

section Loop

variable {l : Lookup} {resolveDir : Bool} {t : Tables}

/-- What the loop has made of the tables: it has tried the banks of `visited` and given
those of `allocated` to the branch. -/
structure Entries (l : Lookup) (resolveDir : Bool) (t : Tables) (visited allocated : List Nat)
    (t' : Tables) : Prop where
  active : ∀ b ∈ visited, Active b
  nodup : visited.Nodup ∧ allocated.Nodup
  taken : ∀ b ∈ allocated, b ∈ visited ∧ (t.gtable b (l.gi b)).Free ∧
    t'.gtable b (l.gi b) = (t.gtable b (l.gi b)).renew l resolveDir b
  left : ∀ b ∈ visited, b ∉ allocated → t'.gtable b (l.gi b) = t.gtable b (l.gi b) ∨
    (t.gtable b (l.gi b)).u = 0 ∧ 3 < (t.gtable b (l.gi b)).strength ∧
      t'.gtable b (l.gi b) = (t.gtable b (l.gi b)).weaken
  others : ∀ bank i, (∀ b ∈ visited, ¬ l.IsEntry b bank i) → t'.gtable bank i = t.gtable bank i
  tick : t'.tick = t.tick

namespace Entries

variable {visited allocated : List Nat} {t' : Tables} {bank : Nat}

theorem nil (l : Lookup) (resolveDir : Bool) (t : Tables) : Entries l resolveDir t [] [] t where
  active _ hb := absurd hb List.not_mem_nil
  nodup := ⟨List.nodup_nil, List.nodup_nil⟩
  taken _ hb := absurd hb List.not_mem_nil
  left _ hb := absurd hb List.not_mem_nil
  others _ _ _ := rfl
  tick := rfl

/-- A bank that was not tried has its entry from before. -/
theorem fresh (h : Entries l resolveDir t visited allocated t') (hl : l.Matched)
    (hbank : Active bank) (hnew : bank ∉ visited) :
    t'.gtable bank (l.gi bank) = t.gtable bank (l.gi bank) := by
  apply h.others
  rintro b hb ⟨hsame, hgi⟩
  have hne : bank ≠ b := fun heq => hnew (heq ▸ hb)
  exact hl.interleaved bank b hbank (h.active b hb) hsame hne hgi

/-- A write to the entry of a bank that was not tried. -/
theorem write (h : Entries l resolveDir t visited allocated t') (hl : l.Matched)
    (hbank : Active bank) (hnew : bank ∉ visited) (e : GEntry) :
    (∀ b ∈ visited,
      (t'.setGtable bank (l.gi bank) e).gtable b (l.gi b) = t'.gtable b (l.gi b)) ∧
    (∀ bank' i, (∀ b ∈ bank :: visited, ¬ l.IsEntry b bank' i) →
      (t'.setGtable bank (l.gi bank) e).gtable bank' i = t.gtable bank' i) ∧
    (t'.setGtable bank (l.gi bank) e).tick = t.tick := by
  refine ⟨?_, ?_, ?_⟩
  · intro b hb
    exact KeepsOthers.setGtable hl.interleaved hbank t' e b (h.active b hb)
      fun heq => hnew (heq ▸ hb)
  · intro bank' i hnone
    have hnot : ¬ l.IsEntry bank bank' i := hnone bank List.mem_cons_self
    rw [Tables.gtable_setGtable_of_ne _ _ fun hsame heq => hnot ⟨hsame, heq⟩]
    exact h.others bank' i fun b hb => hnone b (List.mem_cons_of_mem _ hb)
  · rw [Tables.tick_setGtable, h.tick]

/-- A bank that is kept or weakened. -/
theorem visit (h : Entries l resolveDir t visited allocated t') (hl : l.Matched)
    (hbank : Active bank) (hnew : bank ∉ visited) {e : GEntry}
    (he : e = t.gtable bank (l.gi bank) ∨
      (t.gtable bank (l.gi bank)).u = 0 ∧ 3 < (t.gtable bank (l.gi bank)).strength ∧
        e = (t.gtable bank (l.gi bank)).weaken) :
    Entries l resolveDir t (bank :: visited) allocated
      (t'.setGtable bank (l.gi bank) e) := by
  obtain ⟨keep, others, tick⟩ := h.write hl hbank hnew e
  refine { active := ?_, nodup := ?_, taken := ?_, left := ?_, others := others, tick := tick }
  · exact List.forall_mem_cons.mpr ⟨hbank, h.active⟩
  · exact ⟨List.nodup_cons.mpr ⟨hnew, h.nodup.1⟩, h.nodup.2⟩
  · intro b hb
    obtain ⟨hvisited, hfree, hentry⟩ := h.taken b hb
    exact ⟨List.mem_cons_of_mem _ hvisited, hfree, (keep b hvisited).trans hentry⟩
  · intro b hb hnot
    rcases List.mem_cons.mp hb with rfl | hb
    · rw [Tables.gtable_setGtable_self]
      exact he
    · rw [keep b hb]
      exact h.left b hb hnot

/-- A bank that is given to the branch. -/
theorem take (h : Entries l resolveDir t visited allocated t') (hl : l.Matched)
    (hbank : Active bank) (hnew : bank ∉ visited) (hfree : (t.gtable bank (l.gi bank)).Free) :
    Entries l resolveDir t (bank :: visited) (bank :: allocated)
      (t'.setGtable bank (l.gi bank)
        ((t.gtable bank (l.gi bank)).renew l resolveDir bank)) := by
  obtain ⟨keep, others, tick⟩ := h.write hl hbank hnew
    ((t.gtable bank (l.gi bank)).renew l resolveDir bank)
  refine { active := ?_, nodup := ?_, taken := ?_, left := ?_, others := others, tick := tick }
  · exact List.forall_mem_cons.mpr ⟨hbank, h.active⟩
  · exact ⟨List.nodup_cons.mpr ⟨hnew, h.nodup.1⟩,
      List.nodup_cons.mpr ⟨fun hmem => hnew (h.taken bank hmem).1, h.nodup.2⟩⟩
  · intro b hb
    rcases List.mem_cons.mp hb with rfl | hb
    · exact ⟨List.mem_cons_self, hfree, Tables.gtable_setGtable_self _ _ _ _⟩
    · obtain ⟨hvisited, hfree', hentry⟩ := h.taken b hb
      exact ⟨List.mem_cons_of_mem _ hvisited, hfree', (keep b hvisited).trans hentry⟩
  · intro b hb hnot
    obtain ⟨hne, hnot⟩ := not_or.mp (List.mem_cons.not.mp hnot)
    have hb := (List.mem_cons.mp hb).resolve_left hne
    rw [keep b hb]
    exact h.left b hb hnot

/-- What the loop makes of a place. -/
theorem place (h : Entries l resolveDir t visited allocated t') (hl : l.Matched) (bank i : Nat) :
    (∃ b ∈ allocated, l.IsEntry b bank i ∧
      t'.gtable bank i = (t.gtable bank i).renew l resolveDir b) ∨
    (∀ b ∈ allocated, ¬ l.IsEntry b bank i) ∧ (t'.gtable bank i = t.gtable bank i ∨
      (t.gtable bank i).u = 0 ∧ 3 < (t.gtable bank i).strength ∧
        t'.gtable bank i = (t.gtable bank i).weaken) := by
  by_cases hplace : ∃ b ∈ visited, l.IsEntry b bank i
  · obtain ⟨b, hb, hsame, rfl⟩ := hplace
    rw [t.gtable_congr hsame, t'.gtable_congr hsame]
    by_cases htaken : b ∈ allocated
    · exact Or.inl ⟨b, htaken, ⟨hsame, rfl⟩, (h.taken b htaken).2.2⟩
    · refine Or.inr ⟨?_, h.left b hb htaken⟩
      rintro b' hb' ⟨hsame', hgi⟩
      have hne : b ≠ b' := fun heq => htaken (heq ▸ hb')
      exact hl.interleaved b b' (h.active b hb) (h.active b' (h.taken b' hb').1)
        (hsame.symm.trans hsame') hne hgi
  · have hnone : ∀ b ∈ visited, ¬ l.IsEntry b bank i := fun b hb hentry => hplace ⟨b, hb, hentry⟩
    exact Or.inr ⟨fun b hb => hnone b (h.taken b hb).1, Or.inl (h.others bank i hnone)⟩

/-- The loop changes no `u` counter. -/
theorem u_eq (h : Entries l resolveDir t visited allocated t') (hl : l.Matched) (bank i : Nat) :
    (t'.gtable bank i).u = (t.gtable bank i).u := by
  rcases h.place hl bank i with ⟨b, -, -, heq⟩ | ⟨-, heq | ⟨-, -, heq⟩⟩
  all_goals rw [heq]
  · rfl
  · rfl

end Entries

/-- The banks that are not free because they were useful. -/
def blocked (l : Lookup) (t : Tables) (visited : List Nat) : List Nat :=
  visited.filter fun b => (t.gtable b (l.gi b)).u != 0

/-- The loop and its variables: `t` is the number of entries that may still be taken,
after which one more ends the loop. -/
structure Confined (l : Lookup) (resolveDir : Bool) (t : Tables) (visited allocated : List Nat)
    (a : Alloc) : Prop where
  entries : Entries l resolveDir t visited allocated a.tables
  na : a.na = allocated.length
  penalty : a.penalty = (blocked l t visited).length
  few : allocated.length ≤ 2
  running : a.stop = false → a.t = 1 - allocated.length ∧ allocated.length ≤ 1

/-- The body tries one bank more. -/
theorem Confined.tryBank {visited allocated : List Nat} {a : Alloc}
    (h : Confined l resolveDir t visited allocated a) (hl : l.Matched) (hstop : a.stop = false)
    {bank : Nat} (hlow : 1 ≤ bank) (hhigh : bank ≤ nHist) (hnew : bank ∉ visited) :
    ∃ visited' allocated', Confined l resolveDir t visited' allocated'
        (a.tryBank l resolveDir bank) ∧ ∀ b ∈ visited', b = bank ∨ b ∈ visited := by
  obtain ⟨ht, hone⟩ := h.running hstop
  rcases a.tryBank_cases l resolveDir bank with ⟨-, htry⟩ | ⟨hskip, hcases⟩
  · rw [htry]
    exact ⟨visited, allocated, h, fun b hb => Or.inr hb⟩
  · have hbank : Active bank := ⟨hlow, hhigh, hskip⟩
    have hfresh := h.entries.fresh hl hbank hnew
    rw [hfresh] at hcases
    have hunblocked : (t.gtable bank (l.gi bank)).u = 0 →
        blocked l t (bank :: visited) = blocked l t visited := by
      intro hu
      exact List.filter_cons_of_neg (by simpa using hu)
    rcases hcases with ⟨hu, htry⟩ | ⟨hfree, hlast, htry⟩ | ⟨hfree, hmore, htry⟩ |
      ⟨hu, hstrong, htry⟩
    all_goals rw [htry]
    · -- useful: the tables stay, written with what is there
      refine ⟨bank :: visited, allocated, ?_, fun b hb => List.mem_cons.mp hb⟩
      have hentries := h.entries.visit hl hbank hnew (Or.inl rfl)
      rw [← hfresh, Tables.setGtable_gtable] at hentries
      have hblocked : blocked l t (bank :: visited) = bank :: blocked l t visited :=
        List.filter_cons_of_pos (by simpa using hu)
      exact {
        entries := hentries
        na := h.na
        penalty := by
          rw [hblocked, List.length_cons, Nat.cast_add_one, ← h.penalty]
        few := h.few
        running := h.running }
    · refine ⟨bank :: visited, bank :: allocated, ?_, fun b hb => List.mem_cons.mp hb⟩
      exact {
        entries := h.entries.take hl hbank hnew hfree
        na := by rw [List.length_cons, Nat.cast_add_one, ← h.na]
        penalty := by rw [hunblocked hfree.1]; exact h.penalty
        few := by rw [List.length_cons]; omega
        running := fun hnot => Bool.noConfusion hnot }
    · refine ⟨bank :: visited, bank :: allocated, ?_, fun b hb => List.mem_cons.mp hb⟩
      exact {
        entries := h.entries.take hl hbank hnew hfree
        na := by rw [List.length_cons, Nat.cast_add_one, ← h.na]
        penalty := by rw [hunblocked hfree.1]; exact h.penalty
        few := by rw [List.length_cons]; omega
        running := fun _ => by
          dsimp only
          rw [List.length_cons]
          omega }
    · refine ⟨bank :: visited, allocated, ?_, fun b hb => List.mem_cons.mp hb⟩
      exact {
        entries := h.entries.visit hl hbank hnew (Or.inr ⟨hu, hstrong, rfl⟩)
        na := h.na
        penalty := by rw [hunblocked hu]; exact h.penalty
        few := h.few
        running := h.running }

/-- The index moves on by one pair if an entry was taken. -/
theorem Alloc.le_tryBank_i (a : Alloc) (l : Lookup) (resolveDir : Bool) (bank : Nat) :
    a.i ≤ (a.tryBank l resolveDir bank).i := by
  rcases a.tryBank_cases l resolveDir bank with ⟨-, htry⟩ | ⟨-, hcases⟩
  · rw [htry]
  · rcases hcases with ⟨-, htry⟩ | ⟨-, -, htry⟩ | ⟨-, -, htry⟩ | ⟨-, -, htry⟩
    all_goals rw [htry]
    exact Nat.le_add_right _ 2

/-- A round tries banks of the pair behind `a.i` only. -/
theorem Confined.round {visited allocated : List Nat} {a : Alloc}
    (h : Confined l resolveDir t visited allocated a) (hl : l.Matched) (hstop : a.stop = false)
    (hi : a.i < nHist) (hpast : ∀ b ∈ visited, bankPair b ≤ a.i / 2) :
    a.i ≤ (a.round l resolveDir).i ∧ ∃ visited' allocated',
      Confined l resolveDir t visited' allocated' (a.round l resolveDir) ∧
        ∀ b ∈ visited', b ∈ visited ∨ bankPair b = a.i / 2 + 1 := by
  have hpairs : ∀ i < nHist, i ^^^ 1 < nHist ∧ bankPair (i + 1) = i / 2 + 1 ∧
      bankPair ((i ^^^ 1) + 1) = i / 2 + 1 ∧ (i ^^^ 1) + 1 ≠ i + 1 := by decide
  obtain ⟨hother, hfirst, hsecond, hdifferent⟩ := hpairs a.i hi
  have hnew : ∀ bank, bankPair bank = a.i / 2 + 1 → bank ∉ visited := by
    intro bank hpair hmem
    have := hpast bank hmem
    omega
  -- the first bank of the round
  have hstart : Confined l resolveDir t visited allocated { a with done := false } :=
    ⟨h.entries, h.na, h.penalty, h.few, h.running⟩
  obtain ⟨visited₁, allocated₁, h₁, hvisited₁⟩ :=
    hstart.tryBank hl hstop (Nat.succ_pos _) hi (hnew _ hfirst)
  have hi₁ := Alloc.le_tryBank_i { a with done := false } l resolveDir (a.i + 1)
  have hsame := Alloc.tryBank_i { a with done := false } l resolveDir (a.i + 1)
  unfold Alloc.round
  dsimp only at hi₁ hsame ⊢
  generalize ({ a with done := false } : Alloc).tryBank l resolveDir (a.i + 1) = a₁ at *
  have hlater₁ : ∀ b ∈ visited₁, b ∈ visited ∨ bankPair b = a.i / 2 + 1 := by
    intro b hb
    rcases hvisited₁ b hb with rfl | hb
    · exact Or.inr hfirst
    · exact Or.inl hb
  split
  · exact ⟨hi₁, visited₁, allocated₁, h₁, hlater₁⟩
  · -- the second bank of the round
    rename_i hmore
    obtain ⟨hstop₁, hdone⟩ := Bool.or_eq_false_iff.mp (Bool.eq_false_iff.mpr hmore)
    have hnew₁ : (a.i ^^^ 1) + 1 ∉ visited₁ := by
      intro hmem
      rcases hvisited₁ _ hmem with heq | hmem
      · exact hdifferent heq
      · exact hnew _ hsecond hmem
    rw [hsame hdone]
    obtain ⟨visited₂, allocated₂, h₂, hvisited₂⟩ :=
      h₁.tryBank hl hstop₁ (Nat.succ_pos _) hother hnew₁
    refine ⟨hi₁.trans (a₁.le_tryBank_i l resolveDir _), visited₂, allocated₂, h₂, ?_⟩
    intro b hb
    rcases hvisited₂ b hb with rfl | hb
    · exact Or.inr hsecond
    · exact hlater₁ b hb

/-- **The loop is confined.**  It tries banks of the pairs from `a.i` on only. -/
theorem Confined.loop {a : Alloc} (h : Confined l resolveDir t [] [] a) (hl : l.Matched)
    (hstop : a.stop = false) (n : Nat) :
    ∃ visited allocated, Confined l resolveDir t visited allocated (Alloc.loop l resolveDir n a) ∧
      ∀ b ∈ visited, a.i / 2 < bankPair b := by
  have hloop := Alloc.loop_induct l resolveDir
    (P := fun a' => a'.stop = false ∧ a.i ≤ a'.i ∧ ∃ visited allocated,
      Confined l resolveDir t visited allocated a' ∧
        ∀ b ∈ visited, a.i / 2 < bankPair b ∧ bankPair b ≤ a'.i / 2)
    (Q := fun a' => a.i ≤ a'.i ∧ ∃ visited allocated,
      Confined l resolveDir t visited allocated a' ∧
        ∀ b ∈ visited, a.i / 2 < bankPair b ∧ bankPair b ≤ a'.i / 2 + 1) ?_ ?_ n
    ⟨hstop, le_rfl, [], [], h, fun b hb => absurd hb List.not_mem_nil⟩
  · rcases hloop with ⟨-, -, visited, allocated, hconfined, hlater⟩ |
      ⟨-, visited, allocated, hconfined, hlater⟩
    · exact ⟨visited, allocated, hconfined, fun b hb => (hlater b hb).1⟩
    · exact ⟨visited, allocated, hconfined, fun b hb => (hlater b hb).1⟩
  · rintro a' ⟨hstop', hle, visited, allocated, hconfined, hlater⟩ hi
    obtain ⟨hle', visited', allocated', hconfined', hvisited'⟩ :=
      hconfined.round hl hstop' hi fun b hb => (hlater b hb).2
    refine ⟨hle.trans hle', visited', allocated', hconfined', fun b hb => ?_⟩
    rcases hvisited' b hb with hb | hpair
    · have := hlater b hb
      omega
    · omega
  · rintro a' ⟨hle, visited, allocated, hconfined, hlater⟩ hstop'
    refine ⟨hstop', by dsimp only; omega, visited, allocated, ?_, fun b hb => ?_⟩
    · exact ⟨hconfined.entries, hconfined.na, hconfined.penalty, hconfined.few, hconfined.running⟩
    · have := hlater b hb
      dsimp only
      omega

/-- The allocation tries banks of later pairs than the longest match. -/
theorem allocate_confined (hl : l.Matched) (hhit : l.hitBank ≤ nHist) (resolveDir : Bool)
    (t : Tables) (seed phist : Nat) (ptghist : Int) :
    ∃ visited allocated a, Confined l resolveDir t visited allocated a ∧
      (∀ b ∈ visited, bankPair l.hitBank < bankPair b) ∧
      (allocate t seed phist ptghist l resolveDir).1 = updateTick a.tables a.penalty a.na := by
  have hdep : ∀ hit ≤ nHist, ∀ bit < 2,
      bankPair hit ≤ (((hit + 2 * 1 - 1) &&& 0xffe) ^^^ bit) / 2 ∧
        bankPair hit ≤ (((hit + 2 * 2 - 1) &&& 0xffe) ^^^ bit) / 2 := by decide
  unfold allocate
  dsimp only
  generalize hmatch : (if (myrandom phist ptghist seed).1 &&& 127 < 32 then 2 else 1) = a
  generalize hbit : (myrandom phist ptghist (myrandom phist ptghist seed).2).1 &&& 1 = bit
  have hbit : bit < 2 := hbit ▸ (Nat.and_lt_two_pow _ (by decide : 1 < 2 ^ 1))
  have hpair : bankPair l.hitBank ≤ (((l.hitBank + 2 * a - 1) &&& 0xffe) ^^^ bit) / 2 := by
    obtain ⟨hone, htwo⟩ := hdep l.hitBank hhit bit hbit
    split at hmatch
    · exact hmatch ▸ htwo
    · exact hmatch ▸ hone
  generalize ((l.hitBank + 2 * a - 1) &&& 0xffe) ^^^ bit = dep at *
  have hstart : Confined l resolveDir t [] []
      { tables := t, t := 1, na := 0, penalty := 0, i := dep, done := false, stop := false } :=
    { entries := .nil l resolveDir t, na := rfl, penalty := rfl, few := by decide
      running := fun _ => ⟨rfl, Nat.zero_le 1⟩ }
  obtain ⟨visited, allocated, hconfined, hlater⟩ := hstart.loop hl rfl nHist
  exact ⟨visited, allocated, _, hconfined, fun b hb => hpair.trans_lt (hlater b hb), rfl⟩

end Loop

/-! ## The other parts of an update -/

namespace Tables

/-- `TICK`, and the ageing when it is full. -/
theorem updateTick_cases (t : Tables) (penalty na : Int) :
    (bornTick ≤ t.tick + (penalty - 2 * na) ∧ (updateTick t penalty na).tick = 0 ∧
      ∀ bank i, (updateTick t penalty na).gtable bank i = (t.gtable bank i).age) ∨
    ∀ bank i, (updateTick t penalty na).gtable bank i = t.gtable bank i := by
  unfold updateTick
  dsimp only
  by_cases hneg : t.tick + (penalty - 2 * na) < 0
  · rw [if_pos hneg, if_neg (by decide)]
    exact Or.inr fun _ _ => rfl
  · rw [if_neg hneg]
    by_cases hfull : t.tick + (penalty - 2 * na) ≥ bornTick
    · rw [if_pos hfull]
      refine Or.inl ⟨hfull, rfl, fun bank i => ?_⟩
      unfold ageUseful gtable
      split
      · rfl
      · rfl
    · rw [if_neg hfull]
      exact Or.inr fun _ _ => rfl

/-- The tagged tables and `TICK`. -/
def tagged (t : Tables) : (Nat → GEntry) × (Nat → GEntry) × Int :=
  (t.gtableLow, t.gtableHigh, t.tick)

theorem gtable_of_tagged {t t' : Tables} (h : t.tagged = t'.tagged) :
    (∀ bank i, t.gtable bank i = t'.gtable bank i) ∧ t.tick = t'.tick := by
  obtain ⟨hlow, h⟩ := Prod.mk.inj h
  obtain ⟨hhigh, htick⟩ := Prod.mk.inj h
  refine ⟨fun bank i => ?_, htick⟩
  unfold gtable
  rw [hlow, hhigh]

/-- The statistical corrector has its own tables. -/
theorem updateCorrector_tagged (t : Tables) (pc : Nat) (h : CbpHist) (l : Lookup)
    (resolveDir : Bool) : (updateCorrector t pc h l resolveDir).tagged = t.tagged := by
  have hchooser : (updateChooser t l resolveDir).tagged = t.tagged := by
    unfold updateChooser
    dsimp only
    split_ifs
    all_goals rfl
  rw [← hchooser]
  unfold updateCorrector
  dsimp only
  split
  · rfl
  · rfl

theorem updateUseAlt_tagged (t : Tables) (l : Lookup) (resolveDir : Bool) :
    (updateUseAlt t l resolveDir).tagged = t.tagged := by
  unfold updateUseAlt
  split
  · rfl
  · rfl

end Tables

/-- `update` on the tagged tables: perhaps an allocation, then the counters. -/
theorem train_tagged (cfg : Config) (t : Tables) (seed : Nat) (active : CbpHist) (pc : Nat)
    (resolveDir predTaken : Bool) (h : CbpHist) (l : Lookup) (isLdDependent : Bool) :
    ∃ t₀ t₁, t₀.tagged = t.tagged ∧
      (t₁ = t₀ ∨ ∃ seed', t₁ = (allocate t₀ seed' active.phist active.ptghist l resolveDir).1) ∧
      (train cfg t seed active pc resolveDir predTaken h l isLdDependent).1 =
        updateUseful cfg (updateCounters t₁ l resolveDir) l resolveDir isLdDependent := by
  have htagged : (updateUseAlt (updateCorrector t pc h l resolveDir) l resolveDir).tagged =
      t.tagged :=
    ((updateCorrector t pc h l resolveDir).updateUseAlt_tagged l resolveDir).trans
      (t.updateCorrector_tagged pc h l resolveDir)
  unfold train
  dsimp only
  generalize updateUseAlt (updateCorrector t pc h l resolveDir) l resolveDir = t₀ at *
  generalize (if (predTaken == resolveDir) = true then _ else _ : Bool × Nat) = draw
  cases draw.1 with
  | true => exact ⟨t₀, _, htagged, Or.inr ⟨draw.2, rfl⟩, rfl⟩
  | false => exact ⟨t₀, t₀, htagged, Or.inl rfl, rfl⟩

/-! ## The counters -/

/-- At most the entry of bank `b` is different, and it has its tag. -/
def TrainsEntry (l : Lookup) (b : Nat) (t t' : Tables) : Prop :=
  ∀ bank i, (t'.gtable bank i).tag = (t.gtable bank i).tag ∧
    (¬ l.IsEntry b bank i → t'.gtable bank i = t.gtable bank i)

namespace TrainsEntry

variable {l : Lookup}

theorem refl (b : Nat) (t : Tables) : TrainsEntry l b t t := fun _ _ => ⟨rfl, fun _ => rfl⟩

theorem set {b : Nat} {t : Tables} {e : GEntry} (he : e.tag = (t.gtable b (l.gi b)).tag) :
    TrainsEntry l b t (t.setGtable b (l.gi b) e) := by
  intro bank i
  have other : ¬ l.IsEntry b bank i →
      (t.setGtable b (l.gi b) e).gtable bank i = t.gtable bank i := fun hnot =>
    t.gtable_setGtable_of_ne e fun hsame heq => hnot ⟨hsame, heq⟩
  refine ⟨?_, other⟩
  by_cases hentry : l.IsEntry b bank i
  · obtain ⟨hsame, rfl⟩ := hentry
    rw [t.gtable_congr hsame, Tables.gtable_congr _ hsame, Tables.gtable_setGtable_self, he]
  · rw [other hentry]

theorem updateLongest (t : Tables) (resolveDir : Bool) :
    TrainsEntry l l.hitBank t (t.updateLongest l resolveDir) := by
  unfold Tables.updateLongest
  dsimp only
  split
  · exact .set rfl
  · exact .set rfl

theorem clearUseful (t : Tables) (resolveDir : Bool) :
    TrainsEntry l l.hitBank t (t.clearUseful l resolveDir) := by
  unfold Tables.clearUseful
  split
  · exact .set rfl
  · exact .refl _ t

theorem updateUseful (cfg : Config) (t : Tables) (resolveDir isLdDependent : Bool) :
    TrainsEntry l l.hitBank t (Predictor.updateUseful cfg t l resolveDir isLdDependent) := by
  unfold Predictor.updateUseful
  dsimp only
  split
  · exact .set rfl
  · exact .refl _ t

end TrainsEntry

/-- The place is the entry of the longest match. -/
def Lookup.IsHit (l : Lookup) (bank i : Nat) : Prop := 0 < l.hitBank ∧ l.IsEntry l.hitBank bank i

/-- The place is the entry of the alternate match. -/
def Lookup.IsAlt (l : Lookup) (bank i : Nat) : Prop := 0 < l.altBank ∧ l.IsEntry l.altBank bank i

/-- The alternate match is trained in its prediction counter only. -/
theorem updateAlternate_frame (t : Tables) (l : Lookup) (resolveDir : Bool) (bank i : Nat) :
    let e := t.gtable bank i
    let e' := (t.updateAlternate l resolveDir).gtable bank i
    e'.tag = e.tag ∧ e'.u = e.u ∧ (¬ l.IsAlt bank i → e' = e) := by
  dsimp only
  unfold Tables.updateAlternate
  split
  · split
    · rename_i hpos
      by_cases hentry : l.IsEntry l.altBank bank i
      · have halt : l.IsAlt bank i := ⟨hpos, hentry⟩
        obtain ⟨hsame, rfl⟩ := hentry
        rw [t.gtable_congr hsame, Tables.gtable_congr _ hsame, Tables.gtable_setGtable_self]
        exact ⟨rfl, rfl, fun hnot => absurd halt hnot⟩
      · rw [t.gtable_setGtable_of_ne _ fun hsame heq => hentry ⟨hsame, heq⟩]
        exact ⟨rfl, rfl, fun _ => rfl⟩
    · exact ⟨rfl, rfl, fun _ => rfl⟩
  · exact ⟨rfl, rfl, fun _ => rfl⟩

/-- **The counters are those of the matching entries.** -/
theorem updateCounters_frame (cfg : Config) (t : Tables) {l : Lookup} (hl : l.Matched)
    (resolveDir isLdDependent : Bool) (bank i : Nat) :
    let e := t.gtable bank i
    let e' := (updateUseful cfg (updateCounters t l resolveDir) l resolveDir isLdDependent).gtable
      bank i
    e'.tag = e.tag ∧ (¬ l.IsHit bank i → e'.u = e.u ∧ (¬ l.IsAlt bank i → e' = e)) := by
  dsimp only
  rcases Nat.eq_zero_or_pos l.hitBank with hzero | hpos
  · have hcounters : updateCounters t l resolveDir = baseupdate t l resolveDir := by
      rw [t.updateCounters_parts, if_pos hzero]
    have huseful : updateUseful cfg (baseupdate t l resolveDir) l resolveDir isLdDependent =
        baseupdate t l resolveDir := by
      unfold updateUseful
      rw [hl.unmatched hzero]
      simp
    rw [hcounters, huseful]
    exact ⟨rfl, fun _ => ⟨rfl, fun _ => rfl⟩⟩
  · have hcounters : updateCounters t l resolveDir =
        ((t.updateAlternate l resolveDir).updateLongest l resolveDir).clearUseful l resolveDir := by
      rw [t.updateCounters_parts, if_neg (Nat.ne_of_gt hpos)]
    obtain ⟨haltTag, haltU, halt⟩ := updateAlternate_frame t l resolveDir bank i
    rw [hcounters]
    generalize t.updateAlternate l resolveDir = t₁ at *
    have hlongest := TrainsEntry.updateLongest (l := l) t₁ resolveDir bank i
    generalize t₁.updateLongest l resolveDir = t₂ at *
    have hclear := TrainsEntry.clearUseful (l := l) t₂ resolveDir bank i
    generalize t₂.clearUseful l resolveDir = t₃ at *
    have huseful := TrainsEntry.updateUseful (l := l) cfg t₃ resolveDir isLdDependent bank i
    refine ⟨by rw [huseful.1, hclear.1, hlongest.1, haltTag], fun hhit => ?_⟩
    have hother : ¬ l.IsEntry l.hitBank bank i := fun hentry => hhit ⟨hpos, hentry⟩
    rw [huseful.2 hother, hclear.2 hother, hlongest.2 hother]
    exact ⟨haltU, halt⟩

/-! ## The update -/

/-- What an update changes of the tagged tables.  The banks of `allocated` were given to
the branch; those of `blocked` were tried, and useful. -/
structure AllocationConfined (l : Lookup) (resolveDir : Bool) (t t' : Tables)
    (allocated blocked : List Nat) : Prop where
  few : allocated.length ≤ 2
  nodup : allocated.Nodup ∧ blocked.Nodup
  tags : ∀ bank i, (t'.gtable bank i).tag ≠ (t.gtable bank i).tag →
    ∃ b ∈ allocated, l.IsEntry b bank i
  banks : ∀ b ∈ allocated, Active b ∧ bankPair l.hitBank < bankPair b ∧
    (0 < l.hitBank → histLength l.hitBank < histLength b)
  before : ∀ b ∈ allocated, (t.gtable b (l.gi b)).u = 0 ∧ (t.gtable b (l.gi b)).strength ≤ 3
  after : ∀ b ∈ allocated, (t'.gtable b (l.gi b)).tag = l.gtag b ∧
    (t'.gtable b (l.gi b)).ctr = if resolveDir then 0 else -1
  counters : ∀ bank i, (∀ b ∈ allocated, ¬ l.IsEntry b bank i) → ¬ l.IsHit bank i →
    ¬ l.IsAlt bank i → (t'.gtable bank i).ctr = (t.gtable bank i).ctr ∨
      (t.gtable bank i).u = 0 ∧
        ((t'.gtable bank i).ctr - (t.gtable bank i).ctr).natAbs = 1 ∧
        (t'.gtable bank i).strength + 2 = (t.gtable bank i).strength
  useful : (∀ bank i, ¬ l.IsHit bank i → (t'.gtable bank i).u = (t.gtable bank i).u) ∨
    bornTick ≤ t.tick + ((blocked.length : Int) - 2 * allocated.length) ∧
      ∀ bank i, ¬ l.IsHit bank i → (t'.gtable bank i).u = (t.gtable bank i).u / 2
  tried : ∀ b ∈ blocked, Active b ∧ bankPair l.hitBank < bankPair b ∧
    (t.gtable b (l.gi b)).u ≠ 0

/-- Only the tagged tables and `TICK` of before matter. -/
theorem AllocationConfined.congr {l : Lookup} {resolveDir : Bool} {t₀ t t' : Tables}
    {allocated blocked : List Nat} (h : AllocationConfined l resolveDir t₀ t' allocated blocked)
    (htagged : t₀.tagged = t.tagged) : AllocationConfined l resolveDir t t' allocated blocked := by
  obtain ⟨hgtable, htick⟩ := Tables.gtable_of_tagged htagged
  obtain ⟨few, nodup, tags, banks, before, after, counters, useful, tried⟩ := h
  simp only [hgtable, htick] at tags before counters useful tried
  exact ⟨few, nodup, tags, banks, before, after, counters, useful, tried⟩

/-- The allocation, perhaps with the ageing, leaves counters and tags as the loop does. -/
theorem AllocationConfined.of_loop {l : Lookup} (hl : l.Matched) (cfg : Config)
    (resolveDir isLdDependent : Bool) {t tLoop : Tables} (tAged : Tables)
    {visited allocated : List Nat}
    (h : Entries l resolveDir t visited allocated tLoop) (hfew : allocated.length ≤ 2)
    (hlater : ∀ b ∈ visited, bankPair l.hitBank < bankPair b)
    (haged : (∀ bank i, tAged.gtable bank i = tLoop.gtable bank i) ∨
      bornTick ≤ t.tick + (((blocked l t visited).length : Int) - 2 * allocated.length) ∧
        ∀ bank i, tAged.gtable bank i = (tLoop.gtable bank i).age) :
    AllocationConfined l resolveDir t
      (updateUseful cfg (updateCounters tAged l resolveDir) l resolveDir isLdDependent)
      allocated (blocked l t visited) := by
  have hframe := updateCounters_frame cfg tAged hl resolveDir isLdDependent
  dsimp only at hframe
  generalize updateUseful cfg (updateCounters tAged l resolveDir) l resolveDir isLdDependent = t'
    at *
  have haged₁ : ∀ bank i, (tAged.gtable bank i).tag = (tLoop.gtable bank i).tag ∧
      (tAged.gtable bank i).ctr = (tLoop.gtable bank i).ctr := by
    intro bank i
    rcases haged with hsame | ⟨-, hage⟩
    · rw [hsame]
      exact ⟨rfl, rfl⟩
    · rw [hage]
      exact ⟨rfl, rfl⟩
  -- a bank that was tried matches nothing
  have hmatch : ∀ b ∈ visited, ∀ bank i, l.IsEntry b bank i →
      ¬ l.IsHit bank i ∧ ¬ l.IsAlt bank i := by
    rintro b hb bank i ⟨hsame, rfl⟩
    have hpair := hlater b hb
    unfold bankPair at hpair
    constructor
    · rintro ⟨hpos, hsame', hgi⟩
      exact hl.interleaved b l.hitBank (h.active b hb) (hl.hit hpos) (hsame.symm.trans hsame')
        (by omega) hgi
    · rintro ⟨hpos, hsame', hgi⟩
      obtain ⟨hactive, hbefore⟩ := hl.alt hpos
      exact hl.interleaved b l.altBank (h.active b hb) hactive (hsame.symm.trans hsame')
        (by omega) hgi
  constructor
  · exact hfew
  · exact ⟨h.nodup.2, h.nodup.1.filter _⟩
  · intro bank i htag
    rw [(hframe bank i).1, (haged₁ bank i).1] at htag
    rcases h.place hl bank i with ⟨b, hb, hentry, -⟩ | ⟨-, heq | ⟨-, -, heq⟩⟩
    · exact ⟨b, hb, hentry⟩
    · exact absurd (by rw [heq]) htag
    · exact absurd (by rw [heq]; rfl) htag
  · intro b hb
    have hvisited := (h.taken b hb).1
    have hactive := h.active b hvisited
    exact ⟨hactive, hlater b hvisited, fun hpos =>
      histLength_lt_of_bankPair hpos hactive.2.1 (hlater b hvisited)⟩
  · intro b hb
    exact (h.taken b hb).2.1
  · intro b hb
    obtain ⟨hvisited, -, hrenewed⟩ := h.taken b hb
    obtain ⟨hhit, halt⟩ := hmatch b hvisited b (l.gi b) ⟨Iff.rfl, rfl⟩
    rw [((hframe b (l.gi b)).2 hhit).2 halt, (haged₁ b _).1, (haged₁ b _).2, hrenewed]
    exact ⟨rfl, rfl⟩
  · intro bank i hnone hhit halt
    have hctr : (t'.gtable bank i).ctr = (tLoop.gtable bank i).ctr := by
      rw [((hframe bank i).2 hhit).2 halt, (haged₁ bank i).2]
    rcases h.place hl bank i with ⟨b, hb, hentry, -⟩ | ⟨-, heq | ⟨hzero, hstrong, heq⟩⟩
    · exact absurd hentry (hnone b hb)
    · exact Or.inl (by rw [hctr, heq])
    · rw [heq] at hctr
      have hweaken := GEntry.weaken_strength hstrong
      refine Or.inr ⟨hzero, ?_, ?_⟩
      · rw [hctr, GEntry.weaken]
        dsimp only
        split <;> omega
      · rw [← hweaken, GEntry.strength, hctr, ← GEntry.strength]
  · rcases haged with hsame | ⟨htick, hage⟩
    · refine Or.inl fun bank i hhit => ?_
      rw [((hframe bank i).2 hhit).1, hsame, h.u_eq hl]
    · refine Or.inr ⟨htick, fun bank i hhit => ?_⟩
      rw [((hframe bank i).2 hhit).1, hage, ← h.u_eq hl]
      rfl
  · intro b hb
    obtain ⟨hvisited, hblocked⟩ := List.mem_filter.mp hb
    exact ⟨h.active b hvisited, hlater b hvisited, by simpa using hblocked⟩

namespace TageScL

/-- **Allocation is confined.**  Every update gives at most two entries to the branch, free
ones of pairs behind the longest match; besides, it trains the matching entries and
takes one step towards weak at some that are not useful, and `u` counters other than
that of the longest match change in the ageing only. -/
theorem update_allocationConfined (cfg : Config) (p p' : TageScL) (seqNo piece pc nextPc : Nat)
    (resolveDir predDir isLdDependent : Bool)
    (h : p.update cfg seqNo piece pc resolveDir predDir nextPc isLdDependent = .ok p') :
    ∃ hist, p.predTimeHistories (instKey seqNo piece) = some hist ∧ ∃ allocated blocked,
      AllocationConfined (predictUsingGivenHist p.tables pc hist).lookup resolveDir p.tables
        p'.tables allocated blocked := by
  obtain ⟨hist, hsaved, seed, active, htables⟩ := update_tables h
  refine ⟨hist, hsaved, ?_⟩
  have hl := predictUsingGivenHist_matched p.tables pc hist
  have hhit := (predictUsingGivenHist_inBounds p.tables pc hist).hitBank
  dsimp only at htables
  generalize (predictUsingGivenHist p.tables pc hist).lookup = l at *
  obtain ⟨t₀, t₁, htagged, ht₁, htrain⟩ := train_tagged cfg p.tables seed active pc resolveDir
    (predictUsingGivenHist p.tables pc hist).predTaken hist l isLdDependent
  rw [htables, htrain]
  rcases ht₁ with rfl | ⟨seed', rfl⟩
  · have hconfined := AllocationConfined.of_loop hl cfg resolveDir isLdDependent t₁
      (Entries.nil l resolveDir t₁) (Nat.zero_le 2) (fun _ hb => absurd hb List.not_mem_nil)
      (Or.inl fun _ _ => rfl)
    exact ⟨_, _, hconfined.congr htagged⟩
  · obtain ⟨visited, allocated, a, hloop, hlater, htick⟩ := allocate_confined hl hhit resolveDir
      t₀ seed' active.phist active.ptghist
    rw [htick, hloop.penalty, hloop.na]
    have hconfined := AllocationConfined.of_loop hl cfg resolveDir isLdDependent
      (updateTick a.tables (blocked l t₀ visited).length allocated.length) hloop.entries hloop.few
      hlater (by
        rcases a.tables.updateTick_cases (blocked l t₀ visited).length allocated.length with
          ⟨hfull, -, hage⟩ | hsame
        · rw [hloop.entries.tick] at hfull
          exact Or.inr ⟨hfull, hage⟩
        · exact Or.inl hsame)
    exact ⟨_, _, hconfined.congr htagged⟩

/-- The first misprediction gives entry 4096 of the first table to the branch. -/
theorem update_allocationConfined_first :
    ∃ p p' hist allocated blocked, Run (step {}) init [.predict 1 0 64] p ∧
      p.update {} 1 0 64 true false 32 false = .ok p' ∧
      AllocationConfined (predictUsingGivenHist p.tables 64 hist).lookup true p.tables p'.tables
        allocated blocked ∧
      (p'.tables.gtable 2 4096).tag = 64 := by
  obtain ⟨p', hok⟩ := exists_of_isOk (show (do
    let p ← [TageCall.predict 1 0 64].foldlM (step {}) init
    let p' ← p.update {} 1 0 64 true false 32 false
    if (p'.tables.gtable 2 4096).tag ≠ 64 then Except.error Abort.tageHistoryMissing
      else .ok p').isOk = true by decide +kernel)
  obtain ⟨p, hp, hok⟩ := bind_eq_ok.mp hok
  obtain ⟨p'', hupdate, hok⟩ := bind_eq_ok.mp hok
  obtain ⟨htag, hok⟩ := guard_eq_ok.mp hok
  cases hok
  obtain ⟨hist, -, allocated, blocked, hconfined⟩ :=
    update_allocationConfined {} p p' 1 0 64 32 true false false hupdate
  exact ⟨p, p', hist, allocated, blocked, hp, hupdate, hconfined, not_not.mp htag⟩

end TageScL

end CbpSim.Predictor
