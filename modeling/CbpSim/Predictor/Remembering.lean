/-
  Predictor/Remembering.lean --- what an update writes, the next prediction finds.

  Source: src/cbp2016_tage_sc_l.h, `Tagepred` behind an `update`.

  A branch that comes again with the history for which the tables were trained finds the
  entry that was given to it, with the direction that it took; if none was, it finds the
  entry that it found before, and that one is a step closer to the direction.
-/
import CbpSim.Predictor.Allocation
import CbpSim.Predictor.Footprint

set_option autoImplicit false

namespace CbpSim.Predictor

open CbpSim.Foundation

/-! ## The search for the longest match -/

section Search

variable {t t' : Tables} {l l' : Lookup} {last bank : Nat}

theorem hits_longestHit (hpos : 0 < longestHit t l last) :
    hits t l (longestHit t l last) = true := by
  unfold longestHit at hpos ⊢
  cases hfind : (List.range' 1 last).reverse.find? (hits t l) with
  | none =>
    rw [hfind] at hpos
    exact absurd hpos (Nat.lt_irrefl 0)
  | some bank => exact List.find?_some hfind

/-- No bank with a match comes behind the longest one. -/
theorem le_longestHit (hlow : 1 ≤ bank) (hlast : bank ≤ last) (hhits : hits t l bank = true) :
    bank ≤ longestHit t l last := by
  have hmem : bank ∈ (List.range' 1 last).reverse := by
    rw [List.mem_reverse, List.mem_range'_1]
    omega
  have hsorted : (List.range' 1 last).reverse.Pairwise (· > ·) := by
    rw [List.pairwise_reverse]
    exact List.pairwise_lt_range'
  unfold longestHit
  cases hfind : (List.range' 1 last).reverse.find? (hits t l) with
  | none => exact absurd hhits (List.find?_eq_none.mp hfind bank hmem)
  | some found =>
    obtain ⟨-, before, behind, heq, hnone⟩ := List.find?_eq_some_iff_append.mp hfind
    rw [heq] at hmem hsorted
    rw [Option.getD_some]
    rcases List.mem_append.mp hmem with hbefore | hmem
    · have hnot := hnone bank hbefore
      rw [hhits] at hnot
      exact absurd hnot (by decide)
    · rcases List.mem_cons.mp hmem with rfl | hbehind
      · exact le_rfl
      · exact le_of_lt ((List.pairwise_cons.mp (List.pairwise_append.mp hsorted).2.1).1 _ hbehind)

/-- The search sees the tags at the indices of the banks. -/
theorem longestHit_congr (hhits : ∀ bank, hits t l bank = hits t' l' bank) :
    longestHit t l last = longestHit t' l' last := by
  unfold longestHit
  rw [funext hhits]

end Search

/-- What `Tagepred` finds of a branch. -/
theorem tagepred_finds (t : Tables) (pc : Nat) (h : CbpHist) :
    let l := tagepred t pc h
    l.gi = bankIndices pc h ∧ l.gtag = gtags pc h ∧ l.hitBank = longestHit t l nHist ∧
      (l.hitBank ≠ 0 →
        l.longestMatchPred = decide ((t.gtable l.hitBank (l.gi l.hitBank)).ctr ≥ 0)) := by
  rw [tagepred_parts]
  generalize hbase : (getbim t (tagepredBase pc h)).2 = base
  have hgi : base.gi = bankIndices pc h := by rw [← hbase]; rfl
  have hgtag : base.gtag = gtags pc h := by rw [← hbase]; rfl
  have hlongest : ∀ l : Lookup, l.gi = base.gi → l.gtag = base.gtag →
      longestHit t base nHist = longestHit t l nHist := by
    intro l hgi hgtag
    apply longestHit_congr
    intro bank
    rw [hits, hits, hgi, hgtag]
  unfold tagepredBanks
  dsimp only
  split
  · rename_i hzero
    exact ⟨hgi, hgtag, hlongest _ rfl rfl, fun hne => absurd hzero hne⟩
  · unfold tagepredMatch tagepredAlt
    dsimp only
    split
    · exact ⟨hgi, hgtag, hlongest _ rfl rfl, fun _ => rfl⟩
    · exact ⟨hgi, hgtag, hlongest _ rfl rfl, fun _ => rfl⟩

/-! ## The entry of the longest match -/

section Hit

variable {l : Lookup} (hl : l.Matched) (hpos : 0 < l.hitBank)

include hl hpos

/-- The entry of the longest match takes one step towards the direction. -/
theorem hit_ctr (cfg : Config) (t : Tables) (resolveDir isLdDependent : Bool) :
    ((updateUseful cfg (updateCounters t l resolveDir) l resolveDir isLdDependent).gtable l.hitBank
      (l.gi l.hitBank)).ctr =
      ctrupdate (t.gtable l.hitBank (l.gi l.hitBank)).ctr resolveDir cWidth := by
  have hactive := hl.hit hpos
  have hother : l.hitBank ≠ l.altBank := by
    intro heq
    have halt := (hl.alt (heq ▸ hpos)).2
    omega
  have halternate := hl.updateAlternate t resolveDir l.hitBank hactive hother
  rw [t.updateCounters_parts, if_neg (Nat.ne_of_gt hpos), ← halternate]
  generalize t.updateAlternate l resolveDir = t₁
  have hlongest : ((t₁.updateLongest l resolveDir).gtable l.hitBank (l.gi l.hitBank)).ctr =
      ctrupdate (t₁.gtable l.hitBank (l.gi l.hitBank)).ctr resolveDir cWidth := by
    unfold Tables.updateLongest
    dsimp only
    rw [Tables.gtable_setGtable_self]
    split
    · rfl
    · rfl
  rw [← hlongest]
  generalize t₁.updateLongest l resolveDir = t₂
  have hclear : ((t₂.clearUseful l resolveDir).gtable l.hitBank (l.gi l.hitBank)).ctr =
      (t₂.gtable l.hitBank (l.gi l.hitBank)).ctr := by
    unfold Tables.clearUseful
    split
    · rw [Tables.gtable_setGtable_self]
      rfl
    · rfl
  rw [← hclear]
  generalize t₂.clearUseful l resolveDir = t₃
  unfold updateUseful
  dsimp only
  split
  · rw [Tables.gtable_setGtable_self]
    rfl
  · rfl

end Hit

/-- What training leaves of the tagged tables: the entries that it gave to the branch, and
the entry of the longest match. -/
theorem train_entries (cfg : Config) (t : Tables) (seed : Nat) (active : CbpHist) (pc : Nat)
    (resolveDir predTaken : Bool) (h : CbpHist) {l : Lookup} (hl : l.Matched)
    (hhit : l.hitBank ≤ nHist) (isLdDependent : Bool) :
    let t' := (train cfg t seed active pc resolveDir predTaken h l isLdDependent).1
    ∃ allocated blocked, AllocationConfined l resolveDir t t' allocated blocked ∧
      (0 < l.hitBank → (t'.gtable l.hitBank (l.gi l.hitBank)).ctr =
        ctrupdate (t.gtable l.hitBank (l.gi l.hitBank)).ctr resolveDir cWidth) := by
  dsimp only
  obtain ⟨t₀, t₁, htagged, ht₁, htrain⟩ := train_tagged cfg t seed active pc resolveDir predTaken h
    l isLdDependent
  rw [htrain, ← (Tables.gtable_of_tagged htagged).1]
  rcases ht₁ with rfl | ⟨seed', rfl⟩
  · have hconfined := AllocationConfined.of_loop hl cfg resolveDir isLdDependent t₁
      (Entries.nil l resolveDir t₁) (Nat.zero_le 2) (fun _ hb => absurd hb List.not_mem_nil)
      (Or.inl fun _ _ => rfl)
    exact ⟨_, _, hconfined.congr htagged, fun hpos => hit_ctr hl hpos cfg t₁ _ _⟩
  · obtain ⟨visited, allocated, a, hloop, hlater, htick⟩ := allocate_confined hl hhit resolveDir
      t₀ seed' active.phist active.ptghist
    rw [htick, hloop.penalty, hloop.na]
    have haged := a.tables.updateTick_cases (blocked l t₀ visited).length allocated.length
    generalize updateTick a.tables (blocked l t₀ visited).length allocated.length = tAged at *
    have hconfined := AllocationConfined.of_loop hl cfg resolveDir isLdDependent tAged hloop.entries
      hloop.few hlater (by
        rcases haged with ⟨hfull, -, hage⟩ | hsame
        · rw [hloop.entries.tick] at hfull
          exact Or.inr ⟨hfull, hage⟩
        · exact Or.inl hsame)
    refine ⟨_, _, hconfined.congr htagged, fun hpos => ?_⟩
    -- the allocation has not tried the longest match
    have hnew : l.hitBank ∉ visited := fun hmem => absurd (hlater _ hmem) (Nat.lt_irrefl _)
    have hfresh := hloop.entries.fresh hl (hl.hit hpos) hnew
    have hctr : (tAged.gtable l.hitBank (l.gi l.hitBank)).ctr =
        (a.tables.gtable l.hitBank (l.gi l.hitBank)).ctr := by
      rcases haged with ⟨-, -, hage⟩ | hsame
      · rw [hage]
        rfl
      · rw [hsame]
    rw [hit_ctr hl hpos, hctr, hfresh]

/-! ## The next prediction -/

/-- What the tables `t'`, which were `t` before an update with the history `h`, know of the
branch: `allocated` are the banks of which it was given the entries. -/
structure Remembers (t t' : Tables) (pc : Nat) (h : CbpHist) (resolveDir : Bool)
    (allocated : List Nat) : Prop where
  behind : allocated.length ≤ 2 ∧ ∀ b ∈ allocated, (tagepred t pc h).hitBank < b
  hits : ∀ bank, Active bank → (hits t' (tagepred t' pc h) bank = true ↔
    hits t (tagepred t pc h) bank = true ∨ bank ∈ allocated)
  found : allocated ≠ [] → (tagepred t' pc h).hitBank ∈ allocated ∧
    (∀ b ∈ allocated, b ≤ (tagepred t' pc h).hitBank) ∧
    (tagepred t' pc h).longestMatchPred = resolveDir
  again : allocated = [] → (tagepred t' pc h).hitBank = (tagepred t pc h).hitBank
  trained : 0 < (tagepred t pc h).hitBank →
    (t'.gtable (tagepred t pc h).hitBank (bankIndices pc h (tagepred t pc h).hitBank)).ctr =
      ctrupdate (hitEntry t (tagepred t pc h)).ctr resolveDir cWidth

/-- An entry is found by its own branch only, or was found before. -/
theorem AllocationConfined.hits {l : Lookup} {resolveDir : Bool} {t t' : Tables}
    {allocated blocked : List Nat} (hl : l.Matched)
    (h : AllocationConfined l resolveDir t t' allocated blocked) {bank : Nat}
    (hactive : Active bank) :
    hits t' l bank = true ↔ hits t l bank = true ∨ bank ∈ allocated := by
  unfold Predictor.hits
  by_cases hmem : bank ∈ allocated
  · simp [hmem, (h.after bank hmem).1, hactive.2.2]
  · have htag : (t'.gtable bank (l.gi bank)).tag = (t.gtable bank (l.gi bank)).tag := by
      by_contra hchanged
      obtain ⟨b, hb, hsame, hgi⟩ := h.tags _ _ hchanged
      have hne : bank ≠ b := fun heq => hmem (heq ▸ hb)
      exact hl.interleaved bank b hactive (h.banks b hb).1 hsame hne hgi
    rw [htag]
    exact (or_iff_left hmem).symm

/-- A bank that is found is in use. -/
theorem hitBank_active (t : Tables) (pc : Nat) (h : CbpHist)
    (hpos : 0 < (tagepred t pc h).hitBank) : Active (tagepred t pc h).hitBank :=
  (predictUsingGivenHist_matched t pc h).hit hpos

theorem remembers_of_train {t t' : Tables} {pc : Nat} {h : CbpHist} {resolveDir : Bool}
    {allocated blocked : List Nat}
    (hconfined : AllocationConfined (predictUsingGivenHist t pc h).lookup resolveDir t t' allocated
      blocked)
    (htrained : 0 < (tagepred t pc h).hitBank →
      (t'.gtable (tagepred t pc h).hitBank (bankIndices pc h (tagepred t pc h).hitBank)).ctr =
        ctrupdate (hitEntry t (tagepred t pc h)).ctr resolveDir cWidth) :
    Remembers t t' pc h resolveDir allocated := by
  obtain ⟨hgi, hgtag, hlongest, -⟩ := tagepred_finds t pc h
  obtain ⟨hgi', hgtag', hlongest', hdirection⟩ := tagepred_finds t' pc h
  have hbehind : ∀ b ∈ allocated, (tagepred t pc h).hitBank < b := by
    intro b hb
    have hpair : bankPair (tagepred t pc h).hitBank < bankPair b := (hconfined.banks b hb).2.1
    unfold bankPair at hpair
    omega
  have hhits : ∀ bank, Active bank → (hits t' (tagepred t' pc h) bank = true ↔
      hits t (tagepred t pc h) bank = true ∨ bank ∈ allocated) := by
    intro bank hactive
    have hsame : hits t' (tagepred t' pc h) bank =
        hits t' (predictUsingGivenHist t pc h).lookup bank := by
      unfold hits
      rw [hgi', hgtag', ← hgi, ← hgtag]
      rfl
    rw [hsame]
    exact hconfined.hits (predictUsingGivenHist_matched t pc h) hactive
  -- a bank that has a match is not behind the longest one
  have hmost : ∀ (t : Tables) (bank : Nat), Active bank →
      hits t (tagepred t pc h) bank = true → bank ≤ (tagepred t pc h).hitBank := by
    intro t bank hactive hhit
    rw [(tagepred_finds t pc h).2.2.1]
    exact le_longestHit hactive.1 hactive.2.1 hhit
  have hmatch : ∀ t : Tables, 0 < (tagepred t pc h).hitBank →
      hits t (tagepred t pc h) (tagepred t pc h).hitBank = true := by
    intro t hpos
    rw [(tagepred_finds t pc h).2.2.1] at hpos ⊢
    exact hits_longestHit hpos
  have hnew : ∀ b ∈ allocated, b ≤ (tagepred t' pc h).hitBank := by
    intro b hb
    have hactive := (hconfined.banks b hb).1
    exact hmost t' b hactive ((hhits b hactive).mpr (Or.inr hb))
  refine { behind := ⟨hconfined.few, hbehind⟩, hits := hhits, found := ?_, again := ?_,
           trained := htrained }
  · intro hne
    obtain ⟨b, hb⟩ := List.exists_mem_of_ne_nil allocated hne
    have hlater := (hbehind b hb).trans_le (hnew b hb)
    have hactive := hitBank_active t' pc h ((Nat.zero_le _).trans_lt hlater)
    have hmem : (tagepred t' pc h).hitBank ∈ allocated := by
      apply ((hhits _ hactive).mp (hmatch t' hactive.1)).resolve_left
      intro hbefore
      exact absurd (hmost t _ hactive hbefore) (not_le.mpr hlater)
    refine ⟨hmem, hnew, ?_⟩
    have hctr : (t'.gtable (tagepred t' pc h).hitBank
        ((tagepred t' pc h).gi (tagepred t' pc h).hitBank)).ctr =
          if resolveDir then 0 else -1 := by
      rw [hgi', ← hgi]
      exact (hconfined.after _ hmem).2
    rw [hdirection (Nat.ne_of_gt hactive.1), hctr]
    cases resolveDir with
    | true => rfl
    | false => rfl
  · rintro rfl
    have hsame : ∀ bank, Active bank → (hits t' (tagepred t' pc h) bank = true ↔
        hits t (tagepred t pc h) bank = true) := by
      intro bank hactive
      rw [hhits bank hactive]
      exact or_iff_left List.not_mem_nil
    apply le_antisymm
    · rcases Nat.eq_zero_or_pos (tagepred t' pc h).hitBank with hzero | hpos
      · rw [hzero]
        exact Nat.zero_le _
      · have hactive := hitBank_active t' pc h hpos
        exact hmost t _ hactive ((hsame _ hactive).mp (hmatch t' hpos))
    · rcases Nat.eq_zero_or_pos (tagepred t pc h).hitBank with hzero | hpos
      · rw [hzero]
        exact Nat.zero_le _
      · have hactive := hitBank_active t pc h hpos
        exact hmost t' _ hactive ((hsame _ hactive).mpr (hmatch t hpos))

namespace TageScL

/-- **What an update writes, the next prediction finds.** -/
theorem update_remembers (cfg : Config) (p p' : TageScL) (seqNo piece pc nextPc : Nat)
    (resolveDir predDir isLdDependent : Bool)
    (h : p.update cfg seqNo piece pc resolveDir predDir nextPc isLdDependent = .ok p') :
    ∃ hist, p.predTimeHistories (instKey seqNo piece) = some hist ∧
      ∃ allocated, Remembers p.tables p'.tables pc hist resolveDir allocated := by
  obtain ⟨hist, hsaved, seed, active, htables⟩ := update_tables h
  have hl := predictUsingGivenHist_matched p.tables pc hist
  have hhit := (predictUsingGivenHist_inBounds p.tables pc hist).hitBank
  obtain ⟨allocated, blocked, hconfined, htrained⟩ := train_entries cfg p.tables seed active pc
    resolveDir (predictUsingGivenHist p.tables pc hist).predTaken hist hl hhit isLdDependent
  dsimp only at htables
  rw [← htables] at hconfined htrained
  have hgi : (predictUsingGivenHist p.tables pc hist).lookup.gi = bankIndices pc hist :=
    (tagepred_finds p.tables pc hist).1
  rw [hgi] at htrained
  refine ⟨hist, hsaved, allocated, remembers_of_train hconfined fun hpos => ?_⟩
  rw [hitEntry, (tagepred_finds p.tables pc hist).1]
  exact htrained hpos

/-- The first misprediction. -/
theorem update_remembers_first :
    ∃ p p' hist allocated, Run (step {}) init [.predict 1 0 64] p ∧
      p.update {} 1 0 64 true false 32 false = .ok p' ∧
      Remembers p.tables p'.tables 64 hist true allocated := by
  obtain ⟨p', hok⟩ := exists_of_isOk (show (do
    let p ← [TageCall.predict 1 0 64].foldlM (step {}) init
    p.update {} 1 0 64 true false 32 false).isOk = true by decide +kernel)
  obtain ⟨p, hp, hupdate⟩ := bind_eq_ok.mp hok
  obtain ⟨hist, -, allocated, hremembers⟩ :=
    update_remembers {} p p' 1 0 64 32 true false false hupdate
  exact ⟨p, p', hist, allocated, hp, hupdate, hremembers⟩

end TageScL

end CbpSim.Predictor
