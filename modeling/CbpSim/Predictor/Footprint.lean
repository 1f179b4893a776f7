/-
  Predictor/Footprint.lean --- the predictor keeps to its arrays.

  Source: src/cbp2016_tage_sc_l.h, the arrays and the functions that use them.

  The model's arrays have no end.  `clip` forgets what is past the ends that they have in
  the source.  A call on the clipped object gives the clipped result: it reads nothing
  past an end, and writes nothing there.
-/
import Mathlib.Data.List.Find
import CbpSim.Foundation.Clip
import CbpSim.Predictor.Representation

set_option autoImplicit false

namespace CbpSim.Predictor

open CbpSim.Foundation

/-! ## Cut to size -/

/-- A component of the statistical corrector. -/
def Gehl.clip (s : GehlShape) (g : Gehl) : Gehl where
  tab i := Foundation.clip (if i < s.length.length then 2 ^ s.logs else 0) 0 (g.tab i)
  w := Foundation.clip (2 ^ 3) 0 g.w

/-- The tables. -/
def Tables.clip (t : Tables) : Tables :=
  { t with
    btable := Foundation.clip (2 ^ logB) {} t.btable
    gtableLow := Foundation.clip (nBankLow * 2 ^ logG) {} t.gtableLow
    gtableHigh := Foundation.clip (nBankHigh * 2 ^ logG) {} t.gtableHigh
    useAltOnNa := Foundation.clip sizeUseAlt 0 t.useAltOnNa
    bias := Foundation.clip (2 ^ logBias) 0 t.bias
    biasSK := Foundation.clip (2 ^ logBias) 0 t.biasSK
    biasBank := Foundation.clip (2 ^ logBias) 0 t.biasBank
    wb := Foundation.clip (2 ^ 3) 0 t.wb
    ggehl := t.ggehl.clip .ggehl
    pgehl := t.pgehl.clip .pgehl
    lgehl := t.lgehl.clip .lgehl
    sgehl := t.sgehl.clip .sgehl
    tgehl := t.tgehl.clip .tgehl
    imgehl := t.imgehl.clip .imgehl
    igehl := t.igehl.clip .igehl
    pUpdateThreshold := Foundation.clip (2 ^ 6) 0 t.pUpdateThreshold }

/-- The histories.  The folded ones have a loop over all banks and stay as they are. -/
def CbpHist.clip (h : CbpHist) : CbpHist :=
  { h with
    ghist := Foundation.clip histBufferLength 0 h.ghist
    lShist := Foundation.clip 256 0 h.lShist
    sSlhist := Foundation.clip 16 0 h.sSlhist
    tSlhist := Foundation.clip 16 0 h.tSlhist
    imHist := Foundation.clip 256 0 h.imHist
    ltable := Foundation.clip (2 ^ logL) {} h.ltable }

/-- The object, with its saved histories. -/
def TageScL.clip (p : TageScL) : TageScL :=
  { p with
    tables := p.tables.clip
    activeHist := p.activeHist.clip
    predTimeHistories := fun key => (p.predTimeHistories key).map CbpHist.clip }

/-! ## Reading -/

namespace Tables

variable (t : Tables) {i : Nat}

theorem clip_btable (hi : i < 2 ^ logB) : t.clip.btable i = t.btable i := clip_of_lt hi

theorem clip_useAltOnNa (hi : i < sizeUseAlt) : t.clip.useAltOnNa i = t.useAltOnNa i := clip_of_lt hi

/-- An entry of a tagged table. -/
theorem clip_gtable {bank : Nat} (hi : i < sizeTable bank) :
    t.clip.gtable bank i = t.gtable bank i := by
  unfold sizeTable at hi
  unfold Tables.gtable
  split
  · rename_i hlow
    rw [if_pos hlow] at hi
    exact clip_of_lt hi
  · rename_i hhigh
    rw [if_neg hhigh] at hi
    exact clip_of_lt hi

theorem hitEntry_clip {l : Lookup} (hi : l.gi l.hitBank < sizeTable l.hitBank) :
    hitEntry t.clip l = hitEntry t l := t.clip_gtable hi

theorem altEntry_clip {l : Lookup} (hi : l.gi l.altBank < sizeTable l.altBank) :
    altEntry t.clip l = altEntry t l := t.clip_gtable hi

theorem getbim_clip {l : Lookup} (hbi : l.bi < 2 ^ logB) : getbim t.clip l = getbim t l := by
  have hshared : l.bi >>> hystShift < 2 ^ logB := (Nat.shiftRight_le _ _).trans_lt hbi
  simp only [getbim, t.clip_btable hbi, t.clip_btable hshared]

/-- The banks that are looked up. -/
theorem longestHit_clip {l : Lookup}
    (hgi : ∀ bank, 1 ≤ bank → bank ≤ nHist → l.gi bank < sizeTable bank) {last : Nat}
    (hlast : last ≤ nHist) : longestHit t.clip l last = longestHit t l last := by
  have hhits : ∀ bank ∈ (List.range' 1 last).reverse, hits t.clip l bank = hits t l bank := by
    intro bank hbank
    have hbank := List.mem_range'_1.mp (List.mem_reverse.mp hbank)
    unfold hits
    rw [t.clip_gtable (hgi bank (by omega) (by omega))]
  unfold longestHit
  rw [List.find?_congr hhits]

end Tables

/-- The alternate prediction. -/
def tagepredAlt (t : Tables) (l : Lookup) : Bool × Lookup :=
  if l.altBank > 0 then
    (decide ((altEntry t l).ctr ≥ 0), { l with altConf := decide ((altEntry t l).strength > 1) })
  else getbim t l

/-- `Tagepred` with a matching bank. -/
def tagepredMatch (t : Tables) (l : Lookup) : Lookup :=
  let hit := hitEntry t l
  let longest : Bool := hit.ctr ≥ 0
  let (alternate, l) := tagepredAlt t l
  let useAlt : Bool := t.useAltOnNa (indUseAlt l) ≥ 0
  { l with
    longestMatchPred := longest
    altTaken := alternate
    tagePred := if !useAlt || hit.strength > 1 then longest else alternate
    highConf := hit.strength ≥ 2 ^ cWidth - 1
    lowConf := hit.strength == 1
    medConf := hit.strength == 5 }

/-- `Tagepred` from the look-up of the banks on. -/
def tagepredBanks (t : Tables) (bimodal : Bool) (l : Lookup) : Lookup :=
  let hitBank := longestHit t l nHist
  let altBank := longestHit t l (hitBank - 1)
  let l := { l with
    altTaken := bimodal
    tagePred := bimodal
    hitBank := hitBank
    altBank := altBank }
  if hitBank = 0 then { l with longestMatchPred := bimodal } else tagepredMatch t l

/-- `Tagepred` up to the look-up of the banks. -/
def tagepredBase (pc : Nat) (h : CbpHist) : Lookup :=
  { gi := bankIndices pc h
    gtag := gtags pc h
    bi := (pc ^^^ (pc >>> 2)) &&& (2 ^ logB - 1) }

theorem tagepred_parts (t : Tables) (pc : Nat) (h : CbpHist) :
    tagepred t pc h =
      tagepredBanks t (getbim t (tagepredBase pc h)).1 (getbim t (tagepredBase pc h)).2 := rfl

/-- The indices that the loops of `Tagepred` compute are in bounds. -/
structure Lookup.Indexed (l : Lookup) : Prop where
  bi : l.bi < 2 ^ logB
  gi : ∀ bank, 1 ≤ bank → bank ≤ nHist → l.gi bank < sizeTable bank

theorem tagepredBase_indexed (pc : Nat) (h : CbpHist) : (tagepredBase pc h).Indexed where
  bi := and_mask_lt _ _
  gi _ hlow hhigh := bankIndices_lt pc h hlow hhigh

theorem tagepredAlt_clip (t : Tables) {l : Lookup} (hl : l.Indexed) (halt : l.altBank ≤ nHist) :
    tagepredAlt t.clip l = tagepredAlt t l := by
  unfold tagepredAlt
  split
  · rename_i hpos
    rw [t.altEntry_clip (hl.gi _ hpos halt)]
  · exact t.getbim_clip hl.bi

theorem tagepredMatch_clip (t : Tables) {l : Lookup} (hl : l.Indexed) (hhit : 1 ≤ l.hitBank)
    (hhit' : l.hitBank ≤ nHist) (halt : l.altBank ≤ nHist) :
    tagepredMatch t.clip l = tagepredMatch t l := by
  unfold tagepredMatch
  rw [t.hitEntry_clip (hl.gi _ hhit hhit'), tagepredAlt_clip t hl halt]
  dsimp only
  rw [t.clip_useAltOnNa (indUseAlt_lt _)]

theorem tagepredBanks_clip (t : Tables) (bimodal : Bool) {l : Lookup} (hl : l.Indexed) :
    tagepredBanks t.clip bimodal l = tagepredBanks t bimodal l := by
  have hle := longestHit_le t l nHist
  have hle' := (longestHit_le t l (longestHit t l nHist - 1)).trans ((Nat.sub_le _ 1).trans hle)
  unfold tagepredBanks
  rw [t.longestHit_clip hl.gi (Nat.le_refl _)]
  dsimp only
  rw [t.longestHit_clip hl.gi ((Nat.sub_le _ 1).trans hle)]
  split
  · rfl
  · rename_i hne
    exact tagepredMatch_clip t ⟨hl.bi, hl.gi⟩ (Nat.one_le_iff_ne_zero.mpr hne) hle hle'

theorem tagepred_clip (t : Tables) (pc : Nat) (h : CbpHist) :
    tagepred t.clip pc h.clip = tagepred t pc h := by
  have hbase := tagepredBase_indexed pc h
  have hsame : tagepredBase pc h.clip = tagepredBase pc h := rfl
  rw [tagepred_parts, tagepred_parts, hsame, t.getbim_clip hbase.bi]
  exact tagepredBanks_clip t _ ⟨hbase.bi, hbase.gi⟩

/-- The ways of the set. -/
theorem getloop_clip (pc : Nat) (ltable : Nat → LEntry) :
    getloop pc (clip (2 ^ logL) {} ltable) = getloop pc ltable := by
  have hset : (pc ^^^ (pc >>> 2)) &&& (2 ^ (logL - 2) - 1) < 2 ^ 3 := and_mask_lt _ 3
  have hlib : (pc >>> (logL - 2)) &&& (2 ^ (logL - 2) - 1) < 2 ^ 3 := and_mask_lt _ 3
  unfold getloop
  dsimp only
  generalize hl : (LoopLookup.mk _ _ _ _ _ _) = l
  have hindex : ∀ way, way < 4 → l.index way < 2 ^ logL := by
    intro way hway
    rw [← hl]
    exact loopIndex_lt hset hlib hway
  have hfind : ∀ tag : Nat,
      (List.range 4).find? (fun way => (clip (2 ^ logL) {} ltable (l.index way)).tag == tag) =
        (List.range 4).find? (fun way => (ltable (l.index way)).tag == tag) := by
    intro tag
    apply List.find?_congr
    intro way hway
    rw [clip_of_lt (hindex way (List.mem_range.mp hway))]
  rw [hfind]
  split
  · rename_i way hfind
    rw [clip_of_lt (hindex way (List.mem_range.mp (List.mem_of_find?_eq_some hfind)))]
  · rfl

namespace Gehl

variable (g : Gehl) (s : GehlShape) (pc bHist : Nat)

theorem clip_w : (g.clip s).w (indUpdS pc) = g.w (indUpdS pc) := clip_of_lt (and_mask_lt _ 3)

theorem clip_tab {i : Nat} (hi : i < s.length.length) :
    (g.clip s).tab i (s.index pc bHist i) = g.tab i (s.index pc bHist i) := by
  apply clip_of_lt
  rw [if_pos hi]
  exact gehlShape_index_lt s pc bHist i

theorem percsum_clip : (g.clip s).percsum s pc bHist = g.percsum s pc bHist := by
  unfold percsum
  congr 1
  apply List.map_congr_left
  intro i hi
  rw [g.clip_tab s pc bHist (List.mem_range.mp hi)]

theorem gpredict_clip : gpredict (g.clip s) s pc bHist = gpredict g s pc bHist := by
  rw [gpredict, gpredict, g.clip_w, g.percsum_clip]

end Gehl

theorem biasSum_clip (t : Tables) (pc : Nat) (l : Lookup) : biasSum t.clip pc l = biasSum t pc l := by
  have hbias : t.clip.bias (biasIndex pc l) = t.bias (biasIndex pc l) :=
    clip_of_lt (and_mask_lt _ _)
  have hbiasSK : t.clip.biasSK (biasSKIndex pc l) = t.biasSK (biasSKIndex pc l) :=
    clip_of_lt (and_mask_lt _ _)
  have hbiasBank : t.clip.biasBank (biasBankIndex pc l) = t.biasBank (biasBankIndex pc l) :=
    clip_of_lt (and_mask_lt _ _)
  rw [biasSum, biasSum, hbias, hbiasSK, hbiasBank]

theorem Tables.clip_wb (t : Tables) (pc : Nat) : t.clip.wb (indUpdS pc) = t.wb (indUpdS pc) :=
  clip_of_lt (and_mask_lt _ 3)

/-- The corrector reads the local histories inside their arrays. -/
theorem CbpHist.clip_read (h : CbpHist) (pc : Nat) (himli : h.imliCount < 256) :
    h.clip.lShist (localIndex pc) = h.lShist (localIndex pc) ∧
      h.clip.sSlhist (secondLocalIndex pc) = h.sSlhist (secondLocalIndex pc) ∧
      h.clip.tSlhist (thirdLocalIndex pc) = h.tSlhist (thirdLocalIndex pc) ∧
      h.clip.imHist h.imliCount = h.imHist h.imliCount :=
  ⟨clip_of_lt (localIndex_lt pc), clip_of_lt (secondLocalIndex_lt pc),
    clip_of_lt (thirdLocalIndex_lt pc), clip_of_lt himli⟩

theorem scSum_clip (t : Tables) (pc : Nat) {h : CbpHist} (himli : h.imliCount < 256) (l : Lookup) :
    scSum t.clip pc h.clip l = scSum t pc h l := by
  obtain ⟨hlocal, hsecond, hthird, himHist⟩ := h.clip_read pc himli
  have himliCount : h.clip.imliCount = h.imliCount := rfl
  unfold scSum
  rw [t.clip_wb, biasSum_clip, hlocal, hsecond, hthird, himliCount, himHist]
  simp only [Tables.clip, Gehl.gpredict_clip]
  rfl

theorem threshold_clip (t : Tables) (pc : Nat) : threshold t.clip pc = threshold t pc := by
  have hthreshold : t.clip.pUpdateThreshold (indUpd pc) = t.pUpdateThreshold (indUpd pc) :=
    clip_of_lt (and_mask_lt _ 6)
  unfold threshold
  dsimp only
  rw [hthreshold, t.clip_wb]
  simp only [Tables.clip, Gehl.clip_w]

/-- **A prediction reads nothing past the end of an array.** -/
theorem predictUsingGivenHist_clip (t : Tables) (pc : Nat) {h : CbpHist} (himli : h.imliCount < 256) :
    predictUsingGivenHist t.clip pc h.clip = predictUsingGivenHist t pc h := by
  have hloop : getloop pc h.clip.ltable = getloop pc h.ltable := getloop_clip pc h.ltable
  unfold predictUsingGivenHist
  rw [tagepred_clip, hloop, threshold_clip]
  dsimp only
  rw [scSum_clip t pc himli]
  rfl

/-! ## Training the corrector -/

theorem gupdate_clip (lSum : Int) (g : Gehl) (s : GehlShape) (pc : Nat) (taken : Bool) (bHist : Nat) :
    gupdate lSum (g.clip s) s pc taken bHist = (gupdate lSum g s pc taken bHist).clip s := by
  unfold gupdate
  rw [g.percsum_clip, g.clip_w]
  dsimp only
  unfold Gehl.clip
  congr 1
  · funext i j
    dsimp only
    by_cases hhit : i < s.length.length ∧ j = s.index pc bHist i
    · have hj : j < if i < s.length.length then 2 ^ s.logs else 0 := by
        rw [if_pos hhit.1, hhit.2]
        exact gehlShape_index_lt s pc bHist i
      rw [if_pos hhit, clip_of_lt hj, clip_of_lt hj, if_pos hhit]
    · simp only [clip, if_neg hhit]
  · dsimp only
    split
    · exact (clip_update _ (and_mask_lt _ 3)).symm
    · rfl

namespace Tables

variable (t : Tables)

theorem updateChooser_clip (l : Lookup) (resolveDir : Bool) :
    updateChooser t.clip l resolveDir = (updateChooser t l resolveDir).clip := by
  unfold updateChooser
  dsimp only
  split
  · rfl
  · split
    · split
      · rfl
      · rfl
    · split
      · rfl
      · rfl

theorem updateThresholds_clip (pc : Nat) (up : Bool) :
    updateThresholds t.clip pc up = (updateThresholds t pc up).clip := by
  have hlt : indUpd pc < 2 ^ 6 := and_mask_lt _ 6
  unfold updateThresholds
  simp only [Tables.clip, clip_of_lt hlt, clip_update _ hlt]

theorem updateBias_clip (pc : Nat) (l : Lookup) (resolveDir : Bool) :
    updateBias t.clip pc l resolveDir = (updateBias t pc l resolveDir).clip := by
  have hbias : biasIndex pc l < 2 ^ logBias := and_mask_lt _ _
  have hbiasSK : biasSKIndex pc l < 2 ^ logBias := and_mask_lt _ _
  have hbiasBank : biasBankIndex pc l < 2 ^ logBias := and_mask_lt _ _
  have hwb : indUpdS pc < 2 ^ 3 := and_mask_lt _ 3
  unfold updateBias
  rw [biasSum_clip, t.clip_wb]
  dsimp only
  simp only [Tables.clip, clip_of_lt hbias, clip_of_lt hbiasSK, clip_of_lt hbiasBank,
    clip_update _ hbias, clip_update _ hbiasSK, clip_update _ hbiasBank]
  congr 1
  split
  · rw [clip_update _ hwb]
  · rfl

theorem updateGehls_clip (pc : Nat) {h : CbpHist} (himli : h.imliCount < 256) (l : Lookup)
    (resolveDir : Bool) :
    updateGehls t.clip pc h.clip l resolveDir = (updateGehls t pc h l resolveDir).clip := by
  obtain ⟨hlocal, hsecond, hthird, himHist⟩ := h.clip_read pc himli
  have himliCount : h.clip.imliCount = h.imliCount := rfl
  unfold updateGehls
  rw [hlocal, hsecond, hthird, himliCount, himHist]
  simp only [Tables.clip, gupdate_clip]
  rfl

theorem updateCorrector_clip (pc : Nat) {h : CbpHist} (himli : h.imliCount < 256) (l : Lookup)
    (resolveDir : Bool) :
    updateCorrector t.clip pc h.clip l resolveDir = (updateCorrector t pc h l resolveDir).clip := by
  unfold updateCorrector
  dsimp only
  rw [updateChooser_clip]
  split
  · rw [updateThresholds_clip, updateBias_clip, updateGehls_clip _ pc himli]
  · rfl

end Tables

/-! ## Training TAGE -/

namespace Tables

variable (t : Tables)

/-- An entry of a tagged table. -/
theorem setGtable_clip {bank i : Nat} (hi : i < sizeTable bank) (e : GEntry) :
    t.clip.setGtable bank i e = (t.setGtable bank i e).clip := by
  unfold sizeTable at hi
  unfold Tables.setGtable
  split
  · rename_i hlow
    rw [if_pos hlow] at hi
    simp only [Tables.clip, clip_update _ hi]
  · rename_i hhigh
    rw [if_neg hhigh] at hi
    simp only [Tables.clip, clip_update _ hi]

theorem baseupdate_clip {l : Lookup} (hbi : l.bi < 2 ^ logB) (taken : Bool) :
    baseupdate t.clip l taken = (baseupdate t l taken).clip := by
  have hshared : l.bi >>> hystShift < 2 ^ logB := (Nat.shiftRight_le _ _).trans_lt hbi
  unfold baseupdate
  dsimp only
  rw [t.clip_btable hbi]
  simp only [Tables.clip, clip_update _ hbi, clip_update _ hshared]
  rw [← clip_update _ hbi, clip_of_lt hshared]

theorem pseudoNewAlloc_clip {l : Lookup} (hl : l.InBounds) :
    pseudoNewAlloc t.clip l = pseudoNewAlloc t l := by
  unfold pseudoNewAlloc
  rcases Nat.eq_zero_or_pos l.hitBank with hzero | hpos
  · simp [hzero]
  · rw [t.hitEntry_clip (hl.gi _ hpos hl.hitBank)]

theorem updateUseAlt_clip {l : Lookup} (hl : l.InBounds) (resolveDir : Bool) :
    updateUseAlt t.clip l resolveDir = (updateUseAlt t l resolveDir).clip := by
  have hlt := indUseAlt_lt l
  unfold updateUseAlt
  rw [t.pseudoNewAlloc_clip hl]
  split
  · rw [t.clip_useAltOnNa hlt]
    simp only [Tables.clip, clip_update _ hlt]
  · rfl

theorem wantsAlloc_clip {l : Lookup} (hl : l.InBounds) (resolveDir : Bool) :
    wantsAlloc t.clip l resolveDir = wantsAlloc t l resolveDir := by
  rw [wantsAlloc, wantsAlloc, t.pseudoNewAlloc_clip hl]

end Tables

/-- The allocation loop on the clipped tables. -/
def Alloc.clip (a : Alloc) : Alloc := { a with tables := a.tables.clip }

theorem Alloc.tryBank_clip (a : Alloc) {l : Lookup} (hl : l.InBounds) (resolveDir : Bool) {bank : Nat}
    (hlow : 1 ≤ bank) (hhigh : bank ≤ nHist) :
    a.clip.tryBank l resolveDir bank = (a.tryBank l resolveDir bank).clip := by
  have hi := hl.gi bank hlow hhigh
  unfold Alloc.tryBank
  split
  · rfl
  · rw [Alloc.clip]
    dsimp only
    rw [a.tables.clip_gtable hi]
    split
    · rfl
    · split
      · rw [a.tables.setGtable_clip hi]
        split
        · rfl
        · rfl
      · rw [a.tables.setGtable_clip hi]
        rfl

/-- The index moves on when the entry is taken. -/
theorem Alloc.tryBank_i (a : Alloc) (l : Lookup) (resolveDir : Bool) (bank : Nat)
    (h : (a.tryBank l resolveDir bank).done = false) : (a.tryBank l resolveDir bank).i = a.i := by
  unfold Alloc.tryBank at h ⊢
  split
  · rfl
  · rename_i hskip
    rw [if_neg hskip] at h
    dsimp only at h ⊢
    split
    · rfl
    · rename_i hu
      rw [if_neg hu] at h
      split
      · rename_i hweak
        rw [if_pos hweak] at h
        split
        · rfl
        · rename_i ht
          rw [if_neg ht] at h
          cases h
      · rfl

theorem Alloc.round_clip {l : Lookup} (hl : l.InBounds) (resolveDir : Bool) {a : Alloc}
    (hi : a.i < nHist) : a.clip.round l resolveDir = (a.round l resolveDir).clip := by
  have hpair : ∀ i < nHist, i ^^^ 1 < nHist := by decide
  have hstart : ({ a.clip with done := false } : Alloc).tryBank l resolveDir (a.clip.i + 1) =
      (({ a with done := false } : Alloc).tryBank l resolveDir (a.i + 1)).clip :=
    Alloc.tryBank_clip { a with done := false } hl resolveDir (Nat.succ_pos _) hi
  have hkeep := Alloc.tryBank_i { a with done := false } l resolveDir (a.i + 1)
  unfold Alloc.round
  dsimp only
  rw [hstart]
  generalize ({ a with done := false } : Alloc).tryBank l resolveDir (a.i + 1) = b at hkeep ⊢
  change (if (b.stop || b.done) = true then b.clip
    else b.clip.tryBank l resolveDir ((b.i ^^^ 1) + 1)) = _
  split
  · rfl
  · -- the other bank of the pair
    rename_i hmore
    obtain ⟨-, hdone⟩ := Bool.or_eq_false_iff.mp (Bool.eq_false_iff.mpr hmore)
    have hb : b.i < nHist := (hkeep hdone).trans_lt hi
    exact b.tryBank_clip hl resolveDir (Nat.succ_pos _) (hpair b.i hb)

theorem Alloc.loop_clip {l : Lookup} (hl : l.InBounds) (resolveDir : Bool) (n : Nat) (a : Alloc) :
    Alloc.loop l resolveDir n a.clip = (Alloc.loop l resolveDir n a).clip := by
  induction n generalizing a with
  | zero => rfl
  | succ n ih =>
    rw [Alloc.loop_succ, Alloc.loop_succ]
    by_cases hend : a.i ≥ nHist
    · refine (if_pos hend).trans ?_
      rw [if_pos hend]
    · refine (if_neg hend).trans ?_
      rw [if_neg hend, Alloc.round_clip hl resolveDir (Nat.not_le.mp hend)]
      generalize a.round l resolveDir = b
      change (if b.stop = true then b.clip
        else Alloc.loop l resolveDir n ({ b with i := b.i + 2 } : Alloc).clip) = _
      rw [ih]
      dsimp only
      split
      · rfl
      · rfl

namespace Tables

variable (t : Tables)

theorem ageUseful_clip : ageUseful t.clip = (ageUseful t).clip := by
  have hzero : ({} : GEntry).age = {} := rfl
  have hage : ∀ (n : Nat) (f : Nat → GEntry),
      (fun j => (Foundation.clip n {} f j).age) = Foundation.clip n {} fun j => (f j).age := by
    intro n f
    have hmap := clip_map (n := n) (d := ({} : GEntry)) (g := GEntry.age) f
    rw [hzero] at hmap
    exact hmap.symm
  unfold ageUseful
  simp only [Tables.clip, hage]

theorem updateTick_clip (penalty na : Int) :
    updateTick t.clip penalty na = (updateTick t penalty na).clip := by
  have htick : t.clip.tick = t.tick := rfl
  unfold updateTick
  dsimp only
  rw [ageUseful_clip, htick]
  generalize (if t.tick + (penalty - 2 * na) < 0 then 0 else t.tick + (penalty - 2 * na)) = tick
  split
  · rfl
  · rfl

theorem allocate_clip (seed phist : Nat) (ptghist : Int) {l : Lookup} (hl : l.InBounds)
    (resolveDir : Bool) :
    allocate t.clip seed phist ptghist l resolveDir =
      ((allocate t seed phist ptghist l resolveDir).1.clip,
        (allocate t seed phist ptghist l resolveDir).2) := by
  unfold allocate
  dsimp only
  generalize (_ ^^^ _ : Nat) = dep
  have hloop := Alloc.loop_clip hl resolveDir nHist
    { tables := t, t := 1, na := 0, penalty := 0, i := dep, done := false, stop := false }
  rw [Alloc.clip] at hloop
  rw [hloop, ← updateTick_clip]
  rfl

/-- `updateCounters`: the alternate entry, or the bimodal one. -/
def updateAlternate (l : Lookup) (resolveDir : Bool) : Tables :=
  if (hitEntry t l).strength == 1 && l.longestMatchPred != resolveDir then
    if l.altBank > 0 then
      t.setGtable l.altBank (l.gi l.altBank)
        { altEntry t l with ctr := ctrupdate (altEntry t l).ctr resolveDir cWidth }
    else baseupdate t l resolveDir
  else t

/-- `updateCounters`: the entry of the longest match. -/
def updateLongest (l : Lookup) (resolveDir : Bool) : Tables :=
  let e := hitEntry t l
  let e := { e with ctr := ctrupdate e.ctr resolveDir cWidth }
  let e := if e.strength == 1 then { e with u := 0 } else e
  t.setGtable l.hitBank (l.gi l.hitBank) e

/-- `updateCounters`: the entry that the alternate one makes superfluous. -/
def clearUseful (l : Lookup) (resolveDir : Bool) : Tables :=
  if l.altTaken == resolveDir && decide (l.altBank > 0) && (altEntry t l).strength == 7 &&
      (hitEntry t l).u == 1 && l.longestMatchPred == resolveDir then
    t.setGtable l.hitBank (l.gi l.hitBank) { hitEntry t l with u := 0 }
  else t

theorem updateCounters_parts (l : Lookup) (resolveDir : Bool) :
    updateCounters t l resolveDir =
      if l.hitBank = 0 then baseupdate t l resolveDir
      else ((t.updateAlternate l resolveDir).updateLongest l resolveDir).clearUseful l resolveDir :=
  rfl

theorem updateAlternate_clip {l : Lookup} (hl : l.InBounds) (hpos : 1 ≤ l.hitBank)
    (resolveDir : Bool) :
    t.clip.updateAlternate l resolveDir = (t.updateAlternate l resolveDir).clip := by
  unfold updateAlternate
  rw [t.hitEntry_clip (hl.gi _ hpos hl.hitBank)]
  split
  · split
    · rename_i halt
      have hi := hl.gi _ halt hl.altBank
      rw [t.altEntry_clip hi, t.setGtable_clip hi]
    · exact t.baseupdate_clip hl.bi resolveDir
  · rfl

theorem updateLongest_clip {l : Lookup} (hl : l.InBounds) (hpos : 1 ≤ l.hitBank)
    (resolveDir : Bool) :
    t.clip.updateLongest l resolveDir = (t.updateLongest l resolveDir).clip := by
  have hi := hl.gi _ hpos hl.hitBank
  unfold updateLongest
  rw [t.hitEntry_clip hi]
  exact t.setGtable_clip hi _

theorem clearUseful_clip {l : Lookup} (hl : l.InBounds) (hpos : 1 ≤ l.hitBank)
    (resolveDir : Bool) :
    t.clip.clearUseful l resolveDir = (t.clearUseful l resolveDir).clip := by
  have hi := hl.gi _ hpos hl.hitBank
  unfold clearUseful
  rw [t.hitEntry_clip hi, t.setGtable_clip hi]
  rcases Nat.eq_zero_or_pos l.altBank with hzero | halt
  · simp [hzero]
  · rw [t.altEntry_clip (hl.gi _ halt hl.altBank)]
    split
    · rfl
    · rfl

theorem updateCounters_clip {l : Lookup} (hl : l.InBounds) (resolveDir : Bool) :
    updateCounters t.clip l resolveDir = (updateCounters t l resolveDir).clip := by
  rw [updateCounters_parts, updateCounters_parts]
  split
  · exact t.baseupdate_clip hl.bi resolveDir
  · rename_i hne
    have hpos : 1 ≤ l.hitBank := Nat.one_le_iff_ne_zero.mpr hne
    rw [t.updateAlternate_clip hl hpos, updateLongest_clip _ hl hpos, clearUseful_clip _ hl hpos]

theorem updateUseful_clip (cfg : Config) {l : Lookup} (hl : l.InBounds)
    (resolveDir isLdDependent : Bool) :
    updateUseful cfg t.clip l resolveDir isLdDependent =
      (updateUseful cfg t l resolveDir isLdDependent).clip := by
  unfold updateUseful
  dsimp only
  rcases Bool.eq_false_or_eq_true (l.longestMatchPred != l.altTaken) with hdiffer | hsame
  · have hpos : 1 ≤ l.hitBank := by
      by_contra hzero
      have heq := hl.unmatched (by omega)
      rw [heq, bne_self_eq_false] at hdiffer
      cases hdiffer
    have hhit := hl.gi _ hpos hl.hitBank
    rw [t.hitEntry_clip hhit, t.setGtable_clip hhit]
    split
    · rfl
    · rfl
  · simp only [hsame, Bool.false_and, Bool.false_eq_true, if_false]

theorem train_clip (cfg : Config) (seed : Nat) (active : CbpHist) (pc : Nat)
    (resolveDir predTaken : Bool) {h : CbpHist} (himli : h.imliCount < 256) {l : Lookup}
    (hl : l.InBounds) (isLdDependent : Bool) :
    train cfg t.clip seed active.clip pc resolveDir predTaken h.clip l isLdDependent =
      ((train cfg t seed active pc resolveDir predTaken h l isLdDependent).1.clip,
        (train cfg t seed active pc resolveDir predTaken h l isLdDependent).2) := by
  have hphist : active.clip.phist = active.phist := rfl
  have hptghist : active.clip.ptghist = active.ptghist := rfl
  unfold train
  dsimp only
  rw [t.updateCorrector_clip pc himli, wantsAlloc_clip _ hl, updateUseAlt_clip _ hl, hphist, hptghist]
  generalize updateCorrector t pc h l resolveDir = trained
  generalize (if predTaken == resolveDir then _ else _ : Bool × Nat) = drawn
  split
  · rw [allocate_clip _ _ _ _ hl]
    dsimp only
    rw [updateCounters_clip _ hl, updateUseful_clip _ _ hl]
  · rw [updateCounters_clip _ hl, updateUseful_clip _ _ hl]

end Tables

/-! ## Histories -/

theorem loopupdate_clip {l : LoopLookup} (hl : l.InBounds) (tagePred : Bool) (phist : Nat)
    (ptghist : Int) (taken alloc : Bool) (ltable : Nat → LEntry) (seed : Nat) :
    loopupdate l tagePred phist ptghist taken alloc (clip (2 ^ logL) {} ltable) seed =
      (clip (2 ^ logL) {} (loopupdate l tagePred phist ptghist taken alloc ltable seed).1,
        (loopupdate l tagePred phist ptghist taken alloc ltable seed).2) := by
  unfold loopupdate
  cases hhit : l.lHit with
  | some way =>
    have hlt := hl.index way (hl.lHit way hhit)
    dsimp only
    rw [clip_of_lt hlt]
    split
    · rw [clip_update _ hlt]
    · rw [clip_update _ hlt]
  | none =>
    dsimp only
    split
    · rfl
    · split
      · rfl
      · have hway : (myrandom phist ptghist seed).1 &&& 3 < 4 := and_mask_lt _ 2
        have hlt := hl.index _ hway
        rw [clip_of_lt hlt]
        split
        · rw [clip_update _ hlt]
        · rw [clip_update _ hlt]

namespace CbpHist

variable (h : CbpHist)

theorem updateImHist_clip (himli : h.imliCount < 256) (taken : Bool) :
    h.clip.updateImHist taken = (h.updateImHist taken).clip := by
  have hread : h.clip.imHist h.imliCount = h.imHist h.imliCount := clip_of_lt himli
  have hcount : h.clip.imliCount = h.imliCount := rfl
  unfold updateImHist
  rw [hcount, hread]
  simp only [CbpHist.clip, clip_update _ himli]

theorem updateImliCount_clip (pc nextPc : Nat) (taken : Bool) :
    h.clip.updateImliCount pc nextPc taken = (h.updateImliCount pc nextPc taken).clip := by
  have hcount : h.clip.imliCount = h.imliCount := rfl
  unfold updateImliCount
  rw [hcount]
  split
  · split
    · split
      · rfl
      · rfl
    · rfl
  · rfl

theorem updateLocal_clip (pc nextPc : Nat) (taken : Bool) :
    h.clip.updateLocal pc nextPc taken = (h.updateLocal pc nextPc taken).clip := by
  have hlocal := localIndex_lt pc
  have hsecond := secondLocalIndex_lt pc
  have hthird := thirdLocalIndex_lt pc
  unfold updateLocal
  simp only [CbpHist.clip, clip_of_lt hlocal, clip_of_lt hsecond, clip_of_lt hthird,
    clip_update _ hlocal, clip_update _ hsecond, clip_update _ hthird]

/-- A folded history reads two slots of the ring. -/
theorem foldedHistory_update_clip (f : FoldedHistory) (ghist : Nat → Nat) (pt : Int) :
    f.update (Foundation.clip histBufferLength 0 ghist) pt = f.update ghist pt := by
  unfold FoldedHistory.update
  rw [clip_of_lt (histSlot_lt pt), clip_of_lt (histSlot_lt _)]

theorem push_clip (dir : Bool) (pathBit : Nat) :
    h.clip.push dir pathBit = (h.push dir pathBit).clip := by
  have hupdate : Function.update h.clip.ghist (histSlot (h.ptghist - 1)) dir.toNat =
      Foundation.clip histBufferLength 0
        (Function.update h.ghist (histSlot (h.ptghist - 1)) dir.toNat) :=
    (clip_update _ (histSlot_lt _)).symm
  have hpt : h.clip.ptghist = h.ptghist := rfl
  unfold push
  dsimp only
  rw [hpt, hupdate]
  simp only [foldedHistory_update_clip]
  rfl

theorem pushAll_clip (n t path : Nat) : pushAll n t path h.clip = (pushAll n t path h).clip := by
  induction n generalizing t path h with
  | zero => rfl
  | succ n ih => rw [pushAll, pushAll, push_clip, ih]

theorem updateGlobal_clip (pc brtype : Nat) (taken : Bool) (nextPc : Nat) :
    h.clip.updateGlobal pc brtype taken nextPc = (h.updateGlobal pc brtype taken nextPc).clip := by
  unfold updateGlobal
  dsimp only
  rw [pushAll_clip]
  rfl

end CbpHist

/-! ## Calls -/

namespace TageScL

variable {p : TageScL}

theorem mapHist_clip {f : CbpHist → CbpHist} (hf : f p.activeHist.clip = (f p.activeHist).clip) :
    p.clip.mapHist f = (p.mapHist f).clip := by
  unfold mapHist
  simp only [TageScL.clip, hf]

theorem speculateLoop_clip (hl : p.lookup.loop.InBounds) (predTaken : Bool) :
    p.clip.speculateLoop predTaken = (p.speculateLoop predTaken).clip := by
  have hloop := loopupdate_clip hl p.lookup.tagePred p.activeHist.phist p.activeHist.ptghist
    predTaken false p.activeHist.ltable p.seed
  unfold speculateLoop
  simp only [TageScL.clip, CbpHist.clip, hloop]

theorem resolveLoop_clip (hl : p.lookup.loop.InBounds) (resolveDir predTaken : Bool) :
    p.clip.resolveLoop resolveDir predTaken = (p.resolveLoop resolveDir predTaken).clip := by
  have hloop := loopupdate_clip hl p.lookup.tagePred p.activeHist.phist p.activeHist.ptghist
    resolveDir (predTaken != resolveDir) p.activeHist.ltable p.seed
  unfold resolveLoop
  simp only [TageScL.clip, CbpHist.clip, hloop]

theorem restoreLoop_clip (h : CbpHist) : p.clip.restoreLoop h.clip = (p.restoreLoop h).clip := rfl

/-- **`HistoryUpdate` keeps to the arrays.** -/
theorem historyUpdate_clip (hp : p.InRange) (c : HistoryCall) (predTaken : Bool) :
    p.clip.historyUpdate c.pc c.brtype predTaken c.taken c.nextPc =
      (p.historyUpdate c.pc c.brtype predTaken c.taken c.nextPc).clip := by
  have himli := hp.activeHist.imliCount
  unfold historyUpdate
  dsimp only
  split
  · rw [mapHist_clip (p.activeHist.updateImHist_clip himli c.taken)]
    have hloop : (p.mapHist fun h => h.updateImHist c.taken).lookup.loop.InBounds := hp.lookup.loop
    rw [speculateLoop_clip hloop]
    rw [mapHist_clip (CbpHist.updateImliCount_clip _ c.pc c.nextPc c.taken)]
    rw [mapHist_clip (CbpHist.updateLocal_clip _ c.pc c.nextPc c.taken)]
    exact mapHist_clip (CbpHist.updateGlobal_clip _ c.pc c.brtype c.taken c.nextPc)
  · exact mapHist_clip (CbpHist.updateGlobal_clip _ c.pc c.brtype c.taken c.nextPc)

/-- The saved histories with one more, or one less. -/
theorem clip_saved (saved : Nat → Option CbpHist) (key : Nat) (h : Option CbpHist) :
    (fun k => (Function.update saved key h k).map CbpHist.clip) =
      Function.update (fun k => (saved k).map CbpHist.clip) key (h.map CbpHist.clip) := by
  funext k
  rcases eq_or_ne k key with rfl | hne
  · rw [Function.update_self, Function.update_self]
  · rw [Function.update_of_ne hne, Function.update_of_ne hne]

/-- **`predict` keeps to the arrays**, and gives the same prediction. -/
theorem predict_clip (hp : p.InRange) (seqNo piece pc : Nat) :
    p.clip.predict seqNo piece pc =
      (p.predict seqNo piece pc).map fun x => (x.1, x.2.clip) := by
  have hsame : predictUsingGivenHist p.clip.tables pc p.clip.activeHist =
      predictUsingGivenHist p.tables pc p.activeHist :=
    predictUsingGivenHist_clip p.tables pc hp.activeHist.imliCount
  unfold predict
  cases getUniqueInstId seqNo piece with
  | error e => rfl
  | ok key =>
    have hsaved : (p.clip.predTimeHistories key).getD p.clip.activeHist =
        ((p.predTimeHistories key).getD p.activeHist).clip := by
      cases hold : p.predTimeHistories key with
      | none => simp [TageScL.clip, hold]
      | some h => simp [TageScL.clip, hold]
    rw [ok_bind, ok_bind, hsame, hsaved, Except.map]
    simp only [TageScL.clip, clip_saved, Option.map_some]
    rfl

/-- The second `update` after its loop-predictor part. -/
def trained (p : TageScL) (cfg : Config) (pc : Nat) (resolveDir predTaken : Bool) (h : CbpHist)
    (isLdDependent : Bool) : TageScL :=
  let (tables, seed) :=
    train cfg p.tables p.seed p.activeHist pc resolveDir predTaken h p.lookup isLdDependent
  { p with tables := tables, seed := seed }

theorem updateWith_parts (p : TageScL) (cfg : Config) (pc : Nat) (resolveDir predTaken : Bool)
    (h : CbpHist) (isLdDependent : Bool) :
    p.updateWith cfg pc resolveDir predTaken h isLdDependent =
      (if predTaken != resolveDir then (p.restoreLoop h).resolveLoop resolveDir predTaken
        else p).trained cfg pc resolveDir predTaken h isLdDependent := rfl

theorem trained_clip (hl : p.lookup.InBounds) (cfg : Config) (pc : Nat)
    (resolveDir predTaken : Bool) {h : CbpHist} (himli : h.imliCount < 256) (isLdDependent : Bool) :
    p.clip.trained cfg pc resolveDir predTaken h.clip isLdDependent =
      (p.trained cfg pc resolveDir predTaken h isLdDependent).clip := by
  have htrain := p.tables.train_clip cfg p.seed p.activeHist pc resolveDir predTaken himli hl
    isLdDependent
  unfold trained
  simp only [TageScL.clip, htrain]

/-- The training keeps to the arrays. -/
theorem updateWith_clip (hl : p.lookup.InBounds) (cfg : Config) (pc : Nat)
    (resolveDir predTaken : Bool) {h : CbpHist} (himli : h.imliCount < 256) (isLdDependent : Bool) :
    p.clip.updateWith cfg pc resolveDir predTaken h.clip isLdDependent =
      (p.updateWith cfg pc resolveDir predTaken h isLdDependent).clip := by
  rw [updateWith_parts, updateWith_parts]
  split
  · have hloop : (p.restoreLoop h).lookup.loop.InBounds := hl.loop
    rw [restoreLoop_clip, resolveLoop_clip hloop]
    have hkept : ((p.restoreLoop h).resolveLoop resolveDir predTaken).lookup.InBounds := hl
    exact trained_clip hkept cfg pc resolveDir predTaken himli isLdDependent
  · exact trained_clip hl cfg pc resolveDir predTaken himli isLdDependent

/-- **`update` keeps to the arrays.** -/
theorem update_clip (hp : p.InRange) (cfg : Config) (seqNo piece pc : Nat)
    (resolveDir predDir : Bool) (nextPc : Nat) (isLdDependent : Bool) :
    p.clip.update cfg seqNo piece pc resolveDir predDir nextPc isLdDependent =
      (p.update cfg seqNo piece pc resolveDir predDir nextPc isLdDependent).map TageScL.clip := by
  unfold update
  cases getUniqueInstId seqNo piece with
  | error e => rfl
  | ok key =>
    rw [ok_bind, ok_bind]
    cases hsaved : p.predTimeHistories key with
    | none =>
      have hsaved' : p.clip.predTimeHistories key = none := by simp [TageScL.clip, hsaved]
      rw [hsaved']
      rfl
    | some h =>
      have hsaved' : p.clip.predTimeHistories key = some h.clip := by simp [TageScL.clip, hsaved]
      have himli := (hp.saved key h hsaved).imliCount
      have hsame : predictUsingGivenHist p.clip.tables pc h.clip = predictUsingGivenHist p.tables pc h :=
        predictUsingGivenHist_clip p.tables pc himli
      have hbounds := predictUsingGivenHist_inBounds p.tables pc h
      rw [hsaved']
      dsimp only
      rw [hsame]
      generalize predictUsingGivenHist p.tables pc h = again at hbounds ⊢
      have htrained : ({ p.clip with lookup := again.lookup } : TageScL).updateWith cfg pc resolveDir
          again.predTaken h.clip isLdDependent =
          (({ p with lookup := again.lookup } : TageScL).updateWith cfg pc resolveDir again.predTaken h
            isLdDependent).clip :=
        updateWith_clip (p := { p with lookup := again.lookup }) hbounds cfg pc resolveDir
          again.predTaken himli isLdDependent
      rw [htrained, Except.map]
      simp only [TageScL.clip, clip_saved, Option.map_none]

/-- **A call keeps to the arrays.**  Cut to their sizes, the object does the same. -/
theorem step_clip (hp : p.InRange) (cfg : Config) (call : TageCall) :
    p.clip.step cfg call = (p.step cfg call).map TageScL.clip := by
  cases call with
  | predict seqNo piece pc =>
    unfold step
    dsimp only
    rw [predict_clip hp]
    cases p.predict seqNo piece pc with
    | error e => rfl
    | ok x => rfl
  | historyUpdate c predTaken => exact congrArg Except.ok (historyUpdate_clip hp c predTaken)
  | trackOtherInst c predTaken => exact congrArg Except.ok (historyUpdate_clip hp c predTaken)
  | update seqNo piece pc resolveDir predDir nextPc isLdDependent =>
    exact update_clip hp cfg seqNo piece pc resolveDir predDir nextPc isLdDependent

/-- **Representation invariant.**  After any calls of a new object the counters are
within their bits, and a next call uses no place outside its array: the places that it
computes are in bounds, and cut to their sizes the arrays give the same. -/
theorem run_inRange (cfg : Config) (p : TageScL) (calls : List TageCall)
    (hrun : Run (step cfg) init calls p) :
    p.InRange ∧ ∀ call, (∀ cell ∈ p.cells call, cell.InBounds) ∧
      p.clip.step cfg call = (p.step cfg call).map TageScL.clip := by
  have hp := inRange_of_run hrun
  exact ⟨hp, fun call => ⟨hp.cells call, step_clip hp cfg call⟩⟩

theorem run_inRange_resolvedLate :
    ∃ p, Run (step {}) .init resolvedLate p ∧
      p.InRange ∧ ∀ call, (∀ cell ∈ p.cells call, cell.InBounds) ∧
        p.clip.step {} call = (p.step {} call).map TageScL.clip := by
  obtain ⟨p, hp⟩ := exists_of_isOk
    (show (resolvedLate.foldlM (step {}) .init).isOk = true by decide +kernel)
  exact ⟨p, hp, run_inRange {} p resolvedLate hp⟩

end TageScL

end CbpSim.Predictor
