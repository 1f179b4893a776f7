/-
  Predictor/Majority.lean --- branches that mostly go one way are mostly predicted.

  Source: src/cbp2016_tage_sc_l.h, the choice of `predict_using_given_hist`, `LSUM`, and
  the statistical-corrector part of `update`.

  Whatever TAGE and the loop predictor say, a wrong direction is one for which the
  corrector is trained: its sum has the wrong sign, or is below the threshold.  Then not
  all the counters that were read are at their end in the right direction, so the
  training moves at least one.  In the other direction an update moves at most as many
  counters as it reads.
-/
import CbpSim.Foundation.Amortised
import CbpSim.Predictor.Corrector
import CbpSim.Predictor.Representation

set_option autoImplicit false

namespace CbpSim.Predictor

open CbpSim.Foundation

/-! ## A counter -/

/-- The steps that a counter of the corrector has made in the direction `dir`. -/
def credit (dir : Bool) (ctr : Int) : Nat := (if dir then ctr + 32 else 31 - ctr).toNat

section Credit

variable {ctr : Int} (h : InBits percWidth ctr) (dir : Bool)

include h

theorem inBits_percWidth : -32 ≤ ctr ∧ ctr ≤ 31 := h

theorem credit_le : credit dir ctr ≤ 63 := by
  obtain ⟨hlow, hhigh⟩ := inBits_percWidth h
  cases dir with
  | true => simp only [credit, if_true]; omega
  | false => simp only [credit, Bool.false_eq_true, if_false]; omega

/-- A counter at its end counts for all it can. -/
theorem centred_of_credit (hfull : credit dir ctr = 63) :
    centred ctr = if dir then 63 else -63 := by
  obtain ⟨hlow, hhigh⟩ := inBits_percWidth h
  unfold centred
  cases dir with
  | true => simp only [credit, if_true] at hfull ⊢; omega
  | false => simp only [credit, Bool.false_eq_true, if_false] at hfull ⊢; omega

/-- A step in the direction, unless the counter is at its end. -/
theorem credit_toward : credit dir (ctrupdate ctr dir percWidth) = min (credit dir ctr + 1) 63 := by
  obtain ⟨hlow, hhigh⟩ := inBits_percWidth h
  have hwidth : (2 : Int) ^ (percWidth - 1) = 32 := rfl
  cases dir with
  | true =>
    simp only [credit, ctrupdate, if_true, hwidth]
    split <;> omega
  | false =>
    simp only [credit, ctrupdate, Bool.false_eq_true, if_false, hwidth]
    split <;> omega

/-- No step goes far. -/
theorem credit_away (taken : Bool) :
    credit dir ctr ≤ credit dir (ctrupdate ctr taken percWidth) + 1 := by
  obtain ⟨hlow, hhigh⟩ := inBits_percWidth h
  unfold credit ctrupdate
  cases dir with
  | true => simp only [if_true]; split <;> split <;> omega
  | false => simp only [Bool.false_eq_true, if_false]; split <;> split <;> omega

end Credit

/-! ## The counters that an update reads -/

/-- What the training in the direction makes of the counters. -/
theorem sum_credit_toward (dir : Bool) {ctrs : List Int} (h : ∀ c ∈ ctrs, InBits percWidth c) :
    (ctrs.map (credit dir)).sum ≤
        (ctrs.map fun c => credit dir (ctrupdate c dir percWidth)).sum ∧
      ((∃ c ∈ ctrs, credit dir c < 63) → (ctrs.map (credit dir)).sum <
        (ctrs.map fun c => credit dir (ctrupdate c dir percWidth)).sum) := by
  induction ctrs with
  | nil => simp
  | cons c ctrs ih =>
    obtain ⟨hle, hlt⟩ := ih fun c' hc' => h c' (List.mem_cons_of_mem _ hc')
    have hc := credit_toward (h c List.mem_cons_self) dir
    have hmost := credit_le (h c List.mem_cons_self) dir
    simp only [List.map_cons, List.sum_cons, List.mem_cons, exists_eq_or_imp]
    constructor
    · omega
    · rintro (hroom | hroom)
      · omega
      · have := hlt hroom
        omega

/-- What the training in any direction leaves of them. -/
theorem sum_credit_away (dir taken : Bool) {ctrs : List Int}
    (h : ∀ c ∈ ctrs, InBits percWidth c) :
    (ctrs.map (credit dir)).sum ≤
      (ctrs.map fun c => credit dir (ctrupdate c taken percWidth)).sum + ctrs.length := by
  induction ctrs with
  | nil => simp
  | cons c ctrs ih =>
    have hrest := ih fun c' hc' => h c' (List.mem_cons_of_mem _ hc')
    have hc := credit_away (h c List.mem_cons_self) dir taken
    simp only [List.map_cons, List.sum_cons, List.length_cons]
    omega

/-- Counters at their end vote as one. -/
theorem sum_centred_of_full (dir : Bool) {ctrs : List Int} (h : ∀ c ∈ ctrs, InBits percWidth c)
    (hfull : ∀ c ∈ ctrs, credit dir c = 63) :
    (ctrs.map centred).sum = (if dir then 63 else -63) * ctrs.length := by
  induction ctrs with
  | nil => simp
  | cons c ctrs ih =>
    rw [List.map_cons, List.sum_cons, ih (fun c' hc' => h c' (List.mem_cons_of_mem _ hc'))
      (fun c' hc' => hfull c' (List.mem_cons_of_mem _ hc')),
      centred_of_credit (h c List.mem_cons_self) dir (hfull c List.mem_cons_self),
      List.length_cons]
    push_cast
    ring

/-! ## The components -/

/-- What the tables of a component have come to. -/
def Gehl.credit (dir : Bool) (g : Gehl) (s : GehlShape) : Nat :=
  ∑ i ∈ Finset.range s.length.length, worth (Predictor.credit dir) (2 ^ s.logs) (g.tab i)

theorem gupdate_credit (dir : Bool) (lSum : Int) (g : Gehl) (s : GehlShape) (pc : Nat)
    (taken : Bool) (bHist : Nat) :
    (gupdate lSum g s pc taken bHist).credit dir s + ((g.entries s pc bHist).map (credit dir)).sum =
      g.credit dir s +
        ((g.entries s pc bHist).map fun c => credit dir (ctrupdate c taken percWidth)).sum := by
  have hsum : ∀ f : Int → Nat, ((g.entries s pc bHist).map f).sum =
      ∑ i ∈ Finset.range s.length.length, f (g.tab i (s.index pc bHist i)) := by
    intro f
    rw [Gehl.entries, List.map_map]
    rfl
  rw [hsum, hsum, Gehl.credit, Gehl.credit, ← Finset.sum_add_distrib, ← Finset.sum_add_distrib]
  apply Finset.sum_congr rfl
  intro i hi
  have htab : (gupdate lSum g s pc taken bHist).tab i =
      Function.update (g.tab i) (s.index pc bHist i)
        (ctrupdate (g.tab i (s.index pc bHist i)) taken percWidth) := by
    funext j
    dsimp only [gupdate]
    rcases eq_or_ne j (s.index pc bHist i) with rfl | hne
    · rw [if_pos ⟨Finset.mem_range.mp hi, rfl⟩, Function.update_self]
    · rw [if_neg fun h => hne h.2, Function.update_of_ne hne]
  rw [htab]
  exact worth_update _ (gehlShape_index_lt s pc bHist i) _ _

namespace Component

/-- What the counters of a component have come to. -/
def credit (dir : Bool) (t : Tables) : Component → Nat
  | .bias => worth (Predictor.credit dir) (2 ^ logBias) t.bias +
      worth (Predictor.credit dir) (2 ^ logBias) t.biasSK +
      worth (Predictor.credit dir) (2 ^ logBias) t.biasBank
  | .ggehl => t.ggehl.credit dir .ggehl
  | .pgehl => t.pgehl.credit dir .pgehl
  | .lgehl => t.lgehl.credit dir .lgehl
  | .sgehl => t.sgehl.credit dir .sgehl
  | .tgehl => t.tgehl.credit dir .tgehl
  | .imgehl => t.imgehl.credit dir .imgehl
  | .igehl => t.igehl.credit dir .igehl

section Train

variable (dir : Bool) (t : Tables) (pc : Nat) (h : CbpHist) (l : Lookup) (resolveDir : Bool)

theorem credit_train_of_ne {c c' : Component} (hne : c' ≠ c) :
    c.credit dir (train pc h l resolveDir t c') = c.credit dir t := by
  cases c <;> cases c' <;> first | exact absurd rfl hne | simp only [credit, train, updateBias]

theorem credit_updateChooser (c : Component) :
    c.credit dir (updateChooser t l resolveDir) = c.credit dir t := by
  unfold updateChooser
  dsimp only
  split_ifs
  all_goals cases c <;> rfl

theorem credit_start (c : Component) : c.credit dir (start t pc l resolveDir) = c.credit dir t := by
  rw [← credit_updateChooser dir t l resolveDir c]
  cases c <;> rfl

/-- The training moves the counters that were read. -/
theorem credit_train (c : Component) :
    c.credit dir (train pc h l resolveDir t c) +
        ((c.entries t pc h l).map (Predictor.credit dir)).sum =
      c.credit dir t + ((c.entries t pc h l).map fun ctr =>
        Predictor.credit dir (ctrupdate ctr resolveDir percWidth)).sum := by
  cases c with
  | bias =>
    have hlt : biasIndex pc l < 2 ^ logBias := and_mask_lt _ _
    have hltSK : biasSKIndex pc l < 2 ^ logBias := and_mask_lt _ _
    have hltBank : biasBankIndex pc l < 2 ^ logBias := and_mask_lt _ _
    have hbias := worth_update (Predictor.credit dir) hlt t.bias
      (ctrupdate (t.bias (biasIndex pc l)) resolveDir percWidth)
    have hbiasSK := worth_update (Predictor.credit dir) hltSK t.biasSK
      (ctrupdate (t.biasSK (biasSKIndex pc l)) resolveDir percWidth)
    have hbiasBank := worth_update (Predictor.credit dir) hltBank t.biasBank
      (ctrupdate (t.biasBank (biasBankIndex pc l)) resolveDir percWidth)
    simp only [credit, train, updateBias, entries, List.map_cons, List.map_nil, List.sum_cons,
      List.sum_nil]
    omega
  | ggehl => exact gupdate_credit _ _ _ _ _ _ _
  | pgehl => exact gupdate_credit _ _ _ _ _ _ _
  | lgehl => exact gupdate_credit _ _ _ _ _ _ _
  | sgehl => exact gupdate_credit _ _ _ _ _ _ _
  | tgehl => exact gupdate_credit _ _ _ _ _ _ _
  | imgehl => exact gupdate_credit _ _ _ _ _ _ _
  | igehl => exact gupdate_credit _ _ _ _ _ _ _

/-- One component after the other. -/
theorem credit_foldl_train (cs : List Component) (hnodup : cs.Nodup) (c : Component) (t' : Tables)
    (hsame : ∀ c' ∈ cs, c'.entries t' pc h l = c'.entries t pc h l) :
    c.credit dir (cs.foldl (train pc h l resolveDir) t') +
        (if c ∈ cs then ((c.entries t pc h l).map (Predictor.credit dir)).sum else 0) =
      c.credit dir t' +
        if c ∈ cs then ((c.entries t pc h l).map fun ctr =>
          Predictor.credit dir (ctrupdate ctr resolveDir percWidth)).sum
        else 0 := by
  induction cs generalizing t' with
  | nil => simp
  | cons c₁ cs ih =>
    obtain ⟨hnot, hnodup⟩ := List.nodup_cons.mp hnodup
    have hothers : ∀ c' ∈ cs, c'.entries (train pc h l resolveDir t' c₁) pc h l =
        c'.entries t pc h l := by
      intro c' hc'
      have hne : c₁ ≠ c' := fun heq => hnot (heq ▸ hc')
      rw [(train_of_ne t' pc h l resolveDir hne).1]
      exact hsame c' (List.mem_cons_of_mem _ hc')
    have hrest := ih hnodup (train pc h l resolveDir t' c₁) hothers
    rw [List.foldl_cons]
    rcases eq_or_ne c₁ c with rfl | hne
    · have htrain := credit_train dir t' pc h l resolveDir c₁
      rw [hsame c₁ List.mem_cons_self] at htrain
      rw [if_neg hnot, if_neg hnot] at hrest
      rw [if_pos List.mem_cons_self, if_pos List.mem_cons_self]
      omega
    · rw [credit_train_of_ne dir t' pc h l resolveDir hne] at hrest
      have hmem : c ∈ c₁ :: cs ↔ c ∈ cs := by
        rw [List.mem_cons]
        exact or_iff_right hne.symm
      rw [if_congr hmem rfl rfl, if_congr hmem rfl rfl]
      exact hrest

end Train

end Component

/-! ## The tables -/

/-- The counters that a prediction and its training read. -/
def correctorEntries (t : Tables) (pc : Nat) (h : CbpHist) (l : Lookup) : List Int :=
  Component.all.flatMap fun c => c.entries t pc h l

/-- What the counters of the corrector have come to. -/
def Tables.credit (dir : Bool) (t : Tables) : Nat :=
  (Component.all.map (Component.credit dir t)).sum

theorem length_correctorEntries (t : Tables) (pc : Nat) (h : CbpHist) (l : Lookup) :
    (correctorEntries t pc h l).length = 20 := rfl

namespace Tables

variable {t : Tables}

theorem InRange.entries (ht : t.InRange) (pc : Nat) (h : CbpHist) (l : Lookup) (c : Component) :
    ∀ ctr ∈ c.entries t pc h l, InBits percWidth ctr := by
  have hgehl : ∀ (g : Gehl), g.InRange → ∀ (s : GehlShape) (pc bHist : Nat),
      ∀ ctr ∈ g.entries s pc bHist, InBits percWidth ctr := by
    intro g hg s pc bHist ctr hctr
    obtain ⟨i, -, rfl⟩ := List.mem_map.mp hctr
    exact hg.tab _ _
  cases c with
  | bias =>
    intro ctr hctr
    simp only [Component.entries, List.mem_cons, List.not_mem_nil, or_false] at hctr
    rcases hctr with rfl | rfl | rfl
    · exact ht.bias _
    · exact ht.biasSK _
    · exact ht.biasBank _
  | ggehl => exact hgehl _ ht.ggehl _ _ _
  | pgehl => exact hgehl _ ht.pgehl _ _ _
  | lgehl => exact hgehl _ ht.lgehl _ _ _
  | sgehl => exact hgehl _ ht.sgehl _ _ _
  | tgehl => exact hgehl _ ht.tgehl _ _ _
  | imgehl => exact hgehl _ ht.imgehl _ _ _
  | igehl => exact hgehl _ ht.igehl _ _ _

theorem InRange.correctorEntries (ht : t.InRange) (pc : Nat) (h : CbpHist) (l : Lookup) :
    ∀ ctr ∈ correctorEntries t pc h l, InBits percWidth ctr := by
  intro ctr hctr
  obtain ⟨c, -, hc⟩ := List.mem_flatMap.mp hctr
  exact ht.entries pc h l c ctr hc

/-- The corrector has 13312 counters. -/
theorem InRange.credit_le (ht : t.InRange) (dir : Bool) : t.credit dir ≤ 63 * 13312 := by
  have hworth : ∀ (n : Nat) (cells : Nat → Int), (∀ i, InBits percWidth (cells i)) →
      worth (Predictor.credit dir) n cells ≤ 63 * n :=
    fun n cells hcells => worth_le n fun i => Predictor.credit_le (hcells i) dir
  have hgehl : ∀ (g : Gehl), g.InRange → ∀ (s : GehlShape),
      g.credit dir s ≤ 63 * 2 ^ s.logs * s.length.length := by
    intro g hg s
    have hle := Finset.sum_le_card_nsmul (Finset.range s.length.length) _ (63 * 2 ^ s.logs)
      fun i _ => hworth (2 ^ s.logs) (g.tab i) (hg.tab i)
    rw [Finset.card_range, smul_eq_mul, Nat.mul_comm] at hle
    exact hle
  have h₁ := hworth (2 ^ logBias) t.bias ht.bias
  have h₂ := hworth (2 ^ logBias) t.biasSK ht.biasSK
  have h₃ := hworth (2 ^ logBias) t.biasBank ht.biasBank
  have h₄ := hgehl t.ggehl ht.ggehl .ggehl
  have h₅ := hgehl t.pgehl ht.pgehl .pgehl
  have h₆ := hgehl t.lgehl ht.lgehl .lgehl
  have h₇ := hgehl t.sgehl ht.sgehl .sgehl
  have h₈ := hgehl t.tgehl ht.tgehl .tgehl
  have h₉ := hgehl t.imgehl ht.imgehl .imgehl
  have h₁₀ := hgehl t.igehl ht.igehl .igehl
  simp only [logBias, GehlShape.ggehl, GehlShape.pgehl, GehlShape.lgehl, GehlShape.sgehl,
    GehlShape.tgehl, GehlShape.imgehl, GehlShape.igehl, List.length_cons,
    List.length_nil] at h₁ h₂ h₃ h₄ h₅ h₆ h₇ h₈ h₉ h₁₀
  simp only [Tables.credit, Component.all, List.map_cons, List.map_nil, List.sum_cons, List.sum_nil,
    Component.credit, logBias, GehlShape.ggehl, GehlShape.pgehl, GehlShape.lgehl, GehlShape.sgehl,
    GehlShape.tgehl, GehlShape.imgehl, GehlShape.igehl]
  omega

end Tables

/-! ## The corrector when it is wrong -/

section Wrong

variable {t : Tables} (ht : t.InRange) (pc : Nat) (h : CbpHist) (l : Lookup) (dir : Bool)

include ht

theorem threshold_le : threshold t pc ≤ 466 := by
  have hdoubled : ∀ w : Int, doubled w ≤ 1 := by
    intro w
    unfold doubled
    split <;> omega
  have hthreshold : t.updateThreshold ≤ 2047 := ht.updateThreshold.2
  have hp : t.pUpdateThreshold (indUpd pc) ≤ 127 := (ht.pUpdateThreshold _).2
  have h₁ := hdoubled (t.wb (indUpdS pc))
  have h₂ := hdoubled (t.pgehl.w (indUpdS pc))
  have h₃ := hdoubled (t.sgehl.w (indUpdS pc))
  have h₄ := hdoubled (t.tgehl.w (indUpdS pc))
  have h₅ := hdoubled (t.lgehl.w (indUpdS pc))
  have h₆ := hdoubled (t.ggehl.w (indUpdS pc))
  have h₇ := hdoubled (t.igehl.w (indUpdS pc))
  unfold threshold
  dsimp only
  omega

/-- A component at its end, counted once or twice. -/
theorem contribution_of_full (c : Component)
    (hfull : ∀ ctr ∈ c.entries t pc h l, credit dir ctr = 63) :
    63 * ((c.entries t pc h l).length : Int) ≤
      (if dir then 1 else -1) * c.contribution t pc h l := by
  have hsum := sum_centred_of_full dir (ht.entries pc h l c) hfull
  have hdoubled : doubled (c.weight t pc l) = 0 ∨ doubled (c.weight t pc l) = 1 := by
    unfold doubled
    split
    · exact Or.inr rfl
    · exact Or.inl rfl
  have hlength : (0 : Int) ≤ (c.entries t pc h l).length := Int.natCast_nonneg _
  rw [Component.contribution, Component.percsum, hsum]
  generalize ((c.entries t pc h l).length : Int) = n at *
  cases dir with
  | true =>
    rcases hdoubled with h | h
    · rw [h]; simp only [if_true]; omega
    · rw [h]; simp only [if_true]; omega
  | false =>
    rcases hdoubled with h | h
    · rw [h]; simp only [Bool.false_eq_true, if_false]; omega
    · rw [h]; simp only [Bool.false_eq_true, if_false]; omega

/-- Twenty counters at their end are far from the threshold. -/
theorem scSum_of_full (hfull : ∀ ctr ∈ correctorEntries t pc h l, credit dir ctr = 63) :
    1260 ≤ (if dir then 1 else -1) * scSum t pc h l := by
  have hc : ∀ c : Component, 63 * ((c.entries t pc h l).length : Int) ≤
      (if dir then 1 else -1) * c.contribution t pc h l := by
    intro c
    apply contribution_of_full ht
    intro ctr hctr
    exact hfull ctr (List.mem_flatMap.mpr ⟨c, by cases c <;> decide, hctr⟩)
  rw [← Component.sum_contributions]
  have h₁ : (63 * 3 : Int) ≤ _ := hc .bias
  have h₂ : (63 * 3 : Int) ≤ _ := hc .ggehl
  have h₃ : (63 * 3 : Int) ≤ _ := hc .pgehl
  have h₄ : (63 * 3 : Int) ≤ _ := hc .lgehl
  have h₅ : (63 * 3 : Int) ≤ _ := hc .sgehl
  have h₆ : (63 * 2 : Int) ≤ _ := hc .tgehl
  have h₇ : (63 * 2 : Int) ≤ _ := hc .imgehl
  have h₈ : (63 * 1 : Int) ≤ _ := hc .igehl
  simp only [Component.all, List.map_cons, List.map_nil, List.sum_cons, List.sum_nil]
  cases dir with
  | true => simp only [if_true] at *; omega
  | false => simp only [Bool.false_eq_true, if_false] at *; omega

end Wrong

/-- A wrong direction comes from a wrong sum, or from one below the threshold. -/
theorem trains_of_wrong (t : Tables) (pc : Nat) (h : CbpHist) (dir : Bool)
    (hwrong : (predictUsingGivenHist t pc h).predTaken ≠ dir) :
    let l := (predictUsingGivenHist t pc h).lookup
    (decide (l.lSum ≥ 0) != dir || decide ((l.lSum.natAbs : Int) < l.thres)) = true := by
  have hchoose : (choose t (predictUsingGivenHist t pc h).lookup).1 ≠ dir := hwrong
  generalize (predictUsingGivenHist t pc h).lookup = l at *
  dsimp only
  by_cases hsign : decide (l.lSum ≥ 0) = dir
  · rw [hsign, bne_self_eq_false, Bool.false_or, decide_eq_true_iff]
    by_contra hlarge
    apply hchoose
    have hpos : (0 : Int) ≤ l.lSum.natAbs := Int.natCast_nonneg _
    have hpart : ∀ k : Int, 0 ≤ k → ¬ (l.lSum.natAbs : Int) < l.thres.tdiv k := by
      intro k hk
      rcases le_total 0 l.thres with hthres | hthres
      · have := Int.tdiv_le_self k hthres
        omega
      · have hneg := Int.tdiv_nonneg (Int.neg_nonneg_of_nonpos hthres) hk
        rw [Int.neg_tdiv] at hneg
        omega
    have hfourth := hpart 4 (by decide)
    have hhalf := hpart 2 (by decide)
    unfold choose
    dsimp only
    rw [hsign]
    split
    · rename_i hsame
      exact beq_iff_eq.mp hsame
    · simp only [hfourth, if_false, decide_false, Bool.and_false, Bool.false_eq_true]
      split
      · rfl
      · rfl
  · rw [bne_iff_ne.mpr hsign, Bool.true_or]

/-! ## The training -/

section Training

variable (dir : Bool) (t : Tables) (pc : Nat) (h : CbpHist) (l : Lookup) (resolveDir : Bool)

/-- The training of the corrector moves the counters that were read. -/
theorem credit_updateCorrector :
    let trains := decide (l.lSum ≥ 0) != resolveDir || decide ((l.lSum.natAbs : Int) < l.thres)
    let entries := correctorEntries t pc h l
    (trains = false → (updateCorrector t pc h l resolveDir).credit dir = t.credit dir) ∧
      (trains = true → (updateCorrector t pc h l resolveDir).credit dir +
          (entries.map (credit dir)).sum =
        t.credit dir +
          (entries.map fun ctr => credit dir (ctrupdate ctr resolveDir percWidth)).sum) := by
  dsimp only
  rw [Component.updateCorrector_eq]
  constructor
  · intro htrains
    rw [htrains, if_neg Bool.false_ne_true]
    exact congrArg List.sum
      (List.map_congr_left fun c _ => Component.credit_updateChooser dir t l resolveDir c)
  · intro htrains
    rw [htrains, if_pos rfl]
    have hcomponent : ∀ c : Component, c.credit dir (Component.all.foldl
        (Component.train pc h l resolveDir) (Component.start t pc l resolveDir)) +
          ((c.entries t pc h l).map (credit dir)).sum =
        c.credit dir t + ((c.entries t pc h l).map fun ctr =>
          credit dir (ctrupdate ctr resolveDir percWidth)).sum := by
      intro c
      have hmem : c ∈ Component.all := by cases c <;> decide
      have hc := Component.credit_foldl_train dir t pc h l resolveDir Component.all
        (by decide) c (Component.start t pc l resolveDir)
        fun c' _ => (Component.start_reads t pc h l resolveDir c').1
      rwa [if_pos hmem, if_pos hmem, Component.credit_start] at hc
    generalize Component.all.foldl (Component.train pc h l resolveDir)
      (Component.start t pc l resolveDir) = t' at *
    have h₁ := hcomponent .bias
    have h₂ := hcomponent .ggehl
    have h₃ := hcomponent .pgehl
    have h₄ := hcomponent .lgehl
    have h₅ := hcomponent .sgehl
    have h₆ := hcomponent .tgehl
    have h₇ := hcomponent .imgehl
    have h₈ := hcomponent .igehl
    simp only [Tables.credit, correctorEntries, Component.all, List.map_cons, List.map_nil,
      List.sum_cons, List.sum_nil, List.flatMap_cons, List.flatMap_nil, List.map_append,
      List.sum_append]
    omega

end Training

/-! ### The rest of the training leaves the corrector alone -/

namespace Tables

/-- The tables without those of TAGE. -/
def corrector (t : Tables) : Tables :=
  { t with
    btable := fun _ => {}, gtableLow := fun _ => {}, gtableHigh := fun _ => {}
    useAltOnNa := fun _ => 0, tick := 0 }

theorem credit_corrector (dir : Bool) (t : Tables) : t.corrector.credit dir = t.credit dir := rfl

section Tage

variable (t : Tables) (l : Lookup) (resolveDir : Bool)

@[simp] theorem setGtable_corrector (bank i : Nat) (e : GEntry) :
    (t.setGtable bank i e).corrector = t.corrector := by
  unfold setGtable
  split
  · rfl
  · rfl

@[simp] theorem baseupdate_corrector : (baseupdate t l resolveDir).corrector = t.corrector := rfl

@[simp] theorem updateUseAlt_corrector : (updateUseAlt t l resolveDir).corrector = t.corrector := by
  unfold updateUseAlt
  split
  · rfl
  · rfl

@[simp] theorem updateCounters_corrector :
    (updateCounters t l resolveDir).corrector = t.corrector := by
  unfold updateCounters
  dsimp only
  split_ifs
  all_goals simp only [setGtable_corrector, baseupdate_corrector]

@[simp] theorem updateUseful_corrector (cfg : Config) (isLdDependent : Bool) :
    (updateUseful cfg t l resolveDir isLdDependent).corrector = t.corrector := by
  unfold updateUseful
  dsimp only
  split
  · exact setGtable_corrector t _ _ _
  · rfl

theorem tryBank_corrector (a : Alloc) (bank : Nat) :
    (a.tryBank l resolveDir bank).tables.corrector = a.tables.corrector := by
  unfold Alloc.tryBank
  dsimp only
  split_ifs
  all_goals simp only [setGtable_corrector]

@[simp] theorem allocate_corrector (seed phist : Nat) (ptghist : Int) :
    (allocate t seed phist ptghist l resolveDir).1.corrector = t.corrector := by
  have hround : ∀ a : Alloc, (a.round l resolveDir).tables.corrector = a.tables.corrector := by
    intro a
    unfold Alloc.round
    dsimp only
    split
    · exact tryBank_corrector l resolveDir _ _
    · exact (tryBank_corrector l resolveDir _ _).trans (tryBank_corrector l resolveDir _ _)
  have hloop : ∀ a : Alloc, (Alloc.loop l resolveDir nHist a).tables.corrector =
      a.tables.corrector := by
    intro a
    have hkept : ∀ b : Alloc, b.tables.corrector = a.tables.corrector →
        (b.round l resolveDir).tables.corrector = a.tables.corrector :=
      fun b hb => (hround b).trans hb
    exact (Alloc.loop_induct l resolveDir (P := fun b => b.tables.corrector = a.tables.corrector)
      (Q := fun b => b.tables.corrector = a.tables.corrector) (fun b hb _ => hkept b hb)
      (fun _ hb _ => hb) nHist rfl).elim id id
  have htick : ∀ (t : Tables) (penalty na : Int),
      (updateTick t penalty na).corrector = t.corrector := by
    intro t penalty na
    unfold updateTick
    dsimp only
    split_ifs
    all_goals rfl
  unfold allocate
  dsimp only
  rw [htick, hloop]

end Tage

end Tables

/-- `update` trains the corrector; all else leaves it alone. -/
theorem train_corrector (cfg : Config) (t : Tables) (seed : Nat) (active : CbpHist) (pc : Nat)
    (resolveDir predTaken : Bool) (h : CbpHist) (l : Lookup) (isLdDependent : Bool) :
    (train cfg t seed active pc resolveDir predTaken h l isLdDependent).1.corrector =
      (updateCorrector t pc h l resolveDir).corrector := by
  unfold train
  dsimp only
  generalize (if predTaken == resolveDir then _ else _ : Bool × Nat) = draw
  split
  · simp
  · simp

/-- Where the corrector is trained, a counter that it read has room in the right
direction. -/
theorem exists_room {t : Tables} (ht : t.InRange) (pc : Nat) (h : CbpHist) {l : Lookup}
    (hsum : l.lSum = scSum t pc h l) (hthres : l.thres = threshold t pc) (dir : Bool)
    (htrains : (decide (l.lSum ≥ 0) != dir || decide ((l.lSum.natAbs : Int) < l.thres)) = true) :
    ∃ ctr ∈ correctorEntries t pc h l, credit dir ctr < 63 := by
  by_contra hnone
  have hlarge := scSum_of_full ht pc h l dir fun ctr hctr => by
    have hmost := credit_le (ht.correctorEntries pc h l ctr hctr) dir
    have hleast := not_lt.mp fun hlt => hnone ⟨ctr, hctr, hlt⟩
    omega
  have hsmall := threshold_le ht pc
  rw [← hsum] at hlarge
  rw [← hthres] at hsmall
  rw [Bool.or_eq_true, decide_eq_true_iff, bne_iff_ne] at htrains
  cases dir with
  | true =>
    simp only [if_true, one_mul] at hlarge
    rcases htrains with hsign | hbelow
    · exact hsign (decide_eq_true (by omega))
    · omega
  | false =>
    simp only [Bool.false_eq_true, if_false] at hlarge
    rcases htrains with hsign | hbelow
    · exact hsign (decide_eq_false (by omega))
    · omega

/-- **An update and the counters of the corrector.**  In the direction `dir` it moves none
of them back, and at least one of them forward where the prediction is wrong; in the
other direction it moves no more than it reads. -/
theorem train_credit_le {t : Tables} (ht : t.InRange) (cfg : Config) (dir : Bool)
    (seed : Nat) (active : CbpHist) (pc : Nat) (resolveDir : Bool) (h : CbpHist)
    (isLdDependent : Bool) :
    let again := predictUsingGivenHist t pc h
    let t' := (train cfg t seed active pc resolveDir again.predTaken h again.lookup
      isLdDependent).1
    t.credit dir + (resolveDir == dir && again.predTaken != dir).toNat ≤
      t'.credit dir + if resolveDir = dir then 0 else 20 := by
  dsimp only
  have htrain := congrArg (Tables.credit dir) (train_corrector cfg t seed active pc resolveDir
    (predictUsingGivenHist t pc h).predTaken h (predictUsingGivenHist t pc h).lookup isLdDependent)
  rw [Tables.credit_corrector, Tables.credit_corrector] at htrain
  rw [htrain]
  obtain ⟨hskips, htrains⟩ := credit_updateCorrector dir t pc h
    (predictUsingGivenHist t pc h).lookup resolveDir
  have hentries := ht.correctorEntries pc h (predictUsingGivenHist t pc h).lookup
  have hwrong := trains_of_wrong t pc h dir
  have hroom := exists_room ht pc h (l := (predictUsingGivenHist t pc h).lookup) rfl rfl dir
  have hlength := length_correctorEntries t pc h (predictUsingGivenHist t pc h).lookup
  generalize (predictUsingGivenHist t pc h).predTaken = predTaken at *
  generalize (predictUsingGivenHist t pc h).lookup = l at *
  rcases eq_or_ne resolveDir dir with rfl | hne
  · rw [if_pos rfl, beq_self_eq_true, Bool.true_and]
    obtain ⟨-, hmore⟩ := sum_credit_toward resolveDir hentries
    cases htrained : decide (l.lSum ≥ 0) != resolveDir ||
        decide ((l.lSum.natAbs : Int) < l.thres) with
    | false =>
      -- the corrector is not trained, so the direction is right
      have hright : predTaken = resolveDir := by
        by_contra hpred
        exact Bool.false_ne_true (htrained.symm.trans (hwrong hpred))
      rw [hskips htrained, hright, bne_self_eq_false, Bool.toNat_false]
    | true =>
      have hmoved := htrains htrained
      have hlt := hmore (hroom htrained)
      have hone := Bool.toNat_le (predTaken != resolveDir)
      omega
  · rw [if_neg hne, beq_false_of_ne hne, Bool.false_and, Bool.toNat_false]
    have haway := sum_credit_away dir resolveDir hentries
    rw [hlength] at haway
    cases htrained : decide (l.lSum ≥ 0) != resolveDir ||
        decide ((l.lSum.natAbs : Int) < l.thres) with
    | false =>
      rw [hskips htrained]
      omega
    | true =>
      have hmoved := htrains htrained
      omega

/-! ## The runs -/

namespace TageScL

/-- The call is an update in the direction `dir` of which the predictor, asked again, is
wrong. -/
def misses (dir : Bool) (p : TageScL) : TageCall → Bool
  | .update seqNo piece pc resolveDir _ _ _ =>
    match p.predTimeHistories (instKey seqNo piece) with
    | some h => resolveDir == dir && (predictUsingGivenHist p.tables pc h).predTaken != dir
    | none => false
  | _ => false

end TageScL

/-- The call is an update in the other direction. -/
def TageCall.against (dir : Bool) : TageCall → Bool
  | .update _ _ _ resolveDir _ _ _ => resolveDir != dir
  | _ => false

namespace TageScL

theorem credit_step {cfg : Config} {p p' : TageScL} (hp : p.InRange) (dir : Bool) {call : TageCall}
    (h : p.step cfg call = .ok p') :
    p.tables.credit dir + (p.misses dir call).toNat ≤
      p'.tables.credit dir + 20 * (call.against dir).toNat := by
  cases call with
  | predict seqNo piece pc =>
    obtain ⟨⟨info, q⟩, hpredict, h⟩ := bind_eq_ok.mp h
    cases h
    rw [(predict_eq_ok hpredict).2.1]
    exact le_rfl
  | historyUpdate c predTaken =>
    cases h
    rw [historyUpdate_tables]
    exact le_rfl
  | trackOtherInst c predTaken =>
    cases h
    rw [trackOtherInst, historyUpdate_tables]
    exact le_rfl
  | update seqNo piece pc resolveDir predDir nextPc isLdDependent =>
    have hupdate : p.update cfg seqNo piece pc resolveDir predDir nextPc isLdDependent = .ok p' := h
    obtain ⟨hist, hsaved, seed, active, htables⟩ := update_tables hupdate
    have htrain := train_credit_le hp.tables cfg dir seed active pc resolveDir hist isLdDependent
    dsimp only at htables htrain
    rw [← htables] at htrain
    have hpays : (if resolveDir = dir then 0 else 20) = 20 * (resolveDir != dir).toNat := by
      cases resolveDir <;> cases dir <;> rfl
    rw [hpays] at htrain
    dsimp only [misses, TageCall.against]
    rw [hsaved]
    exact htrain

/-- **Branches that mostly go one way are mostly predicted.**  In every order of the calls
of a new predictor, whatever the branches and their histories are, the updates in one
direction that find the predictor wrong are at most 63 for each of the 13312 counters of
the corrector, and 20 for each update in the other direction. -/
theorem misses_le (cfg : Config) (dir : Bool) (calls : List TageCall) :
    marks (step cfg) (misses dir) init calls ≤
      63 * 13312 + 20 * calls.countP (TageCall.against dir) := by
  have hpays : ∀ calls : List TageCall,
      (calls.map fun call => 20 * (call.against dir).toNat).sum =
        20 * calls.countP (TageCall.against dir) := by
    intro calls
    induction calls with
    | nil => rfl
    | cons call calls ih =>
      rw [List.map_cons, List.sum_cons, ih, List.countP_cons]
      cases call.against dir with
      | false => simp
      | true => simp [Nat.mul_add, Nat.add_comm]
  have hbound : init.tables.credit dir + marks (step cfg) (misses dir) init calls ≤
      63 * 13312 + (calls.map fun call => 20 * (call.against dir).toNat).sum :=
    marks_le (step cfg) (misses dir) InRange (fun p => p.tables.credit dir) _
      (fun p hp => hp.tables.credit_le dir)
      (fun p call p' hp h => ⟨hp.step h, credit_step hp dir h⟩) init_inRange calls
  rw [hpays] at hbound
  omega

/-- A branch that is taken, and that a new predictor does not expect. -/
example : marks (step {}) (misses true) init
    [.predict 1 0 64, .update 1 0 64 true false 32 false] = 1 := by decide +kernel

end TageScL

end CbpSim.Predictor
