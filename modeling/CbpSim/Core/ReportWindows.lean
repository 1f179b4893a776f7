/-
  Core/ReportWindows.lean --- the epochs that a section of the report sums.

  Source: src/lib/bp.cc, `bp_t::output_periodic_info`.

  A window of `T` instructions is the shortest suffix of the epochs that has as many.
  A section adds an epoch before it compares, and stops with more than its target
  only, so it is a window where the epochs never have exactly `T` instructions from
  some epoch on.
-/
import CbpSim.Core.Report

set_option autoImplicit false

namespace CbpSim.Core

open CbpSim.Foundation

/-! ## Windows -/

/-- The shortest suffix of the epochs that has `T` instructions begins with epoch `k`;
with the first one where all the epochs have less. -/
structure StartsWindow (insts : List Nat) (T k : Nat) : Prop where
  inside : k ≤ insts.length
  enough : k = 0 ∨ T ≤ (insts.drop k).sum
  shortest : ∀ j, k < j → (insts.drop j).sum < T

/-- `my` has added up the epochs from `k` on, in each of the five vectors. -/
structure SumsFrom (b : Bp) (insts cycles : List Nat) (k : Nat) (my : Section) : Prop where
  summed : my.summed = List.range' k (insts.length - k)
  instrs : my.myInstrCount = (insts.drop k).sum % 2 ^ 64
  cycles : my.myCycleCount = (cycles.drop k).sum % 2 ^ 64
  branches : my.myBrCount = ((b.perEpoch (·.conddirN)).drop k).sum % 2 ^ 64
  mispredicted : my.myBrMispredCount = ((b.perEpoch (·.conddirM)).drop k).sum % 2 ^ 64
  wrongPath : my.myWpcCount = ((b.perEpoch (·.cyclesOnWrongPath)).drop k).sum % 2 ^ 64

/-- A section of a window of `T` instructions. -/
def IsWindow (b : Bp) (insts cycles : List Nat) (T : Nat) (my : Section) : Prop :=
  ∃ k, StartsWindow insts T k ∧ SumsFrom b insts cycles k my

/-- The windows of a report: two of a fixed size, and that of half the instructions. -/
structure WindowsMinimal (b : Bp) (insts cycles : List Nat) (r : PeriodicInfo) : Prop where
  last10M : IsWindow b insts cycles 10000000 r.last10M
  last25M : IsWindow b insts cycles 25000000 r.last25M
  half : 1 ≤ insts.sum / 2 → IsWindow b insts cycles (insts.sum / 2) r.half

/-- A target tells the suffixes with `T` instructions from those with less, as far as
the sums are words: the first suffix to have as many has more than the target. -/
structure Exceeds (insts : List Nat) (target T : Nat) : Prop where
  below : ∀ j, 0 < j → (insts.drop j).sum < T → (insts.drop j).sum % 2 ^ 64 ≤ target
  above : ∀ k, 0 < k → T ≤ (insts.drop k).sum → (insts.drop (k + 1)).sum < T →
    target < (insts.drop k).sum % 2 ^ 64

/-- The targets of a report tell the suffixes apart, and `epoch_index` counts the epochs. -/
structure WindowsExceed (insts : List Nat) : Prop where
  reached : insts.length ≤ 2 ^ 31
  last10M : Exceeds insts 10000000 10000000
  last25M : Exceeds insts 25000000 25000000
  half : 1 ≤ insts.sum / 2 → Exceeds insts (accumulate insts / 2) (insts.sum / 2)

theorem sum_drop_le (v : List Nat) {j k : Nat} (h : j ≤ k) : (v.drop k).sum ≤ (v.drop j).sum := by
  have hsplit := sum_take_add_sum_drop (v.drop j) (k - j)
  rw [List.drop_drop, Nat.add_sub_cancel' h] at hsplit
  omega

/-- Where the epochs have `T` instructions from some epoch on, there is a last such epoch. -/
theorem exists_last_enough {v : List Nat} {T j : Nat} (hT : 1 ≤ T) (h : T ≤ (v.drop j).sum) :
    ∃ k, j ≤ k ∧ k < v.length ∧ T ≤ (v.drop k).sum ∧ (v.drop (k + 1)).sum < T := by
  have hj : j < v.length := by
    by_contra hge
    rw [List.drop_eq_nil_of_le (by omega), List.sum_nil] at h
    omega
  induction hn : v.length - j generalizing j with
  | zero => omega
  | succ n ih =>
    rcases Nat.lt_or_ge (v.drop (j + 1)).sum T with hless | hmore
    · exact ⟨j, le_rfl, hj, h, hless⟩
    · have hj' : j + 1 < v.length := by
        by_contra hge
        rw [List.drop_eq_nil_of_le (by omega), List.sum_nil] at hmore
        omega
      obtain ⟨k, hjk, hk⟩ := ih hmore hj' (by omega)
      exact ⟨k, by omega, hk⟩

section Sections

variable {b : Bp} {insts cycles : List Nat}

theorem StartsWindow.lt_length {T k : Nat} (h : StartsWindow insts T k) (hT : 1 ≤ T)
    (hpos : 0 < insts.length) : k < insts.length := by
  rcases h.enough with rfl | henough
  · exact hpos
  · by_contra hge
    rw [List.drop_eq_nil_of_le (by omega), List.sum_nil] at henough
    omega

theorem Parallel.sumsFrom (h : Parallel b insts cycles) (k : Nat) :
    SumsFrom b insts cycles k (b.stretch insts cycles k insts.length) := by
  have hlength (f : EpochMeasures → Nat) : (b.perEpoch f).length = insts.length := by
    rw [Bp.perEpoch, List.length_map, h.meas]
  have hsegment (v : List Nat) (hv : v.length = insts.length) :
      segment v k insts.length = (v.drop k).sum := by
    rw [← hv, segment_length]
  exact {
    summed := rfl
    instrs := congrArg (· % 2 ^ 64) (hsegment _ rfl)
    cycles := congrArg (· % 2 ^ 64) (hsegment _ h.cycles)
    branches := congrArg (· % 2 ^ 64) (hsegment _ (hlength _))
    mispredicted := congrArg (· % 2 ^ 64) (hsegment _ (hlength _))
    wrongPath := congrArg (· % 2 ^ 64) (hsegment _ (hlength _)) }

/-- The loop stops where the window starts just when its target exceeds. -/
theorem startsWindow_iff_exceeds {target T k₀ : Nat} (hT : 1 ≤ T) (hinside : k₀ ≤ insts.length)
    (hends : 0 < k₀ → k₀ < insts.length ∧ target < (insts.drop k₀).sum % 2 ^ 64)
    (hgoes : ∀ j, k₀ < j → j < insts.length → (insts.drop j).sum % 2 ^ 64 ≤ target) :
    StartsWindow insts T k₀ ↔ Exceeds insts target T := by
  constructor
  · intro hwindow
    have henough (hpos : 0 < k₀) : T ≤ (insts.drop k₀).sum := by
      rcases hwindow.enough with rfl | henough
      · exact absurd hpos (Nat.lt_irrefl 0)
      · exact henough
    constructor
    · intro j hpos hless
      rcases Nat.lt_or_ge k₀ j with hlt | hge
      · rcases Nat.lt_or_ge j insts.length with hj | hj
        · exact hgoes j hlt hj
        · rw [List.drop_eq_nil_of_le hj]
          exact Nat.zero_le _
      · have hanti := sum_drop_le insts hge
        have := henough (by omega)
        omega
    · intro k hpos hmore hless
      rcases Nat.lt_trichotomy k k₀ with hlt | rfl | hgt
      · have hanti := sum_drop_le insts (show k + 1 ≤ k₀ from hlt)
        have := henough (by omega)
        omega
      · exact (hends hpos).2
      · have := hwindow.shortest k hgt
        omega
  · intro hexceeds
    refine ⟨hinside, ?_, ?_⟩
    · rcases Nat.eq_zero_or_pos k₀ with rfl | hpos
      · exact Or.inl rfl
      · refine Or.inr (Nat.le_of_not_lt fun hless => ?_)
        have hbelow := hexceeds.below k₀ hpos hless
        have habove := (hends hpos).2
        omega
    · intro j hj
      refine Nat.lt_of_not_le fun hmore => ?_
      obtain ⟨k, hjk, hk, henough, hless⟩ := exists_last_enough hT hmore
      have habove := hexceeds.above k (by omega) henough hless
      have hbelow := hgoes k (by omega) hk
      omega

/-- A section is a window when all the epochs are reached and its target exceeds. -/
theorem Parallel.isWindow_iff (h : Parallel b insts cycles) {target T : Nat} (hT : 1 ≤ T)
    {my : Section} (hmy : b.sectionOf insts cycles target = .ok my) :
    IsWindow b insts cycles T my ↔ insts.length ≤ 2 ^ 31 ∧ Exceeds insts target T := by
  obtain ⟨k₀, hk₀, hsection, hends, hgoes⟩ := h.sectionOf target
  obtain rfl := Except.ok.inj (hmy.symm.trans hsection)
  have hreached := epochsReached_le insts.length
  rw [← epochsReached_eq_iff]
  constructor
  · rintro ⟨k, hwindow, hsums⟩
    -- the last epoch is in every window
    have hall : epochsReached insts.length = insts.length := by
      refine Nat.le_antisymm hreached (Nat.le_of_not_lt fun hless => ?_)
      have hk := hwindow.lt_length hT (by omega)
      have hlast : insts.length - 1 ∈ List.range' k (insts.length - k) :=
        List.mem_range'_1.mpr ⟨by omega, by omega⟩
      rw [← hsums.summed] at hlast
      have hlast' := (List.mem_range'_1.mp hlast).2
      omega
    rw [hall] at hk₀ hsums hends hgoes
    simp only [segment_length] at hends hgoes
    have hstart : k = k₀ := by
      have hlengths := congrArg List.length hsums.summed
      have hk := hwindow.inside
      simp only [Bp.stretch, List.length_range'] at hlengths
      omega
    rw [hstart] at hwindow
    exact ⟨hall, (startsWindow_iff_exceeds hT hk₀ hends hgoes).mp hwindow⟩
  · rintro ⟨hall, hexceeds⟩
    rw [hall] at hk₀ hends hgoes ⊢
    simp only [segment_length] at hends hgoes
    exact ⟨k₀, (startsWindow_iff_exceeds hT hk₀ hends hgoes).mpr hexceeds, h.sumsFrom k₀⟩

/-- While the instructions fit an `int`, a target is exceeded unless some suffix that is
not the whole trace has exactly as many. -/
theorem exceeds_iff {T : Nat} (hsum : insts.sum < 2 ^ 31) (hT : 1 ≤ T) :
    Exceeds insts T T ↔ ∀ k, 0 < k → (insts.drop k).sum ≠ T := by
  have hword (j : Nat) : (insts.drop j).sum % 2 ^ 64 = (insts.drop j).sum := by
    have hsplit := sum_take_add_sum_drop insts j
    exact Nat.mod_eq_of_lt (by omega)
  constructor
  · intro hexceeds k hpos heq
    obtain ⟨j, hkj, -, henough, hless⟩ := exists_last_enough hT heq.ge
    have habove := hexceeds.above j (by omega) henough hless
    have hanti := sum_drop_le insts hkj
    rw [hword] at habove
    omega
  · intro hne
    constructor
    · intro j _ hless
      rw [hword]
      omega
    · intro k hpos hmore _
      have := hne k hpos
      rw [hword]
      omega

/-- **The windows of a report are minimal while no target is met exactly.**  The three
sections are those of the shortest suffixes with ten million instructions, 25 million
and half of them all, just when each of these suffixes that is not the whole trace has
more instructions than its target. -/
theorem windowsMinimal_iff (b : Bp) (printPerEpochStats : Bool) (insts cycles : List Nat)
    (h : Parallel b insts cycles) :
    (∃ r, b.outputPeriodicInfo printPerEpochStats insts cycles = .ok r ∧
      WindowsMinimal b insts cycles r) ↔ WindowsExceed insts := by
  obtain ⟨r, hreport, h10, h25, hhalf, -⟩ := h.outputPeriodicInfo printPerEpochStats
  have iff10 := h.isWindow_iff (T := 10000000) (by decide) h10
  have iff25 := h.isWindow_iff (T := 25000000) (by decide) h25
  have iffHalf (hpos : 1 ≤ insts.sum / 2) := h.isWindow_iff hpos hhalf
  constructor
  · rintro ⟨r', hr', hminimal⟩
    obtain rfl : r = r' := Except.ok.inj (hreport.symm.trans hr')
    exact {
      reached := (iff10.mp hminimal.last10M).1
      last10M := (iff10.mp hminimal.last10M).2
      last25M := (iff25.mp hminimal.last25M).2
      half := fun hpos => ((iffHalf hpos).mp (hminimal.half hpos)).2 }
  · intro hexceed
    exact ⟨r, hreport, {
      last10M := iff10.mpr ⟨hexceed.reached, hexceed.last10M⟩
      last25M := iff25.mpr ⟨hexceed.reached, hexceed.last25M⟩
      half := fun hpos => (iffHalf hpos).mpr ⟨hexceed.reached, hexceed.half hpos⟩ }⟩

/-- Eleven epochs of a million instructions, and the empty one that begins behind them. -/
def elevenMillion : List Nat := List.replicate 11 1000000 ++ [0]

/-- A report on `epochs` epochs in which no branch was measured. -/
def branchless (epochs : Nat) : Bp where
  mispredCorrectionSeed := 0
  measPerEpoch := List.replicate epochs {}

theorem windowsMinimal_iff_branchless :
    Parallel (branchless 3) [2, 3, 1] [1, 1, 1] ∧
      ((∃ r, (branchless 3).outputPeriodicInfo false [2, 3, 1] [1, 1, 1] = .ok r ∧
        WindowsMinimal (branchless 3) [2, 3, 1] [1, 1, 1] r) ↔ WindowsExceed [2, 3, 1]) :=
  ⟨⟨rfl, rfl⟩, windowsMinimal_iff _ _ _ _ ⟨rfl, rfl⟩⟩

/-- The last ten of the eleven epochs have ten million instructions, but the section of
the last ten million sums the eleventh as well. -/
theorem elevenMillion_overshoots :
    Parallel (branchless 12) elevenMillion elevenMillion ∧
      StartsWindow elevenMillion 10000000 1 ∧
      ¬ ∃ r, (branchless 12).outputPeriodicInfo false elevenMillion elevenMillion = .ok r ∧
        WindowsMinimal (branchless 12) elevenMillion elevenMillion r := by
  have hparallel : Parallel (branchless 12) elevenMillion elevenMillion := ⟨rfl, rfl⟩
  refine ⟨hparallel, ⟨by decide, Or.inr (by decide), ?_⟩, ?_⟩
  · intro j hj
    have hanti := sum_drop_le elevenMillion (show 2 ≤ j from hj)
    exact lt_of_le_of_lt hanti (by decide)
  · rintro ⟨r, hr, hminimal⟩
    obtain ⟨r', hreport, h10, -⟩ := hparallel.outputPeriodicInfo false
    obtain rfl : r = r' := Except.ok.inj (hr.symm.trans hreport)
    obtain ⟨k, hwindow, hsums⟩ := hminimal.last10M
    have hcount : (branchless 12).sectionOf elevenMillion elevenMillion 10000000 =
        .ok ((branchless 12).stretch elevenMillion elevenMillion 0 12) := by decide +kernel
    have hall := congrArg Section.summed (Except.ok.inj (h10.symm.trans hcount))
    rw [hsums.summed] at hall
    have hlengths := congrArg List.length hall
    have hinside := hwindow.inside
    simp only [Bp.stretch, List.length_range'] at hlengths
    obtain rfl : k = 0 := by
      have hlength : elevenMillion.length = 12 := rfl
      omega
    exact absurd (hwindow.shortest 1 Nat.zero_lt_one) (by decide)

end Sections

end CbpSim.Core
