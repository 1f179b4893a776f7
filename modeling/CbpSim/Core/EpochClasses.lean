/-
  Core/EpochClasses.lean --- what an epoch counts of each class.

  Source: src/lib/bp.cc, `bp_t::predict` and its measurements.

  Each counter of an epoch is the number of its pieces of one class, told from the
  trace.  A counter of mispredictions depends on the predictors, unless the
  configuration or the class decides it.
-/
import CbpSim.Core.Epochs

set_option autoImplicit false

namespace CbpSim.Core

open CbpSim.Foundation

variable {P H : Type}

/-- Each counter on its own: what is added to it for an instruction of class `c`. -/
structure Counts (c : InstClass) (misp : Bool) (m m' : EpochMeasures) : Prop where
  conddirN : m'.conddirN = m.conddirN + (c == .condBranch).toNat
  conddirM : m'.conddirM = m.conddirM + (c == .condBranch && misp).toNat
  jumpdirN : m'.jumpdirN = m.jumpdirN + (c == .uncondDirectBranch || c == .callDirect).toNat
  jumpindN : m'.jumpindN = m.jumpindN + (c == .uncondIndirectBranch || c == .callIndirect).toNat
  jumpindM : m'.jumpindM = m.jumpindM + (c != .return && (c.isUncondIndBr && misp)).toNat
  jumpretN : m'.jumpretN = m.jumpretN + (c == .return).toNat
  jumpretM : m'.jumpretM = m.jumpretM + (c == .return && (c.isUncondIndBr && misp)).toNat
  notctrlN : m'.notctrlN = m.notctrlN + (!c.isBr).toNat
  notctrlM : m'.notctrlM = m.notctrlM + (!c.isBr && misp).toNat

theorem EpochMeasures.counts (m : EpochMeasures) (c : InstClass) (misp : Bool) (cycles : Nat) :
    Counts c misp m { m.count c misp with
      cyclesOnWrongPath := (m.count c misp).cyclesOnWrongPath + cycles } := by
  cases c with
  | _ => exact ⟨rfl, rfl, rfl, rfl, rfl, rfl, rfl, rfl, rfl⟩

theorem countP_concat {α : Type} (p : α → Bool) (xs : List α) (x : α) :
    (xs ++ [x]).countP p = xs.countP p + (p x).toNat := by
  rw [List.countP_append, List.countP_singleton, Bool.toNat, Bool.cond_eq_ite]

/-- What is counted of the pieces of an epoch, class by class. -/
structure Classified (cfg : Config) (pieces : List DbInst) (m : EpochMeasures) : Prop where
  conddir : m.conddirN = pieces.countP fun i => i.insnClass == .condBranch
  jumpdir : m.jumpdirN =
    pieces.countP fun i => i.insnClass == .uncondDirectBranch || i.insnClass == .callDirect
  jumpind : m.jumpindN =
    pieces.countP fun i => i.insnClass == .uncondIndirectBranch || i.insnClass == .callIndirect
  jumpret : m.jumpretN = pieces.countP fun i => i.insnClass == .return
  notctrl : m.notctrlN = pieces.countP fun i => !i.insnClass.isBr
  notctrlMisp : m.notctrlM =
    pieces.countP fun i => !i.insnClass.isBr && i.nextPc != (i.pc + 4) % 2 ^ 64
  perfectIndirect : cfg.perfectIndirectPred = true → m.jumpindM = 0 ∧ m.jumpretM = 0
  fullReduction : cfg.mispReductionPerc = 100 → m.conddirM = 0

/-- Is the misprediction of the instruction decided without the predictors? -/
structure Decided (cfg : Config) (inst : DbInst) (misp : Bool) : Prop where
  notctrl : inst.insnClass.isBr = false → misp = (inst.nextPc != (inst.pc + 4) % 2 ^ 64)
  indirect : cfg.perfectIndirectPred = true → inst.insnClass.isUncondIndBr = true → misp = false
  cond : cfg.mispReductionPerc = 100 → inst.insnClass = .condBranch → misp = false

/-- `predict` decides what is not left to the predictors. -/
theorem Bp.predict_decided {cfg : Config} {hk : Hooks P H} {b b' : Bp} {p p' : P}
    {seqNo piece predCycle fetchCycle execCycle : Nat} {inst : DbInst} {misp : Bool}
    (h : b.predict cfg hk p seqNo piece inst predCycle fetchCycle execCycle =
      .ok (misp, b', p')) : Decided cfg inst misp := by
  have direct : inst.insnClass = .uncondDirectBranch ∨ inst.insnClass = .callDirect →
      Decided cfg inst misp := by
    intro hclass
    rcases hclass with hclass | hclass
    · constructor <;> simp [hclass, InstClass.isBr, InstClass.isUncondIndBr]
    · constructor <;> simp [hclass, InstClass.isBr, InstClass.isUncondIndBr]
  have indirect : inst.insnClass.isUncondIndBr = true →
      b.predictIndirect cfg hk p seqNo piece inst = .ok (misp, b', p') →
      Decided cfg inst misp := by
    intro hclass h
    refine ⟨?_, ?_, ?_⟩
    · intro hbr
      simp only [InstClass.isUncondIndBr, Bool.or_eq_true] at hclass
      simp only [InstClass.isBr, Bool.or_eq_false_iff] at hbr
      rcases hclass with (h | h) | h <;> simp [h] at hbr
    · intro hperfect _
      unfold predictIndirect at h
      rw [if_pos hperfect] at h
      rw [ok_bind] at h
      obtain ⟨q, -, h⟩ := bind_eq_ok.mp h
      cases h
      rfl
    · intro _ hcond
      rw [hcond] at hclass
      cases hclass
  unfold predict at h
  split at h
  case h_1 hclass =>
    refine ⟨?_, ?_, ?_⟩
    · intro hbr
      rw [hclass] at hbr
      cases hbr
    · intro _ hindirect
      rw [hclass] at hindirect
      cases hindirect
    · intro hreduced _
      unfold predictCond at h
      obtain ⟨⟨dir, q⟩, -, h⟩ := bind_eq_ok.mp h
      obtain ⟨q', -, h⟩ := bind_eq_ok.mp h
      cases h
      -- every misprediction is flipped
      have hflip : ∀ seed, flipMispred cfg hk seed = (true, seed) := by
        intro seed
        rw [flipMispred, if_pos hreduced]
      rw [hflip, hreduced]
      cases (dir != (inst.nextPc != (inst.pc + 4) % 2 ^ 64)) with
      | false => rfl
      | true => rfl
  case h_2 hclass => exact direct (Or.inl hclass)
  case h_3 hclass => exact direct (Or.inr hclass)
  case h_4 hclass => exact indirect (by rw [hclass]; rfl) h
  case h_5 hclass => exact indirect (by rw [hclass]; rfl) h
  case h_6 hclass => exact indirect (by rw [hclass]; rfl) h
  case h_7 h₁ h₂ h₃ h₄ h₅ h₆ =>
    cases h
    refine ⟨fun _ => rfl, ?_, fun _ hclass => absurd hclass h₁⟩
    intro _ hclass
    simp only [InstClass.isUncondIndBr, Bool.or_eq_true, beq_iff_eq] at hclass
    rcases hclass with (h | h) | h
    · exact absurd h h₄
    · exact absurd h h₅
    · exact absurd h h₆

section Step

variable {cfg : Config} {hk : Hooks P H} {s s' : Uarchsim P} {inst : DbInst} {c : Course P}

open Uarchsim

/-- A step counts its instruction in the last epoch, and may begin a new one. -/
theorem Course.Of.measures (h : Course.Of cfg hk s inst c s')
    (hperfect : cfg.perfectBranchPred = false) :
    ∃ cycles, ∃ fresh : List EpochMeasures, (fresh = [] ∨ fresh = [{}]) ∧
      s'.BP.measPerEpoch = updateBack (fun m =>
        let m := m.count inst.insnClass c.misp
        { m with cyclesOnWrongPath := m.cyclesOnWrongPath + cycles }) s.BP.measPerEpoch ++
          fresh := by
  obtain ⟨hbooks, -⟩ := h.books_managed
  obtain ⟨-, -, cycles, hmeasures⟩ := h.books_told hperfect
  obtain ⟨ldst, alu, hended⟩ := endStep_eq_ok h.ended
  have hBP : c.managed.BP = s.BP := congrArg Prod.fst hbooks
  rw [hBP] at hmeasures
  have hlast : s'.BP = c.ended.BP := by rw [h.last]
  rw [hlast]
  dsimp only at hended
  split at hended
  · refine ⟨cycles, [{}], Or.inr rfl, ?_⟩
    rw [hended.2]
    dsimp only
    rw [hmeasures]
  · refine ⟨cycles, [], Or.inl rfl, ?_⟩
    rw [hended]
    dsimp only
    rw [hmeasures, List.append_nil]

/-- The misprediction of a step is one of `predict`. -/
theorem Course.Of.decided (h : Course.Of cfg hk s inst c s')
    (hperfect : cfg.perfectBranchPred = false) : Decided cfg inst c.misp := by
  obtain ⟨BP, hooks, hpredict, -⟩ := predictBranch_eq_ok h.predicted hperfect
  exact Bp.predict_decided hpredict

theorem Classified.nil (cfg : Config) : Classified cfg [] {} :=
  ⟨rfl, rfl, rfl, rfl, rfl, rfl, fun _ => ⟨rfl, rfl⟩, fun _ => rfl⟩

/-- A piece is counted in its class. -/
theorem Classified.concat {pieces : List DbInst} {m m' : EpochMeasures} {misp : Bool}
    (h : Classified cfg pieces m) (hdecided : Decided cfg inst misp)
    (hcounts : Counts inst.insnClass misp m m') : Classified cfg (pieces ++ [inst]) m' where
  conddir := by rw [hcounts.conddirN, h.conddir, countP_concat]
  jumpdir := by rw [hcounts.jumpdirN, h.jumpdir, countP_concat]
  jumpind := by rw [hcounts.jumpindN, h.jumpind, countP_concat]
  jumpret := by rw [hcounts.jumpretN, h.jumpret, countP_concat]
  notctrl := by rw [hcounts.notctrlN, h.notctrl, countP_concat]
  notctrlMisp := by
    rw [hcounts.notctrlM, h.notctrlMisp, countP_concat]
    cases hbr : inst.insnClass.isBr with
    | false => rw [hdecided.notctrl hbr]
    | true => rfl
  perfectIndirect := by
    intro hperfect
    obtain ⟨hjumpind, hjumpret⟩ := h.perfectIndirect hperfect
    rw [hcounts.jumpindM, hcounts.jumpretM, hjumpind, hjumpret]
    cases hind : inst.insnClass.isUncondIndBr with
    | false => simp
    | true => simp [hdecided.indirect hperfect hind]
  fullReduction := by
    intro hreduced
    rw [hcounts.conddirM, h.fullReduction hreduced]
    cases hcond : inst.insnClass == .condBranch with
    | false => rfl
    | true => rw [hdecided.cond hreduced (beq_iff_eq.mp hcond)]; rfl

/-- The classes are counted by a step. -/
theorem Classified.step {insts : List DbInst} (accounts : Accounts cfg insts s)
    (hs : List.Forall₂ (Classified cfg) (epochs cfg.epochSizeInsts insts) s.BP.measPerEpoch)
    (h : Course.Of cfg hk s inst c s') (hperfect : cfg.perfectBranchPred = false) :
    List.Forall₂ (Classified cfg) (epochs cfg.epochSizeInsts (insts ++ [inst]))
      s'.BP.measPerEpoch := by
  obtain ⟨cycles, fresh, hfresh, hmeasures⟩ := h.measures hperfect
  have hcounted := forall₂_updateBack (R := Classified cfg) (f := (· ++ [inst]))
    (g := fun m => { m.count inst.insnClass c.misp with
      cyclesOnWrongPath := (m.count inst.insnClass c.misp).cyclesOnWrongPath + cycles })
    (fun pieces m hm => hm.concat (h.decided hperfect) (m.counts _ _ _)) hs
  -- the trace has begun an epoch if the simulator has
  have hlength := (accounts.step h hperfect).measured.length_eq
  rw [epochs_concat] at hlength ⊢
  rw [hmeasures] at hlength ⊢
  rw [List.length_append, length_updateBack, ← hs.length_eq] at hlength
  unfold nextEpochs at hlength ⊢
  dsimp only at hlength ⊢
  split
  · rename_i hends
    rw [if_pos hends, List.length_append, length_updateBack] at hlength
    rcases hfresh with rfl | rfl
    · simp at hlength
    · exact forall₂_concat hcounted (.nil cfg)
  · rename_i hgoes
    rw [if_neg hgoes, length_updateBack] at hlength
    rcases hfresh with rfl | rfl
    · rw [List.append_nil]
      exact hcounted
    · simp at hlength

end Step

open Uarchsim in
/-- The epochs of a run of the constructed simulator. -/
theorem Classified.ran {u : Unset} {cfg : Config} {hk : Hooks P H} {p : P} {s₀ s : Uarchsim P}
    {log : List (DbInst × Course P)} (hperfect : cfg.perfectBranchPred = false)
    (hnew : new u cfg p = .ok s₀) (hran : Ran cfg hk s₀ log s) :
    List.Forall₂ (Classified cfg) (epochs cfg.epochSizeInsts (log.map (·.1)))
      s.BP.measPerEpoch := by
  induction hran with
  | nil =>
    rw [(new_opened hnew).measPerEpoch]
    exact .cons (.nil cfg) .nil
  | snoc hran hc ih =>
    rw [List.map_append]
    exact Classified.step ((Accounts.new hnew).ran hperfect hran) ih hc hperfect

open Uarchsim in
/-- **Every class is counted.**  In any run, each epoch counts the conditional branches, the
direct and the indirect jumps, the returns and the other pieces that the trace has in
it, and the other pieces that do not fall through; with perfect indirect prediction
no target is mispredicted, and with full reduction no direction. -/
theorem simulate_classified (u : Unset) (cfg : Config) (hk : Hooks P H) (p : P)
    (insts : List DbInst) (hperfect : cfg.perfectBranchPred = false) {s : Uarchsim P}
    (hrun : simulate u cfg hk p insts = .ok s) :
    List.Forall₂ (Classified cfg) (epochs cfg.epochSizeInsts insts) s.BP.measPerEpoch := by
  obtain ⟨s₀, hnew, log, hran, rfl⟩ := simulate_eq_ok.mp hrun
  exact Classified.ran hperfect hnew hran

open Uarchsim in
theorem simulate_classified_fourInstructions :
    ∃ s, simulate ⟨fun _ => ⟨0, 0, 0⟩, 0⟩ { windowSize := 1, epochSizeInsts := 2 } idlePredictors ()
        fourInstructions = .ok s ∧
      List.Forall₂ (Classified { windowSize := 1, epochSizeInsts := 2 })
        (epochs 2 fourInstructions) s.BP.measPerEpoch := by
  obtain ⟨s, hs⟩ := exists_of_isOk (show (simulate ⟨fun _ => ⟨0, 0, 0⟩, 0⟩
    { windowSize := 1, epochSizeInsts := 2 } idlePredictors () fourInstructions).isOk = true by
      decide +kernel)
  exact ⟨s, hs, simulate_classified _ _ _ _ _ rfl hs⟩

end CbpSim.Core
