/-
  Core/Epochs.lean --- the accounts of the epochs add up.

  Source: src/lib/uarchsim.cc, `end_current_begin_new_epoch`, the end of `step` and
  `output`; src/lib/bp.cc, the measurements of `predict`.

  An epoch of a trace is told apart from the simulator: `epochs` cuts the pieces
  behind every `EPOCH_SIZE_INSTS`-th instruction.  Each of the vectors that the
  simulator fills has one entry an epoch, and what it counts there is what the
  epoch has.
-/
import CbpSim.Core.Course

set_option autoImplicit false

namespace CbpSim.Core

open CbpSim.Foundation

variable {P H : Type}

/-! ## The last entry of a vector -/

section UpdateBack

variable {α β : Type}

@[simp] theorem updateBack_concat (f : α → α) (xs : List α) (x : α) :
    updateBack f (xs ++ [x]) = xs ++ [f x] := by
  simp [updateBack]

theorem length_updateBack (f : α → α) (xs : List α) : (updateBack f xs).length = xs.length := by
  induction xs using List.reverseRecOn with
  | nil => rfl
  | append_singleton xs x _ => simp

theorem updateBack_updateBack (f g : α → α) (xs : List α) :
    updateBack g (updateBack f xs) = updateBack (fun x => g (f x)) xs := by
  induction xs using List.reverseRecOn with
  | nil => rfl
  | append_singleton xs x _ => simp

theorem map_updateBack {f : α → α} {f' : β → β} {g : α → β} (h : ∀ x, g (f x) = f' (g x))
    (xs : List α) : (updateBack f xs).map g = updateBack f' (xs.map g) := by
  induction xs using List.reverseRecOn with
  | nil => rfl
  | append_singleton xs x _ => simp [h]

theorem forall₂_updateBack {R : α → β → Prop} {f : α → α} {g : β → β}
    (h : ∀ x y, R x y → R (f x) (g y)) {xs : List α} {ys : List β} (hR : List.Forall₂ R xs ys) :
    List.Forall₂ R (updateBack f xs) (updateBack g ys) := by
  induction hR with
  | nil => exact .nil
  | cons hxy hrest ih =>
    cases hrest with
    | nil => exact .cons (h _ _ hxy) .nil
    | cons hxy' hrest => exact .cons hxy ih

theorem forall₂_concat {R : α → β → Prop} {xs : List α} {ys : List β} (hR : List.Forall₂ R xs ys)
    {x : α} {y : β} (h : R x y) : List.Forall₂ R (xs ++ [x]) (ys ++ [y]) :=
  List.rel_append hR (.cons h .nil)

/-- A number in the place of a last 0 is added to the sum. -/
theorem sum_updateBack {xs : List Nat} (h : xs.getLast? = some 0) (n : Nat) :
    (updateBack (fun _ => n) xs).sum = xs.sum + n := by
  induction xs using List.reverseRecOn with
  | nil => cases h
  | append_singleton xs x _ =>
    obtain rfl : x = 0 := by simpa using h
    simp

end UpdateBack

/-! ## The epochs of a trace -/

/-- The instructions of an epoch: one for each last piece. -/
def instructions (pieces : List DbInst) : Nat := pieces.countP (·.isLastPiece)

/-- The next piece is in the last epoch; behind the `size`-th instruction of an epoch
the next one begins. -/
def nextEpochs (size : Nat) (es : List (List DbInst)) (inst : DbInst) : List (List DbInst) :=
  let es := updateBack (· ++ [inst]) es
  if es.getLast?.map instructions = some size then es ++ [[]] else es

/-- The pieces of a trace by epochs. -/
def epochs (size : Nat) (insts : List DbInst) : List (List DbInst) :=
  insts.foldl (nextEpochs size) [[]]

theorem epochs_concat (size : Nat) (insts : List DbInst) (inst : DbInst) :
    epochs size (insts ++ [inst]) = nextEpochs size (epochs size insts) inst := by
  rw [epochs, List.foldl_append]
  rfl

theorem instructions_concat (pieces : List DbInst) (inst : DbInst) :
    instructions (pieces ++ [inst]) = instructions pieces + inst.isLastPiece.toNat := by
  rw [instructions, List.countP_append, List.countP_singleton]
  cases inst.isLastPiece with
  | false => rfl
  | true => rfl

theorem flatten_updateBack {xs : List (List DbInst)} (h : xs ≠ []) (inst : DbInst) :
    (updateBack (· ++ [inst]) xs).flatten = xs.flatten ++ [inst] := by
  induction xs using List.reverseRecOn with
  | nil => exact absurd rfl h
  | append_singleton xs x _ => simp

theorem nextEpochs_ne_nil {size : Nat} {es : List (List DbInst)} (h : es ≠ []) (inst : DbInst) :
    nextEpochs size es inst ≠ [] := by
  have hback : updateBack (· ++ [inst]) es ≠ [] := by
    intro hnil
    rw [← List.length_eq_zero_iff, length_updateBack, List.length_eq_zero_iff] at hnil
    exact h hnil
  unfold nextEpochs
  dsimp only
  split
  · simp
  · exact hback

theorem epochs_ne_nil (size : Nat) (insts : List DbInst) : epochs size insts ≠ [] := by
  induction insts using List.reverseRecOn with
  | nil => exact List.cons_ne_nil _ _
  | append_singleton insts inst ih =>
    rw [epochs_concat]
    exact nextEpochs_ne_nil ih inst

/-- The epochs of a trace are the trace. -/
theorem flatten_epochs (size : Nat) (insts : List DbInst) :
    (epochs size insts).flatten = insts := by
  induction insts using List.reverseRecOn with
  | nil => rfl
  | append_singleton insts inst ih =>
    rw [epochs_concat, nextEpochs]
    have hback := flatten_updateBack (epochs_ne_nil size insts) inst
    rw [ih] at hback
    split
    · simp [hback]
    · exact hback

/-- The epochs that ended, and the pieces since. -/
theorem exists_epochs (size : Nat) (insts : List DbInst) :
    ∃ done current, epochs size insts = done ++ [current] :=
  (List.eq_nil_or_concat' _).resolve_left (epochs_ne_nil size insts)

theorem epochs_concat_of_eq {size : Nat} {insts : List DbInst} {done : List (List DbInst)}
    {current : List DbInst} (h : epochs size insts = done ++ [current]) (inst : DbInst) :
    epochs size (insts ++ [inst]) =
      if instructions (current ++ [inst]) = size then done ++ [current ++ [inst]] ++ [[]]
      else done ++ [current ++ [inst]] := by
  rw [epochs_concat, h, nextEpochs]
  simp

/-- Pieces behind an epoch that ended leave it as it is. -/
theorem epochs_append {size : Nat} {insts : List DbInst} {done : List (List DbInst)}
    {current : List DbInst} (h : epochs size insts = done ++ [current]) (more : List DbInst) :
    ∃ rest, rest ≠ [] ∧ epochs size (insts ++ more) = done ++ rest := by
  induction more using List.reverseRecOn with
  | nil => exact ⟨[current], List.cons_ne_nil _ _, by rw [List.append_nil, h]⟩
  | append_singleton more inst ih =>
    obtain ⟨rest, hne, hepochs⟩ := ih
    obtain ⟨rest, last, rfl⟩ := (List.eq_nil_or_concat' _).resolve_left hne
    rw [← List.append_assoc] at hepochs ⊢
    rw [epochs_concat_of_eq hepochs inst]
    split
    · exact ⟨rest ++ [last ++ [inst]] ++ [[]], by simp, by simp⟩
    · exact ⟨rest ++ [last ++ [inst]], by simp, by simp⟩

/-- An epoch that ended has its instructions. -/
theorem instructions_of_ended (size : Nat) (insts : List DbInst) :
    ∀ epoch ∈ (epochs size insts).dropLast, instructions epoch = size := by
  induction insts using List.reverseRecOn with
  | nil => exact fun epoch hepoch => absurd hepoch List.not_mem_nil
  | append_singleton insts inst ih =>
    obtain ⟨done, current, h⟩ := exists_epochs size insts
    rw [h, List.dropLast_concat] at ih
    rw [epochs_concat_of_eq h inst]
    split
    · rename_i hends
      rw [List.dropLast_concat]
      exact List.forall_mem_append.mpr ⟨ih, List.forall_mem_singleton.mpr hends⟩
    · rw [List.dropLast_concat]
      exact ih

/-! ## The measurements of a branch -/

/-- The counters of an instruction of class `c`, mispredicted or not. -/
def EpochMeasures.count (c : InstClass) (misp : Bool) (m : EpochMeasures) : EpochMeasures :=
  match c with
  | .condBranch => { m with conddirN := m.conddirN + 1, conddirM := m.conddirM + misp.toNat }
  | .uncondDirectBranch | .callDirect => { m with jumpdirN := m.jumpdirN + 1 }
  | .uncondIndirectBranch | .callIndirect =>
    { m with jumpindN := m.jumpindN + 1, jumpindM := m.jumpindM + misp.toNat }
  | .return => { m with jumpretN := m.jumpretN + 1, jumpretM := m.jumpretM + misp.toNat }
  | _ => { m with notctrlN := m.notctrlN + 1, notctrlM := m.notctrlM + misp.toNat }

/-- `predict` counts an instruction once, in the last epoch. -/
theorem Bp.predict_eq_ok {cfg : Config} {hk : Hooks P H} {b b' : Bp} {p p' : P}
    {seqNo piece : Nat} {inst : DbInst} {predCycle fetchCycle execCycle : Nat} {misp : Bool}
    (h : b.predict cfg hk p seqNo piece inst predCycle fetchCycle execCycle =
      .ok (misp, b', p')) :
    b'.measPerEpoch = updateBack (EpochMeasures.count inst.insnClass misp) b.measPerEpoch := by
  have direct : b.predictDirect cfg hk p seqNo piece inst = .ok (misp, b', p') →
      b'.measPerEpoch = updateBack (fun m => { m with jumpdirN := m.jumpdirN + 1 })
        b.measPerEpoch := by
    intro h
    unfold predictDirect at h
    obtain ⟨q, -, h⟩ := bind_eq_ok.mp h
    obtain ⟨q', -, h⟩ := bind_eq_ok.mp h
    cases h
    rfl
  have indirect : b.predictIndirect cfg hk p seqNo piece inst = .ok (misp, b', p') →
      b'.measPerEpoch = updateBack (fun m =>
        { m with
          jumpindN := m.jumpindN + (inst.insnClass != .return).toNat
          jumpretN := m.jumpretN + (inst.insnClass == .return).toNat
          jumpindM := m.jumpindM + (inst.insnClass != .return && misp).toNat
          jumpretM := m.jumpretM + (inst.insnClass == .return && misp).toNat })
        b.measPerEpoch := by
    intro h
    unfold predictIndirect at h
    obtain ⟨⟨misp', q⟩, -, h⟩ := bind_eq_ok.mp h
    obtain ⟨q', -, h⟩ := bind_eq_ok.mp h
    cases h
    rfl
  unfold predict at h
  split at h
  case h_1 hclass =>
    unfold predictCond at h
    obtain ⟨⟨dir, q⟩, -, h⟩ := bind_eq_ok.mp h
    obtain ⟨q', -, h⟩ := bind_eq_ok.mp h
    cases h
    rw [hclass]
    rfl
  case h_2 hclass =>
    rw [direct h, hclass]
    rfl
  case h_3 hclass =>
    rw [direct h, hclass]
    rfl
  case h_4 hclass =>
    rw [indirect h, hclass]
    rfl
  case h_5 hclass =>
    rw [indirect h, hclass]
    rfl
  case h_6 hclass =>
    rw [indirect h, hclass]
    rfl
  case h_7 h₁ h₂ h₃ h₄ h₅ h₆ =>
    cases h
    cases hclass : inst.insnClass with
    | condBranch => exact absurd hclass h₁
    | uncondDirectBranch => exact absurd hclass h₂
    | callDirect => exact absurd hclass h₃
    | uncondIndirectBranch => exact absurd hclass h₄
    | callIndirect => exact absurd hclass h₅
    | «return» => exact absurd hclass h₆
    | _ => rfl

/-- What the counters of an epoch have to do with its pieces. -/
structure Measured (pieces : List DbInst) (m : EpochMeasures) : Prop where
  classes : m.conddirN + m.jumpdirN + m.jumpindN + m.jumpretN + m.notctrlN = pieces.length
  conddir : m.conddirM ≤ m.conddirN
  jumpind : m.jumpindM ≤ m.jumpindN
  jumpret : m.jumpretM ≤ m.jumpretN
  notctrl : m.notctrlM ≤ m.notctrlN

theorem Measured.nil : Measured [] {} := ⟨rfl, le_rfl, le_rfl, le_rfl, le_rfl⟩

theorem Measured.concat {pieces : List DbInst} {m : EpochMeasures} (h : Measured pieces m)
    (inst : DbInst) (misp : Bool) :
    Measured (pieces ++ [inst]) (m.count inst.insnClass misp) := by
  obtain ⟨hclasses, hconddir, hjumpind, hjumpret, hnotctrl⟩ := h
  have hmisp := Bool.toNat_le misp
  have hlength : (pieces ++ [inst]).length = pieces.length + 1 := List.length_append
  unfold EpochMeasures.count
  split
  all_goals
    constructor
    all_goals
      dsimp only
      omega

theorem Measured.wrongPath {pieces : List DbInst} {m : EpochMeasures} (h : Measured pieces m)
    (cycles : Nat) :
    Measured pieces { m with cyclesOnWrongPath := m.cyclesOnWrongPath + cycles } :=
  ⟨h.classes, h.conddir, h.jumpind, h.jumpret, h.notctrl⟩

/-! ## The accounts -/

/-- The vectors `meas_.._per_epoch` of `bp_t`. -/
def Bp.vectors (b : Bp) : List (List Nat) :=
  [(·.conddirN), (·.conddirM), (·.jumpdirN), (·.jumpindN), (·.jumpindM), (·.jumpretN),
    (·.jumpretM), (·.notctrlN), (·.notctrlM), (·.cyclesOnWrongPath)].map
    fun f : EpochMeasures → Nat => b.measPerEpoch.map f

/-- `notify_begin_new_epoch` is an `emplace_back(0)` on each of them. -/
theorem Bp.vectors_begin (b : Bp) :
    ({ b with measPerEpoch := b.measPerEpoch ++ [{}] } : Bp).vectors =
      b.vectors.map (· ++ [0]) := by
  simp [vectors]

namespace Uarchsim

/-- The vectors with an entry for each epoch. -/
def perEpoch (s : Uarchsim P) : List (List Nat) :=
  s.numInstsPerEpoch :: s.numCyclesPerEpoch :: s.BP.vectors

/-- `output`, as far as it changes the accounts. -/
def output (s : Uarchsim P) : Except Abort (Uarchsim P) :=
  s.endCurrentBeginNewEpoch false true s.cycle

end Uarchsim

/-- The accounts of `insts` add up. -/
structure AddsUp (cfg : Config) (insts : List DbInst) (s : Uarchsim P) : Prop where
  instructions : s.numInstsPerEpoch.sum = s.numInst
  cycles : s.numCyclesPerEpoch.sum = s.cycle
  lengths : ∀ v ∈ s.perEpoch, v.length = (epochs cfg.epochSizeInsts insts).length
  measured : List.Forall₂ Measured (epochs cfg.epochSizeInsts insts) s.BP.measPerEpoch

/-- The accounts while the simulator runs: the last epoch has no cycles yet. -/
structure Accounts (cfg : Config) (insts : List DbInst) (s : Uarchsim P) : Prop where
  numInst : s.numInst = instructions insts
  perEpoch : s.numInstsPerEpoch = (epochs cfg.epochSizeInsts insts).map instructions
  cycles : s.numCyclesPerEpoch.sum = s.lastEpochEndCycle
  running : s.numCyclesPerEpoch.getLast? = some 0
  length : s.numCyclesPerEpoch.length = (epochs cfg.epochSizeInsts insts).length
  measured : List.Forall₂ Measured (epochs cfg.epochSizeInsts insts) s.BP.measPerEpoch

/-- The members that an epoch ends and begins with. -/
def Uarchsim.books (s : Uarchsim P) : Bp × List Nat × List Nat × Nat :=
  (s.BP, s.numInstsPerEpoch, s.numCyclesPerEpoch, s.lastEpochEndCycle)

section Step

variable {cfg : Config} {hk : Hooks P H} {s s' : Uarchsim P} {inst : DbInst} {c : Course P}

open Uarchsim

/-- Before its branch prediction a step counts the instruction and nothing else. -/
theorem Course.Leads.books_managed (h : Course.Leads cfg hk s inst c) :
    c.managed.books = s.books ∧ c.managed.numInst = s.numInst + inst.isLastPiece.toNat := by
  obtain ⟨-, -, hmanaged⟩ := h.managed_eq
  obtain ⟨-, hbefore⟩ := h.before_eq
  rw [hmanaged, h.written_eq, hbefore]
  exact ⟨rfl, rfl⟩

/-- The branch prediction counts the piece in the last epoch, and closes no account. -/
theorem Course.Of.books_told (h : Course.Of cfg hk s inst c s')
    (hperfect : cfg.perfectBranchPred = false) :
    c.told.numInst = c.managed.numInst ∧ c.told.books.2 = c.managed.books.2 ∧
      ∃ cycles, c.told.BP.measPerEpoch = updateBack (fun m =>
        let m := m.count inst.insnClass c.misp
        { m with cyclesOnWrongPath := m.cyclesOnWrongPath + cycles })
          c.managed.BP.measPerEpoch := by
  obtain ⟨BP, hooks, hpredict, hpredicted⟩ := predictBranch_eq_ok h.predicted hperfect
  obtain ⟨window, htold, -⟩ := updatePredTaken_eq_ok h.told
  have hmeasured := Bp.predict_eq_ok hpredict
  have hBP : c.told.BP = c.predicted.BP := by rw [htold]
  have hbooks : c.told.books.2 = c.predicted.books.2 ∧ c.told.numInst = c.predicted.numInst := by
    rw [htold]
    exact ⟨rfl, rfl⟩
  rw [hBP, hbooks.1, hbooks.2]
  rcases hpredicted with ⟨-, hpredicted⟩ | ⟨-, hpredicted⟩
  · rw [hpredicted]
    exact ⟨rfl, rfl, 0, hmeasured⟩
  · rw [hpredicted]
    refine ⟨rfl, rfl, max c.managed.fetchCycle c.timing.execCycle - c.before.fetchCycle, ?_⟩
    dsimp only [Bp.updateCyclesOnWrongPath, Bp.measure]
    rw [hmeasured, updateBack_updateBack]

/-- The accounts are kept by a step. -/
theorem Accounts.step {insts : List DbInst} (hs : Accounts cfg insts s)
    (h : Course.Of cfg hk s inst c s') (hperfect : cfg.perfectBranchPred = false) :
    Accounts cfg (insts ++ [inst]) s' := by
  obtain ⟨hmanaged, hcount⟩ := h.books_managed
  obtain ⟨hcount', hbooks, cycles, hmeasures⟩ := h.books_told hperfect
  obtain ⟨ldst, alu, hended⟩ := endStep_eq_ok h.ended
  have hlast := h.last
  simp only [books, Prod.mk.injEq] at hmanaged hbooks
  obtain ⟨hBP, hperEpoch, hcycles, hend⟩ := hmanaged
  obtain ⟨hperEpoch', hcycles', hend'⟩ := hbooks
  -- the books before the end of the step
  have hinsts : updateBack (· + inst.isLastPiece.toNat) c.told.numInstsPerEpoch =
      (updateBack (· ++ [inst]) (epochs cfg.epochSizeInsts insts)).map instructions := by
    rw [hperEpoch', hperEpoch, hs.perEpoch]
    exact (map_updateBack (fun pieces => instructions_concat pieces inst) _).symm
  have hmeasured : List.Forall₂ Measured
      (updateBack (· ++ [inst]) (epochs cfg.epochSizeInsts insts)) c.told.BP.measPerEpoch := by
    rw [hmeasures, hBP]
    apply forall₂_updateBack _ hs.measured
    intro pieces m hm
    exact (hm.concat inst c.misp).wrongPath cycles
  have hlength : c.told.numCyclesPerEpoch.length =
      (updateBack (· ++ [inst]) (epochs cfg.epochSizeInsts insts)).length := by
    rw [length_updateBack, hcycles', hcycles, hs.length]
  have hrunning : c.told.numCyclesPerEpoch.getLast? = some 0 := by
    rw [hcycles', hcycles, hs.running]
  have hsum : c.told.numCyclesPerEpoch.sum = c.told.lastEpochEndCycle := by
    rw [hcycles', hcycles, hend', hend, hs.cycles]
  have hnumInst : c.told.numInst = instructions (insts ++ [inst]) := by
    rw [hcount', hcount, hs.numInst, instructions_concat]
  dsimp only at hended
  rw [hinsts, List.getLast?_map] at hended
  split at hended
  · rename_i hfull
    obtain ⟨hlt, hended⟩ := hended
    have hepochs : epochs cfg.epochSizeInsts (insts ++ [inst]) =
        updateBack (· ++ [inst]) (epochs cfg.epochSizeInsts insts) ++ [[]] := by
      rw [epochs_concat, nextEpochs]
      exact if_pos hfull
    rw [hlast, hended]
    exact {
      numInst := hnumInst
      perEpoch := by rw [hepochs, List.map_append]; rfl
      cycles := by
        dsimp only
        rw [List.sum_append, sum_updateBack hrunning, hsum, List.sum_singleton]
        omega
      running := by simp
      length := by
        rw [hepochs]
        simp [length_updateBack, hlength]
      measured := by
        rw [hepochs]
        exact forall₂_concat hmeasured .nil }
  · rename_i hnotFull
    have hepochs : epochs cfg.epochSizeInsts (insts ++ [inst]) =
        updateBack (· ++ [inst]) (epochs cfg.epochSizeInsts insts) := by
      rw [epochs_concat, nextEpochs]
      exact if_neg hnotFull
    rw [hlast, hended]
    exact {
      numInst := hnumInst
      perEpoch := by rw [hepochs]
      cycles := hsum
      running := hrunning
      length := by rw [hepochs]; exact hlength
      measured := by rw [hepochs]; exact hmeasured }

end Step

/-! ## The run -/

section Run

variable {cfg : Config} {hk : Hooks P H} {s₀ s : Uarchsim P}

open Uarchsim

theorem Accounts.new {u : Unset} {p : P} (h : Uarchsim.new u cfg p = .ok s₀) :
    Accounts cfg [] s₀ := by
  have opened := new_opened h
  exact {
    numInst := opened.numInst
    perEpoch := opened.numInstsPerEpoch
    cycles := by rw [opened.numCyclesPerEpoch, opened.lastEpochEndCycle]; rfl
    running := by rw [opened.numCyclesPerEpoch]; rfl
    length := by rw [opened.numCyclesPerEpoch]; rfl
    measured := by rw [opened.measPerEpoch]; exact .cons .nil .nil }

theorem Accounts.ran (h₀ : Accounts cfg [] s₀) (hperfect : cfg.perfectBranchPred = false)
    {log : List (DbInst × Course P)} (h : Ran cfg hk s₀ log s) :
    Accounts cfg (log.map (·.1)) s := by
  induction h with
  | nil => exact h₀
  | snoc _ hc ih =>
    rw [List.map_append]
    exact ih.step hc hperfect

theorem sum_instructions (es : List (List DbInst)) :
    (es.map instructions).sum = instructions es.flatten := by
  unfold instructions
  rw [List.countP_flatten]

/-- **The accounts add up.**  When a run reaches `output`, the vectors of all epochs
have the same length, the instructions and the cycles sum up to those of the run,
and the five classes of an epoch count its pieces, mispredicted ones at most. -/
theorem output_addsUp (u : Unset) (cfg : Config) (hk : Hooks P H) (p : P) (insts : List DbInst)
    (hperfect : cfg.perfectBranchPred = false) {s s' : Uarchsim P}
    (hrun : simulate u cfg hk p insts = .ok s) (hout : s.output = .ok s') :
    AddsUp cfg insts s' := by
  obtain ⟨s₀, hnew, log, hran, rfl⟩ := simulate_eq_ok.mp hrun
  have h := (Accounts.new hnew).ran hperfect hran
  obtain ⟨hlt, rfl⟩ := endCurrentBeginNewEpoch_eq_ok hout
  simp only [if_true, List.append_nil]
  exact {
    instructions := by
      dsimp only
      rw [h.perEpoch, sum_instructions, flatten_epochs, h.numInst]
    cycles := by
      dsimp only
      rw [sum_updateBack h.running, h.cycles]
      omega
    lengths := by
      have hmeasured := h.measured.length_eq
      intro v hv
      simp only [perEpoch, Bp.vectors, List.mem_cons, List.mem_map] at hv
      rcases hv with rfl | rfl | ⟨f, -, rfl⟩
      · rw [h.perEpoch, List.length_map]
      · rw [length_updateBack, h.length]
      · rw [List.length_map, hmeasured]
    measured := h.measured }

/-- Four instructions, of which the third comes in two pieces. -/
def fourInstructions : List DbInst :=
  [regInst .load 64 (intReg 1) {} (intReg 2), regInst .condBranch 68 (intReg 2) {} {},
    { regInst .load 72 (intReg 1) {} (intReg 3) with isLastPiece := false },
    regInst .alu 72 (intReg 1) {} (intReg 1), regInst .fp 76 (intReg 3) {} (intReg 4)]

theorem output_addsUp_fourInstructions :
    ∃ s s', simulate ⟨fun _ => ⟨0, 0, 0⟩, 0⟩ { windowSize := 1, epochSizeInsts := 2 } idlePredictors ()
        fourInstructions = .ok s ∧ s.output = .ok s' ∧
      AddsUp { windowSize := 1, epochSizeInsts := 2 } fourInstructions s' := by
  obtain ⟨s', h⟩ := exists_of_isOk (show (simulate ⟨fun _ => ⟨0, 0, 0⟩, 0⟩
    { windowSize := 1, epochSizeInsts := 2 } idlePredictors () fourInstructions >>=
      fun s => lift s.output).isOk = true by decide +kernel)
  obtain ⟨s, hs, hout⟩ := bind_eq_ok.mp h
  exact ⟨s, s', hs, lift_eq_ok.mp hout, output_addsUp _ _ _ _ _ rfl hs (lift_eq_ok.mp hout)⟩

end Run

end CbpSim.Core
