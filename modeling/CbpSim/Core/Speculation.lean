/-
  Core/Speculation.lean --- predicted values are used only if they are right.

  Source: src/lib/uarchsim.cc, the value prediction of `step`: the destination's
  timestamp, `squash`, and the measurements of the predictor.

  The result of an instruction is there when the instruction is done, or at once if its
  value was predicted rightly.  After a wrong value everything younger is fetched again,
  when the instruction retires.
-/
import CbpSim.Core.Redirects
import CbpSim.Core.Dependences

set_option autoImplicit false

namespace CbpSim.Core

open CbpSim.Foundation

variable {P H : Type}

/-! ## The results -/

/-- The instruction has a register for its result. -/
def writesResult (inst : DbInst) : Bool := inst.D.valid && inst.D.logReg != rfZero

/-- A value was predicted, and it is the one of the trace. -/
def Course.rightValue (inst : DbInst) (c : Course P) : Bool :=
  c.pred.speculate && c.pred.predictedValue == inst.D.value

/-- A value was predicted, and it is another one. -/
def Course.wrongValue (inst : DbInst) (c : Course P) : Bool :=
  c.pred.speculate && c.pred.predictedValue != inst.D.value

/-- The cycle from which on the result can be used. -/
def Course.available (inst : DbInst) (c : Course P) : Nat :=
  if c.rightValue inst then c.before.fetchCycle else c.timing.execCycle

/-- The youngest instruction of the log that writes `r`. -/
def youngestResult (log : List (DbInst × Course P)) (r : Nat) : Option (DbInst × Course P) :=
  (log.filter fun x => x.1.D.valid && x.1.D.logReg == r).getLast?

theorem youngestResult_concat (log : List (DbInst × Course P)) (x : DbInst × Course P) (r : Nat) :
    youngestResult (log ++ [x]) r =
      if x.1.D.valid && x.1.D.logReg == r then some x else youngestResult log r := by
  unfold youngestResult
  rw [List.filter_append]
  cases h : x.1.D.valid && x.1.D.logReg == r with
  | true => simp [h]
  | false => simp [h]

/-! ## The step -/

section Step

variable {cfg : Config} {hk : Hooks P H} {s s' : Uarchsim P} {inst : DbInst} {c : Course P}

open Uarchsim

/-- The write-back of a step: the register file, the squash and the measurements. -/
theorem Course.Leads.result_eq (h : Course.Leads cfg hk s inst c) :
    c.written.res.RF =
        (if writesResult inst then
          Function.update c.scheduled.res.RF inst.D.logReg (c.available inst)
        else c.scheduled.res.RF) ∧
      c.squash = (writesResult inst && c.wrongValue inst) ∧
      c.written.numEligible = c.scheduled.numEligible + c.predictable.toNat ∧
      c.written.numCorrect =
        c.scheduled.numCorrect + (c.predictable && c.pred.speculate && !c.squash).toNat ∧
      c.written.numIncorrect =
        c.scheduled.numIncorrect + (c.predictable && c.pred.speculate && c.squash).toNat := by
  have hfetch : c.scheduled.fetchCycle = c.before.fetchCycle := by
    obtain ⟨_, _, _, -, -, hscheduled⟩ := schedule_eq_ok h.scheduled
    rw [hscheduled]
  have hwritten := h.written
  unfold writeBack at hwritten
  obtain ⟨-, hwritten⟩ := guard_eq_ok.mp hwritten
  obtain ⟨res, hres, hwritten⟩ := bind_eq_ok.mp hwritten
  obtain ⟨hsquash, hwritten⟩ := Prod.mk.inj (Except.ok.inj hwritten)
  have hsame : res.RF = _ := (Resources.updateSQ_stops _ _ _ _ _).of_ok hres
  have hwrong : (writesResult inst && c.pred.speculate &&
      !(c.pred.predictedValue == inst.D.value)) = (writesResult inst && c.wrongValue inst) :=
    Bool.and_assoc _ _ _
  rw [← hwritten]
  refine ⟨?_, hsquash.symm.trans hwrong, rfl, ?_, ?_⟩
  · dsimp only
    rw [hsame]
    unfold Course.available Course.rightValue writesResult
    rw [← hfetch]
    split
    · rfl
    · rfl
  · dsimp only
    rw [hsquash]
  · dsimp only
    rw [hsquash]

/-- Up to the write-back nothing touches the register file or the measurements. -/
theorem Course.Leads.scheduled_eq (h : Course.Leads cfg hk s inst c) :
    Scheduled cfg s.res.RF c.before.fetchCycle inst c.timing ∧
      c.scheduled.res.RF = s.res.RF ∧ c.scheduled.numEligible = s.numEligible ∧
      c.scheduled.numCorrect = s.numCorrect ∧ c.scheduled.numIncorrect = s.numIncorrect := by
  obtain ⟨-, hcaches, _, -, hblocked⟩ := fetchBlock_eq_ok h.blocked
  obtain ⟨-, _, _, -, hbegun⟩ := beginStep_eq_ok h.begun
  obtain ⟨res, hooks, -, hres, hbefore⟩ := predictValue_eq_ok h.before
  obtain ⟨htiming, _, _, _, _, hsame, hscheduled⟩ := (schedule_ends cfg c.before inst).of_ok
    h.scheduled
  have hRF : c.before.res.RF = s.res.RF := by
    have hblock : c.blocked.res.RF = s.res.RF := by
      rw [hcaches.sameRF, hbegun]
    rw [← hblock, hbefore]
    rcases hres with rfl | ⟨req, hreq⟩
    · rfl
    · exact (Resources.getValuePredictionReq_stops _ _ _ _ _ _).of_ok hreq
  rw [hRF] at htiming
  dsimp only at htiming hscheduled
  refine ⟨htiming, ?_, ?_, ?_, ?_⟩
  · rw [hscheduled]
    exact Eq.trans hsame hRF
  all_goals rw [hscheduled, hbefore, hblocked, hbegun]

/-- Behind the write-back nothing does. -/
theorem Course.Of.result_after (h : Course.Of cfg hk s inst c s') :
    s'.res.RF = c.written.res.RF ∧ s'.numEligible = c.written.numEligible ∧
      s'.numCorrect = c.written.numCorrect ∧ s'.numIncorrect = c.written.numIncorrect := by
  rw [h.last_eq.2, h.managed_eq.2.2]
  exact ⟨rfl, rfl, rfl, rfl⟩

/-- A squash makes fetching wait until the instruction retires. -/
theorem Course.Of.squashed (h : Course.Of cfg hk s inst c s') (hsquash : c.squash = true) :
    (c.fetched cfg inst).retireCycle ≤ s'.fetchCycle := by
  have hmanaged := h.managed
  rw [hsquash] at hmanaged
  have hretire : c.dispatched.pipe.backRetire ≤ c.managed.fetchCycle := by
    unfold manageFetch at hmanaged
    split at hmanaged
    · cases hmanaged
    · obtain ⟨-, hmanaged⟩ := guard_eq_ok.mp hmanaged
      rw [if_pos rfl] at hmanaged
      split at hmanaged
      · rw [← Except.ok.inj hmanaged]
      · cases hmanaged
  have hle := h.last_eq.1
  rw [h.last_eq.2]
  exact hretire.trans hle

/-- The value predictor is asked for nothing, or knows the value. -/
theorem Course.Leads.squash_eq_false (h : Course.Leads cfg hk s inst c)
    (hknown : cfg.vpEnable = false ∨ cfg.vpPerfect = true) : c.squash = false := by
  have hpred := h.before
  have hright : c.pred.speculate = false ∨ c.pred.predictedValue = inst.D.value := by
    unfold predictValue at hpred
    dsimp only at hpred
    split at hpred
    · rw [← (Prod.mk.inj (Except.ok.inj hpred)).1]
      exact Or.inl rfl
    · rename_i hon
      have hperfect : cfg.vpPerfect = true := by
        rcases hknown with hoff | hperfect
        · exact absurd hoff (by simpa using hon)
        · exact hperfect
      obtain ⟨⟨req, res⟩, -, hpred⟩ := bind_eq_ok.mp hpred
      rw [hperfect] at hpred
      rw [← (Prod.mk.inj (Except.ok.inj hpred)).1]
      exact Or.inr rfl
  rw [h.result_eq.2.1, Course.wrongValue]
  rcases hright with hnone | hright
  · rw [hnone, Bool.false_and, Bool.and_false]
  · rw [hright, bne_self_eq_false, Bool.and_false, Bool.and_false]

end Step

/-! ## The runs -/

/-- What value prediction does to a run with this log. -/
structure ValuesUsed (cfg : Config) (log : List (DbInst × Course P)) (s : Uarchsim P) : Prop where
  awaits : EveryEntry (fun older y => y.1.A.logReg ≠ rfZero → ∀ op ∈ operands y.1, op.valid →
    op.logReg ≠ rfZero → ∀ x ∈ youngestResult older op.logReg,
      x.2.available x.1 ≤ y.2.timing.laneCycle) log
  squashes : ∀ x ∈ log, x.2.squash = (writesResult x.1 && x.2.wrongValue x.1)
  redirected : EveryEntry (fun older y => ∀ x ∈ older, x.2.squash = true →
    (x.2.fetched cfg x.1).retireCycle ≤ y.2.before.fetchCycle) log
  numEligible : s.numEligible = log.countP (·.2.predictable)
  numCorrect : s.numCorrect =
    log.countP fun x => x.2.predictable && x.2.pred.speculate && !x.2.squash
  numIncorrect : s.numIncorrect =
    log.countP fun x => x.2.predictable && x.2.pred.speculate && x.2.squash
  known : cfg.vpEnable = false ∨ cfg.vpPerfect = true → ∀ x ∈ log, x.2.squash = false

/-- The invariant: the register file holds what is available, and fetching has waited for
every squash. -/
structure ValuesKept (cfg : Config) (log : List (DbInst × Course P)) (s : Uarchsim P) : Prop
    extends ValuesUsed cfg log s where
  RF : ∀ r, r ≠ rfZero →
    s.res.RF r = ((youngestResult log r).map fun x => x.2.available x.1).getD 0
  waited : ∀ x ∈ log, x.2.squash = true → (x.2.fetched cfg x.1).retireCycle ≤ s.fetchCycle

section Run

variable {cfg : Config} {hk : Hooks P H} {s₀ s s' : Uarchsim P} {inst : DbInst} {c : Course P}

open Uarchsim

theorem ValuesKept.nil (hRF : s.res.RF = fun _ => 0) (heligible : s.numEligible = 0)
    (hcorrect : s.numCorrect = 0) (hincorrect : s.numIncorrect = 0) :
    ValuesKept cfg [] s where
  awaits := everyEntry_nil
  squashes _ hx := absurd hx List.not_mem_nil
  redirected := everyEntry_nil
  numEligible := heligible
  numCorrect := hcorrect
  numIncorrect := hincorrect
  known _ _ hx := absurd hx List.not_mem_nil
  RF r _ := by
    rw [hRF]
    rfl
  waited _ hx := absurd hx List.not_mem_nil

theorem ValuesKept.step {log : List (DbInst × Course P)} (hs : ValuesKept cfg log s)
    (h : Course.Of cfg hk s inst c s') : ValuesKept cfg (log ++ [(inst, c)]) s' := by
  obtain ⟨hRF, hsquash, heligible, hcorrect, hincorrect⟩ := h.result_eq
  obtain ⟨hscheduled, hRF₀, heligible₀, hcorrect₀, hincorrect₀⟩ := h.scheduled_eq
  obtain ⟨hRF', heligible', hcorrect', hincorrect'⟩ := h.result_after
  obtain ⟨hbefore, hmanaged, -, -⟩ := h.fetchCycle
  have hlater := hbefore.trans (hmanaged.trans h.after.2.2.2.1)
  have hcount : ∀ kind : DbInst × Course P → Bool,
      (log ++ [(inst, c)]).countP kind = log.countP kind + (kind (inst, c)).toNat := by
    intro kind
    rw [List.countP_append, List.countP_singleton]
    cases kind (inst, c) with
    | false => rfl
    | true => rfl
  refine {
    awaits := everyEntry_concat.mpr ⟨hs.awaits, ?_⟩
    squashes := List.forall_mem_append.mpr ⟨hs.squashes, ?_⟩
    redirected := everyEntry_concat.mpr ⟨hs.redirected, ?_⟩
    numEligible := ?_, numCorrect := ?_, numIncorrect := ?_
    known := fun hknown => List.forall_mem_append.mpr ⟨hs.known hknown, ?_⟩
    RF := ?_
    waited := List.forall_mem_append.mpr ⟨?_, ?_⟩ }
  · intro hA op hop hvalid hne x hx
    have hready := hscheduled.ready hA op hop hvalid
    rw [hs.RF _ hne, Option.mem_def.mp hx] at hready
    exact hready
  · intro x hx
    rw [List.mem_singleton.mp hx]
    exact hsquash
  · intro x hx hsquashed
    exact (hs.waited x hx hsquashed).trans hbefore
  · rw [heligible', heligible, heligible₀, hs.numEligible, hcount]
  · rw [hcorrect', hcorrect, hcorrect₀, hs.numCorrect, hcount]
  · rw [hincorrect', hincorrect, hincorrect₀, hs.numIncorrect, hcount]
  · intro x hx
    rw [List.mem_singleton.mp hx]
    exact h.squash_eq_false hknown
  · intro r hr
    rw [hRF', hRF, hRF₀, youngestResult_concat]
    unfold writesResult
    by_cases hreg : inst.D.logReg = r
    · cases hvalid : inst.D.valid with
      | true => simp [hreg, hr]
      | false => simpa using hs.RF r hr
    · have hRFr := hs.RF r hr
      split
      · rw [Function.update_of_ne (Ne.symm hreg), hRFr]
        simp [hreg]
      · simpa [hreg] using hRFr
  · intro x hx hsquashed
    exact (hs.waited x hx hsquashed).trans hlater
  · intro x hx hsquashed
    rw [List.mem_singleton.mp hx] at hsquashed ⊢
    exact h.squashed hsquashed

theorem ValuesKept.ran {log : List (DbInst × Course P)} (hran : Ran cfg hk s₀ log s)
    (hstart : ValuesKept cfg [] s₀) : ValuesKept cfg log s := by
  induction hran with
  | nil => exact hstart
  | snoc _ hc ih => exact ih.step hc

theorem new_values {u : Unset} {p : P} (h : new u cfg p = .ok s) : ValuesKept cfg [] s := by
  have hinitial := (new_ends u cfg p).of_ok h
  unfold new at h
  obtain ⟨L3, -, h⟩ := bind_eq_ok.mp h
  obtain ⟨L2, -, h⟩ := bind_eq_ok.mp h
  obtain ⟨L1, -, h⟩ := bind_eq_ok.mp h
  obtain ⟨IC, -, h⟩ := bind_eq_ok.mp h
  obtain ⟨-, h⟩ := guard_eq_ok.mp h
  obtain ⟨-, h⟩ := guard_eq_ok.mp h
  obtain ⟨-, h⟩ := guard_eq_ok.mp h
  cases h
  exact .nil hinitial.RF rfl rfl rfl

/-- **Predicted values are used only if they are right.** -/
theorem simulate_valuesUsed (u : Unset) (cfg : Config) (hk : Hooks P H) (p : P)
    (insts : List DbInst) (hrun : simulate u cfg hk p insts = .ok s) :
    ∃ s₀ log, new u cfg p = .ok s₀ ∧ Ran cfg hk s₀ log s ∧ log.map (·.1) = insts ∧
      ValuesUsed cfg log s := by
  obtain ⟨s₀, hnew, log, hran, hlog⟩ := simulate_eq_ok.mp hrun
  exact ⟨s₀, log, hnew, hran, hlog, (ValuesKept.ran hran (new_values hnew)).toValuesUsed⟩

/-- A predictor that predicts 0 for everything. -/
def zeroValues : Hooks Unit Empty :=
  { idlePredictors with
    getPrediction := fun p _ => .ok ({ predictedValue := 0, speculate := true }, p) }

/-- The first value is wrong, the second one right. -/
theorem simulate_valuesUsed_zeroValues :
    ∃ s s₀ log, simulate ⟨fun _ => ⟨0, 0, 0⟩, 0⟩ { vpEnable := true } zeroValues ()
        [regInst .alu 64 {} {} { intReg 2 with value := 7 },
          regInst .alu 68 (intReg 2) {} (intReg 3)] = .ok s ∧
      new ⟨fun _ => ⟨0, 0, 0⟩, 0⟩ { vpEnable := true } () = .ok s₀ ∧
      Ran { vpEnable := true } zeroValues s₀ log s ∧
      ValuesUsed { vpEnable := true } log s ∧ s.numIncorrect = 1 ∧ s.numCorrect = 1 := by
  obtain ⟨s, hs, hcounts⟩ := exists_of_observe (show (simulate ⟨fun _ => ⟨0, 0, 0⟩, 0⟩
    { vpEnable := true } zeroValues () [regInst .alu 64 {} {} { intReg 2 with value := 7 },
      regInst .alu 68 (intReg 2) {} (intReg 3)]).toOption.map
        (fun s => (s.numIncorrect, s.numCorrect)) = some (1, 1) by decide +kernel)
  obtain ⟨hincorrect, hcorrect⟩ := Prod.mk.inj hcounts
  obtain ⟨s₀, log, hnew, hran, -, hvalues⟩ := simulate_valuesUsed _ _ _ _ _ hs
  exact ⟨s, s₀, log, hs, hnew, hran, hvalues, hincorrect, hcorrect⟩

end Run

end CbpSim.Core
