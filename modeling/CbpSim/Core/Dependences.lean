/-
  Core/Dependences.lean --- register dependences.

  Source: src/lib/uarchsim.cc, the readiness of the sources and the timestamp of the
  destination in `step`.

  `RF` holds for each register the cycle at which its youngest writer is done, and
  an instruction is to get its lane at that cycle at the earliest.  The checks of
  operands `B` and `C` compare the register of operand `A` with `RFZERO`, so a zero
  register in `A` hides the dependences of the other two.
-/
import CbpSim.Core.Simulation
import CbpSim.Foundation.Log

set_option autoImplicit false

namespace CbpSim.Core

open CbpSim.Foundation

variable {P H : Type}

/-! ## Dependences -/

/-- The instruction writes register `r`. -/
def writes (r : Nat) (x : Fetched P) : Bool := x.inst.D.valid && x.inst.D.logReg == r

/-- The youngest of the instructions that writes `r`. -/
def youngestWriter (older : List (Fetched P)) (r : Nat) : Option (Fetched P) :=
  (older.filter (writes r)).getLast?

/-- An instruction is given its lane when the youngest older writers of its sources
are done. -/
def AwaitsSources (older : List (Fetched P)) (x : Fetched P) : Prop :=
  ∀ op ∈ operands x.inst, op.valid → op.logReg ≠ rfZero →
    ∀ y ∈ youngestWriter older op.logReg, y.execCycle ≤ x.laneCycle

instance (older : List (Fetched P)) (x : Fetched P) : Decidable (AwaitsSources older x) :=
  inferInstanceAs (Decidable (∀ op ∈ _, _))

/-- Every instruction that was fetched awaits its sources. -/
def RespectsDependences (fetched : List (Fetched P)) : Prop := EveryEntry AwaitsSources fetched

instance (fetched : List (Fetched P)) : Decidable (RespectsDependences fetched) :=
  EveryEntry.decidable fetched

/-- A zero register in `A` stands before another register in `B` or `C`. -/
def HidesOperand (inst : DbInst) : Prop :=
  inst.A.logReg = rfZero ∧ ∃ op ∈ [inst.B, inst.C], op.valid ∧ op.logReg ≠ rfZero

instance (inst : DbInst) : Decidable (HidesOperand inst) :=
  inferInstanceAs (Decidable (_ ∧ _))

/-! ## The register file -/

/-- The cycle at which the youngest writer of `r` is done, 0 if there is none. -/
def completion (older : List (Fetched P)) (r : Nat) : Nat :=
  ((youngestWriter older r).map (·.execCycle)).getD 0

theorem youngestWriter_concat (older : List (Fetched P)) (x : Fetched P) (r : Nat) :
    youngestWriter (older ++ [x]) r = if writes r x then some x else youngestWriter older r := by
  unfold youngestWriter
  rw [List.filter_append]
  cases h : writes r x with
  | true => simp [h]
  | false => simp [h]

/-- The invariant: the register file is up to date, and so far no instruction came
too early. -/
structure DependencesKept (s : Uarchsim P) : Prop where
  caughtUp : Evaluated s.pipe s.previousFetchCycle
  RF : ∀ r, r ≠ rfZero → s.res.RF r = completion s.fetched r
  respects : RespectsDependences s.fetched

theorem DependencesKept.initial {cfg : Config} {p : P} {s : Uarchsim P}
    (h : Uarchsim.Initial cfg p s) : DependencesKept s where
  caughtUp := h.caughtUp
  RF := by
    intro r _
    rw [h.RF, h.fetched]
    rfl
  respects := by
    rw [h.fetched]
    exact everyEntry_nil

/-- Registers of the operands are ready when the instruction gets its lane. -/
theorem Scheduled.ready_of_not_hides {cfg : Config} {RF : Nat → Nat} {fetchCycle : Nat}
    {inst : DbInst} {t : Timing} (h : Scheduled cfg RF fetchCycle inst t)
    (hhide : ¬ HidesOperand inst) {op : DbOperand} (hop : op ∈ operands inst) (hvalid : op.valid)
    (hne : op.logReg ≠ rfZero) : RF op.logReg ≤ t.laneCycle := by
  rcases eq_or_ne inst.A.logReg rfZero with hA | hA
  · rcases List.mem_cons.mp hop with rfl | hBC
    · exact absurd hA hne
    · exact absurd ⟨hA, op, hBC, hvalid, hne⟩ hhide
  · exact h.ready hA op hop hvalid

/-- The register file after an instruction. -/
theorem completion_concat (older : List (Fetched P)) (x : Fetched P) {RF : Nat → Nat} {r : Nat}
    (hRF : RF r = completion older r) (hr : r ≠ rfZero) :
    (if x.inst.D.valid && x.inst.D.logReg != rfZero then
      Function.update RF x.inst.D.logReg x.execCycle
    else RF) r = completion (older ++ [x]) r := by
  rw [completion, youngestWriter_concat]
  cases hwrites : writes r x with
  | true =>
    obtain ⟨hvalid, hreg⟩ : x.inst.D.valid = true ∧ x.inst.D.logReg = r := by
      simpa [writes] using hwrites
    simp [hvalid, hreg, hr]
  | false =>
    simp only [Bool.false_eq_true, if_false]
    split
    · rename_i hdest
      have hne : r ≠ x.inst.D.logReg := by
        rintro rfl
        simp only [Bool.and_eq_true] at hdest
        simp [writes, hdest.1] at hwrites
      rw [Function.update_of_ne hne]
      exact hRF
    · exact hRF

theorem dependencesKept_step {cfg : Config} {hk : Hooks P H} (hoff : cfg.vpEnable = false)
    {s : Uarchsim P} (hs : DependencesKept s) {inst : DbInst} (hhide : ¬ HidesOperand inst) :
    Ends (s.step cfg hk inst) (fun _ => True) DependencesKept := by
  have hstep := Uarchsim.step_ends (E := fun _ => True) (J := fun _ => True)
    (fun _ _ => trivial) (Quiet.of_any hk fun _ => trivial)
    (evalKeeps_of_any cfg hk fun _ => trivial) (fun _ _ _ _ => trivial) trivial hs.caughtUp
    (fun _ _ => Or.inr trivial) (fun _ _ => Or.inr trivial) inst
  apply hstep.imp
  rintro s' ⟨a, t, x, w, ha, h⟩
  have hfetched : s'.fetched = s.fetched ++ [x] := by rw [h.fetched, ha.fetched]
  refine { caughtUp := h.caughtUp ha, RF := ?_, respects := ?_ }
  · intro r hr
    have hRF : a.res.RF r = completion s.fetched r := by rw [ha.RF, hs.RF r hr]
    have hstep := completion_concat s.fetched x hRF hr
    rw [h.records.inst, h.records.execCycle] at hstep
    rw [h.RF hoff, hfetched, hstep]
  · rw [hfetched]
    refine everyEntry_concat.mpr ⟨hs.respects, ?_⟩
    intro op hop hvalid hne y hy
    rw [h.records.inst] at hop
    have hready := h.scheduled.ready_of_not_hides hhide hop hvalid hne
    rw [ha.RF, hs.RF _ hne, completion, Option.mem_def.mp hy] at hready
    rw [h.records.laneCycle]
    exact hready

/-! ## Every run -/

/-- **Register dependences are respected** in every run without value prediction in
which no zero register in `A` stands before another register. -/
theorem respectsDependences_of_none_hides (u : Unset) (cfg : Config) (hk : Hooks P H) (p : P)
    (insts : List DbInst) (s : Uarchsim P) (hoff : cfg.vpEnable = false)
    (hnone : ∀ inst ∈ insts, ¬ HidesOperand inst)
    (hrun : Uarchsim.simulate u cfg hk p insts = .ok s) : RespectsDependences s.fetched := by
  have hends : Ends (Uarchsim.simulate u cfg hk p insts) (fun _ => True) DependencesKept := by
    apply Uarchsim.simulate_ends (fun _ _ => trivial)
    · intro s₀ h₀
      exact DependencesKept.initial h₀
    · intro s₀ inst hinst hs
      exact dependencesKept_step hoff hs (hnone inst hinst)
  exact (hends.of_ok hrun).respects

theorem respectsDependences_inOrder :
    ∃ s, Uarchsim.simulate ⟨fun _ => ⟨0, 0, 0⟩, 0⟩ {} idlePredictors ()
        [regInst .slowAlu 64 (intReg 0) {} (intReg 2), regInst .alu 68 (intReg 1) (intReg 2) {}] =
      .ok s ∧ RespectsDependences s.fetched := by
  obtain ⟨s, hs⟩ := exists_of_isOk
    (show (Uarchsim.simulate ⟨fun _ => ⟨0, 0, 0⟩, 0⟩ {} idlePredictors ()
        [regInst .slowAlu 64 (intReg 0) {} (intReg 2),
          regInst .alu 68 (intReg 1) (intReg 2) {}]).isOk = true by decide +kernel)
  refine ⟨s, hs, ?_⟩
  exact respectsDependences_of_none_hides _ _ _ _ _ s rfl (by decide) hs

/-- `sub x3, xzr, x2` is given a lane before the multiplication into `x2` is done. -/
theorem hidden_operand_not_awaited :
    ¬ ∀ s, Uarchsim.simulate ⟨fun _ => ⟨0, 0, 0⟩, 0⟩ {} idlePredictors ()
        [regInst .slowAlu 64 (intReg 0) {} (intReg 2),
          regInst .alu 68 (intReg rfZero) (intReg 2) (intReg 3)] = .ok s →
      RespectsDependences s.fetched := by
  rw [← ends_iff_of_ok]
  decide +kernel

end CbpSim.Core
