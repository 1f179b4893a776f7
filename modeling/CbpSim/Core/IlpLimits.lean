/-
  Core/IlpLimits.lean --- what no run can be faster than.

  Source: src/lib/uarchsim.cc, `step`, and the cycles that `output` prints under
  "ILP LIMIT STUDY".

  A trace takes as many cycles as its longest chain of registers on a machine without
  any other limit.  It takes as many cycles as fetching takes when each cycle fetches a
  full bundle, and as the window takes when each instruction in it takes its shortest
  time.  The cycles of a simulation are at least each of these.
-/
import CbpSim.Core.Dependences
import CbpSim.Core.FetchLimits
import CbpSim.Core.Delivery
import CbpSim.Core.Epochs
import CbpSim.Foundation.Slots

set_option autoImplicit false

namespace CbpSim.Core

open CbpSim.Foundation

variable {P H : Type}

/-! ## A machine without other limits -/

/-- The shortest latency of an instruction. -/
def leastLatency (cfg : Config) (inst : DbInst) : Nat :=
  if inst.isLoad then 2 else fixedLatency cfg inst.insnClass

/-- The cycles at which the registers are there, and the last cycle of an instruction. -/
structure Dataflow where
  ready : Nat → Nat
  finish : Nat

/-- The first cycle at which the instruction can have a lane: behind the front end, and
when its sources are there. -/
def Dataflow.start (cfg : Config) (d : Dataflow) (inst : DbInst) : Nat :=
  (operands inst).foldl
    (fun cycle op =>
      if op.valid && op.logReg != rfZero then max cycle (d.ready op.logReg) else cycle)
    cfg.pipelineFillLatency

/-- The instruction runs as soon as it can. -/
def Dataflow.run (cfg : Config) (d : Dataflow) (inst : DbInst) : Dataflow :=
  let done := d.start cfg inst + leastLatency cfg inst
  { ready :=
      if inst.D.valid && inst.D.logReg != rfZero then Function.update d.ready inst.D.logReg done
      else d.ready
    finish := max d.finish done }

/-- The machine behind the trace. -/
def dataflow (cfg : Config) (insts : List DbInst) : Dataflow :=
  insts.foldl (Dataflow.run cfg) { ready := fun _ => 0, finish := 0 }

theorem dataflow_concat (cfg : Config) (insts : List DbInst) (inst : DbInst) :
    dataflow cfg (insts ++ [inst]) = (dataflow cfg insts).run cfg inst :=
  List.foldl_append

/-- A machine that waits for its sources starts no earlier. -/
theorem Scheduled.start_le {cfg : Config} {RF : Nat → Nat} {fetchCycle : Nat} {inst : DbInst}
    {t : Timing} (h : Scheduled cfg RF fetchCycle inst t) (hhide : ¬ HidesOperand inst)
    {d : Dataflow} (hready : ∀ r, d.ready r ≤ RF r) : d.start cfg inst ≤ t.laneCycle := by
  have hfill : cfg.pipelineFillLatency ≤ t.laneCycle := by
    have := h.filled
    omega
  have hfold : ∀ (ops : List DbOperand) (cycle : Nat), (∀ op ∈ ops, op ∈ operands inst) →
      cycle ≤ t.laneCycle →
      ops.foldl (fun cycle op =>
        if op.valid && op.logReg != rfZero then max cycle (d.ready op.logReg) else cycle)
        cycle ≤ t.laneCycle := by
    intro ops
    induction ops with
    | nil => exact fun _ _ hcycle => hcycle
    | cons op ops ih =>
      intro cycle hmem hcycle
      apply ih _ fun op' hop' => hmem op' (List.mem_cons_of_mem _ hop')
      dsimp only
      split
      · rename_i hsource
        obtain ⟨hvalid, hne⟩ := Bool.and_eq_true_iff.mp hsource
        have hawaits := h.ready_of_not_hides hhide (hmem op List.mem_cons_self) hvalid
          (bne_iff_ne.mp hne)
        exact max_le hcycle ((hready _).trans hawaits)
      · exact hcycle
  exact hfold _ _ (fun _ hop => hop) hfill

/-- And its instructions take their shortest latency at least. -/
theorem Scheduled.latency_le {cfg : Config} {RF : Nat → Nat} {fetchCycle : Nat} {inst : DbInst}
    {t : Timing} (h : Scheduled cfg RF fetchCycle inst t) :
    t.laneCycle + leastLatency cfg inst ≤ t.execCycle := by
  unfold leastLatency
  split
  · rename_i hload
    exact h.load hload
  · rename_i hload
    rw [h.fixed (by simpa using hload)]

/-! ## The invariant -/

/-- The instructions that were fetched are no faster than the machine without other
limits, as long as no dependence was hidden from the simulator, and take their shortest
time behind the front end. -/
structure Paced (cfg : Config) (s : Uarchsim P) : Prop where
  caughtUp : Evaluated s.pipe s.previousFetchCycle
  ready : (∀ x ∈ s.fetched, ¬ HidesOperand x.inst) →
    ∀ r, (dataflow cfg (s.fetched.map (·.inst))).ready r ≤ s.res.RF r
  finish : (∀ x ∈ s.fetched, ¬ HidesOperand x.inst) → ∀ n, (∀ x ∈ s.fetched, x.execCycle ≤ n) →
    (dataflow cfg (s.fetched.map (·.inst))).finish ≤ n
  timed : ∀ x ∈ s.fetched,
    x.fetchCycle + cfg.pipelineFillLatency + leastLatency cfg x.inst ≤ x.execCycle
  retired : ∀ x ∈ s.fetched, x.execCycle ≤ x.retireCycle

theorem Paced.initial {cfg : Config} {p : P} {s : Uarchsim P}
    (h : Uarchsim.Initial cfg p s) : Paced cfg s where
  caughtUp := h.caughtUp
  ready _ r := by
    rw [h.fetched]
    exact Nat.zero_le _
  finish _ n _ := by
    rw [h.fetched]
    exact Nat.zero_le _
  timed := by simp [h.fetched]
  retired := by simp [h.fetched]

theorem paced_step {cfg : Config} {hk : Hooks P H} (hoff : cfg.vpEnable = false)
    {s : Uarchsim P} (hs : Paced cfg s) (inst : DbInst) :
    Ends (s.step cfg hk inst) (fun _ => True) (Paced cfg) := by
  have hstep := Uarchsim.step_ends (E := fun _ => True) (J := fun _ => True)
    (fun _ _ => trivial) (Quiet.of_any hk fun _ => trivial)
    (evalKeeps_of_any cfg hk fun _ => trivial) (fun _ _ _ _ => trivial) trivial hs.caughtUp
    (fun _ _ => Or.inr trivial) (fun _ _ => Or.inr trivial) inst
  apply hstep.imp
  rintro s' ⟨a, t, x, w, ha, h⟩
  have hfetched : s'.fetched = s.fetched ++ [x] := by rw [h.fetched, ha.fetched]
  have hshown : (∀ y ∈ s'.fetched, ¬ HidesOperand y.inst) →
      (∀ y ∈ s.fetched, ¬ HidesOperand y.inst) ∧ ¬ HidesOperand inst := by
    intro hnone
    rw [hfetched] at hnone
    obtain ⟨hold, hx⟩ := List.forall_mem_append.mp hnone
    exact ⟨hold, h.records.inst ▸ hx x List.mem_cons_self⟩
  have hready : (∀ y ∈ s.fetched, ¬ HidesOperand y.inst) →
      ∀ r, (dataflow cfg (s.fetched.map (·.inst))).ready r ≤ a.res.RF r := by
    rw [ha.RF]
    exact hs.ready
  -- the instruction is done when it is done on the other machine, or later
  have hdone : (∀ y ∈ s'.fetched, ¬ HidesOperand y.inst) →
      (dataflow cfg (s.fetched.map (·.inst))).start cfg inst + leastLatency cfg inst ≤
        t.execCycle := by
    intro hnone
    obtain ⟨hold, hhide⟩ := hshown hnone
    have hstart := h.scheduled.start_le hhide (hready hold)
    have hlatency := h.scheduled.latency_le
    omega
  have hflow : dataflow cfg (s'.fetched.map (·.inst)) =
      (dataflow cfg (s.fetched.map (·.inst))).run cfg inst := by
    rw [hfetched, List.map_append, List.map_singleton, h.records.inst, dataflow_concat]
  refine { caughtUp := h.caughtUp ha, ready := ?_, finish := ?_, timed := ?_, retired := ?_ }
  · intro hnone r
    have hready := hready (hshown hnone).1
    rw [hflow, h.RF hoff, Dataflow.run]
    dsimp only
    split
    · by_cases hr : r = inst.D.logReg
      · rw [hr, Function.update_self, Function.update_self]
        exact hdone hnone
      · rw [Function.update_of_ne hr, Function.update_of_ne hr]
        exact hready r
    · exact hready r
  · intro hnone n hn
    rw [hfetched] at hn
    rw [hflow, Dataflow.run]
    have hx := hn x (List.mem_append_right _ List.mem_cons_self)
    rw [h.records.execCycle] at hx
    exact max_le (hs.finish (hshown hnone).1 n fun y hy => hn y (List.mem_append_left _ hy))
      ((hdone hnone).trans hx)
  · intro y hy
    rw [hfetched] at hy
    rcases List.mem_append.mp hy with hy | hy
    · exact hs.timed y hy
    · rw [List.mem_singleton.mp hy, h.records.inst, h.records.fetchCycle, h.records.execCycle]
      have hfilled := h.scheduled.filled
      have hlatency := h.scheduled.latency_le
      omega
  · intro y hy
    rw [hfetched] at hy
    rcases List.mem_append.mp hy with hy | hy
    · exact hs.retired y hy
    · rw [List.mem_singleton.mp hy, h.records.execCycle, h.records.retireCycle]
      exact le_max_left _ _

/-! ## What a run has fetched -/

/-- The instructions of a run are those that it remembers, and each is done by the last
cycle. -/
theorem fetched_ran {cfg : Config} {hk : Hooks P H} {s₀ s : Uarchsim P}
    {log : List (DbInst × Course P)} (hran : Uarchsim.Ran cfg hk s₀ log s)
    (hstart : s₀.fetched = []) :
    s.fetched.map (·.inst) = log.map (·.1) ∧ ∀ x ∈ s.fetched, x.execCycle ≤ s.cycle := by
  induction hran with
  | nil => simp [hstart]
  | snoc _ hc ih =>
    rename_i log s s' inst c _
    obtain ⟨hinsts, hcycles⟩ := ih
    have hbefore : c.before.fetched = s.fetched ∧ c.before.cycle = s.cycle := by
      rw [hc.before_eq.2]
      exact ⟨rfl, rfl⟩
    have hfetched : s'.fetched = s.fetched ++ [c.fetched cfg inst] := by
      rw [hc.last, hbefore.1]
    have hcycle : s'.cycle = max s.cycle c.timing.execCycle := by
      rw [hc.last_eq.2, hc.managed_eq.2.2, hc.written_eq, hbefore.2]
    constructor
    · rw [hfetched, List.map_append, List.map_append, hinsts]
      rfl
    · rw [hfetched, hcycle]
      intro x hx
      rcases List.mem_append.mp hx with hx | hx
      · exact le_max_of_le_left (hcycles x hx)
      · rw [List.mem_singleton.mp hx]
        exact le_max_right _ _

/-! ## The limits -/

/-- The cycles are at least those of the chains of registers, of the fetch bundles, each
of which is full, behind the front end, and of the windows, each of which empties.  The
simulator does not see all registers of an instruction with a zero register in `A`, and
the chains bound the traces without such an instruction. -/
structure IlpLimits (cfg : Config) (insts : List DbInst) (cycle : Nat) : Prop where
  dataflow : (∀ inst ∈ insts, ¬ HidesOperand inst) → (dataflow cfg insts).finish ≤ cycle
  width : 0 < cfg.fetchWidth →
    instructions insts ≤ cfg.fetchWidth * (cycle - cfg.pipelineFillLatency)
  branches : 0 < cfg.fetchNumBranch →
    insts.countP (·.insnClass.isBr) ≤ cfg.fetchNumBranch * (cycle - cfg.pipelineFillLatency)
  bundles : insts.countP (endsBundle cfg) ≤ cycle - cfg.pipelineFillLatency
  window : insts ≠ [] →
    ((insts.length - 1) / cfg.windowSize + 1) * (cfg.pipelineFillLatency + 1) ≤ cycle

theorem one_le_leastLatency {cfg : Config} (hlat : cfg.DefaultLatencies) (inst : DbInst) :
    1 ≤ leastLatency cfg inst := by
  unfold leastLatency fixedLatency
  rw [hlat.fp, hlat.slowAlu, hlat.default]
  split
  · decide
  · split
    · decide
    · split
      · decide
      · decide

section Limits

variable {cfg : Config} {s : Uarchsim P} {insts : List DbInst}

/-- An instruction is fetched early enough to go through the front end and to run. -/
theorem Paced.fetchCycle_lt (h : Paced cfg s) (hlat : cfg.DefaultLatencies)
    (hcycle : ∀ x ∈ s.fetched, x.execCycle ≤ s.cycle) {x : Fetched P} (hx : x ∈ s.fetched) :
    x.fetchCycle < s.cycle - cfg.pipelineFillLatency := by
  have htimed := h.timed x hx
  have hlast := hcycle x hx
  have hone := one_le_leastLatency hlat x.inst
  omega

/-- Pieces of a kind of which a cycle fetches a few. -/
theorem Paced.countP_le (h : Paced cfg s) (hlat : cfg.DefaultLatencies)
    (hinsts : s.fetched.map (·.inst) = insts)
    (hcycle : ∀ x ∈ s.fetched, x.execCycle ≤ s.cycle) {kind : DbInst → Bool} {limit : Nat}
    (hroom : ∀ c, countAt kind s.fetched c ≤ limit) :
    insts.countP kind ≤ limit * (s.cycle - cfg.pipelineFillLatency) := by
  rw [← hinsts, List.countP_map]
  exact countP_le_mul hroom fun x hx => h.fetchCycle_lt hlat hcycle hx

/-- The window empties once for every `WINDOW_SIZE` instructions. -/
theorem Paced.window_le (h : Paced cfg s) (hlimits : LimitsKept cfg s)
    (hlat : cfg.DefaultLatencies) (hpos : 0 < cfg.windowSize)
    (hcycle : ∀ x ∈ s.fetched, x.execCycle ≤ s.cycle) (hne : s.fetched ≠ []) :
    ((s.fetched.length - 1) / cfg.windowSize + 1) * (cfg.pipelineFillLatency + 1) ≤ s.cycle := by
  have hfills : ∀ x ∈ s.fetched, x.fetchCycle + (cfg.pipelineFillLatency + 1) ≤ x.execCycle := by
    intro x hx
    have htimed := h.timed x hx
    have hone := one_le_leastLatency hlat x.inst
    omega
  have hlast : s.fetched[s.fetched.length - 1]? = some (s.fetched.getLast hne) := by
    rw [← List.getLast?_eq_getElem?, List.getLast?_eq_getLast_of_ne_nil hne]
  have hspaced := spaced (f := (·.execCycle)) hpos
    (fun x hx => (Nat.le_add_left _ _).trans (hfills x hx))
    (fun i x y hx hy => by
      have hroom := hlimits.awaitsRoom i x y hx hy
      have hretired := h.retired x (List.mem_of_getElem? hx)
      have hfill := hfills y (List.mem_of_getElem? hy)
      omega)
    _ _ hlast
  exact hspaced.trans (hcycle _ (List.getLast_mem hne))

/-- The limits of a state in which everything is fetched. -/
theorem Paced.ilpLimits (h : Paced cfg s) (hlimits : LimitsKept cfg s)
    (hlat : cfg.DefaultLatencies) (hpos : 0 < cfg.windowSize)
    (hinsts : s.fetched.map (·.inst) = insts)
    (hcycle : ∀ x ∈ s.fetched, x.execCycle ≤ s.cycle) : IlpLimits cfg insts s.cycle where
  dataflow hnone := by
    rw [← hinsts] at hnone ⊢
    exact h.finish (fun x hx => hnone x.inst (List.mem_map_of_mem hx)) s.cycle hcycle
  width hwidth := h.countP_le hlat hinsts hcycle (hlimits.width hwidth).every
  branches hbranches := h.countP_le hlat hinsts hcycle (hlimits.branches hbranches).every
  bundles := by
    rw [← hinsts, List.countP_map]
    exact countP_le_of_apart hlimits.apart fun x hx => h.fetchCycle_lt hlat hcycle hx
  window hne := by
    rw [← hinsts, List.length_map]
    apply h.window_le hlimits hlat hpos hcycle
    rintro hnil
    exact hne (by rw [← hinsts, hnil]; rfl)

end Limits

/-- **No run is faster than its limits.** -/
theorem simulate_ilpLimits (u : Unset) (cfg : Config) (hk : Hooks P H) (p : P)
    (insts : List DbInst) (hoff : cfg.vpEnable = false) (hlat : cfg.DefaultLatencies)
    {s : Uarchsim P} (hrun : Uarchsim.simulate u cfg hk p insts = .ok s) :
    IlpLimits cfg insts s.cycle := by
  have hpaced : Ends (Uarchsim.simulate u cfg hk p insts) (fun _ => True) (Paced cfg) := by
    apply Uarchsim.simulate_ends (fun _ _ => trivial)
    · intro s h
      exact Paced.initial h
    · intro s inst _ h
      exact paced_step hoff h inst
  have hlimits : Ends (Uarchsim.simulate u cfg hk p insts) OffWindow (LimitsKept cfg) := by
    apply Uarchsim.simulate_ends (fun _ => offWindow_of_elsewhere)
    · intro s h
      exact LimitsKept.initial h
    · intro s inst _ h
      exact limitsKept_step cfg hk h inst
  obtain ⟨s₀, hnew, log, hran, rfl⟩ := Uarchsim.simulate_eq_ok.mp hrun
  have hinitial := (Uarchsim.new_ends u cfg p).of_ok hnew
  obtain ⟨hinsts, hcycle⟩ := fetched_ran hran hinitial.fetched
  exact (hpaced.of_ok hrun).ilpLimits (hlimits.of_ok hrun) hlat hinitial.windowSize hinsts hcycle

/-- A load and two instructions that wait for it, in a window of one. -/
theorem simulate_ilpLimits_loadStoreTrace :
    ∃ s, Uarchsim.simulate ⟨fun _ => ⟨0, 0, 0⟩, 0⟩ { windowSize := 1 } idlePredictors ()
        loadStoreTrace = .ok s ∧ IlpLimits { windowSize := 1 } loadStoreTrace s.cycle := by
  obtain ⟨s, hs⟩ := exists_of_isOk
    (show (Uarchsim.simulate ⟨fun _ => ⟨0, 0, 0⟩, 0⟩ { windowSize := 1 } idlePredictors ()
      loadStoreTrace).isOk = true by decide +kernel)
  have hlat : ({ windowSize := 1 } : Config).DefaultLatencies :=
    { fill := rfl, dq := rfl, default := rfl, fp := rfl, slowAlu := rfl }
  exact ⟨s, hs, simulate_ilpLimits _ _ _ _ _ rfl hlat hs⟩

end CbpSim.Core
