/-
  Core/WrongPath.lean --- the cycles on the wrong path.

  Source: src/lib/uarchsim.cc, the charge of a misprediction in `step`;
  src/lib/bp.cc, `update_cycles_on_wrong_path`.

  A misprediction is charged twice, to a member of the simulator and to the last epoch
  of `bp_t`, with the cycles from the fetch of the branch until fetching goes on.  Since
  the fetch cycle does not go back and no instruction executes or retires after `cycle`,
  the charges are disjoint and end by `cycle`.
-/
import Mathlib.Tactic
import Mathlib.Order.CompletePartialOrder
import Mathlib.Order.Interval.Set.Disjoint
import CbpSim.Core.Epochs
import CbpSim.Core.Redirects

set_option autoImplicit false

namespace CbpSim.Core

open CbpSim.Foundation

variable {P H : Type}

/-! ## The charge of a step -/

/-- The wrong-path cycles of all epochs. -/
def Bp.cyclesOnWrongPath (b : Bp) : Nat := (b.measPerEpoch.map (·.cyclesOnWrongPath)).sum

/-- The cycles that a step charges, if its branch is mispredicted. -/
def Course.charged (c : Course P) : Option (Nat × Nat) :=
  if c.misp then some (c.before.fetchCycle, c.predicted.fetchCycle) else none

/-- How many these are. -/
def Course.charge (c : Course P) : Nat := (c.charged.map fun i => i.2 - i.1).getD 0

/-- The charges of a run. -/
def charges (log : List (DbInst × Course P)) : List (Nat × Nat) := log.filterMap (·.2.charged)

@[simp] theorem charges_concat (log : List (DbInst × Course P)) (inst : DbInst) (c : Course P) :
    charges (log ++ [(inst, c)]) = charges log ++ c.charged.toList := by
  rw [charges, List.filterMap_append]
  rfl

theorem updateBack_id {α : Type} (xs : List α) : updateBack (fun x => x) xs = xs := by
  induction xs using List.reverseRecOn with
  | nil => rfl
  | append_singleton xs x _ => rw [updateBack_concat]

/-- What is added to the last entry is added to the sum. -/
theorem sum_map_updateBack {α : Type} {f : α → α} {g : α → Nat} {n : Nat}
    (h : ∀ x, g (f x) = g x + n) {xs : List α} (hne : xs ≠ []) :
    ((updateBack f xs).map g).sum = (xs.map g).sum + n := by
  induction xs using List.reverseRecOn with
  | nil => exact absurd rfl hne
  | append_singleton xs x _ =>
    rw [updateBack_concat, List.map_append, List.map_append, List.sum_append, List.sum_append,
      List.map_singleton, List.map_singleton, List.sum_singleton, List.sum_singleton, h,
      Nat.add_assoc]

@[simp] theorem EpochMeasures.count_cyclesOnWrongPath (c : InstClass) (misp : Bool)
    (m : EpochMeasures) : (m.count c misp).cyclesOnWrongPath = m.cyclesOnWrongPath := by
  unfold count
  split
  all_goals rfl

namespace Uarchsim

variable {cfg : Config} {hk : Hooks P H} {inst : DbInst} {s a : Uarchsim P}

/-- The charge of a misprediction, and the redirect of fetching. -/
theorem predictBranch_charges {seqNo predictCycle execCycle : Nat} {misp : Bool}
    (h : s.predictBranch cfg hk inst seqNo predictCycle execCycle = .ok (misp, a)) :
    let n := if misp then a.fetchCycle - predictCycle else 0
    a.cyclesOnWrongPath = s.cyclesOnWrongPath + n ∧
      (∃ f, (∀ m, (f m : EpochMeasures).cyclesOnWrongPath = m.cyclesOnWrongPath + n) ∧
        a.BP.measPerEpoch = updateBack f s.BP.measPerEpoch) ∧
      a.fetchCycle = if misp then max s.fetchCycle execCycle else s.fetchCycle := by
  cases hperfect : cfg.perfectBranchPred with
  | true =>
    unfold predictBranch at h
    rw [if_pos hperfect] at h
    obtain ⟨rfl, rfl⟩ := Prod.mk.inj (Except.ok.inj h)
    exact ⟨rfl, ⟨fun m => m, fun _ => rfl, (updateBack_id _).symm⟩, rfl⟩
  | false =>
    obtain ⟨BP, hooks, hpredict, ⟨rfl, rfl⟩ | ⟨rfl, rfl⟩⟩ := predictBranch_eq_ok h hperfect
    · refine ⟨rfl, ⟨_, fun m => ?_, Bp.predict_eq_ok hpredict⟩, rfl⟩
      rw [EpochMeasures.count_cyclesOnWrongPath]
      rfl
    · refine ⟨rfl, ⟨fun m => { m.count inst.insnClass true with
        cyclesOnWrongPath := m.cyclesOnWrongPath + (max s.fetchCycle execCycle - predictCycle) },
        fun m => rfl, ?_⟩, rfl⟩
      dsimp only [Bp.updateCyclesOnWrongPath, Bp.measure]
      rw [Bp.predict_eq_ok hpredict, updateBack_updateBack]
      simp only [EpochMeasures.count_cyclesOnWrongPath]

/-- The window of an instruction that was dispatched. -/
theorem dispatch_window {seqNo : Nat} {t : Timing} (h : s.dispatch cfg hk inst seqNo t = .ok a) :
    ∃ w, a.pipe.window = s.pipe.window ++ [w] ∧
      w.retireCycle = max t.execCycle s.pipe.backRetire := by
  unfold dispatch at h
  obtain ⟨info, -, h⟩ := bind_eq_ok.mp h
  obtain ⟨-, h⟩ := guard_eq_ok.mp h
  obtain ⟨-, h⟩ := guard_eq_ok.mp h
  obtain ⟨hooks, -, h⟩ := bind_eq_ok.mp h
  obtain ⟨-, h⟩ := guard_eq_ok.mp h
  cases h
  exact ⟨_, rfl, rfl⟩

theorem backRetire_le {p : Pipeline P} {cycle : Nat}
    (h : ∀ w ∈ p.window, w.retireCycle ≤ cycle) : p.backRetire ≤ cycle := by
  unfold Pipeline.backRetire
  cases hlast : p.window.getLast? with
  | none => exact Nat.zero_le cycle
  | some w => exact h w (List.mem_of_getLast? hlast)

/-- Fetching goes on by one cycle, or waits for a retirement. -/
theorem manageFetch_le {squash : Bool} (h : s.manageFetch cfg inst squash = .ok a) {cycle : Nat}
    (hretires : ∀ w ∈ s.pipe.window, w.retireCycle ≤ cycle) (hlt : s.fetchCycle < cycle) :
    a.fetchCycle ≤ cycle := by
  unfold manageFetch at h
  split at h
  · cases h
  · rename_i front hfront
    split at h
    · cases h
    · split at h
      · split at h
        · cases h
          exact backRetire_le hretires
        · cases h
      · split at h
        · split at h
          · cases h
            exact hretires front (List.mem_of_mem_head? hfront)
          · cases h
            exact hlt.le
        · have hle := Bool.toNat_le (bundleStops cfg s inst)
          rw [bundle_fetchCycle h]
          omega

end Uarchsim

/-- Catching up takes entries from the window only. -/
theorem Pipeline.catchUp_window (cfg : Config) (hk : Hooks P H) (first last : Nat)
    (p : Pipeline P) :
    Ends (p.catchUp cfg hk first last) (fun _ => True) fun p' => p'.window.Sublist p.window := by
  apply catchUp_steps (R := fun p p' => p'.window.Sublist p.window)
  · exact fun _ => List.Sublist.refl _
  · exact fun h h' => List.Sublist.trans h' h
  · intro cycle p
    apply (evalCycle_window cfg hk cycle p).mono fun _ _ => trivial
    rintro p' ⟨hwindow, -⟩
    rw [hwindow]
    exact List.dropWhile_sublist _

section Step

variable {cfg : Config} {hk : Hooks P H} {s s' : Uarchsim P} {inst : DbInst} {c : Course P}

open Uarchsim

/-- Up to the prediction of its branch a step charges nothing. -/
theorem Course.Leads.frame (h : Course.Leads cfg hk s inst c) :
    c.managed.cyclesOnWrongPath = s.cyclesOnWrongPath ∧
      c.managed.cycle = max s.cycle c.timing.execCycle := by
  obtain ⟨-, -, hmanaged⟩ := h.managed_eq
  obtain ⟨-, hbefore⟩ := h.before_eq
  rw [hmanaged, h.written_eq, hbefore]
  exact ⟨rfl, rfl⟩

/-- Up to the dispatch of its instruction a step takes entries from the window only. -/
theorem Course.Leads.window_sublist (h : Course.Leads cfg hk s inst c) :
    c.written.pipe.window.Sublist s.pipe.window := by
  obtain ⟨-, _, pipe, hpipe, hbegun⟩ := beginStep_eq_ok h.begun
  obtain ⟨-, -, pipe', hpipe', hblocked⟩ := fetchBlock_eq_ok h.blocked
  obtain ⟨_, _, -, -, hbefore⟩ := predictValue_eq_ok h.before
  have h₁ := (Pipeline.catchUp_window cfg hk _ _ _).of_ok hpipe
  have h₂ := (Pipeline.catchUp_window cfg hk _ _ _).of_ok hpipe'
  have hbegun' : c.begun.pipe = pipe := by rw [hbegun]
  have hwritten' : c.written.pipe.window = pipe'.window := by
    rw [h.written_eq, hbefore, hblocked]
  rw [hwritten']
  rw [hbegun'] at h₂
  exact h₂.trans h₁

/-- No instruction in the window retires after `cycle`, and fetching waits no longer. -/
theorem Course.Leads.withinCycle (h : Course.Leads cfg hk s inst c)
    (hretires : ∀ w ∈ s.pipe.window, w.retireCycle ≤ s.cycle) :
    (∀ w ∈ c.managed.pipe.window, w.retireCycle ≤ c.managed.cycle) ∧
      c.managed.fetchCycle ≤ c.managed.cycle := by
  have hcycle := h.frame.2
  obtain ⟨-, -, hlater, -⟩ := h.fetchCycle
  obtain ⟨w, hwindow, hretire⟩ := dispatch_window h.dispatched
  obtain ⟨-, _, _, _, -, -, -, -, hdispatched⟩ := dispatch_eq_ok h.dispatched
  obtain ⟨-, -, hmanaged⟩ := h.managed_eq
  have hback : ∀ w ∈ c.written.pipe.window, w.retireCycle ≤ s.cycle := fun w hw =>
    hretires w (h.window_sublist.subset hw)
  have hdispatched' : ∀ w ∈ c.dispatched.pipe.window, w.retireCycle ≤ c.managed.cycle := by
    rw [hwindow, hcycle]
    intro w' hw'
    rcases List.mem_append.mp hw' with hw' | hw'
    · exact (hback w' hw').trans (le_max_left _ _)
    · rw [List.mem_singleton.mp hw', hretire]
      exact max_le (le_max_right _ _) ((backRetire_le hback).trans (le_max_left _ _))
  constructor
  · have hsame : c.managed.pipe = c.dispatched.pipe := by rw [hmanaged]
    rw [hsame]
    exact hdispatched'
  · apply manageFetch_le h.managed hdispatched'
    have hfetch : c.dispatched.fetchCycle = c.before.fetchCycle := by
      rw [hdispatched, h.written_eq]
    rw [hfetch, hcycle]
    exact hlater.trans_le (le_max_right _ _)

/-- The retire cycles in the window are those of the dispatch. -/
theorem Course.Of.retireCycles (h : Course.Of cfg hk s inst c s') :
    s'.pipe.window.map (·.retireCycle) = c.managed.pipe.window.map (·.retireCycle) := by
  obtain ⟨-, -, hooks, hpredicted⟩ := predictBranch_frame h.predicted
  obtain ⟨window, htold, hwindow⟩ := updatePredTaken_eq_ok h.told
  have hlast : s'.pipe.window = window := by rw [h.last_eq.2, htold]
  have hpipe : c.predicted.pipe.window = c.managed.pipe.window := by rw [hpredicted]
  rw [hpipe] at hwindow
  rw [hlast]
  split at hwindow
  · rw [hwindow]
    refine (map_updateBack ?_ _).trans (updateBack_id _)
    exact fun _ => rfl
  · rw [hwindow]

/-- What a step makes of the members behind the charges. -/
theorem Course.Of.charges (h : Course.Of cfg hk s inst c s') :
    s'.cyclesOnWrongPath = s.cyclesOnWrongPath + c.charge ∧
      (s.BP.measPerEpoch ≠ [] → s'.BP.measPerEpoch ≠ [] ∧
        s'.BP.cyclesOnWrongPath = s.BP.cyclesOnWrongPath + c.charge) ∧
      s'.fetchCycle = c.predicted.fetchCycle ∧ s'.cycle = c.managed.cycle ∧
      (∀ w ∈ s'.pipe.window, ∃ w' ∈ c.managed.pipe.window, w.retireCycle = w'.retireCycle) := by
  have hBP : c.managed.BP = s.BP := congrArg Prod.fst h.books_managed.1
  obtain ⟨hcharged, ⟨f, hf, hmeasured⟩, -⟩ := predictBranch_charges h.predicted
  obtain ⟨-, -, hooks, hpredicted⟩ := predictBranch_frame h.predicted
  obtain ⟨window, htold, hwindow⟩ := updatePredTaken_eq_ok h.told
  obtain ⟨ldst, alu, hended⟩ := endStep_eq_ok h.ended
  obtain ⟨-, hlast⟩ := h.last_eq
  have hcharge : (if c.misp then c.predicted.fetchCycle - c.before.fetchCycle else 0) =
      c.charge := by
    unfold Course.charge Course.charged
    cases c.misp with
    | false => rfl
    | true => rfl
  rw [hcharge] at hcharged
  simp only [hcharge] at hf
  have hlastCharged : s'.cyclesOnWrongPath = c.predicted.cyclesOnWrongPath := by rw [hlast]
  have hlastFetch : s'.fetchCycle = c.predicted.fetchCycle := by rw [hlast]
  have hlastCycle : s'.cycle = c.managed.cycle := by rw [hlast]
  refine ⟨?_, fun hne => ?_, hlastFetch, hlastCycle, ?_⟩
  · rw [hlastCharged, hcharged, h.toLeads.frame.1]
  · -- an epoch that begins adds 0
    have htold' : c.told.BP = c.predicted.BP := by rw [htold]
    have hback : c.told.BP.measPerEpoch ≠ [] ∧
        c.told.BP.cyclesOnWrongPath = s.BP.cyclesOnWrongPath + c.charge := by
      rw [htold', Bp.cyclesOnWrongPath, hmeasured, hBP]
      refine ⟨fun hnil => hne ?_, sum_map_updateBack hf hne⟩
      rw [← List.length_eq_zero_iff, ← length_updateBack f, hnil, List.length_nil]
    have hlastMeasured : s'.BP.measPerEpoch = c.told.BP.measPerEpoch ∨
        s'.BP.measPerEpoch = c.told.BP.measPerEpoch ++ [({} : EpochMeasures)] := by
      rw [h.last]
      dsimp only at hended ⊢
      split at hended
      · rw [hended.2]
        exact Or.inr rfl
      · rw [hended]
        exact Or.inl rfl
    rcases hlastMeasured with hsame | hbegins
    · rw [Bp.cyclesOnWrongPath, hsame]
      exact hback
    · rw [Bp.cyclesOnWrongPath, hbegins, List.map_append, List.sum_append]
      exact ⟨by simp, hback.2⟩
  · intro w hw
    have hmem : w.retireCycle ∈ s'.pipe.window.map (·.retireCycle) := List.mem_map_of_mem hw
    rw [h.retireCycles] at hmem
    obtain ⟨w', hw', heq⟩ := List.mem_map.mp hmem
    exact ⟨w', hw', heq.symm⟩

end Step

/-! ## The run -/

/-- The charges of a run: one after the other, each by the fetch cycle, and together no
more than the fetch cycle and than `cycle`. -/
structure Charged (log : List (DbInst × Course P)) (s : Uarchsim P) : Prop where
  ordered : (charges log).Pairwise fun i j => i.2 ≤ j.1
  done : ∀ i ∈ charges log, i.2 ≤ s.fetchCycle
  total : s.BP.cyclesOnWrongPath = ((charges log).map fun i => i.2 - i.1).sum
  fetched : s.BP.cyclesOnWrongPath ≤ s.fetchCycle
  simulated : s.BP.cyclesOnWrongPath ≤ s.cycle
  retires : ∀ w ∈ s.pipe.window, w.retireCycle ≤ s.cycle
  epochs : s.BP.measPerEpoch ≠ []

section Run

variable {cfg : Config} {hk : Hooks P H} {s₀ s s' : Uarchsim P} {u : Unset} {p : P}

open Uarchsim

theorem Charged.new (h : Uarchsim.new u cfg p = .ok s₀) : Charged [] s₀ := by
  have opened := new_opened h
  have hzero : s₀.BP.cyclesOnWrongPath = 0 := by
    rw [Bp.cyclesOnWrongPath, opened.measPerEpoch]
    rfl
  exact {
    ordered := .nil
    done := fun _ hi => absurd hi List.not_mem_nil
    total := hzero
    fetched := by rw [hzero]; exact Nat.zero_le _
    simulated := by rw [hzero]; exact Nat.zero_le _
    retires := by rw [opened.window]; exact fun _ hw => absurd hw List.not_mem_nil
    epochs := by rw [opened.measPerEpoch]; exact List.cons_ne_nil _ _ }

/-- A step keeps the charges in order. -/
theorem Charged.step {log : List (DbInst × Course P)} {inst : DbInst} {c : Course P}
    (hs : Charged log s) (h : Course.Of cfg hk s inst c s') :
    Charged (log ++ [(inst, c)]) s' := by
  obtain ⟨-, hsum, hfetch, hcycle, hwindow⟩ := h.charges
  obtain ⟨hne, hsum⟩ := hsum hs.epochs
  obtain ⟨hfetched, hmanaged, -, -⟩ := h.fetchCycle
  obtain ⟨hretires, hwithin⟩ := h.withinCycle hs.retires
  obtain ⟨-, hmax⟩ := h.frame
  have hredirect := (predictBranch_charges h.predicted).2.2
  have hmono : s.fetchCycle ≤ s'.fetchCycle := by
    have := (predictBranch_frame h.predicted).1
    omega
  have hretires' : ∀ w ∈ s'.pipe.window, w.retireCycle ≤ s'.cycle := by
    intro w hw
    obtain ⟨w', hw', heq⟩ := hwindow w hw
    rw [heq, hcycle]
    exact hretires w' hw'
  cases hmisp : c.misp with
  | false =>
    have hcharged : c.charged = none := by rw [Course.charged, hmisp]; rfl
    rw [Course.charge, hcharged] at hsum
    have hlog : charges (log ++ [(inst, c)]) = charges log := by
      rw [charges_concat, hcharged]
      exact List.append_nil _
    exact {
      ordered := hlog ▸ hs.ordered
      done := fun i hi => (hs.done i (hlog ▸ hi)).trans hmono
      total := by rw [hlog, hsum]; exact hs.total
      fetched := by rw [hsum]; exact hs.fetched.trans hmono
      simulated := by
        rw [hsum, hcycle, hmax]
        exact hs.simulated.trans (le_max_left _ _)
      retires := hretires'
      epochs := hne }
  | true =>
    have hcharged : c.charged = some (c.before.fetchCycle, c.predicted.fetchCycle) := by
      rw [Course.charged, hmisp]
      rfl
    have hcharge : c.charge = c.predicted.fetchCycle - c.before.fetchCycle := by
      rw [Course.charge, hcharged]
      rfl
    rw [hcharge] at hsum
    have hlog : charges (log ++ [(inst, c)]) =
        charges log ++ [(c.before.fetchCycle, c.predicted.fetchCycle)] := by
      rw [charges_concat, hcharged]
      rfl
    -- fetching goes on when the branch has executed, or later
    have hbounded : c.predicted.fetchCycle ≤ c.managed.cycle := by
      rw [hredirect, hmisp, if_pos rfl, max_le_iff]
      exact ⟨hwithin, hmax ▸ le_max_right _ _⟩
    have hle : s'.BP.cyclesOnWrongPath ≤ c.predicted.fetchCycle := by
      have hbefore := hs.fetched
      have hforward := (predictBranch_frame h.predicted).1
      omega
    exact {
      ordered := by
        rw [hlog, List.pairwise_append]
        refine ⟨hs.ordered, List.pairwise_singleton _ _, ?_⟩
        intro i hi j hj
        rw [List.mem_singleton.mp hj]
        exact (hs.done i hi).trans hfetched
      done := by
        rw [hlog, hfetch]
        intro i hi
        rcases List.mem_append.mp hi with hi | hi
        · exact (hs.done i hi).trans (hmono.trans hfetch.le)
        · rw [List.mem_singleton.mp hi]
      total := by
        rw [hsum, hlog, List.map_append, List.sum_append, hs.total]
        rfl
      fetched := hfetch ▸ hle
      simulated := by
        rw [hcycle]
        exact hle.trans hbounded
      retires := hretires'
      epochs := hne }

theorem Charged.ran (h₀ : Charged [] s₀) {log : List (DbInst × Course P)}
    (h : Ran cfg hk s₀ log s) : Charged log s := by
  induction h with
  | nil => exact h₀
  | snoc _ hc ih => exact ih.step hc

/-- **The time on the wrong path is time that was simulated.**  In every state that a
run of the constructed simulator reaches, no cycle was charged twice, and the epochs
together have at most `cycle` cycles on the wrong path. -/
theorem wrongPath_le_cycle (hnew : Uarchsim.new u cfg p = .ok s₀)
    {log : List (DbInst × Course P)} (hran : Ran cfg hk s₀ log s) :
    ((charges log).Pairwise fun i j => Disjoint (Set.Ico i.1 i.2) (Set.Ico j.1 j.2)) ∧
      s.BP.cyclesOnWrongPath = ((charges log).map fun i => i.2 - i.1).sum ∧
      s.BP.cyclesOnWrongPath ≤ s.cycle := by
  have h := (Charged.new hnew).ran hran
  refine ⟨h.ordered.imp ?_, h.total, h.simulated⟩
  intro i j hij
  rw [Set.Ico_disjoint_Ico]
  exact (min_le_left _ _).trans (hij.trans (le_max_right _ _))

/-- A branch that is taken unexpectedly is charged. -/
theorem wrongPath_le_cycle_farBranch :
    ∃ (s₀ s : Uarchsim Unit) (log : List (DbInst × Course Unit)),
      Uarchsim.new ⟨fun _ => ⟨0, 0, 0⟩, 0⟩ {} () = .ok s₀ ∧ Ran {} idlePredictors s₀ log s ∧
      (charges log).length = 1 ∧
      s.BP.cyclesOnWrongPath = ((charges log).map fun i => i.2 - i.1).sum ∧
      s.BP.cyclesOnWrongPath ≤ s.cycle := by
  obtain ⟨⟨s₀, c, s⟩, h, hcharged⟩ := exists_of_observe (show ((do
      let s₀ ← lift (new ⟨fun _ => ⟨0, 0, 0⟩, 0⟩ {} ())
      let (c, s) ← s₀.course {} idlePredictors farBranch
      .ok (s₀, c, s) : Except (Stop Empty) _).toOption.map fun x => x.2.1.charged.isSome) =
        some true by
    decide +kernel)
  obtain ⟨s₀', hnew, h⟩ := bind_eq_ok.mp h
  obtain ⟨⟨c', s'⟩, hc, h⟩ := bind_eq_ok.mp h
  cases h
  have hran := Ran.snoc Ran.nil (course_eq_ok hc)
  obtain ⟨-, hsum, hle⟩ := wrongPath_le_cycle (lift_eq_ok.mp hnew) hran
  refine ⟨s₀, s, _, lift_eq_ok.mp hnew, hran, ?_, hsum, hle⟩
  obtain ⟨i, hi⟩ := Option.isSome_iff_exists.mp hcharged
  rw [charges_concat, hi]
  rfl

/-- The member counts from the value that the constructor left. -/
theorem cyclesOnWrongPath_ran (hnew : Uarchsim.new u cfg p = .ok s₀)
    {log : List (DbInst × Course P)} (hran : Ran cfg hk s₀ log s) :
    s.cyclesOnWrongPath = u.cyclesOnWrongPath + s.BP.cyclesOnWrongPath := by
  have h₀ := Charged.new hnew
  induction hran with
  | nil =>
    rw [(new_opened hnew).cyclesOnWrongPath, h₀.total]
    rfl
  | snoc hran hc ih =>
    obtain ⟨hmember, hsum, -⟩ := hc.charges
    rw [hmember, ih, (hsum (h₀.ran hran).epochs).2, Nat.add_assoc]

/-- **The two totals agree if the constructor left a zero**, after any run. -/
theorem cyclesOnWrongPath_eq_iff {insts : List DbInst} (hrun : simulate u cfg hk p insts = .ok s) :
    s.cyclesOnWrongPath = s.BP.cyclesOnWrongPath ↔ u.cyclesOnWrongPath = 0 := by
  obtain ⟨s₀, hnew, log, hran, -⟩ := simulate_eq_ok.mp hrun
  rw [cyclesOnWrongPath_ran hnew hran]
  omega

theorem cyclesOnWrongPath_eq_zero :
    ∃ s, simulate ⟨fun _ => ⟨0, 0, 0⟩, 0⟩ {} idlePredictors () [farBranch] = .ok s ∧
      s.cyclesOnWrongPath = s.BP.cyclesOnWrongPath := by
  obtain ⟨s, hs⟩ := exists_of_isOk (show (simulate ⟨fun _ => ⟨0, 0, 0⟩, 0⟩ {} idlePredictors ()
    [farBranch]).isOk = true by decide +kernel)
  exact ⟨s, hs, (cyclesOnWrongPath_eq_iff hs).mpr rfl⟩

/-- With any other value left behind they differ. -/
theorem cyclesOnWrongPath_ne_unset :
    ∃ s, simulate ⟨fun _ => ⟨0, 0, 0⟩, 7⟩ {} idlePredictors () [farBranch] = .ok s ∧
      s.cyclesOnWrongPath ≠ s.BP.cyclesOnWrongPath := by
  obtain ⟨s, hs⟩ := exists_of_isOk (show (simulate ⟨fun _ => ⟨0, 0, 0⟩, 7⟩ {} idlePredictors ()
    [farBranch]).isOk = true by decide +kernel)
  obtain ⟨s₀, hnew, log, hran, -⟩ := simulate_eq_ok.mp hs
  have htotal := cyclesOnWrongPath_ran hnew hran
  refine ⟨s, hs, ?_⟩
  dsimp only at htotal
  omega

end Run

end CbpSim.Core
