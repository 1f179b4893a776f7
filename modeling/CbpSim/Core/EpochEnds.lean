/-
  Core/EpochEnds.lean --- when an epoch may end.

  Source: src/lib/uarchsim.cc, the assertion of `end_current_begin_new_epoch`, its call
  at the end of `step` and the one in `output`.

  An epoch ends in the cycle in which its last instruction was fetched, and the assertion
  asks for a later cycle than that of the epoch before.  It fails when a fetch cycle
  delivers the ends of two epochs.  `EpochsApart` is a condition on the options and the
  trace under which none does: the pieces between two ends are too many for one cycle, or
  one of them ends its bundle or is the first of its block.  The end of the run is always
  later.
-/
import CbpSim.Core.WrongPath
import CbpSim.Core.FetchLimits
import CbpSim.Core.Upkeep
import CbpSim.Core.CacheTraffic
import CbpSim.Memory.Fills

set_option autoImplicit false

namespace CbpSim.Core

open CbpSim.Foundation CbpSim.Lanes CbpSim.Memory

variable {P H : Type}

/-! ## Epochs apart -/

/-- The pieces fill a fetch bundle with instructions or with branches, or one of them ends
it. -/
def FillsBundle (cfg : Config) (pieces : List DbInst) : Prop :=
  0 < cfg.fetchWidth ∧ cfg.fetchWidth ≤ instructions pieces ∨
    0 < cfg.fetchNumBranch ∧ cfg.fetchNumBranch ≤ pieces.countP (·.insnClass.isBr) ∨
    ∃ inst ∈ pieces, endsBundle cfg inst = true

/-- No fetch cycle delivers these pieces and another one after them: they fill a bundle, or
the window. -/
def Overfill (cfg : Config) (pieces : List DbInst) : Prop :=
  FillsBundle cfg pieces ∨ cfg.windowSize ≤ pieces.length

/-- The block of the instruction cache that the instruction is fetched from. -/
def icBlock (cfg : Config) (inst : DbInst) : Nat := inst.pc / cfg.icBlocksize % 2 ^ 64

/-- One of the pieces is fetched from a block that none of those before them is in, and
the instruction cache, where it is modelled, has to wait for it. -/
def ReachesBlock (cfg : Config) (before pieces : List DbInst) : Prop :=
  cfg.fetchModelIcache = true ∧ 0 < cfg.l2Latency ∧
    ∃ inst ∈ pieces, ∀ earlier ∈ before, icBlock cfg earlier ≠ icBlock cfg inst

/-- **Every epoch of the trace is over a fetch cycle.**  The pieces up to its last one,
with the piece that ended the epoch before, do not fit into a cycle, or the epoch reaches
a new block. -/
def EpochsApart (cfg : Config) (insts : List DbInst) : Prop :=
  ∀ front epoch back, epochs cfg.epochSizeInsts insts = front ++ epoch :: back → back ≠ [] →
    Overfill cfg (front.flatten.getLast?.toList ++ epoch.dropLast) ∨
      ReachesBlock cfg front.flatten epoch

namespace Uarchsim

/-- The instruction completes the epoch. -/
def completesEpoch (cfg : Config) (s : Uarchsim P) (inst : DbInst) : Bool :=
  (updateBack (· + inst.isLastPiece.toNat) s.numInstsPerEpoch).getLast? == some cfg.epochSizeInsts

end Uarchsim

/-! ## The calls of `end_current_begin_new_epoch` -/

/-- The step on `inst` ends the epoch. -/
structure Course.EndsEpoch (cfg : Config) (hk : Hooks P H) (s : Uarchsim P) (inst : DbInst)
    (c : Course P) : Prop extends Course.Leads cfg hk s inst c where
  predicted : c.managed.predictBranch cfg hk inst c.before.numUop c.before.fetchCycle
    c.timing.execCycle = .ok (c.misp, c.predicted)
  told : c.predicted.updatePredTaken inst c.misp = .ok c.told
  lanes : ∃ ldst alu,
    c.told.res.ldstLanes.advanceBaseCycle (c.told.res.nextBase c.told.fetchCycle) = .ok ldst ∧
      c.told.res.aluLanes.advanceBaseCycle (c.told.res.nextBase c.told.fetchCycle) = .ok alu
  completes : s.completesEpoch cfg inst = true

section Calls

variable {cfg : Config} {hk : Hooks P H} {s s' : Uarchsim P} {inst : DbInst} {c : Course P}

open Uarchsim

/-- The accounts of the epoch, up to the end of the step. -/
theorem Course.Leads.accounts (h : Course.Leads cfg hk s inst c)
    (hpredicted : c.managed.predictBranch cfg hk inst c.before.numUop c.before.fetchCycle
      c.timing.execCycle = .ok (c.misp, c.predicted))
    (htold : c.predicted.updatePredTaken inst c.misp = .ok c.told) :
    c.told.numInstsPerEpoch = s.numInstsPerEpoch ∧
      c.told.lastEpochEndCycle = s.lastEpochEndCycle := by
  have hbooks := h.books_managed.1
  simp only [books, Prod.mk.injEq] at hbooks
  obtain ⟨-, hinsts, -, hlast⟩ := hbooks
  obtain ⟨-, -, hooks, hpredicted⟩ := predictBranch_frame hpredicted
  obtain ⟨window, htold, -⟩ := updatePredTaken_eq_ok htold
  rw [htold, hpredicted]
  exact ⟨hinsts, hlast⟩

/-- An epoch ends at the fetch of its last instruction, and the next one is empty. -/
theorem Course.Of.epoch (h : Course.Of cfg hk s inst c s') :
    s'.lastEpochEndCycle =
        (if s.completesEpoch cfg inst then c.before.fetchCycle else s.lastEpochEndCycle) ∧
      s'.numInstsPerEpoch = updateBack (· + inst.isLastPiece.toNat) s.numInstsPerEpoch ++
        if s.completesEpoch cfg inst then [0] else [] := by
  obtain ⟨hinsts, hlast⟩ := h.accounts h.predicted h.told
  obtain ⟨ldst, alu, hended⟩ := endStep_eq_ok h.ended
  dsimp only at hended
  rw [hinsts] at hended
  rw [h.last]
  dsimp only
  split at hended
  · rename_i hends
    have hcompletes : s.completesEpoch cfg inst = true := beq_iff_eq.mpr hends
    rw [hended.2, if_pos hcompletes, if_pos hcompletes]
    exact ⟨rfl, rfl⟩
  · rename_i hnot
    have hcompletes : ¬ s.completesEpoch cfg inst = true := fun h => hnot (beq_iff_eq.mp h)
    rw [hended, if_neg hcompletes, if_neg hcompletes]
    exact ⟨hlast, (List.append_nil _).symm⟩

end Calls

/-! ## The asserts of the other parts -/

section Parts

variable {cfg : Config} {hk : Hooks P H}

/-- A part of a step before its end does not stop there. -/
theorem Ends.elsewhere {α : Type} {x : Except (Stop H) α} {Q : α → Prop} {X : Prop}
    (h : Ends x (Admits (BeforeEnd fun _ => True)) Q) :
    Ends x (fun e => e = .abort .epochEndCycle → X) fun a => x = .ok a := by
  apply h.returns.mono
  · rintro e he rfl
    exact absurd rfl he.2
  · exact fun _ ha => ha

/-- No assert is excluded and nothing is kept. -/
theorem keeps_any (cfg : Config) (inst : DbInst) :
    Keeps cfg inst (fun _ => True) fun _ _ => True :=
  keeps_of_ofResources cfg inst (fun _ _ => trivial) fun _ _ => trivial

theorem directed_any (cfg : Config) (inst : DbInst) : Directed cfg inst fun _ => True where
  uncond := Or.inr trivial
  taken := Or.inr trivial

/-- The step on `inst` comes to its end, which stops at the assertion. -/
structure Course.Late (cfg : Config) (hk : Hooks P H) (s : Uarchsim P) (inst : DbInst)
    (c : Course P) : Prop extends Course.Leads cfg hk s inst c where
  predicted : c.managed.predictBranch cfg hk inst c.before.numUop c.before.fetchCycle
    c.timing.execCycle = .ok (c.misp, c.predicted)
  told : c.predicted.updatePredTaken inst c.misp = .ok c.told
  late : c.told.endStep cfg inst c.before.fetchCycle = .error .epochEndCycle

namespace Uarchsim

/-- The end of a step stops at the assertion when it ends an epoch too early. -/
theorem endStep_epochEnd_iff (s : Uarchsim P) (inst : DbInst) (predictCycle : Nat) :
    s.endStep cfg inst predictCycle = .error .epochEndCycle ↔
      (∃ ldst alu,
        s.res.ldstLanes.advanceBaseCycle (s.res.nextBase s.fetchCycle) = .ok ldst ∧
          s.res.aluLanes.advanceBaseCycle (s.res.nextBase s.fetchCycle) = .ok alu) ∧
        s.completesEpoch cfg inst = true ∧ ¬ s.lastEpochEndCycle < predictCycle := by
  have lanes : ∀ (lanes : ResourceSchedule) (newBase : Nat),
      lanes.advanceBaseCycle newBase ≠ .error .epochEndCycle := by
    intro lanes newBase heq
    exact absurd ((advanceBaseCycle_stops lanes newBase).of_error heq).1 (by decide)
  unfold endStep
  constructor
  · intro h
    rcases bind_eq_error.mp h with h | ⟨ldst, hldst, h⟩
    · exact absurd h (lanes _ _)
    · rcases bind_eq_error.mp h with h | ⟨alu, halu, h⟩
      · exact absurd h (lanes _ _)
      · refine ⟨⟨ldst, alu, hldst, halu⟩, ?_⟩
        dsimp only at h
        split at h
        · rename_i hends
          refine ⟨beq_iff_eq.mpr hends, fun hlt => ?_⟩
          unfold endCurrentBeginNewEpoch at h
          rw [if_neg Bool.false_ne_true, if_pos hlt] at h
          cases h
        · cases h
  · rintro ⟨⟨ldst, alu, hldst, halu⟩, hcompletes, hnot⟩
    refine bind_eq_error.mpr (Or.inr ⟨ldst, hldst, ?_⟩)
    refine bind_eq_error.mpr (Or.inr ⟨alu, halu, ?_⟩)
    dsimp only
    rw [if_pos (beq_iff_eq.mp hcompletes)]
    unfold endCurrentBeginNewEpoch
    rw [if_neg Bool.false_ne_true, if_neg hnot]
    rfl

/-- A step that stops at the assertion has come to its end. -/
theorem step_ends_late (s : Uarchsim P) (inst : DbInst) :
    Ends (s.step cfg hk inst)
      (fun e => e = .abort .epochEndCycle → ∃ c, Course.Late cfg hk s inst c)
      fun _ => True := by
  have keeps := keeps_any cfg inst
  have directed := directed_any cfg inst
  unfold step
  apply Ends.bind (Ends.elsewhere (beginStep_keeps keeps trivial))
  intro begun hbegun
  apply Ends.bind (Ends.elsewhere (fetchBlock_keeps keeps trivial))
  intro blocked hblocked
  apply Ends.bind (Ends.elsewhere (predictValue_keeps keeps trivial))
  rintro ⟨pred, predictable, before⟩ hbefore
  apply Ends.bind (Ends.elsewhere (ends_lift_admits (schedule_keeps keeps trivial)))
  rintro ⟨timing, scheduled⟩ hscheduled
  apply Ends.bind (Ends.elsewhere (ends_lift_admits
    (writeBack_keeps keeps trivial timing pred predictable)))
  rintro ⟨squash, written⟩ hwritten
  apply Ends.bind (Ends.elsewhere (dispatch_keeps keeps directed trivial before.numUop timing))
  intro dispatched hdispatched
  apply Ends.bind (Ends.elsewhere (ends_lift_admits
    (manageFetch_keeps keeps directed trivial squash)))
  intro managed hmanaged
  have hleads : Course.Leads cfg hk s inst
      { begun, blocked, before, scheduled, written, dispatched, managed, pred, predictable
        timing, squash, predicted := managed, told := managed, ended := managed
        misp := false } :=
    ⟨hbegun, hblocked, hbefore, lift_eq_ok.mp hscheduled, lift_eq_ok.mp hwritten, hdispatched,
      lift_eq_ok.mp hmanaged⟩
  apply Ends.bind (Ends.elsewhere (predictBranch_keeps keeps trivial before.numUop
    hleads.managed_eq.1))
  rintro ⟨misp, predicted⟩ hpredicted
  apply Ends.bind (Ends.elsewhere (ends_lift_admits
    (updatePredTaken_keeps (I := fun _ _ => True) directed trivial misp)))
  intro told htold
  refine Ends.bind (Q := fun _ => True) ?_ fun _ _ => trivial
  apply ends_mapError.mpr
  cases hended : told.endStep cfg inst before.fetchCycle with
  | ok ended => trivial
  | error e =>
    intro heq
    obtain rfl : e = .epochEndCycle := Stop.abort.inj heq
    let c : Course P :=
      { begun, blocked, before, scheduled, written, dispatched, managed, predicted, told
        ended := told, pred, predictable, timing, squash, misp }
    exact ⟨c, ⟨hbegun, hblocked, hbefore, lift_eq_ok.mp hscheduled, lift_eq_ok.mp hwritten,
      hdispatched, lift_eq_ok.mp hmanaged⟩, hpredicted, lift_eq_ok.mp htold, hended⟩

/-- A step that comes to such an end stops there. -/
theorem step_of_late {s : Uarchsim P} {inst : DbInst} {c : Course P}
    (h : Course.Late cfg hk s inst c) :
    s.step cfg hk inst = .error (.abort .epochEndCycle) := by
  unfold step
  rw [h.begun, ok_bind, h.blocked, ok_bind, h.before, ok_bind]
  dsimp only
  rw [lift_eq_ok.mpr h.scheduled, ok_bind]
  dsimp only
  rw [lift_eq_ok.mpr h.written, ok_bind]
  dsimp only
  rw [h.dispatched, ok_bind, lift_eq_ok.mpr h.managed, ok_bind, h.predicted, ok_bind]
  dsimp only
  rw [lift_eq_ok.mpr h.told, ok_bind, h.late]
  rfl

/-- **Where a step stops at the assertion.** -/
theorem step_epochEnd_iff (s : Uarchsim P) (inst : DbInst) :
    s.step cfg hk inst = .error (.abort .epochEndCycle) ↔
      ∃ c, Course.EndsEpoch cfg hk s inst c ∧
        ¬ c.told.lastEpochEndCycle < c.before.fetchCycle := by
  have told : ∀ c : Course P, c.told.numInstsPerEpoch = s.numInstsPerEpoch →
      c.told.completesEpoch cfg inst = s.completesEpoch cfg inst := by
    intro c hinsts
    unfold completesEpoch
    rw [hinsts]
  constructor
  · intro herror
    obtain ⟨c, h⟩ := (step_ends_late s inst).of_error herror rfl
    obtain ⟨hlanes, hcompletes, hnot⟩ := (endStep_epochEnd_iff _ _ _).mp h.late
    rw [told c (h.accounts h.predicted h.told).1] at hcompletes
    exact ⟨c, { h.toLeads with
      predicted := h.predicted, told := h.told, lanes := hlanes, completes := hcompletes }, hnot⟩
  · rintro ⟨c, h, hnot⟩
    have hcompletes := h.completes
    rw [← told c (h.accounts h.predicted h.told).1] at hcompletes
    have hlate := (endStep_epochEnd_iff _ _ _).mpr ⟨h.lanes, hcompletes, hnot⟩
    exact step_of_late { h.toLeads with
      predicted := h.predicted, told := h.told, late := hlate }

end Uarchsim

end Parts

/-! ## New blocks -/

section Blocks

variable {cfg : Config} {hk : Hooks P H} {s₀ s : Uarchsim P} {insts : List DbInst}
  {log : List (DbInst × Course P)}

open Uarchsim

/-- The instruction cache, which has no latency of its own, holds blocks of the pieces
only. -/
structure CodeCached (cfg : Config) (insts : List DbInst) (s : Uarchsim P) : Prop where
  filled : s.res.IC.FilledFrom (insts.map (·.pc))
  shape : ∃ u ic, Cache.new u cfg.icSize cfg.icAssoc cfg.icBlocksize 0 = .ok ic ∧
    s.res.IC.geometry = ic.geometry
  latency : s.res.hierarchy.latency .L2 = cfg.l2Latency

/-- `IC` is asked for the pieces of the trace. -/
theorem AccessesOf.askedIC_subset {h : Hierarchy} {accesses : List Accesses}
    (hs : AccessesOf cfg insts h accesses s) :
    Hierarchy.askedIC (accesses.flatMap Accesses.log) ⊆ insts.map (·.pc) := by
  rw [← hs.trace]
  have each := hs.each
  clear hs
  generalize s.fetched = fetched at each
  intro addr haddr
  obtain ⟨e, hfiltered, rfl⟩ := List.mem_map.mp haddr
  obtain ⟨he, hbeq⟩ := List.mem_filter.mp hfiltered
  have hlevel : e.1.level = .IC := beq_iff_eq.mp hbeq
  clear haddr hfiltered hbeq
  induction each with
  | nil => cases he
  | @cons x a _ _ ha _ ih =>
    rw [List.flatMap_cons] at he
    rcases List.mem_append.mp he with he | he
    · obtain ⟨cycle, hrequests⟩ := ha.requests
      have hmem : e.1 ∈ a.log.map (·.1) := List.mem_map_of_mem he
      rw [hrequests] at hmem
      have hother : ∀ r ∈ loadRequests cfg x.laneCycle x.inst ++ a.prefetches.map (·.1) ++
          storeRequests cfg x.execCycle x.inst, r.level = .L1 := by
        intro r hr
        simp only [List.mem_append] at hr
        rcases hr with (hr | hr) | hr
        · rw [List.mem_singleton.mp (List.mem_ite_nil_right.mp hr).2]
        · obtain ⟨e', he', rfl⟩ := List.mem_map.mp hr
          exact (ha.prefetches e' he').1
        · rw [List.mem_singleton.mp (List.mem_ite_nil_right.mp hr).2]
      rw [List.append_assoc, List.append_assoc, ← List.append_assoc (loadRequests _ _ _)] at hmem
      rcases List.mem_append.mp hmem with hmem | hmem
      · rw [List.mem_singleton.mp (List.mem_ite_nil_right.mp hmem).2]
        exact List.mem_cons_self
      · exact absurd (hlevel.symm.trans (hother _ hmem)) (by decide)
    · exact List.mem_cons_of_mem _ (ih he)

theorem CodeCached.ran {u : Unset} {p : P} (hnew : Uarchsim.new u cfg p = .ok s₀)
    (hran : Ran cfg hk s₀ log s) : CodeCached cfg (log.map (·.1)) s := by
  obtain ⟨accesses, hs⟩ := AccessesOf.ran hnew hran
  obtain ⟨L3, hL3, hcaches⟩ := bind_eq_ok.mp (new_hierarchy hnew).1
  obtain ⟨L2, hL2, hcaches⟩ := bind_eq_ok.mp hcaches
  obtain ⟨L1, hL1, hcaches⟩ := bind_eq_ok.mp hcaches
  obtain ⟨IC, hIC, hcaches⟩ := bind_eq_ok.mp hcaches
  obtain ⟨hlatency, hgeometry, hfills⟩ := hs.serves.fills []
  rw [← Except.ok.inj hcaches] at hlatency hgeometry hfills
  exact {
    filled := (hfills (Cache.new_filledFrom hIC)).mono hs.askedIC_subset
    shape := ⟨_, IC, hIC, hgeometry⟩
    latency := (congrFun hlatency .L2).trans ((cacheNew_stops _ _ _ _ _).of_ok hL2) }

/-- **A new block is waited for.** -/
theorem CodeCached.waits {inst : DbInst} {c : Course P} (hs : CodeCached cfg insts s)
    (h : Course.Leads cfg hk s inst c) (hmodel : cfg.fetchModelIcache = true)
    (hlatency : 0 < cfg.l2Latency)
    (hfresh : ∀ earlier ∈ insts, icBlock cfg earlier ≠ icBlock cfg inst) :
    s.fetchCycle < c.before.fetchCycle := by
  obtain ⟨-, _, _, -, hbegun⟩ := beginStep_eq_ok h.begun
  obtain ⟨_, _, -, -, hbefore⟩ := predictValue_eq_ok h.before
  have hblocked := h.blocked
  unfold fetchBlock at hblocked
  rw [if_pos hmodel] at hblocked
  obtain ⟨⟨next, res⟩, haccess, hblocked⟩ := bind_eq_ok.mp hblocked
  obtain ⟨-, hblocked⟩ := guard_eq_ok.mp hblocked
  obtain ⟨pipe, -, hblocked⟩ := bind_eq_ok.mp hblocked
  have hcycle : c.before.fetchCycle = next := by
    rw [hbefore, ← Except.ok.inj hblocked]
  have haccess := Resources.accessIC_hierarchy (lift_eq_ok.mp haccess)
  rw [hbegun] at haccess
  obtain ⟨u, ic, hic, hgeometry⟩ := hs.shape
  have hsets : ic.numSets ≠ 0 := by
    have hindexed := Hierarchy.access_indexed haccess
    rw [show (s.res.hierarchy .IC).numSets = ic.numSets from congrArg Prod.fst hgeometry] at hindexed
    omega
  obtain ⟨m, v, hmiss⟩ : ∃ m v, (s.res.hierarchy .IC).lookup inst.pc = .miss m v := by
    apply hs.filled.lookup_miss
    refine List.forall_mem_map.mpr fun earlier hearlier hsame => ?_
    rw [Cache.indexOf_congr hgeometry, Cache.indexOf_congr hgeometry, Cache.tagOf_congr hgeometry,
      Cache.tagOf_congr hgeometry] at hsame
    exact hfresh earlier hearlier (Cache.new_sameBlock hic hsets hsame.1 hsame.2)
  have hwaits := Hierarchy.access_waits haccess hmiss
  rw [hs.latency] at hwaits
  rw [hcycle]
  dsimp only at hwaits
  omega

end Blocks

/-! ## The run -/

/-- The last epoch end, while the simulator runs: the epochs `done` have ended, and
`current` are the pieces since. -/
structure EpochsKept (cfg : Config) (done : List (List DbInst)) (current : List DbInst)
    (s : Uarchsim P) : Prop where
  limits : LimitsKept cfg s
  counted : s.numInstsPerEpoch.getLast? = some (instructions current)
  fetched : s.lastEpochEndCycle ≤ s.fetchCycle
  simulated : s.fetched ≠ [] → s.lastEpochEndCycle < s.cycle
  since : ∃ front back, s.fetched = front ++ back ∧
    back.map (·.inst) = done.flatten.getLast?.toList ++ current ∧
    ∀ x ∈ back, s.lastEpochEndCycle ≤ x.fetchCycle
  retires : ∀ x ∈ s.fetched, x.fetchCycle < x.retireCycle
  previous : ∀ x ∈ s.fetched.getLast?, x.fetchCycle = s.previousFetchCycle
  reached : ReachesBlock cfg done.flatten current → s.lastEpochEndCycle < s.fetchCycle

theorem getLast?_updateBack {α : Type} (f : α → α) (xs : List α) :
    (updateBack f xs).getLast? = xs.getLast?.map f := by
  induction xs using List.reverseRecOn with
  | nil => rfl
  | append_singleton xs x _ => simp

section Run

variable {cfg : Config} {hk : Hooks P H} {s₀ s s' : Uarchsim P} {inst : DbInst} {c : Course P}
  {done : List (List DbInst)} {current insts : List DbInst} {log : List (DbInst × Course P)}

open Uarchsim

/-- What is remembered of the instructions grows by one that retires after its fetch. -/
theorem Course.Of.remembers (h : Course.Of cfg hk s inst c s') :
    s'.fetched = s.fetched ++ [c.fetched cfg inst] ∧
      (c.fetched cfg inst).fetchCycle = c.before.fetchCycle ∧
      (c.fetched cfg inst).fetchCycle < (c.fetched cfg inst).retireCycle ∧
      s'.previousFetchCycle = c.before.fetchCycle := by
  obtain ⟨-, hlast⟩ := h.last_eq
  obtain ⟨-, hbefore⟩ := h.before_eq
  obtain ⟨hlater, -, hmanaged⟩ := h.managed_eq
  obtain ⟨w, hwindow, hretire⟩ := dispatch_window h.dispatched
  have hback : c.dispatched.pipe.backRetire = w.retireCycle := by
    rw [Pipeline.backRetire, hwindow, List.getLast?_concat]
    rfl
  refine ⟨by rw [hlast, hbefore], rfl, ?_, by rw [hlast, hmanaged]⟩
  change c.before.fetchCycle < c.dispatched.pipe.backRetire
  rw [hback, hretire]
  exact hlater.trans_le (le_max_left _ _)

theorem EpochsKept.new {u : Unset} {p : P} (h : Uarchsim.new u cfg p = .ok s₀) :
    EpochsKept cfg [] [] s₀ := by
  have opened := new_opened h
  have initial := (new_ends u cfg p).of_ok h
  exact {
    limits := .initial initial
    counted := by rw [opened.numInstsPerEpoch]; rfl
    fetched := by rw [opened.lastEpochEndCycle]; exact Nat.zero_le _
    simulated := fun hne => absurd initial.fetched hne
    since := ⟨[], [], initial.fetched, rfl, by simp⟩
    retires := by simp [initial.fetched]
    previous := by simp [initial.fetched]
    reached := by
      rintro ⟨-, -, inst, hinst, -⟩
      cases hinst }

/-- As many pieces as the window holds were not all fetched in the current cycle: the window
would be full of them, and fetching waits for a full window. -/
theorem EpochsKept.not_all_of_windowSize_le (h : EpochsKept cfg done current s)
    {front back : List (Fetched P)} (hsplit : s.fetched = front ++ back)
    (hle : cfg.windowSize ≤ back.length) : ¬ ∀ x ∈ back, x.fetchCycle = s.fetchCycle := by
  intro hnow
  have hlast : ∀ y rest, back = rest ++ [y] → y.fetchCycle = s.previousFetchCycle := by
    rintro y rest rfl
    exact h.previous y (by rw [hsplit, ← List.append_assoc, List.getLast?_concat]; rfl)
  have hunretired : back.filter (unretired s.pipe.evaluated) = back := by
    rw [List.filter_eq_self]
    intro x hx
    have hretires := h.retires x (hsplit ▸ List.mem_append_right _ hx)
    have hx' : x.fetchCycle = s.previousFetchCycle := by
      obtain ⟨rest, y, rfl⟩ := (List.eq_nil_or_concat' _).resolve_left (List.ne_nil_of_mem hx)
      rw [hnow x hx, ← hnow y (by simp), hlast y rest rfl]
    apply decide_eq_true
    rcases h.limits.caughtUp with hev | ⟨hev, -⟩
    · omega
    · omega
  have hlength : back.length ≤ s.pipe.window.length := by
    rw [h.limits.inWindow.length_eq, hsplit, List.filter_append, hunretired, List.length_append]
    exact Nat.le_add_left _ _
  have hfull := le_antisymm h.limits.room (hle.trans hlength)
  obtain ⟨hmoved, f, hf, -⟩ := h.limits.full hfull
  have hne : back ≠ [] := by
    rintro rfl
    have hzero : s.pipe.window.length = 0 := by
      rw [hfull]
      exact Nat.le_zero.mp hle
    rw [List.length_eq_zero_iff.mp hzero] at hf
    cases hf
  obtain ⟨rest, y, rfl⟩ := (List.eq_nil_or_concat' _).resolve_left hne
  have hy := hlast y rest rfl
  rw [hnow y (by simp)] at hy
  exact absurd hy hmoved.ne'

/-- **Too many pieces for one cycle** move fetching on. -/
theorem EpochsKept.lt_of_overfill (h : EpochsKept cfg done current s)
    (hfull : Overfill cfg (done.flatten.getLast?.toList ++ current)) :
    s.lastEpochEndCycle < s.fetchCycle := by
  by_contra hnot
  have hsame : s.lastEpochEndCycle = s.fetchCycle := le_antisymm h.fetched (not_lt.mp hnot)
  obtain ⟨front, back, hsplit, hback, hsince⟩ := h.since
  have hmem : ∀ x ∈ back, x ∈ s.fetched := fun x hx => hsplit ▸ List.mem_append_right _ hx
  -- all of them were fetched in the current cycle
  have hnow : ∀ x ∈ back, x.fetchCycle = s.fetchCycle := fun x hx =>
    le_antisymm (h.limits.fetchedBy x (hmem x hx)) (hsame ▸ hsince x hx)
  have hcount : ∀ kind : DbInst → Bool,
      (back.map (·.inst)).countP kind ≤ countAt kind s.fetched s.fetchCycle := by
    intro kind
    have hall : back.countP (fun x => kind x.inst) =
        back.countP fun x => kind x.inst && x.fetchCycle == s.fetchCycle := by
      refine List.countP_congr fun x hx => ?_
      rw [hnow x hx, beq_self_eq_true, Bool.and_true]
    rw [List.countP_map, countAt, hsplit, List.countP_append]
    exact hall.le.trans (Nat.le_add_left _ _)
  rw [← hback] at hfull
  rcases hfull with (⟨hpos, hle⟩ | ⟨hpos, hle⟩ | ⟨inst, hinst, hends⟩) | hle
  · have hcurrent := (h.limits.width hpos).current
    have hroom := (h.limits.width hpos).room
    exact absurd (hle.trans ((hcount _).trans hcurrent)) (not_le.mpr hroom)
  · have hcurrent := (h.limits.branches hpos).current
    have hroom := (h.limits.branches hpos).room
    exact absurd (hle.trans ((hcount _).trans hcurrent)) (not_le.mpr hroom)
  · obtain ⟨x, hx, rfl⟩ := List.mem_map.mp hinst
    exact absurd (hnow x hx) (h.limits.stopped x (hmem x hx) hends).ne
  · rw [List.length_map] at hle
    exact absurd hnow (h.not_all_of_windowSize_le hsplit hle)

/-- **A block that the epoch reaches** moves fetching on. -/
theorem EpochsKept.lt_of_reaches (h : EpochsKept cfg done current s)
    (hcached : CodeCached cfg (done.flatten ++ current) s) (hc : Course.Leads cfg hk s inst c)
    (hreaches : ReachesBlock cfg done.flatten (current ++ [inst])) :
    s.lastEpochEndCycle < c.before.fetchCycle := by
  obtain ⟨hmodel, hlatency, piece, hpiece, hfresh⟩ := hreaches
  by_cases hcurrent : ReachesBlock cfg done.flatten current
  · exact (h.reached hcurrent).trans_le hc.fetchCycle.1
  · -- then the instruction is the first of its block
    have hfirst : ∀ earlier ∈ done.flatten ++ current, icBlock cfg earlier ≠ icBlock cfg inst := by
      rcases List.mem_append.mp hpiece with hpiece | hpiece
      · exact absurd ⟨hmodel, hlatency, piece, hpiece, hfresh⟩ hcurrent
      · obtain rfl := List.mem_singleton.mp hpiece
        refine List.forall_mem_append.mpr ⟨hfresh, fun earlier hearlier hsame => ?_⟩
        exact hcurrent ⟨hmodel, hlatency, earlier, hearlier, hsame ▸ hfresh⟩
    exact h.fetched.trans_lt (hcached.waits hc hmodel hlatency hfirst)

theorem EpochsKept.completes (h : EpochsKept cfg done current s) (inst : DbInst) :
    s.completesEpoch cfg inst = true ↔
      instructions (current ++ [inst]) = cfg.epochSizeInsts := by
  unfold completesEpoch
  rw [getLast?_updateBack, h.counted, Option.map_some, instructions_concat, beq_iff_eq,
    Option.some_inj]

theorem Course.Of.le_fetchCycle (h : Course.Of cfg hk s inst c s') :
    c.before.fetchCycle ≤ s'.fetchCycle := by
  have hmanaged := h.toLeads.fetchCycle.2.1
  have hafter := h.after.2.2.2.1
  omega

theorem Course.Of.lt_cycle (h : Course.Of cfg hk s inst c s') : c.before.fetchCycle < s'.cycle := by
  obtain ⟨-, -, hexec, -⟩ := h.fetchCycle
  obtain ⟨-, -, -, hend, -⟩ := h.charges
  rw [hend, h.frame.2]
  exact hexec.trans_le (le_max_right _ _)

theorem EpochsKept.retires_step (hs : EpochsKept cfg done current s)
    (h : Course.Of cfg hk s inst c s') : ∀ x ∈ s'.fetched, x.fetchCycle < x.retireCycle := by
  obtain ⟨hfetched, -, hretires, -⟩ := h.remembers
  rw [hfetched]
  exact List.forall_mem_append.mpr ⟨hs.retires, List.forall_mem_singleton.mpr hretires⟩

theorem Course.Of.previous (h : Course.Of cfg hk s inst c s') :
    ∀ x ∈ s'.fetched.getLast?, x.fetchCycle = s'.previousFetchCycle := by
  obtain ⟨hfetched, hcycle, -, hprevious⟩ := h.remembers
  rw [hfetched, List.getLast?_concat, hprevious]
  rintro x ⟨⟩
  exact hcycle

/-- A step that ends the epoch. -/
theorem EpochsKept.ends (hs : EpochsKept cfg done current s) (h : Course.Of cfg hk s inst c s')
    (hends : instructions (current ++ [inst]) = cfg.epochSizeInsts) :
    EpochsKept cfg (done ++ [current ++ [inst]]) [] s' := by
  obtain ⟨hfetched, hcycle, -, -⟩ := h.remembers
  obtain ⟨hlast, hinsts⟩ := h.epoch
  have hcompletes := (hs.completes inst).mpr hends
  rw [if_pos hcompletes] at hlast hinsts
  exact {
    limits := (limitsKept_step cfg hk hs.limits inst).of_ok (step_eq_ok.mpr ⟨c, h⟩)
    counted := by rw [hinsts, List.getLast?_concat]; rfl
    fetched := hlast ▸ h.le_fetchCycle
    simulated := fun _ => hlast ▸ h.lt_cycle
    since := by
      refine ⟨s.fetched, [c.fetched cfg inst], hfetched, ?_, ?_⟩
      · simp [Course.fetched, Uarchsim.record]
      · rw [hlast]
        exact List.forall_mem_singleton.mpr hcycle.ge
    retires := hs.retires_step h
    previous := h.previous
    reached := by
      rintro ⟨-, -, _, hinst, -⟩
      cases hinst }

/-- A step that goes on with the epoch. -/
theorem EpochsKept.goesOn (hs : EpochsKept cfg done current s)
    (hcached : CodeCached cfg (done.flatten ++ current) s) (h : Course.Of cfg hk s inst c s')
    (hgoes : instructions (current ++ [inst]) ≠ cfg.epochSizeInsts) :
    EpochsKept cfg done (current ++ [inst]) s' := by
  obtain ⟨hfetched, hcycle, -, -⟩ := h.remembers
  obtain ⟨hforward, -, -, -⟩ := h.fetchCycle
  obtain ⟨hlast, hinsts⟩ := h.epoch
  obtain ⟨front, back, hsplit, hback, hsince⟩ := hs.since
  have hcompletes : ¬ s.completesEpoch cfg inst = true := (hs.completes inst).not.mpr hgoes
  rw [if_neg hcompletes] at hlast hinsts
  have hbefore : s.lastEpochEndCycle ≤ c.before.fetchCycle := hs.fetched.trans hforward
  exact {
    limits := (limitsKept_step cfg hk hs.limits inst).of_ok (step_eq_ok.mpr ⟨c, h⟩)
    counted := by
      rw [hinsts, List.append_nil, getLast?_updateBack, hs.counted, instructions_concat]
      rfl
    fetched := hlast ▸ hbefore.trans h.le_fetchCycle
    simulated := fun _ => hlast ▸ hbefore.trans_lt h.lt_cycle
    since := by
      refine ⟨front, back ++ [c.fetched cfg inst], ?_, ?_, ?_⟩
      · rw [hfetched, hsplit, List.append_assoc]
      · rw [List.map_append, hback, List.append_assoc]
        rfl
      · rw [hlast]
        exact List.forall_mem_append.mpr ⟨hsince, List.forall_mem_singleton.mpr
          (hcycle ▸ hbefore)⟩
    retires := hs.retires_step h
    previous := h.previous
    reached := fun hreaches =>
      hlast ▸ (hs.lt_of_reaches hcached h.toLeads hreaches).trans_le h.le_fetchCycle }

/-- The blocks at the end of a run. -/
theorem CodeCached.ended {u : Unset} {p : P} (hnew : Uarchsim.new u cfg p = .ok s₀)
    (hran : Ran cfg hk s₀ log s)
    (hepochs : epochs cfg.epochSizeInsts (log.map (·.1)) = done ++ [current]) :
    CodeCached cfg (done.flatten ++ current) s := by
  have hflatten := flatten_epochs cfg.epochSizeInsts (log.map (·.1))
  rw [hepochs, List.flatten_append, List.flatten_singleton] at hflatten
  rw [hflatten]
  exact .ran hnew hran

/-- A run keeps the epochs of the trace. -/
theorem EpochsKept.ran {u : Unset} {p : P} (hnew : Uarchsim.new u cfg p = .ok s₀)
    (hran : Ran cfg hk s₀ log s) :
    ∃ done current, epochs cfg.epochSizeInsts (log.map (·.1)) = done ++ [current] ∧
      EpochsKept cfg done current s := by
  induction hran with
  | nil => exact ⟨[], [], rfl, .new hnew⟩
  | @snoc log s s' inst c hran hc ih =>
    obtain ⟨done, current, hepochs, hs⟩ := ih
    have hnext := epochs_concat_of_eq hepochs inst
    rw [List.map_append, List.map_singleton]
    by_cases hends : instructions (current ++ [inst]) = cfg.epochSizeInsts
    · rw [if_pos hends] at hnext
      exact ⟨_, _, hnext, hs.ends hc hends⟩
    · rw [if_neg hends] at hnext
      exact ⟨_, _, hnext, hs.goesOn (.ended hnew hran hepochs) hc hends⟩

/-- **Where epochs are apart** the assertion holds at the end of each of them. -/
theorem Course.EndsEpoch.asserted (h : Course.EndsEpoch cfg hk s inst c)
    (hs : EpochsKept cfg done current s) (hcached : CodeCached cfg (done.flatten ++ current) s)
    (hover : Overfill cfg (done.flatten.getLast?.toList ++ current) ∨
      ReachesBlock cfg done.flatten (current ++ [inst])) :
    c.told.lastEpochEndCycle < c.before.fetchCycle := by
  rw [(h.accounts h.predicted h.told).2]
  rcases hover with hfull | hreaches
  · exact (hs.lt_of_overfill hfull).trans_le h.toLeads.fetchCycle.1
  · exact hs.lt_of_reaches hcached h.toLeads hreaches

/-- No step of a run stops at the assertion. -/
theorem step_ne_epochEndCycle {u : Unset} {p : P} {back : List DbInst}
    (hnew : Uarchsim.new u cfg p = .ok s₀) (hran : Ran cfg hk s₀ log s)
    (hapart : EpochsApart cfg (log.map (·.1) ++ inst :: back)) :
    s.step cfg hk inst ≠ .error (.abort .epochEndCycle) := by
  intro hstep
  obtain ⟨c, hc, hnot⟩ := (step_epochEnd_iff s inst).mp hstep
  obtain ⟨done, current, hepochs, hs⟩ := EpochsKept.ran hnew hran
  have hends := (hs.completes inst).mp hc.completes
  -- the epoch ends with the instruction
  have hended := epochs_concat_of_eq hepochs inst
  rw [if_pos hends] at hended
  obtain ⟨rest, hrest, hwhole⟩ := epochs_append hended back
  rw [List.append_assoc, List.singleton_append, List.append_assoc, List.singleton_append] at hwhole
  have hover := hapart done (current ++ [inst]) rest hwhole hrest
  rw [List.dropLast_concat] at hover
  exact hnot (hc.asserted hs (.ended hnew hran hepochs) hover)

/-- The assertion holds when `output` ends the last epoch. -/
theorem output_isOk {u : Unset} {p : P} (hnew : Uarchsim.new u cfg p = .ok s₀)
    (hran : Ran cfg hk s₀ log s) (hne : log ≠ []) : s.output.isOk = true := by
  obtain ⟨done, current, -, hs⟩ := EpochsKept.ran hnew hran
  obtain ⟨accesses, haccesses⟩ := AccessesOf.ran hnew hran
  have hlt := hs.simulated fun hnil => hne (by
    have htrace := haccesses.trace
    rw [hnil] at htrace
    exact List.map_eq_nil_iff.mp htrace.symm)
  unfold Uarchsim.output endCurrentBeginNewEpoch
  rw [if_neg Bool.false_ne_true, if_pos hlt]
  rfl

/-- **The assertion about the ends of epochs** fails in no step of a run on a trace whose
epochs are apart, and at the end of a run, in `output`, it never fails. -/
theorem epochEnds_run (u : Unset) (cfg : Config) (hk : Hooks P H) (p : P) (insts : List DbInst)
    (hapart : EpochsApart cfg insts) :
    simulate u cfg hk p insts ≠ .error (.abort .epochEndCycle) ∧
      (insts ≠ [] → ∀ s, simulate u cfg hk p insts = .ok s → s.output.isOk = true) := by
  constructor
  · intro herror
    rcases bind_eq_error.mp herror with hnew | ⟨s₀, hnew, hrun⟩
    · have hnever : Ends (lift (new u cfg p) : Except (Stop H) _)
          (fun e => e ≠ .abort .epochEndCycle) fun _ => True := by
        apply ends_mapError.mpr
        exact (new_stops u cfg p).mono (fun e he heq => he.2 (Stop.abort.inj heq))
          fun _ _ => trivial
      exact absurd rfl (hnever.of_error hnew)
    · obtain ⟨front, inst, back, s, rfl, hfront, hstep⟩ := foldlM_eq_error.mp hrun
      obtain ⟨log, hran, rfl⟩ := foldlM_eq_ok.mp hfront
      exact step_ne_epochEndCycle (lift_eq_ok.mp hnew) hran hapart hstep
  · intro hne s hok
    obtain ⟨s₀, hnew, log, hran, rfl⟩ := simulate_eq_ok.mp hok
    exact output_isOk hnew hran fun hnil => hne (by rw [hnil]; rfl)

/-- **Epochs longer than a cycle or than the window** are apart, on any trace. -/
theorem epochsApart_of_lt (hlt : 0 < cfg.fetchWidth ∧ cfg.fetchWidth < cfg.epochSizeInsts ∨
    cfg.windowSize < cfg.epochSizeInsts) (insts : List DbInst) : EpochsApart cfg insts := by
  intro front epoch back hepochs hback
  have hsize : instructions epoch = cfg.epochSizeInsts := by
    apply instructions_of_ended cfg.epochSizeInsts insts
    obtain ⟨back, last, rfl⟩ := (List.eq_nil_or_concat' _).resolve_left hback
    rw [hepochs, ← List.cons_append, ← List.append_assoc, List.dropLast_concat]
    exact List.mem_append_right _ List.mem_cons_self
  -- all but the last instruction are before the last piece
  have hmost : cfg.epochSizeInsts ≤ instructions epoch.dropLast + 1 := by
    rw [← hsize]
    rcases List.eq_nil_or_concat' epoch with rfl | ⟨pieces, last, rfl⟩
    · exact Nat.zero_le _
    · rw [List.dropLast_concat, instructions_concat]
      exact Nat.add_le_add_left (Bool.toNat_le _) _
  have hall : instructions epoch.dropLast ≤
      instructions (front.flatten.getLast?.toList ++ epoch.dropLast) := by
    unfold instructions
    rw [List.countP_append]
    exact Nat.le_add_left _ _
  refine Or.inl ?_
  rcases hlt with ⟨hpos, hlt⟩ | hlt
  · exact Or.inl (Or.inl ⟨hpos, by omega⟩)
  · refine Or.inr ?_
    have hlength := List.countP_le_length (p := (·.isLastPiece))
      (l := front.flatten.getLast?.toList ++ epoch.dropLast)
    unfold instructions at hall hmost
    omega

/-- Two epochs of two instructions, in a window of one piece. -/
theorem epochEnds_run_fourInstructions :
    simulate ⟨fun _ => ⟨0, 0, 0⟩, 0⟩ { windowSize := 1, epochSizeInsts := 2 } idlePredictors ()
        fourInstructions ≠ .error (.abort .epochEndCycle) ∧
      (fourInstructions ≠ [] → ∀ s, simulate ⟨fun _ => ⟨0, 0, 0⟩, 0⟩
        { windowSize := 1, epochSizeInsts := 2 } idlePredictors () fourInstructions = .ok s →
          s.output.isOk = true) :=
  epochEnds_run _ _ _ _ _ (epochsApart_of_lt (Or.inr (by decide)) _)

/-- Epochs of one instruction end twice in one cycle. -/
theorem simulate_epochEndCycle :
    simulate ⟨fun _ => ⟨0, 0, 0⟩, 0⟩ { epochSizeInsts := 1 } idlePredictors ()
      [regInst .alu 64 {} {} (intReg 1), regInst .alu 68 {} {} (intReg 2)] =
        .error (.abort .epochEndCycle) := by
  have hstop : (match simulate ⟨fun _ => ⟨0, 0, 0⟩, 0⟩ { epochSizeInsts := 1 } idlePredictors ()
      [regInst .alu 64 {} {} (intReg 1), regInst .alu 68 {} {} (intReg 2)] with
    | .error e => some e
    | .ok _ => none) = some (.abort .epochEndCycle) := by decide +kernel
  split at hstop
  · rename_i e heq
    rw [heq, Option.some.inj hstop]
  · cases hstop

end Run

end CbpSim.Core
