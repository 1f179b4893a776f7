/-
  Core/Bundles.lean --- what a new fetch bundle starts with.

  Source: src/lib/uarchsim.cc, "Manage fetch cycle" of `step` (`num_fetched`,
  `num_fetched_branch`).

  Four branches of `step` let the next instruction be fetched in a later cycle, each with
  the comment that a new fetch bundle begins.  The end of a bundle and a misprediction
  reset both counters of the bundle; the squash and the full window reset `num_fetched`
  only, so the branches of the old bundle count in the new one.  `StallsSettled` is a
  condition on the options, the trace and the window before a step under which these two
  find no branches.
-/
import CbpSim.Core.EpochEnds
import CbpSim.Core.Speculation

set_option autoImplicit false

namespace CbpSim.Core

open CbpSim.Foundation

variable {P H : Type}

/-- The step begins a new fetch bundle: it ends with a later fetch cycle than its
instruction had. -/
def Course.opensBundle (c : Course P) : Bool := decide (c.before.fetchCycle < c.ended.fetchCycle)

/-- The step squashes or fills the window, and its branch, if it is one, is predicted
right. -/
def Course.stalls (c : Course P) : Bool :=
  (c.squash || c.dispatched.pipe.window.length == c.dispatched.windowCapacity) && !c.misp

/-- The instructions fetched since the last step that began a bundle. -/
def currentBundle (log : List (DbInst × Course P)) : List DbInst :=
  ((log.reverse.takeWhile fun x => !x.2.opensBundle).map Prod.fst).reverse

/-- Every new bundle of the run starts empty, and the branches counted at its end are of
the current bundle. -/
structure BundlesStartEmpty (log : List (DbInst × Course P)) (s : Uarchsim P) : Prop where
  start : ∀ x ∈ log, x.2.opensBundle = true →
    x.2.ended.numFetched = 0 ∧ x.2.ended.numFetchedBranch = 0
  own : s.numFetchedBranch ≤ (currentBundle log).countP fun inst => inst.insnClass.isBr

/-! ## Settled branches -/

/-- The value of the instruction is predicted, and not taken from the trace. -/
def MaySquash (cfg : Config) (inst : DbInst) : Prop :=
  cfg.vpEnable = true ∧ cfg.vpPerfect = false ∧ writesResult inst = true ∧
    (cfg.vpTrack = .all ∨ inst.isLoad = true)

/-- The pieces in the window that retire after the fetch cycle. -/
def Uarchsim.waiting (s : Uarchsim P) : Nat :=
  s.pipe.window.countP fun w => decide (s.fetchCycle < w.retireCycle)

/-- The step on the instruction may squash, or fill the window. -/
def MayStall (cfg : Config) (s : Uarchsim P) (inst : DbInst) : Prop :=
  MaySquash cfg inst ∨ cfg.windowSize ≤ s.waiting + 1

/-- The pieces from each branch on fill a bundle, or one of them ends it. -/
def BranchesSettled (cfg : Config) (insts : List DbInst) : Prop :=
  ∀ before branch after, insts = before ++ branch :: after → branch.insnClass.isBr = true →
    FillsBundle cfg (branch :: after)

/-- **No branch is left in the bundle where a step may stall**; or branches are not counted
at all. -/
def StallsSettled (cfg : Config) (hk : Hooks P H) (s₀ : Uarchsim P) (insts : List DbInst) :
    Prop :=
  0 < cfg.fetchNumBranch → ∀ front inst back s, insts = front ++ inst :: back →
    front.foldlM (Uarchsim.step cfg hk) s₀ = .ok s → MayStall cfg s inst →
      BranchesSettled cfg front

theorem StallsSettled.front {cfg : Config} {hk : Hooks P H} {s₀ : Uarchsim P}
    {insts more : List DbInst} (h : StallsSettled cfg hk s₀ (insts ++ more)) :
    StallsSettled cfg hk s₀ insts := by
  intro hpos front inst back s heq
  refine h hpos front inst (back ++ more) s ?_
  rw [heq, List.append_assoc, List.cons_append]

section Step

variable {cfg : Config} {hk : Hooks P H} {s s' : Uarchsim P} {inst : DbInst} {c : Course P}

open Uarchsim

/-- Up to the end of the bundle the counters stay, and after it as the branch prediction
leaves them. -/
theorem Course.Of.counters (h : Course.Of cfg hk s inst c s') :
    (c.dispatched.numFetched = s.numFetched ∧
      c.dispatched.numFetchedBranch = s.numFetchedBranch) ∧
      c.dispatched.fetchCycle = c.before.fetchCycle ∧
      (c.ended.numFetched = c.predicted.numFetched ∧
        c.ended.numFetchedBranch = c.predicted.numFetchedBranch ∧
        c.ended.fetchCycle = c.predicted.fetchCycle) ∧
      s'.numFetched = c.ended.numFetched ∧ s'.numFetchedBranch = c.ended.numFetchedBranch := by
  obtain ⟨-, hbefore⟩ := h.before_eq
  obtain ⟨-, _, _, _, -, -, -, -, hdispatched⟩ := dispatch_eq_ok h.dispatched
  obtain ⟨-, hlast⟩ := h.last_eq
  have hended := h.last
  have hkeep : c.ended = { s' with fetched := c.ended.fetched } := by rw [hended]
  refine ⟨⟨?_, ?_⟩, ?_, ?_, by rw [hended], by rw [hended]⟩
  · rw [hdispatched, h.written_eq, hbefore]
  · rw [hdispatched, h.written_eq, hbefore]
  · rw [hdispatched, h.written_eq]
  · rw [hkeep, hlast]
    exact ⟨rfl, rfl, rfl⟩

/-- What the prediction of the branch does to the counters. -/
theorem predictBranch_counters {a : Uarchsim P} {seqNo predictCycle execCycle : Nat} {misp : Bool}
    (h : s.predictBranch cfg hk inst seqNo predictCycle execCycle = .ok (misp, a)) :
    if misp then a.numFetched = 0 ∧ a.numFetchedBranch = 0
    else a.numFetched = s.numFetched ∧ a.numFetchedBranch = s.numFetchedBranch ∧
      a.fetchCycle = s.fetchCycle := by
  cases hperfect : cfg.perfectBranchPred with
  | true =>
    unfold predictBranch at h
    rw [if_pos hperfect] at h
    obtain ⟨rfl, rfl⟩ := Prod.mk.inj (Except.ok.inj h)
    exact ⟨rfl, rfl, rfl⟩
  | false =>
    obtain ⟨BP, hooks, -, ⟨rfl, rfl⟩ | ⟨rfl, rfl⟩⟩ := predictBranch_eq_ok h hperfect
    · exact ⟨rfl, rfl, rfl⟩
    · exact ⟨rfl, rfl⟩

/-- The instruction of a bundle that goes on is counted, and does not end it. -/
structure GoesOn (cfg : Config) (inst : DbInst) (s a : Uarchsim P) : Prop where
  width : 0 < cfg.fetchWidth → a.numFetched = s.numFetched + inst.isLastPiece.toNat ∧
    a.numFetched ≠ cfg.fetchWidth
  branches : a.numFetchedBranch = s.numFetchedBranch +
    (decide (cfg.fetchNumBranch > 0) && inst.insnClass.isBr).toNat
  room : 0 < cfg.fetchNumBranch → inst.insnClass.isBr = true →
    a.numFetchedBranch ≠ cfg.fetchNumBranch
  ends : endsBundle cfg inst = false

theorem goesOn_of_not_stops {a b : Uarchsim P} (hstops : bundleStops cfg a inst = false)
    (hwidth : 0 < cfg.fetchWidth → b.numFetched = a.numFetched + inst.isLastPiece.toNat)
    (hbranch : b.numFetchedBranch = a.numFetchedBranch +
      (decide (cfg.fetchNumBranch > 0) && inst.insnClass.isBr).toNat) : GoesOn cfg inst a b := by
  simp only [bundleStops, Bool.or_eq_false_iff] at hstops
  obtain ⟨⟨⟨hfull, hbranches⟩, hindirect⟩, htaken⟩ := hstops
  refine ⟨fun hpos => ⟨hwidth hpos, ?_⟩, hbranch, fun hpos hbr => ?_, ?_⟩
  · rw [hwidth hpos]
    simpa [hpos] using hfull
  · rw [hbranch, hbr]
    simpa [hpos, hbr] using hbranches
  · rw [endsBundle, hindirect, htaken]
    rfl

/-- **One step.**  If it stalls, a new bundle begins with the branches of the old one.
Otherwise the new bundle, if one begins, is empty, and if none does the old one goes on. -/
theorem Course.Of.bundle (h : Course.Of cfg hk s inst c s') :
    if c.stalls then c.opensBundle = true ∧ c.ended.numFetched = 0 ∧
      c.ended.numFetchedBranch = s.numFetchedBranch
    else if c.opensBundle then c.ended.numFetched = 0 ∧ c.ended.numFetchedBranch = 0
    else GoesOn cfg inst s c.ended := by
  obtain ⟨⟨hwidths, hbranches⟩, hcycle, ⟨hended, hendedBranch, hendedCycle⟩, -⟩ := h.counters
  have hpredicted := predictBranch_counters h.predicted
  have hmanaged := manageFetch_cases h.managed
  unfold Course.stalls Course.opensBundle
  rw [hended, hendedBranch, hendedCycle]
  cases hmisp : c.misp with
  | true =>
    rw [hmisp, if_pos rfl] at hpredicted
    have hlater : c.before.fetchCycle < c.predicted.fetchCycle := by
      obtain ⟨hexec, -⟩ := h.managed_eq
      exact hexec.trans_le ((predictBranch_frame h.predicted).2.1 hmisp)
    rw [Bool.not_true, Bool.and_false, if_neg Bool.false_ne_true, if_pos (decide_eq_true hlater)]
    exact hpredicted
  | false =>
    rw [hmisp, if_neg Bool.false_ne_true] at hpredicted
    obtain ⟨hwidth, hbranch, hsame⟩ := hpredicted
    rw [Bool.not_false, Bool.and_true, hwidth, hbranch, hsame, ← hcycle]
    obtain ⟨hstalls, hlt, hzero, hkept⟩ | ⟨hgoes, hbundle⟩ := hmanaged
    · rw [if_pos hstalls]
      exact ⟨decide_eq_true hlt, hzero, hkept.trans hbranches⟩
    · rw [if_neg (by rw [hgoes]; exact Bool.false_ne_true)]
      obtain ⟨-, hlater, hzero, hnone⟩ | ⟨hstops, hstays, hcounted, hwide⟩ :=
        bundle_cases hbundle
      · rw [if_pos (decide_eq_true (by omega))]
        exact ⟨hzero, hnone⟩
      · rw [if_neg (by simp [hstays])]
        have hgoesOn := goesOn_of_not_stops hstops hwide hcounted
        exact {
          width := fun hpos => by
            rw [hended, hwidth, ← hwidths]
            exact hgoesOn.width hpos
          branches := by
            rw [hendedBranch, hbranch, ← hbranches]
            exact hgoesOn.branches
          room := fun hpos hbr => by
            rw [hendedBranch, hbranch]
            exact hgoesOn.room hpos hbr
          ends := hgoesOn.ends }

end Step

theorem currentBundle_concat (log : List (DbInst × Course P)) (inst : DbInst) (c : Course P) :
    currentBundle (log ++ [(inst, c)]) =
      if c.opensBundle then [] else currentBundle log ++ [inst] := by
  unfold currentBundle
  rw [List.reverse_append, List.reverse_singleton, List.singleton_append, List.takeWhile_cons]
  cases c.opensBundle with
  | true => rfl
  | false => simp

section Run

variable {cfg : Config} {hk : Hooks P H} {u : Unset} {p : P} {s₀ s : Uarchsim P}
  {log : List (DbInst × Course P)}

open Uarchsim

/-- The counters of the bundle, while every bundle so far started empty. -/
structure BundleKept (cfg : Config) (log : List (DbInst × Course P)) (s : Uarchsim P) : Prop where
  start : ∀ x ∈ log, x.2.opensBundle = true →
    x.2.ended.numFetched = 0 ∧ x.2.ended.numFetchedBranch = 0
  width : 0 < cfg.fetchWidth →
    instructions (currentBundle log) = s.numFetched ∧ s.numFetched < cfg.fetchWidth
  branches : s.numFetchedBranch =
    if 0 < cfg.fetchNumBranch then (currentBundle log).countP (·.insnClass.isBr) else 0
  room : 0 < cfg.fetchNumBranch → s.numFetchedBranch < cfg.fetchNumBranch
  ends : ∀ inst ∈ currentBundle log, endsBundle cfg inst = false

theorem BundleKept.new (h : Uarchsim.new u cfg p = .ok s₀) : BundleKept cfg [] s₀ := by
  have initial := (new_ends u cfg p).of_ok h
  exact {
    start := by simp
    width := fun hpos => by
      rw [initial.numFetched]
      exact ⟨rfl, hpos⟩
    branches := by
      rw [initial.numFetchedBranch]
      split
      · rfl
      · rfl
    room := fun hpos => by
      rw [initial.numFetchedBranch]
      exact hpos
    ends := by simp [currentBundle] }

/-- The pieces of the current bundle are the last ones. -/
theorem currentBundle_suffix (log : List (DbInst × Course P)) :
    ∃ front, log.map (·.1) = front ++ currentBundle log := by
  induction log using List.reverseRecOn with
  | nil => exact ⟨[], rfl⟩
  | append_singleton log x ih =>
    obtain ⟨inst, c⟩ := x
    obtain ⟨front, hfront⟩ := ih
    rw [currentBundle_concat, List.map_append, hfront]
    split
    · exact ⟨_, (List.append_nil _).symm⟩
    · exact ⟨front, List.append_assoc _ _ _⟩

/-- A branch that is counted has not filled its bundle. -/
theorem BundleKept.unfilled (h : BundleKept cfg log s) (hcounted : s.numFetchedBranch ≠ 0) :
    0 < cfg.fetchNumBranch ∧ ∃ before branch after, log.map (·.1) = before ++ branch :: after ∧
      branch.insnClass.isBr = true ∧ ¬ FillsBundle cfg (branch :: after) := by
  have hbranches := h.branches
  split at hbranches
  · rename_i hpos
    refine ⟨hpos, ?_⟩
    rw [hbranches] at hcounted
    obtain ⟨branch, hmem, hbr⟩ := List.countP_pos_iff.mp (Nat.pos_of_ne_zero hcounted)
    obtain ⟨within, after, hbundle⟩ := List.append_of_mem hmem
    obtain ⟨front, hfront⟩ := currentBundle_suffix log
    rw [hbundle, ← List.append_assoc] at hfront
    refine ⟨front ++ within, branch, after, hfront, hbr, ?_⟩
    have hsub : (branch :: after).Sublist (currentBundle log) :=
      hbundle ▸ List.sublist_append_right _ _
    rintro (⟨hwidth, hle⟩ | ⟨-, hle⟩ | ⟨inst, hinst, hends⟩)
    · obtain ⟨hcount, hlt⟩ := h.width hwidth
      have hle' : instructions (branch :: after) ≤ instructions (currentBundle log) :=
        hsub.countP_le
      omega
    · have hle' := hsub.countP_le (p := fun inst : DbInst => inst.insnClass.isBr)
      have hroom := h.room hpos
      omega
    · exact absurd (h.ends inst (hsub.subset hinst)) (by rw [hends]; decide)
  · exact absurd hbranches hcounted

/-- A bundle that is opened has counted nothing. -/
theorem BundleKept.opens {s' : Uarchsim P} {inst : DbInst} {c : Course P}
    (hs : BundleKept cfg log s) (h : Course.Of cfg hk s inst c s') (hopens : c.opensBundle = true)
    (hzero : c.ended.numFetched = 0 ∧ c.ended.numFetchedBranch = 0) :
    BundleKept cfg (log ++ [(inst, c)]) s' := by
  obtain ⟨-, -, -, hwidth, hbranch⟩ := h.counters
  have hcurrent := currentBundle_concat log inst c
  rw [hopens, if_pos rfl] at hcurrent
  exact {
    start := List.forall_mem_append.mpr ⟨hs.start, List.forall_mem_singleton.mpr fun _ => hzero⟩
    width := fun hpos => by
      rw [hcurrent, hwidth, hzero.1]
      exact ⟨rfl, hpos⟩
    branches := by
      rw [hcurrent, hbranch, hzero.2]
      split
      · rfl
      · rfl
    room := fun hpos => by
      rw [hbranch, hzero.2]
      exact hpos
    ends := by simp [hcurrent] }

/-- A bundle that goes on counts the instruction. -/
theorem BundleKept.goesOn {s' : Uarchsim P} {inst : DbInst} {c : Course P}
    (hs : BundleKept cfg log s) (h : Course.Of cfg hk s inst c s')
    (hopens : c.opensBundle = false) (hgoesOn : GoesOn cfg inst s c.ended) :
    BundleKept cfg (log ++ [(inst, c)]) s' := by
  obtain ⟨-, -, -, hwidth, hbranch⟩ := h.counters
  have hcurrent := currentBundle_concat log inst c
  rw [hopens, if_neg Bool.false_ne_true] at hcurrent
  exact {
    start := List.forall_mem_append.mpr ⟨hs.start, List.forall_mem_singleton.mpr fun h =>
      absurd (hopens.symm.trans h) Bool.false_ne_true⟩
    width := fun hpos => by
      obtain ⟨hcount, hlt⟩ := hs.width hpos
      obtain ⟨hnext, hne⟩ := hgoesOn.width hpos
      have hone := Bool.toNat_le inst.isLastPiece
      rw [hcurrent, instructions_concat, hwidth]
      omega
    branches := by
      have hbranches := hs.branches
      have hnext := hgoesOn.branches
      rw [hcurrent, hbranch, hnext, hbranches]
      split
      · rename_i hpos
        rw [List.countP_append, List.countP_singleton, decide_eq_true hpos, Bool.true_and,
          Bool.toNat, Bool.cond_eq_ite]
      · rename_i hzero
        rw [decide_eq_false hzero]
        rfl
    room := fun hpos => by
      have hroom := hs.room hpos
      have hnext := hgoesOn.branches
      have hne := hgoesOn.room hpos
      rw [hbranch, hnext]
      cases hbr : inst.insnClass.isBr with
      | true =>
        have hne := hne hbr
        rw [hnext, hbr, decide_eq_true hpos] at hne
        rw [decide_eq_true hpos]
        exact lt_of_le_of_ne hroom hne
      | false => simpa using hroom
    ends := by
      rw [hcurrent]
      exact List.forall_mem_append.mpr ⟨hs.ends, List.forall_mem_singleton.mpr hgoesOn.ends⟩ }

/-- What a step does to the counters when it stalls only without branches. -/
theorem BundleKept.step {s' : Uarchsim P} {inst : DbInst} {c : Course P}
    (hs : BundleKept cfg log s) (h : Course.Of cfg hk s inst c s')
    (hnone : c.stalls = true → s.numFetchedBranch = 0) :
    BundleKept cfg (log ++ [(inst, c)]) s' := by
  have hstep := h.bundle
  cases hopens : c.opensBundle with
  | true =>
    rw [hopens] at hstep
    split at hstep
    · rename_i hstalls
      exact hs.opens h hopens ⟨hstep.2.1, hstep.2.2.trans (hnone hstalls)⟩
    · rw [if_pos rfl] at hstep
      exact hs.opens h hopens hstep
  | false =>
    rw [hopens] at hstep
    split at hstep
    · exact absurd hstep.1 Bool.false_ne_true
    · rw [if_neg Bool.false_ne_true] at hstep
      exact hs.goesOn h hopens hstep

/-- What a value may be predicted for. -/
theorem Resources.isCandidate_cases {r r' : Resources} {fetchCycle seqNo piece : Nat}
    {inst : DbInst} {req : PredictionRequest}
    (h : r.getValuePredictionReq cfg fetchCycle seqNo piece inst = .ok (req, r'))
    (hcandidate : req.isCandidate = true) : cfg.vpTrack = .all ∨ inst.isLoad = true := by
  unfold getValuePredictionReq at h
  dsimp only at h
  cases htrack : cfg.vpTrack with
  | all => exact Or.inl rfl
  | loadsOnly =>
    rw [htrack] at h
    cases h
    exact Or.inr hcandidate
  | loadsOnlyHitMiss =>
    rw [htrack] at h
    cases hload : inst.isLoad with
    | true => exact Or.inr rfl
    | false =>
      rw [hload] at h
      cases h
      exact absurd hcandidate Bool.false_ne_true
  | other n =>
    rw [htrack] at h
    cases h

/-- A squash is one of a value that was predicted. -/
theorem Course.Leads.maySquash {inst : DbInst} {c : Course P} (h : Course.Leads cfg hk s inst c)
    (hsquash : c.squash = true) : MaySquash cfg inst := by
  have hresult := h.result_eq.2.1
  rw [hsquash, eq_comm, Bool.and_eq_true, Course.wrongValue, Bool.and_eq_true] at hresult
  obtain ⟨hwrites, hspeculate, -⟩ := hresult
  have hknown : ¬ (cfg.vpEnable = false ∨ cfg.vpPerfect = true) := fun hknown =>
    Bool.false_ne_true ((h.squash_eq_false hknown).symm.trans hsquash)
  rw [not_or, Bool.not_eq_false, Bool.not_eq_true] at hknown
  obtain ⟨hon, hperfect⟩ := hknown
  refine ⟨hon, hperfect, hwrites, ?_⟩
  have hpred := h.before
  unfold predictValue at hpred
  rw [hon, hperfect] at hpred
  obtain ⟨⟨req, res⟩, hreq, hpred⟩ := bind_eq_ok.mp hpred
  obtain ⟨⟨pred, hooks⟩, -, hpred⟩ := bind_eq_ok.mp hpred
  obtain ⟨hooks', -, hpred⟩ := bind_eq_ok.mp hpred
  rw [← (Prod.mk.inj (Except.ok.inj hpred)).1] at hspeculate
  have hcandidate : req.isCandidate = true := (Bool.and_eq_true _ _ ▸ hspeculate).2
  exact Resources.isCandidate_cases (lift_eq_ok.mp hreq) hcandidate

/-- A step that stalls is one that may. -/
theorem Course.Of.mayStall {s' : Uarchsim P} {inst : DbInst} {c : Course P}
    (hlimits : LimitsKept cfg s) (h : Course.Of cfg hk s inst c s') (hstalls : c.stalls = true) :
    MayStall cfg s inst := by
  unfold Course.stalls at hstalls
  rw [Bool.and_eq_true, Bool.or_eq_true] at hstalls
  rcases hstalls.1 with hsquash | hfull
  · exact Or.inl (h.maySquash hsquash)
  · refine Or.inr ?_
    have hlimits' := (limitsKept_step cfg hk hlimits inst).of_ok (step_eq_ok.mpr ⟨c, h⟩)
    obtain ⟨hforward, hmanaged⟩ := h.before_eq
    obtain ⟨w, hwindow, -⟩ := dispatch_window h.dispatched
    have hcapacity : c.dispatched.windowCapacity = s.windowCapacity := by
      obtain ⟨-, _, _, _, -, -, -, -, hdispatched⟩ := dispatch_eq_ok h.dispatched
      rw [hdispatched, h.written_eq, h.before_eq.2]
    -- what was in the window before the dispatch retires after its cycle
    have hlater : ∀ w ∈ c.written.pipe.window, s.fetchCycle < w.retireCycle := by
      intro w hw
      have hmem : w.retireCycle ∈ s'.pipe.window.map (·.retireCycle) := by
        have hpipe : c.managed.pipe = c.dispatched.pipe := by rw [h.managed_eq.2.2]
        rw [h.retireCycles, hpipe, hwindow]
        exact List.mem_map_of_mem (List.mem_append_left _ hw)
      obtain ⟨w', hw', hsame⟩ := List.mem_map.mp hmem
      have hlate := hlimits'.inWindow.evaluated_le hw'
      obtain ⟨-, -, -, hprevious⟩ := h.remembers
      rcases hlimits'.caughtUp with hev | ⟨-, hzero⟩
      · omega
      · rw [hlimits'.inWindow.retireCycles_eq] at hmem
        obtain ⟨x, hx, heq⟩ := List.mem_map.mp hmem
        have hpos := hlimits'.retires x (List.mem_of_mem_filter hx)
        omega
    have hle : c.written.pipe.window.length ≤ s.waiting := by
      have hall : c.written.pipe.window.countP (fun w => decide (s.fetchCycle < w.retireCycle)) =
          c.written.pipe.window.length :=
        List.countP_eq_length.mpr fun w hw => decide_eq_true (hlater w hw)
      rw [← hall]
      exact h.window_sublist.countP_le
    rw [beq_iff_eq, hcapacity, hlimits.capacity, hwindow, List.length_append,
      List.length_singleton] at hfull
    omega

/-- **A new bundle starts empty** in every state that a run reaches, if no branch is left
where its steps may stall. -/
theorem bundlesStartEmpty_run (hnew : Uarchsim.new u cfg p = .ok s₀)
    (hran : Ran cfg hk s₀ log s) (hsettled : StallsSettled cfg hk s₀ (log.map (·.1))) :
    BundlesStartEmpty log s := by
  suffices h : BundleKept cfg log s by
    refine ⟨h.start, ?_⟩
    have hbranches := h.branches
    split at hbranches
    · exact hbranches.le
    · exact hbranches.le.trans (Nat.zero_le _)
  induction hran with
  | nil => exact .new hnew
  | @snoc log s s' inst c hran hc ih =>
    rw [List.map_append] at hsettled
    have hs := ih hsettled.front
    obtain ⟨_, _, -, hepochs⟩ := EpochsKept.ran hnew hran
    refine hs.step hc fun hstalls => ?_
    by_contra hcounted
    -- a branch that is still counted has not filled its bundle
    obtain ⟨hpos, before, branch, after, hsplit, hbr, hnot⟩ := hs.unfilled hcounted
    have hhere := hsettled hpos (log.map (·.1)) inst [] s rfl (foldlM_eq_ok.mpr ⟨log, hran, rfl⟩)
      (hc.mayStall hepochs.limits hstalls)
    exact hnot (hhere before branch after hsplit hbr)

/-- **With one branch a bundle at most** every branch is settled, on any trace. -/
theorem stallsSettled_of_le_one (hone : cfg.fetchNumBranch ≤ 1) (insts : List DbInst) :
    StallsSettled cfg hk s₀ insts := by
  intro hpos front inst back s _ _ _ before branch after _ hbr
  refine Or.inr (Or.inl ⟨hpos, hone.trans ?_⟩)
  exact List.countP_pos_iff.mpr ⟨branch, List.mem_cons_self, hbr⟩

/-- **Where every branch ends its bundle** every branch is settled. -/
theorem stallsSettled_of_ends {insts : List DbInst}
    (hends : ∀ inst ∈ insts, inst.insnClass.isBr = true → endsBundle cfg inst = true) :
    StallsSettled cfg hk s₀ insts := by
  rintro - front inst back s rfl - - before branch after rfl hbr
  refine Or.inr (Or.inr ⟨branch, List.mem_cons_self, hends branch ?_ hbr⟩)
  simp

/-- **Where nothing stalls**, since no value is predicted and the trace is shorter than the
window, every branch is settled. -/
theorem stallsSettled_of_length_lt {insts : List DbInst} (hnew : Uarchsim.new u cfg p = .ok s₀)
    (hknown : cfg.vpEnable = false ∨ cfg.vpPerfect = true) (hlt : insts.length < cfg.windowSize) :
    StallsSettled cfg hk s₀ insts := by
  rintro - front inst back s rfl hrun (⟨hon, hperfect, -⟩ | hfull)
  · rcases hknown with h | h
    · exact absurd (hon.symm.trans h) (by decide)
    · exact absurd (hperfect.symm.trans h) (by decide)
  · obtain ⟨log, hran, rfl⟩ := foldlM_eq_ok.mp hrun
    obtain ⟨_, _, -, hepochs⟩ := EpochsKept.ran hnew hran
    obtain ⟨accesses, haccesses⟩ := AccessesOf.ran hnew hran
    have hlength : s.fetched.length = log.length := by
      simpa using congrArg List.length haccesses.trace
    have hwindow : s.pipe.window.length ≤ s.fetched.length := by
      rw [hepochs.limits.inWindow.length_eq]
      exact List.length_filter_le _ _
    have hwaiting : s.waiting ≤ s.pipe.window.length := List.countP_le_length
    rw [List.length_append, List.length_cons, List.length_map] at hlt
    omega

/-- A bundle that a misprediction ends. -/
theorem bundlesStartEmpty_run_farBranch :
    ∃ (s₀ s : Uarchsim Unit) (log : List (DbInst × Course Unit)),
      Uarchsim.new ⟨fun _ => ⟨0, 0, 0⟩, 0⟩ {} () = .ok s₀ ∧ Ran {} idlePredictors s₀ log s ∧
      log.map (·.1) = [farBranch] ∧ BundlesStartEmpty log s := by
  obtain ⟨s, hs⟩ := exists_of_isOk (show (simulate ⟨fun _ => ⟨0, 0, 0⟩, 0⟩ {} idlePredictors ()
    [farBranch]).isOk = true by decide +kernel)
  obtain ⟨s₀, hnew, log, hran, hlog⟩ := simulate_eq_ok.mp hs
  refine ⟨s₀, s, log, hnew, hran, hlog, bundlesStartEmpty_run hnew hran ?_⟩
  rw [hlog]
  exact stallsSettled_of_length_lt hnew (Or.inl rfl) (by decide)

/-- A branch that falls through, and an instruction that fills a window of two: the
branch is counted in the next bundle. -/
theorem fullWindow_keepsBranch :
    ∃ (s₀ s : Uarchsim Unit) (log : List (DbInst × Course Unit)),
      Uarchsim.new ⟨fun _ => ⟨0, 0, 0⟩, 0⟩ { windowSize := 2 } () = .ok s₀ ∧
      Ran { windowSize := 2 } idlePredictors s₀ log s ∧
      log.map (·.1) = [regInst .condBranch 64 (intReg 1) {} {}, regInst .alu 68 {} {} (intReg 2)] ∧
      ¬ BundlesStartEmpty log s := by
  obtain ⟨⟨s₀, c, s, c', s'⟩, h, hobserved⟩ := exists_of_observe (show ((do
      let s₀ ← lift (new ⟨fun _ => ⟨0, 0, 0⟩, 0⟩ { windowSize := 2 } ())
      let (c, s) ← s₀.course { windowSize := 2 } idlePredictors
        (regInst .condBranch 64 (intReg 1) {} {})
      let (c', s') ← s.course { windowSize := 2 } idlePredictors (regInst .alu 68 {} {} (intReg 2))
      .ok (s₀, c, s, c', s') : Except (Stop Empty) _).toOption.map fun x =>
        (x.2.2.2.1.opensBundle, x.2.2.2.1.ended.numFetchedBranch)) = some (true, 1) by
    decide +kernel)
  obtain ⟨hopens, hcounted⟩ := Prod.mk.inj hobserved
  obtain ⟨_, hnew, h⟩ := bind_eq_ok.mp h
  obtain ⟨⟨_, _⟩, hc, h⟩ := bind_eq_ok.mp h
  obtain ⟨⟨_, _⟩, hc', h⟩ := bind_eq_ok.mp h
  cases h
  have hran := Ran.snoc (Ran.snoc Ran.nil (course_eq_ok hc)) (course_eq_ok hc')
  refine ⟨s₀, s', _, lift_eq_ok.mp hnew, hran, rfl, ?_⟩
  rintro ⟨hstart, -⟩
  have hnone := (hstart _ (List.mem_append_right _ List.mem_cons_self) hopens).2
  exact absurd (hcounted.symm.trans hnone) (by decide)

end Run

end CbpSim.Core
