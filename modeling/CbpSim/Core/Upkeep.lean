/-
  Core/Upkeep.lean --- a rule for the resources.

  An invariant of the fetch cycle and the resources is kept by a step when each
  function that works on them keeps it: `Keeps` has one clause a function.  The
  same clauses say which asserts the step can fail, so the rule is also how an
  assert of the lanes, of a load or of a direction is shown never to fail.
-/
import CbpSim.Core.Simulation
import CbpSim.Core.Sites
import CbpSim.Core.Stages

set_option autoImplicit false

namespace CbpSim.Core

open CbpSim.Foundation CbpSim.Lanes CbpSim.Memory

variable {P H : Type}

theorem ordinary_of_ofEvaluation {e : Abort} (h : ofEvaluation e = true) : Ordinary e := by
  cases e with
  | evalDecodeLate => rfl
  | evalDecodeCycle => rfl
  | evalAqLate => rfl
  | evalAqMem => rfl
  | evalAqDecode => rfl
  | evalAqExec => rfl
  | evalExecLate => rfl
  | evalExecCycle => rfl
  | locateEntry => rfl
  | _ => cases h

/-! ## The clauses -/

/-- The base cycle that the end of a step gives the lanes. -/
def Resources.nextBase (fetchCycle : Nat) (r : Resources) : Nat :=
  match r.prefetcher.getOldestPfCycle with
  | some oldest => min fetchCycle oldest
  | none => fetchCycle

/-- Every function that `step` calls on the resources for `inst` keeps `I`, and fails
asserts of `E` only. -/
structure Keeps (cfg : Config) (inst : DbInst) (E : Abort → Prop) (I : Nat → Resources → Prop) :
    Prop where
  ordinary (e : Abort) : Ordinary e → E e
  later {c c' : Nat} {r : Resources} : I c r → c ≤ c' → I c' r
  caches {c : Nat} {r r' : Resources} : I c r → r.CachesOnly r' → I c r'
  registers {c : Nat} {r : Resources} : I c r → ∀ RF, I c { r with RF := RF }
  track {c : Nat} {r : Resources} : cfg.vpEnable = true → I c r → ∀ seqNo piece,
    Ends (r.getValuePredictionReq cfg c seqNo piece inst) E fun x => I c x.2
  execute {c : Nat} {r : Resources} : I c r → Ends (r.execute cfg c inst) E fun x => I c x.2
  drain {c : Nat} {r : Resources} : I c r → ∀ previous n,
    Ends (r.drainPrefetches cfg previous c n) E fun x => I c x.2
  updateSQ {c : Nat} {r : Resources} : I c r → ∀ execCycle retired,
    Ends (r.updateSQ cfg inst execCycle retired) E (I c)
  advance {c : Nat} {r : Resources} : I c r →
    Ends (r.ldstLanes.advanceBaseCycle (r.nextBase c)) E fun ldst =>
      Ends (r.aluLanes.advanceBaseCycle (r.nextBase c)) E fun alu =>
        I c { r with ldstLanes := ldst, aluLanes := alu }

/-- An assert of `E` that is not the one about the end of an epoch: that one only the end
of a step can fail. -/
def BeforeEnd (E : Abort → Prop) (e : Abort) : Prop := E e ∧ e ≠ .epochEndCycle

/-- A function of the resources stops at an assert of its own. -/
theorem Ends.beforeEnd {α : Type} {x : Except Abort α} {E : Abort → Prop} {Q R : α → Prop}
    (h : Ends x E Q) (hsites : Ends x (fun e => ofResources e = true) R) :
    Ends x (BeforeEnd E) Q := by
  apply (h.and hsites).mono
  · rintro e ⟨he, hsite⟩
    refine ⟨he, ?_⟩
    rintro rfl
    cases hsite
  · exact fun _ ha => ha.1

theorem Keeps.site {cfg : Config} {inst : DbInst} {E : Abort → Prop}
    {I : Nat → Resources → Prop} (keeps : Keeps cfg inst E I) {e : Abort} (he : Ordinary e)
    (hne : e ≠ .epochEndCycle) : BeforeEnd E e :=
  ⟨keeps.ordinary e he, hne⟩

theorem Keeps.evaluation {cfg : Config} {inst : DbInst} {E : Abort → Prop}
    {I : Nat → Resources → Prop} (keeps : Keeps cfg inst E I) (e : Abort)
    (he : ofEvaluation e = true) : BeforeEnd E e := by
  refine keeps.site (ordinary_of_ofEvaluation he) ?_
  rintro rfl
  cases he

/-- Where every assert of the resources is admitted there is nothing to keep. -/
theorem keeps_of_ofResources (cfg : Config) (inst : DbInst) {E : Abort → Prop}
    (ordinary : ∀ e, Ordinary e → E e) (admits : ∀ e, ofResources e = true → E e) :
    Keeps cfg inst E fun _ _ => True where
  ordinary := ordinary
  later _ _ := trivial
  caches _ _ := trivial
  registers _ _ := trivial
  track _ _ seqNo piece := (Resources.getValuePredictionReq_stops cfg _ _ seqNo piece inst).mono
    admits fun _ _ => trivial
  execute _ := (Resources.execute_stops cfg _ _ inst).mono admits fun _ _ => trivial
  drain _ previous n := (Resources.drainPrefetches_stops cfg previous _ n _).mono admits
    fun _ _ => trivial
  updateSQ _ execCycle retired := (Resources.updateSQ_stops cfg _ inst execCycle retired).mono
    admits fun _ _ => trivial
  advance _ := by
    have lanes : ∀ (lanes : ResourceSchedule) (newBase : Nat),
        Ends (lanes.advanceBaseCycle newBase) E fun _ => True := by
      intro lanes newBase
      apply (advanceBaseCycle_stops lanes newBase).mono
      · intro e he
        exact admits e (he.1 ▸ rfl)
      · exact fun _ _ => trivial
    exact (lanes _ _).imp fun _ _ => lanes _ _

/-- The direction of `inst` passes the asserts about it, where `E` does not admit them. -/
structure Directed (cfg : Config) (inst : DbInst) (E : Abort → Prop) : Prop where
  uncond : (inst.insnClass.isUncondBr = true → inst.isTaken = true) ∨ E .stepBranchTaken
  taken : (cfg.fetchStopAtTaken = true → inst.isTaken = true →
    Uarchsim.takenBranch inst = true) ∨
    E .stepTakenBranch

/-- An unconditional branch that is not taken has to be admitted. -/
theorem Directed.branchTaken {cfg : Config} {inst : DbInst} {E : Abort → Prop}
    (directed : Directed cfg inst E)
    (hnot : (inst.insnClass.isUncondBr && !inst.isTaken) = true) :
    BeforeEnd E .stepBranchTaken := by
  simp only [Bool.and_eq_true, Bool.not_eq_true'] at hnot
  rcases directed.uncond with h | h
  · exact absurd ((h hnot.1).symm.trans hnot.2) Bool.noConfusion
  · exact ⟨h, by decide⟩

/-- The reasons of the program: an assert of `E`, or a hook. -/
def Admits (E : Abort → Prop) : Stop H → Prop
  | .abort e => E e
  | .hook _ => True

theorem ends_lift_admits {α : Type} {x : Except Abort α} {E : Abort → Prop} {Q : α → Prop}
    (h : Ends x E Q) : Ends (lift (H := H) x) (Admits E) Q :=
  ends_mapError.mpr h

/-- A part of a step before its end. -/
theorem Ends.part {α : Type} {x : Except (Stop H) α} {E : Abort → Prop} {Q : α → Prop}
    (h : Ends x (Admits (BeforeEnd E)) Q) : Ends x (Admits E) Q := by
  apply h.mono
  · intro e he
    cases e with
    | abort site => exact he.1
    | hook reason => trivial
  · exact fun _ ha => ha

theorem ends_call_admits {α : Type} {x : Except H α} {E : Abort → Prop} :
    Ends (call x) (Admits E) fun _ => True :=
  ends_mapError.mpr (Ends.of_any fun _ => trivial)

/-! ## The parts of a step -/

namespace Pipeline

variable {cfg : Config} {hk : Hooks P H} {E : Abort → Prop}

theorem catchUp_stops (hE : ∀ e, ofEvaluation e = true → E e) (first last : Nat)
    (p : Pipeline P) : Ends (p.catchUp cfg hk first last) (Admits E) fun _ => True := by
  have steady : Steady hk (Admits E) fun _ _ => True :=
    { refl := fun _ => trivial
      trans := fun _ _ => trivial
      abort := hE
      decode := fun _ _ _ _ _ _ => Ends.of_any fun _ => trivial
      agen := fun _ _ _ _ _ _ _ _ => Ends.of_any fun _ => trivial
      commit := fun _ _ _ _ _ _ _ => Ends.of_any fun _ => trivial
      update := fun _ _ _ _ _ => Ends.of_any fun _ => trivial }
  apply catchUp_steps (R := fun _ _ => True) (fun _ => trivial) (fun _ _ => trivial)
  intro cycle p
  exact (steady.evalCycle (fun _ _ _ _ _ _ _ => Ends.of_any fun _ => trivial) cfg p).imp
    fun _ _ => trivial

end Pipeline

namespace Bp

/-- The prediction of a branch stops in a hook only. -/
theorem predict_stops {cfg : Config} {hk : Hooks P H} {E : Abort → Prop} (b : Bp) (p : P)
    (seqNo piece : Nat) (inst : DbInst) (predCycle fetchCycle execCycle : Nat) :
    Ends (b.predict cfg hk p seqNo piece inst predCycle fetchCycle execCycle) (Admits E)
      fun _ => True := by
  have quiet : Quiet hk (Admits E) fun _ _ => True := Quiet.of_any hk fun _ => trivial
  exact (b.predict_ends quiet p seqNo piece inst predCycle fetchCycle execCycle).imp
    fun _ _ => trivial

end Bp

namespace Uarchsim

variable {cfg : Config} {hk : Hooks P H} {inst : DbInst} {E : Abort → Prop}
  {I : Nat → Resources → Prop}

theorem beginStep_keeps (keeps : Keeps cfg inst E I) {s : Uarchsim P}
    (hs : I s.fetchCycle s.res) :
    Ends (s.beginStep cfg hk) (Admits (BeforeEnd E)) fun a => I a.fetchCycle a.res := by
  unfold beginStep
  apply Ends.ite
  · intro _
    exact keeps.site rfl (by decide)
  · intro _
    apply Ends.bind (Pipeline.catchUp_stops keeps.evaluation _ _ _)
    intro pipe _
    exact hs

theorem fetchBlock_keeps (keeps : Keeps cfg inst E I) {s : Uarchsim P}
    (hs : I s.fetchCycle s.res) :
    Ends (s.fetchBlock cfg hk inst) (Admits (BeforeEnd E)) fun a => I a.fetchCycle a.res := by
  unfold fetchBlock
  apply Ends.ite
  · intro _
    apply Ends.bind (ends_lift_admits ((Resources.accessIC_stops cfg s.res s.fetchCycle inst.pc).mono
      (fun e he => keeps.site (ordinary_of_ofCaches he) (by rintro rfl; cases he)) fun _ h => h))
    rintro ⟨nextFetchCycle, res⟩ ⟨hle, hres⟩
    apply Ends.ite
    · intro _
      exact keeps.site rfl (by decide)
    · intro _
      apply Ends.bind (Pipeline.catchUp_stops keeps.evaluation _ _ _)
      intro pipe _
      exact keeps.later (keeps.caches hs hres) hle
  · intro _
    exact hs

theorem predictValue_keeps (keeps : Keeps cfg inst E I) {s : Uarchsim P}
    (hs : I s.fetchCycle s.res) :
    Ends (s.predictValue cfg hk inst) (Admits (BeforeEnd E)) fun x => I x.2.2.fetchCycle x.2.2.res := by
  unfold predictValue
  apply Ends.ite
  · intro _
    exact hs
  · intro hvp
    have hon : cfg.vpEnable = true := by simpa using hvp
    apply Ends.bind (ends_lift_admits (Ends.beforeEnd (keeps.track hon hs _ _)
      (Resources.getValuePredictionReq_stops cfg _ _ _ _ inst)))
    rintro ⟨req, res⟩ hres
    apply Ends.ite
    · intro _
      exact hres
    · intro _
      apply Ends.bind ends_call_admits
      rintro ⟨pred, hooks⟩ _
      apply Ends.bind ends_call_admits
      intro hooks' _
      exact hres

theorem schedule_keeps (keeps : Keeps cfg inst E I) {s : Uarchsim P}
    (hs : I s.fetchCycle s.res) :
    Ends (s.schedule cfg inst) (BeforeEnd E) fun x =>
      x.2.fetchCycle = s.fetchCycle ∧ I x.2.fetchCycle x.2.res := by
  unfold schedule
  apply Ends.bind (Ends.beforeEnd (keeps.execute hs) (Resources.execute_stops cfg _ _ inst))
  rintro ⟨t, res⟩ hres
  apply Ends.bind (Q := fun x => I s.fetchCycle x.2)
  · apply Ends.ite
    · intro _
      exact Ends.beforeEnd (keeps.drain hres _ _) (Resources.drainPrefetches_stops cfg _ _ _ _)
    · intro _
      exact hres
  · rintro ⟨issued, res'⟩ hres'
    exact ⟨rfl, hres'⟩

theorem writeBack_keeps (keeps : Keeps cfg inst E I) {s : Uarchsim P}
    (hs : I s.fetchCycle s.res) (t : Timing) (pred : PredictionResult) (predictable : Bool) :
    Ends (s.writeBack cfg inst t pred predictable) (BeforeEnd E) fun x =>
      x.2.fetchCycle = s.fetchCycle ∧ I x.2.fetchCycle x.2.res := by
  unfold writeBack
  apply Ends.ite
  · intro _
    exact keeps.site rfl (by decide)
  · intro _
    refine Ends.bind (Ends.beforeEnd (keeps.updateSQ (c := s.fetchCycle) ?_ _ _)
      (Resources.updateSQ_stops cfg _ inst _ _)) ?_
    · split
      · exact keeps.registers hs _
      · exact hs
    · intro res hres
      exact ⟨rfl, hres⟩

theorem populateExecInfo_stops (keeps : Keeps cfg inst E I) (directed : Directed cfg inst E) :
    Ends (populateExecInfo inst) (BeforeEnd E) fun _ => True := by
  unfold populateExecInfo
  apply Ends.bind (Q := fun _ => True)
  · unfold populateDecodeInfo
    apply Ends.ite
    · intro _
      trivial
    · intro _
      exact keeps.site rfl (by decide)
  · intro _ _
    apply Ends.ite
    · exact directed.branchTaken
    · intro _
      trivial

theorem dispatch_keeps (keeps : Keeps cfg inst E I) (directed : Directed cfg inst E)
    {s : Uarchsim P} (hs : I s.fetchCycle s.res) (seqNo : Nat) (t : Timing) :
    Ends (s.dispatch cfg hk inst seqNo t) (Admits (BeforeEnd E)) fun s' =>
      s'.fetchCycle = s.fetchCycle ∧ s.fetchCycle < t.execCycle ∧ I s'.fetchCycle s'.res := by
  unfold dispatch
  apply Ends.bind (ends_lift_admits (populateExecInfo_stops keeps directed))
  intro info _
  apply Ends.ite
  · intro _
    exact keeps.site rfl (by decide)
  · intro hlater
    apply Ends.ite
    · intro _
      exact keeps.site rfl (by decide)
    · intro _
      apply Ends.bind ends_call_admits
      intro hooks _
      apply Ends.ite
      · intro _
        exact keeps.site rfl (by decide)
      · intro _
        exact ⟨rfl, not_not.mp hlater, hs⟩

theorem bundle_keeps (keeps : Keeps cfg inst E I) (directed : Directed cfg inst E)
    {s : Uarchsim P} (hs : I s.fetchCycle s.res) :
    Ends (bundle cfg s inst) (BeforeEnd E) fun s' =>
      s.fetchCycle ≤ s'.fetchCycle ∧ I s'.fetchCycle s'.res := by
  unfold bundle
  apply Ends.ite
  · intro hnot
    simp only [Bool.and_eq_true, Bool.not_eq_true'] at hnot
    obtain ⟨⟨hstop, htaken⟩, hbranch⟩ := hnot
    rcases directed.taken with h | h
    · exact absurd ((h hstop htaken).symm.trans hbranch) Bool.noConfusion
    · exact ⟨h, by decide⟩
  · intro _
    apply Ends.ite
    · intro _
      exact ⟨Nat.le_succ _, keeps.later hs (Nat.le_succ _)⟩
    · intro _
      exact ⟨le_rfl, hs⟩

theorem manageFetch_keeps (keeps : Keeps cfg inst E I) (directed : Directed cfg inst E)
    {s : Uarchsim P} (hs : I s.fetchCycle s.res) (squash : Bool) :
    Ends (s.manageFetch cfg inst squash) (BeforeEnd E) fun s' =>
      s.fetchCycle ≤ s'.fetchCycle ∧ I s'.fetchCycle s'.res := by
  unfold manageFetch
  split
  · exact keeps.site rfl (by decide)
  · apply Ends.ite
    · intro _
      exact keeps.site rfl (by decide)
    · intro _
      apply Ends.ite
      · intro _
        apply Ends.ite
        · intro hlt
          exact ⟨hlt.le, keeps.later hs hlt.le⟩
        · intro _
          exact keeps.site rfl (by decide)
      · intro _
        apply Ends.ite
        · intro _
          apply Ends.ite
          · intro hlt
            exact ⟨hlt.le, keeps.later hs hlt.le⟩
          · intro _
            exact ⟨le_rfl, hs⟩
        · intro _
          exact bundle_keeps keeps directed hs

/-- A mispredicted branch is resolved after it was fetched. -/
theorem predictBranch_keeps (keeps : Keeps cfg inst E I) {s : Uarchsim P}
    (hs : I s.fetchCycle s.res) (seqNo : Nat) {predictCycle execCycle : Nat}
    (hlater : predictCycle < execCycle) :
    Ends (s.predictBranch cfg hk inst seqNo predictCycle execCycle) (Admits (BeforeEnd E)) fun x =>
      I x.2.fetchCycle x.2.res := by
  unfold predictBranch
  apply Ends.ite
  · intro _
    exact hs
  · intro _
    apply Ends.bind (Bp.predict_stops _ _ _ _ _ _ _ _)
    rintro ⟨misp, BP, hooks⟩ _
    apply Ends.ite
    · intro _
      exact hs
    · intro _
      apply Ends.ite
      · intro hnot
        exact absurd (hlater.trans_le (le_max_right _ _)) hnot
      · intro _
        exact keeps.later hs (le_max_left _ _)

theorem updatePredTaken_keeps (directed : Directed cfg inst E) {s : Uarchsim P}
    (hs : I s.fetchCycle s.res) (misp : Bool) :
    Ends (s.updatePredTaken inst misp) (BeforeEnd E) fun s' => I s'.fetchCycle s'.res := by
  unfold updatePredTaken
  apply Ends.ite
  · intro _
    exact hs
  · intro _
    apply Ends.ite
    · exact directed.branchTaken
    · intro _
      exact hs

theorem endCurrentBeginNewEpoch_stops (s : Uarchsim P) (firstEpoch lastEpoch : Bool)
    (epochEndCycle : Nat) :
    Ends (s.endCurrentBeginNewEpoch firstEpoch lastEpoch epochEndCycle)
      (fun e => firstEpoch = false ∧ e = .epochEndCycle) fun s' =>
        s'.fetchCycle = s.fetchCycle ∧ s'.res = s.res := by
  unfold endCurrentBeginNewEpoch
  apply Ends.bind (Q := fun s' => s'.fetchCycle = s.fetchCycle ∧ s'.res = s.res)
  · apply Ends.ite
    · intro _
      exact ⟨rfl, rfl⟩
    · intro hfirst
      apply Ends.ite
      · intro _
        exact ⟨rfl, rfl⟩
      · intro _
        exact ⟨by simpa using hfirst, rfl⟩
  · intro s' hs'
    apply Ends.ite
    · intro _
      exact hs'
    · intro _
      exact hs'

theorem endStep_keeps (keeps : Keeps cfg inst E I) {s : Uarchsim P}
    (hs : I s.fetchCycle s.res) (predictCycle : Nat) :
    Ends (s.endStep cfg inst predictCycle) E fun s' => I s'.fetchCycle s'.res := by
  unfold endStep
  apply Ends.bind (keeps.advance hs)
  intro ldst hldst
  apply Ends.bind hldst
  intro alu halu
  apply Ends.ite
  · intro _
    apply (endCurrentBeginNewEpoch_stops _ _ _ _).mono
    · intro e he
      rw [he.2]
      exact keeps.ordinary _ rfl
    · intro s' hs'
      rw [hs'.1, hs'.2]
      exact halu
  · intro _
    exact halu

/-- **The rule of the resources.** -/
theorem step_keeps (keeps : Keeps cfg inst E I) (directed : Directed cfg inst E)
    {s : Uarchsim P} (hs : I s.fetchCycle s.res) :
    Ends (s.step cfg hk inst) (Admits E) fun s' => I s'.fetchCycle s'.res := by
  unfold step
  apply Ends.bind (Ends.part (beginStep_keeps keeps hs))
  intro a₀ h₀
  apply Ends.bind (Ends.part (fetchBlock_keeps keeps h₀))
  intro a₁ h₁
  apply Ends.bind (Ends.part (predictValue_keeps keeps h₁))
  rintro ⟨pred, predictable, a⟩ h
  apply Ends.bind (Ends.part (ends_lift_admits (schedule_keeps keeps h)))
  rintro ⟨t, s₁⟩ ⟨hcycle₁, h₁⟩
  apply Ends.bind (Ends.part (ends_lift_admits (writeBack_keeps keeps h₁ t pred predictable)))
  rintro ⟨squash, s₂⟩ ⟨hcycle₂, h₂⟩
  apply Ends.bind (Ends.part (dispatch_keeps keeps directed h₂ a.numUop t))
  rintro s₃ ⟨-, hlater, h₃⟩
  apply Ends.bind (Ends.part (ends_lift_admits (manageFetch_keeps keeps directed h₃ squash)))
  rintro s₄ ⟨-, h₄⟩
  refine Ends.bind (Ends.part (predictBranch_keeps keeps h₄ a.numUop ?_)) ?_
  · exact (hcycle₂.trans hcycle₁).symm.trans_lt hlater
  rintro ⟨misp, s₅⟩ h₅
  apply Ends.bind (Ends.part (ends_lift_admits (updatePredTaken_keeps directed h₅ misp)))
  intro s₆ h₆
  apply Ends.bind (ends_lift_admits (endStep_keeps keeps h₆ a.fetchCycle))
  intro s₇ h₇
  exact h₇

/-! ## The run -/

/-- What the constructor builds. -/
structure Built (cfg : Config) (s : Uarchsim P) : Prop where
  fetchCycle : s.fetchCycle = 0
  ldstLanes : s.res.ldstLanes = .new cfg.numLdstLanes
  aluLanes : s.res.aluLanes = .new cfg.numAluLanes
  prefetcher : s.res.prefetcher = .new
  SQ : s.res.SQ = fun _ => none
  latency : s.res.L1.latency = cfg.l1Latency

theorem cacheNew_stops (u : Memory.Unspecified) (size assoc blocksize latency : Nat) :
    Ends (Cache.new u size assoc blocksize latency) (BeforeEnd Ordinary) fun c =>
      c.latency = latency := by
  unfold Cache.new
  apply Ends.ite
  · intro _
    exact ⟨rfl, by decide⟩
  · intro _
    apply Ends.ite
    · intro _
      exact ⟨rfl, by decide⟩
    · intro _
      apply Ends.ite
      · intro _
        exact ⟨rfl, by decide⟩
      · intro _
        rfl

theorem new_stops (u : Unset) (cfg : Config) (p : P) :
    Ends (new u cfg p) (BeforeEnd Ordinary) (Built cfg) := by
  unfold new
  apply Ends.bind (cacheNew_stops _ _ _ _ _)
  intro L3 _
  apply Ends.bind (cacheNew_stops _ _ _ _ _)
  intro L2 _
  apply Ends.bind (cacheNew_stops _ _ _ _ _)
  intro L1 hL1
  apply Ends.bind (cacheNew_stops _ _ _ _ _)
  intro IC _
  apply Ends.ite
  · intro _
    exact ⟨rfl, by decide⟩
  · intro _
    apply Ends.ite
    · intro _
      exact ⟨rfl, by decide⟩
    · intro _
      apply Ends.ite
      · intro _
        exact ⟨rfl, by decide⟩
      · intro _
        apply (endCurrentBeginNewEpoch_stops _ _ _ _).mono
        · intro e he
          exact absurd he.1 Bool.noConfusion
        · intro s hs
          obtain ⟨hcycle, hres⟩ := hs
          constructor
          · exact hcycle
          · rw [hres]
          · rw [hres]
          · rw [hres]
          · rw [hres]
          · rw [hres]
            exact hL1

/-- The rule for a run. -/
theorem simulate_keeps {u : Unset} {p : P} {insts : List DbInst} (hE : ∀ e, Ordinary e → E e)
    (start : ∀ s : Uarchsim P, Built cfg s → I s.fetchCycle s.res)
    (keeps : ∀ inst ∈ insts, Keeps cfg inst E I) (directed : ∀ inst ∈ insts, Directed cfg inst E) :
    Ends (simulate u cfg hk p insts) (Admits E) fun s => I s.fetchCycle s.res := by
  unfold simulate
  apply Ends.bind (ends_lift_admits ((new_stops u cfg p).mono (fun e he => hE e he.1) start))
  intro s hs
  have kept : ∀ (s : Uarchsim P) (inst : DbInst), inst ∈ insts → I s.fetchCycle s.res →
      Ends (s.step cfg hk inst) (Admits E) fun s' => I s'.fetchCycle s'.res := by
    intro s inst hinst hs
    exact step_keeps (keeps inst hinst) (directed inst hinst) hs
  exact Ends.foldlM kept hs

end Uarchsim

end CbpSim.Core
