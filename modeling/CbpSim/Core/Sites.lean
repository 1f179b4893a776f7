/-
  Core/Sites.lean --- where the resources can stop the program.

  One lemma for each function of the caches, the lanes and the prefetcher that
  `step` calls: the asserts it can fail, and what it leaves alone.  None of them
  writes the register file or fails an assert about the pipeline.  The scheduling of
  an instruction is told in full: `Scheduled` is what its cycles satisfy.
-/
import CbpSim.Core.Step
import CbpSim.Foundation.Outcome
import CbpSim.Memory.Timing

set_option autoImplicit false

namespace CbpSim.Core

open CbpSim.Foundation CbpSim.Lanes CbpSim.Memory

/-! ## Groups of asserts -/

/-- The asserts of the caches. -/
def ofCaches : Abort → Bool
  | .cacheIndex | .cacheMaxLru | .cacheVictimWay | .cacheLru => true
  | _ => false

/-- The asserts of the prefetcher. -/
def ofPrefetcher : Abort → Bool
  | .prefetchVictim | .prefetchInvalid => true
  | _ => false

/-- The asserts of the lanes. -/
def ofLanes : Abort → Bool
  | .scheduleStart | .tryScheduleStart | .advanceBaseCycle => true
  | _ => false

/-- The asserts of `step` about a load. -/
def ofLoads : Abort → Bool
  | .stepLoadCycle | .stepLoadLatency => true
  | _ => false

/-- The asserts of `step` about the direction of a branch. -/
def ofDirections : Abort → Bool
  | .stepBranchTaken | .stepTakenBranch | .stepMispredict => true
  | _ => false

/-- The asserts that a function of the resources can fail. -/
def ofResources (e : Abort) : Bool :=
  ofCaches e || ofPrefetcher e || ofLanes e || ofLoads e || e == .stepRegister ||
    e == .stepCycleRange || e == .stepTrack

/-- The asserts of the evaluation of a cycle. -/
def ofEvaluation : Abort → Bool
  | .evalDecodeLate | .evalDecodeCycle | .evalAqLate | .evalAqMem | .evalAqDecode | .evalAqExec
  | .evalExecLate | .evalExecCycle | .locateEntry => true
  | _ => false

/-- The asserts of the evaluation of a cycle, and the two of `step` about the
window. -/
def ofPipeline (e : Abort) : Bool :=
  ofEvaluation e || e == .stepWindowSize || e == .stepFrontRetire

/-- The program stopped at an assert that is not about the pipeline. -/
def Elsewhere (e : Abort) : Prop := ofPipeline e = false

/-- The program stopped at none of the asserts of the lanes, of a load or of a
direction. -/
def Ordinary (e : Abort) : Prop := (ofLanes e || ofLoads e || ofDirections e) = false

theorem ordinary_of_ofCaches {e : Abort} (h : ofCaches e = true) : Ordinary e := by
  cases e with
  | cacheIndex => rfl
  | cacheMaxLru => rfl
  | cacheVictimWay => rfl
  | cacheLru => rfl
  | _ => cases h

theorem ordinary_of_ofPrefetcher {e : Abort} (h : ofPrefetcher e = true) : Ordinary e := by
  cases e with
  | prefetchVictim => rfl
  | prefetchInvalid => rfl
  | _ => cases h

/-! ### Within the resources -/

theorem ofResources_of_ofCaches {e : Abort} (h : ofCaches e = true) : ofResources e = true := by
  simp [ofResources, h]

theorem ofResources_of_ofPrefetcher {e : Abort} (h : ofPrefetcher e = true) :
    ofResources e = true := by
  simp [ofResources, h]

theorem elsewhere_of_ofResources {e : Abort} (h : ofResources e = true) : Elsewhere e := by
  cases e with
  | evalDecodeLate => cases h
  | evalDecodeCycle => cases h
  | evalAqLate => cases h
  | evalAqMem => cases h
  | evalAqDecode => cases h
  | evalAqExec => cases h
  | evalExecLate => cases h
  | evalExecCycle => cases h
  | locateEntry => cases h
  | stepWindowSize => cases h
  | stepFrontRetire => cases h
  | _ => rfl

/-! ## Caches -/

theorem updateLru_stops (assoc : Nat) (ways : List Block) (mruWay : Nat) :
    Ends (Cache.updateLru assoc ways mruWay) (fun e => ofCaches e = true) fun _ => True := by
  unfold Cache.updateLru
  dsimp only
  split
  · rfl
  · trivial

theorem waysAt_stops (c : Cache) (index : Nat) :
    Ends (c.waysAt index) (fun e => ofCaches e = true) fun _ => True := by
  unfold Cache.waysAt
  split
  · rfl
  · trivial

theorem isHit_stops (c : Cache) (cycle addr : Nat) :
    Ends (c.isHit cycle addr) (fun e => ofCaches e = true) fun _ => True := by
  unfold Cache.isHit
  apply Ends.bind (waysAt_stops _ _)
  intro _ _
  split
  · trivial
  · trivial

theorem access_stops {σ : Type} (c : Cache) (below : σ) {next : Nat → Except Abort (Nat × σ)}
    (hnext : ∀ cycle, Ends (next cycle) (fun e => ofCaches e = true) fun _ => True)
    (cycle addr : Nat) (pf : Bool) :
    Ends (c.access below next cycle addr pf) (fun e => ofCaches e = true) fun _ => True := by
  unfold Cache.access
  dsimp only
  apply Ends.bind (waysAt_stops _ _)
  intro _ _
  split
  · apply Ends.bind (updateLru_stops _ _ _)
    intro _ _
    trivial
  · split
    · rfl
    · split
      · rfl
      · split
        · rfl
        · apply Ends.bind (hnext _)
          intro _ _
          apply Ends.bind (updateLru_stops _ _ _)
          intro _ _
          trivial

theorem accessLevels_stops (mainMemoryLatency : Nat) (levels : List Cache) (addr : Nat)
    (pf : Bool) : ∀ cycle,
      Ends (accessLevels mainMemoryLatency levels cycle addr pf) (fun e => ofCaches e = true)
        fun _ => True := by
  induction levels with
  | nil => intro cycle; trivial
  | cons c levels ih =>
    intro cycle
    rw [accessLevels]
    apply Ends.bind (access_stops c levels ih cycle addr pf)
    intro _ _
    trivial

namespace Resources

/-- Only the caches differ, and `L1` is as fast as it was. -/
structure CachesOnly (r r' : Resources) : Prop where
  frame : r' = { r with L1 := r'.L1, L2 := r'.L2, L3 := r'.L3, IC := r'.IC }
  latency : r'.L1.latency = r.L1.latency

theorem CachesOnly.refl (r : Resources) : r.CachesOnly r := ⟨rfl, rfl⟩

/-- `r` and `r'` have the same register file. -/
def SameRF (r r' : Resources) : Prop := r'.RF = r.RF

theorem CachesOnly.sameRF {r r' : Resources} (h : r.CachesOnly r') : r.SameRF r' := by
  rw [SameRF, h.frame]

/-- An access to `L1` answers after its latency. -/
theorem accessL1_stops (cfg : Config) (r : Resources) (cycle addr : Nat) (pf : Bool) :
    Ends (r.accessL1 cfg cycle addr pf) (fun e => ofCaches e = true) fun x =>
      cycle + r.L1.latency ≤ x.1 ∧ r.CachesOnly x.2 := by
  unfold accessL1
  apply Ends.bind ((Cache.accessLevels_latency _ _ _ _ _).and_right (accessLevels_stops _ _ _ _ _))
  rintro ⟨avail, levels⟩ ⟨⟨havail, hlevels⟩, _⟩
  dsimp only at hlevels ⊢
  split
  · obtain ⟨hL1, -⟩ := List.cons.inj hlevels
    exact ⟨havail, rfl, hL1⟩
  · exact ⟨havail, CachesOnly.refl r⟩

theorem accessIC_stops (cfg : Config) (r : Resources) (cycle addr : Nat) :
    Ends (r.accessIC cfg cycle addr) (fun e => ofCaches e = true) fun x =>
      cycle ≤ x.1 ∧ r.CachesOnly x.2 := by
  unfold accessIC
  apply Ends.bind ((Cache.accessLevels_latency _ _ _ _ _).and_right (accessLevels_stops _ _ _ _ _))
  rintro ⟨avail, levels⟩ ⟨⟨havail, _⟩, _⟩
  dsimp only
  split
  · exact ⟨(Nat.le_add_right _ _).trans havail, rfl, rfl⟩
  · exact ⟨(Nat.le_add_right _ _).trans havail, CachesOnly.refl r⟩

end Resources

/-! ## The prefetcher -/

theorem trainEntry_stops (e : RptEntry) (address : Nat) :
    Ends (e.train address) (fun a => ofPrefetcher a = true) fun _ => True := by
  unfold RptEntry.train
  dsimp only
  split
  case h_5 => rfl
  all_goals
    split
    · trivial
    · trivial

/-- Training leaves the queue alone. -/
theorem train_stops (p : StridePrefetcher) (pc address : Nat) :
    Ends (p.train pc address) (fun a => ofPrefetcher a = true) fun p' => p'.queue = p.queue := by
  unfold StridePrefetcher.train
  split
  · apply Ends.bind (Q := fun _ => True)
    · unfold StridePrefetcher.victimWay
      split
      · trivial
      · rfl
    · intro _ _
      rfl
  · apply Ends.bind (trainEntry_stops _ _)
    intro _ _
    dsimp only
    split
    · rfl
    · rfl

/-! ## The lanes -/

theorem schedule_stops (lanes : ResourceSchedule) (start maxDelta : Nat) :
    Ends (lanes.schedule start maxDelta)
      (fun e => e = .scheduleStart ∧ start < lanes.baseCycle) fun x =>
        x.1.baseCycle = lanes.baseCycle := by
  unfold ResourceSchedule.schedule
  split
  · rename_i hpast
    exact ⟨rfl, hpast⟩
  · exact (ResourceSchedule.scheduleLoop_frame _ _ _ _).1

/-- A slot is never before the cycle asked for. -/
theorem le_schedule {lanes lanes' : ResourceSchedule} {start cycle : Nat}
    (h : lanes.schedule start maxCycle = .ok (lanes', cycle)) (hlt : cycle < maxCycle) :
    start ≤ cycle := by
  unfold ResourceSchedule.schedule at h
  split at h
  · cases h
  · rw [ResourceSchedule.limitCycle, if_pos rfl] at h
    dsimp only at h
    rcases Nat.le_total start maxCycle with hstart | hstart
    · have hle := ResourceSchedule.le_scheduleLoop le_rfl (maxCycle - start + 1) lanes start hstart
      rw [Except.ok.inj h] at hle
      exact hle
    · -- past the last cycle one probe is left, and it answers `start` or no slot
      rw [Nat.sub_eq_zero_of_le hstart] at h
      simp only [ResourceSchedule.scheduleLoop] at h
      split at h
      · cases h
        exact le_rfl
      · split at h
        · cases h
          exact absurd hlt (lt_irrefl _)
        · cases h
          exact absurd hlt (lt_irrefl _)

theorem scheduleLane_stops (lanes : ResourceSchedule) (start : Nat) :
    Ends (scheduleLane lanes start)
      (fun e => e = .scheduleStart ∧ start < lanes.baseCycle ∨ e = .stepCycleRange) fun x =>
        x.1.baseCycle = lanes.baseCycle ∧ start ≤ x.2 := by
  unfold scheduleLane
  apply Ends.bind ((schedule_stops lanes start maxCycle).returns.mono (fun _ => Or.inl) fun _ h => h)
  rintro ⟨lanes', cycle⟩ hschedule
  dsimp only
  split
  · rename_i hlt
    exact ⟨(schedule_stops lanes start maxCycle).of_ok hschedule, le_schedule hschedule hlt⟩
  · exact Or.inr rfl

theorem trySchedule_stops (lanes : ResourceSchedule) (cycle : Nat) :
    Ends (lanes.trySchedule cycle) (fun e => e = .tryScheduleStart) fun _ => True := by
  unfold ResourceSchedule.trySchedule
  split
  · rfl
  · trivial

theorem advanceBaseCycle_stops (lanes : ResourceSchedule) (newBase : Nat) :
    Ends (lanes.advanceBaseCycle newBase)
      (fun e => e = .advanceBaseCycle ∧ newBase < lanes.baseCycle) fun lanes' =>
        lanes'.baseCycle = newBase := by
  unfold ResourceSchedule.advanceBaseCycle
  split
  · rename_i hpast
    exact ⟨rfl, hpast⟩
  · rfl

/-! ## The sources -/

/-- A check of an operand gives a cycle that is not before the one it was given,
nor before the register, unless the register it compares is `RFZERO`. -/
theorem operandReady_stops (RF : Nat → Nat) (op guard : DbOperand) (execCycle : Nat) :
    Ends (operandReady RF op guard execCycle) (fun e => e = .stepRegister) fun c =>
      execCycle ≤ c ∧ (op.valid → guard.logReg ≠ rfZero → RF op.logReg ≤ c) := by
  unfold operandReady
  split
  · rename_i hvalid
    refine ⟨le_rfl, ?_⟩
    intro hop
    rw [hop] at hvalid
    cases hvalid
  · split
    · rfl
    · split
      · exact ⟨le_max_left _ _, fun _ _ => le_max_right _ _⟩
      · rename_i hguard
        refine ⟨le_rfl, ?_⟩
        intro _ hne
        exact absurd hne hguard

/-- The source operands. -/
def operands (inst : DbInst) : List DbOperand := [inst.A, inst.B, inst.C]

theorem sourcesReady_stops (RF : Nat → Nat) (inst : DbInst) (execCycle : Nat) :
    Ends (sourcesReady RF inst execCycle) (fun e => e = .stepRegister) fun c =>
      execCycle ≤ c ∧ (inst.A.logReg ≠ rfZero →
        ∀ op ∈ operands inst, op.valid → RF op.logReg ≤ c) := by
  unfold sourcesReady
  apply Ends.bind (operandReady_stops RF inst.A inst.A execCycle)
  rintro c₁ ⟨h₁, hA⟩
  apply Ends.bind (operandReady_stops RF inst.B inst.A c₁)
  rintro c₂ ⟨h₂, hB⟩
  apply (operandReady_stops RF inst.C inst.A c₂).imp
  rintro c₃ ⟨h₃, hC⟩
  refine ⟨(h₁.trans h₂).trans h₃, ?_⟩
  intro hne op hop hvalid
  simp only [operands, List.mem_cons, List.not_mem_nil, or_false] at hop
  rcases hop with rfl | rfl | rfl
  · exact ((hA hvalid hne).trans h₂).trans h₃
  · exact (hB hvalid hne).trans h₃
  · exact hC hvalid hne

namespace Resources

/-- The prefetcher may queue a prefetch when a load is executed. -/
theorem trainPrefetcher_stops (cfg : Config) (r : Resources) (fetchCycle : Nat) (inst : DbInst) :
    Ends (r.trainPrefetcher cfg fetchCycle inst) (fun e => ofPrefetcher e = true) fun r' =>
      r' = { r with prefetcher := r'.prefetcher } ∧
        (r'.prefetcher.queue = r.prefetcher.queue ∨
          r'.prefetcher.queue =
            (r.prefetcher.lookahead (inst.pc >>> 2) fetchCycle).queue) := by
  unfold trainPrefetcher
  split
  · apply Ends.bind (train_stops _ _ _)
    intro prefetcher hqueue
    exact ⟨rfl, Or.inr hqueue⟩
  · exact ⟨rfl, Or.inl rfl⟩

/-! ## The functions of the resources -/

theorem getLoadExecCycle_stops (cfg : Config) (r : Resources) (fetchCycle : Nat)
    (inst : DbInst) :
    Ends (r.getLoadExecCycle cfg fetchCycle inst) (fun e => ofResources e = true) fun x =>
      r.SameRF x.2 := by
  unfold getLoadExecCycle
  apply Ends.bind ((sourcesReady_stops r.RF inst _).mono (fun e he => he ▸ rfl) fun _ h => h)
  intro start _
  apply Ends.bind ((trySchedule_stops r.ldstLanes start).mono (fun e he => he ▸ rfl) fun _ h => h)
  intro _ _
  rfl

/-- Looking for a block asks caches for it until one has it. -/
theorem searchCaches_stops (r : Resources) (cycle addr : Nat) :
    Ends (r.searchCaches cycle addr) (fun e => ofCaches e = true) fun _ => True := by
  unfold searchCaches
  apply Ends.bind (isHit_stops _ _ _)
  intro l1 _
  apply Ends.ite
  · exact fun _ => trivial
  · intro _
    apply Ends.bind (isHit_stops _ _ _)
    intro l2 _
    apply Ends.ite
    · exact fun _ => trivial
    · intro _
      apply Ends.bind (isHit_stops _ _ _)
      intro l3 _
      apply Ends.ite
      · exact fun _ => trivial
      · exact fun _ => trivial

theorem getValuePredictionReq_stops (cfg : Config) (r : Resources)
    (fetchCycle seqNo piece : Nat) (inst : DbInst) :
    Ends (r.getValuePredictionReq cfg fetchCycle seqNo piece inst)
      (fun e => ofResources e = true) fun x => r.SameRF x.2 := by
  unfold getValuePredictionReq
  split
  · rfl
  · rfl
  · apply Ends.ite
    · intro _
      rfl
    · intro _
      apply Ends.bind (getLoadExecCycle_stops cfg r fetchCycle inst)
      rintro ⟨execCycle, r'⟩ hr
      apply Ends.bind ((searchCaches_stops r' execCycle inst.addr).mono
        (fun e => ofResources_of_ofCaches) fun _ h => h)
      intro _ _
      exact hr
  · rfl

/-- A load is done two cycles after its lane at the earliest. -/
theorem executeLoad_stops (cfg : Config) (r : Resources) (fetchCycle laneCycle : Nat)
    (inst : DbInst) :
    Ends (r.executeLoad cfg fetchCycle laneCycle inst) (fun e => ofResources e = true) fun x =>
      laneCycle + 2 ≤ x.1 ∧ r.SameRF x.2.2 := by
  unfold executeLoad
  apply Ends.bind ((trainPrefetcher_stops cfg r fetchCycle inst).mono
    (fun e => ofResources_of_ofPrefetcher) fun _ h => h)
  rintro r₁ ⟨h₁, -⟩
  have hr₁ : r.SameRF r₁ := by rw [SameRF, h₁]
  apply Ends.bind (Q := fun x => r₁.SameRF x.2)
  · apply Ends.ite
    · intro _
      rfl
    · intro _
      exact (accessL1_stops cfg r₁ _ _ _).mono (fun e => ofResources_of_ofCaches)
        fun _ h => h.2.sameRF
  · rintro ⟨dataCacheCycle, r₂⟩ h₂
    apply Ends.ite
    · intro _
      rfl
    · intro hcycle
      apply Ends.ite
      · intro _
        rfl
      · intro _
        exact ⟨not_not.mp hcycle, Eq.trans h₂ hr₁⟩

end Resources

/-- What the scheduling of an instruction guarantees about its cycles. -/
structure Scheduled (cfg : Config) (RF : Nat → Nat) (fetchCycle : Nat) (inst : DbInst)
    (t : Timing) : Prop where
  filled : fetchCycle + cfg.pipelineFillLatency ≤ t.laneCycle
  ready : inst.A.logReg ≠ rfZero → ∀ op ∈ operands inst, op.valid → RF op.logReg ≤ t.laneCycle
  agen : inst.insnClass.isMem → t.agenCycle = t.laneCycle + 1
  load : inst.isLoad → t.laneCycle + 2 ≤ t.execCycle
  fixed : inst.isLoad = false → t.execCycle = t.laneCycle + fixedLatency cfg inst.insnClass

namespace Resources

theorem execute_stops (cfg : Config) (r : Resources) (fetchCycle : Nat) (inst : DbInst) :
    Ends (r.execute cfg fetchCycle inst) (fun e => ofResources e = true) fun x =>
      Scheduled cfg r.RF fetchCycle inst x.1 ∧ r.SameRF x.2 := by
  have lane : ∀ (lanes : ResourceSchedule) (start : Nat),
      Ends (scheduleLane lanes start) (fun e => ofResources e = true) fun x => start ≤ x.2 := by
    intro lanes start
    apply (scheduleLane_stops lanes start).mono
    · rintro e (⟨rfl, -⟩ | rfl)
      · rfl
      · rfl
    · exact fun _ h => h.2
  unfold execute
  apply Ends.bind ((sourcesReady_stops r.RF inst _).mono (fun e he => he ▸ rfl) fun _ h => h)
  rintro start ⟨hfill, hready⟩
  apply Ends.bind (Q := fun x => start ≤ x.1 ∧ r.SameRF x.2)
  · apply Ends.ite
    · intro _
      apply Ends.bind (lane r.ldstLanes start)
      rintro ⟨lanes, cycle⟩ hcycle
      exact ⟨hcycle, rfl⟩
    · intro _
      apply Ends.bind (lane r.aluLanes start)
      rintro ⟨lanes, cycle⟩ hcycle
      exact ⟨hcycle, rfl⟩
  · rintro ⟨laneCycle, r₁⟩ ⟨hlane, h₁⟩
    have hready' : inst.A.logReg ≠ rfZero → ∀ op ∈ operands inst, op.valid →
        r.RF op.logReg ≤ laneCycle :=
      fun hne op hop hvalid => (hready hne op hop hvalid).trans hlane
    apply Ends.ite
    · intro hload
      apply Ends.bind (executeLoad_stops cfg r₁ fetchCycle laneCycle inst)
      rintro ⟨execCycle, sqMiss, r₂⟩ ⟨hexec, h₂⟩
      exact ⟨{ filled := hfill.trans hlane
               ready := hready'
               agen := fun hmem => if_pos hmem
               load := fun _ => hexec
               fixed := fun h => absurd (hload.symm.trans h) Bool.noConfusion },
        Eq.trans h₂ h₁⟩
    · intro hload
      exact ⟨{ filled := hfill.trans hlane
               ready := hready'
               agen := fun hmem => if_pos hmem
               load := fun h => absurd h hload
               fixed := fun _ => rfl }, h₁⟩

theorem issuePrefetch_stops (cfg : Config) (pf : Prefetch) (n cycle : Nat) (r : Resources) :
    Ends (issuePrefetch cfg pf n cycle r) (fun e => ofResources e = true) fun x =>
      r.SameRF x.2 := by
  induction n generalizing cycle r with
  | zero => rfl
  | succ n ih =>
    rw [issuePrefetch]
    apply Ends.bind ((schedule_stops r.ldstLanes cycle 0).mono (fun e he => he.1 ▸ rfl)
      fun _ _ => trivial)
    rintro ⟨lanes, execCycle⟩ _
    apply Ends.ite
    · intro _
      apply Ends.bind ((accessL1_stops cfg _ execCycle pf.address true).mono
        (fun e => ofResources_of_ofCaches) fun _ h => h.2.sameRF)
      rintro ⟨avail, r'⟩ hr
      exact hr
    · intro _
      exact ih _ _

theorem drainPrefetches_stops (cfg : Config) (previousFetchCycle fetchCycle n : Nat)
    (r : Resources) :
    Ends (drainPrefetches cfg previousFetchCycle fetchCycle n r) (fun e => ofResources e = true)
      fun x => r.SameRF x.2 := by
  induction n generalizing r with
  | zero => rfl
  | succ n ih =>
    rw [drainPrefetches]
    split
    · rfl
    · apply Ends.bind (issuePrefetch_stops cfg _ _ _ _)
      rintro ⟨issued, r₁⟩ h₁
      apply Ends.ite
      · intro _
        apply Ends.bind (ih r₁)
        rintro ⟨count, r₂⟩ h₂
        exact Eq.trans h₂ h₁
      · intro _
        exact h₁

theorem updateSQ_stops (cfg : Config) (r : Resources) (inst : DbInst)
    (execCycle retired : Nat) :
    Ends (r.updateSQ cfg inst execCycle retired) (fun e => ofResources e = true) r.SameRF := by
  unfold updateSQ
  apply Ends.ite
  · intro _
    rfl
  · intro _
    apply Ends.bind (Q := fun x => r.SameRF x.2)
    · apply Ends.ite
      · intro _
        rfl
      · intro _
        exact (accessL1_stops cfg r _ _ _).mono (fun e => ofResources_of_ofCaches)
          fun _ h => h.2.sameRF
    · rintro ⟨dataCacheCycle, r₁⟩ h₁
      exact h₁

end Resources

end CbpSim.Core
