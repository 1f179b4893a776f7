/-
  Core/Directions.lean --- the direction of a branch, at fetch and at resolve.

  Source: src/lib/bp.cc, `bp_t::predict`; src/lib/uarchsim.cc,
  `populate_exec_info`, `update_pred_taken` and the constraint on a taken branch.

  `bp_t::predict` takes a conditional branch as taken when its next program counter
  is not `pc + 4`, and the rest of the simulator when the trace says so.  The two
  differ on a branch that is taken to `pc + 4`, and on no other piece that the
  reader builds.
-/
import CbpSim.Core.Hearing
import CbpSim.Core.Upkeep
import CbpSim.Core.Window
import CbpSim.Trace.Format
import CbpSim.Trace.Loop

set_option autoImplicit false

namespace CbpSim.Core

open CbpSim.Foundation

variable {P H : Type}

/-! ## The calls about a direction -/

/-- A call of the predictors that is given or returns the direction of a branch. -/
inductive DirectionCall where
  /-- `get_cond_dir_prediction` returned `dir` -/
  | predicted (seqNo piece : Nat) (dir : Bool)
  /-- `spec_update` -/
  | updated (seqNo piece : Nat) (insnClass : InstClass) (resolveDir predDir : Bool)
  /-- `notify_instr_execute_resolve` -/
  | resolved (seqNo piece : Nat) (insnClass : InstClass) (predDir : Bool) (taken : Option Bool)
  deriving DecidableEq, Repr

/-- The number of the instruction that the call is about. -/
def DirectionCall.seqNo : DirectionCall → Nat
  | .predicted seqNo _ _ => seqNo
  | .updated seqNo _ _ _ _ => seqNo
  | .resolved seqNo _ _ _ _ => seqNo

/-- The predictors, with a log of the calls about a direction. -/
abbrev Logged (P : Type) : Type := P × List DirectionCall

/-- The same hooks, which write the calls about a direction into the log. -/
def logged (hk : Hooks P H) : Hooks (Logged P) H where
  notifyInstrFetch p seqNo piece pc c := logging (hk.notifyInstrFetch p.1 seqNo piece pc c) p.2
  getCondDirPrediction p seqNo piece pc c c' c'' :=
    loggingResult (hk.getCondDirPrediction p.1 seqNo piece pc c c' c'') fun dir =>
      p.2 ++ [DirectionCall.predicted seqNo piece dir]
  specUpdate p seqNo piece pc insnClass resolveDir predDir nextPc :=
    logging (hk.specUpdate p.1 seqNo piece pc insnClass resolveDir predDir nextPc)
      (p.2 ++ [.updated seqNo piece insnClass resolveDir predDir])
  notifyInstrDecode p seqNo piece pc info c :=
    logging (hk.notifyInstrDecode p.1 seqNo piece pc info c) p.2
  notifyAgenComplete p seqNo piece pc info va sz c :=
    logging (hk.notifyAgenComplete p.1 seqNo piece pc info va sz c) p.2
  notifyInstrExecuteResolve p seqNo piece pc predDir info c :=
    logging (hk.notifyInstrExecuteResolve p.1 seqNo piece pc predDir info c)
      (p.2 ++ [.resolved seqNo piece info.decInfo.insnClass predDir info.taken])
  notifyInstrCommit p seqNo piece pc predDir info c :=
    logging (hk.notifyInstrCommit p.1 seqNo piece pc predDir info c) p.2
  getPrediction p request := loggingResult (hk.getPrediction p.1 request) fun _ => p.2
  speculativeUpdate p update := logging (hk.speculativeUpdate p.1 update) p.2
  updatePredictor p seqNo addr value latency :=
    logging (hk.updatePredictor p.1 seqNo addr value latency) p.2
  ittageGetPrediction p pc := loggingResult (hk.ittageGetPrediction p.1 pc) fun _ => p.2
  ittageUpdatePredictor p pc nextPc := logging (hk.ittageUpdatePredictor p.1 pc nextPc) p.2
  ittageTrackOtherInst p pc nextPc := logging (hk.ittageTrackOtherInst p.1 pc nextPc) p.2
  randR := hk.randR

section Logged

variable {hk : Hooks P H}

/-- The log stays. -/
def SameCalls (p p' : Logged P) : Prop := p'.2 = p.2

theorem getCondDirPrediction_logs (p : Logged P) (seqNo piece pc c c' c'' : Nat) :
    Ends ((logged hk).getCondDirPrediction p seqNo piece pc c c' c'') (fun _ => True) fun y =>
      y.2.2 = p.2 ++ [.predicted seqNo piece y.1] :=
  loggingResult_ends (hk.getCondDirPrediction p.1 seqNo piece pc c c' c'') fun dir =>
    p.2 ++ [DirectionCall.predicted seqNo piece dir]

theorem ittageGetPrediction_logs (p : Logged P) (pc : Nat) :
    Ends ((logged hk).ittageGetPrediction p pc) (fun _ => True) fun y => SameCalls p y.2 :=
  loggingResult_ends (hk.ittageGetPrediction p.1 pc) fun _ => p.2

theorem getPrediction_logs (p : Logged P) (request : PredictionRequest) :
    Ends ((logged hk).getPrediction p request) (fun _ => True) fun y => SameCalls p y.2 :=
  loggingResult_ends (hk.getPrediction p.1 request) fun _ => p.2

/-- The notifications other than that of the execution are not in the log. -/
theorem logged_steady (hk : Hooks P H) :
    Pipeline.Steady (logged hk) (fun _ => True) SameCalls where
  refl _ := rfl
  trans h h' := h'.trans h
  abort _ _ := trivial
  decode _ _ _ _ _ _ := logging_ends _ _
  agen _ _ _ _ _ _ _ _ := logging_ends _ _
  commit _ _ _ _ _ _ _ := logging_ends _ _
  update _ _ _ _ _ := logging_ends _ _

end Logged

/-! ## The evaluation of cycles -/

/-- What is called when the instruction executes. -/
def WindowEntry.resolution (w : WindowEntry) : DirectionCall :=
  .resolved w.seqNo w.piece w.execInfo.decInfo.insnClass w.predTaken w.execInfo.taken

namespace Pipeline

variable {cfg : Config} {hk : Hooks P H} {cycle : Nat}

/-- From `p` to `p'` instructions left the window and some of its instructions
executed. -/
structure Resolves (p p' : Pipeline (Logged P)) : Prop where
  window : p'.window ⊆ p.window
  kept : p.hooks.2 ⊆ p'.hooks.2
  calls : ∀ call ∈ p'.hooks.2, call ∈ p.hooks.2 ∨ ∃ w ∈ p.window, call = w.resolution

theorem Resolves.refl (p : Pipeline (Logged P)) : p.Resolves p :=
  ⟨List.Subset.refl _, List.Subset.refl _, fun _ h => Or.inl h⟩

theorem Resolves.trans {p₁ p₂ p₃ : Pipeline (Logged P)} (h : p₁.Resolves p₂)
    (h' : p₂.Resolves p₃) : p₁.Resolves p₃ where
  window := List.Subset.trans h'.window h.window
  kept := List.Subset.trans h.kept h'.kept
  calls := by
    intro call hcall
    rcases h'.calls call hcall with hcall | ⟨w, hw, rfl⟩
    · exact h.calls call hcall
    · exact Or.inr ⟨w, h.window hw, rfl⟩

/-- A stage that does not execute instructions. -/
theorem Resolves.of_same {p p' : Pipeline (Logged P)} (hwindow : p'.window ⊆ p.window)
    (hcalls : SameCalls p.hooks p'.hooks) : p.Resolves p' where
  window := hwindow
  kept := hcalls ▸ List.Subset.refl _
  calls := by
    rw [hcalls]
    exact fun _ h => Or.inl h

theorem locateEntryInWindow_mem {p : Pipeline P} {seqNo piece : Nat} {w : WindowEntry}
    (h : p.locateEntryInWindow seqNo piece = .ok w) : w ∈ p.window := by
  unfold locateEntryInWindow at h
  split at h
  · rename_i w' hfind
    split at h
    · cases h
      exact List.mem_of_find?_eq_some hfind
    · cases h
  · cases h

theorem notifyExecute_resolves (q : QueueEntry) (p : Pipeline (Logged P)) :
    Ends (notifyExecute (logged hk) cycle q p) (fun _ => True) p.Resolves := by
  unfold notifyExecute
  apply Ends.bind (Q := fun w => w ∈ p.window)
  · cases hw : p.locateEntryInWindow q.seqNo q.piece with
    | ok w => exact locateEntryInWindow_mem hw
    | error e => trivial
  intro w hw
  apply Ends.ite
  · intro _
    trivial
  · intro _
    apply Ends.bind (ends_mapError.mpr (logging_ends _ _))
    intro hooks hhooks
    exact {
      window := List.Subset.refl _
      kept := by
        rw [deliver, hhooks]
        exact List.subset_append_left _ _
      calls := by
        rw [deliver, hhooks]
        intro call hcall
        rcases List.mem_append.mp hcall with hcall | hcall
        · exact Or.inl hcall
        · exact Or.inr ⟨w, hw, List.mem_singleton.mp hcall⟩ }

/-- The loop of `eval_exec`. -/
theorem evalExecLoop_resolves (queue : List QueueEntry) (p : Pipeline (Logged P)) :
    Ends (evalQueue (notifyExecute (logged hk) cycle) .evalExecLate cycle queue p)
      (fun _ => True) fun x => p.Resolves x.2 := by
  induction queue generalizing p with
  | nil => exact Resolves.refl p
  | cons q queue ih =>
    rw [evalQueue]
    apply Ends.ite
    · intro _
      trivial
    · intro _
      apply Ends.ite
      · intro _
        apply Ends.bind (notifyExecute_resolves q p)
        intro p' hp'
        exact (ih p').imp fun _ => hp'.trans
      · intro _
        apply Ends.bind (ih p)
        intro x hx
        exact hx

theorem evalRetireLoop_window (window : List WindowEntry) (p : Pipeline P) :
    Ends (evalRetireLoop cfg hk cycle window p) (fun _ => True) fun x => x.1 ⊆ window := by
  induction window generalizing p with
  | nil => exact List.Subset.refl _
  | cons w window ih =>
    rw [evalRetireLoop]
    apply Ends.ite
    · intro _
      apply Ends.bind (Ends.of_any fun _ => trivial)
      intro p' _
      exact (ih p').imp fun _ h => List.Subset.trans h (List.subset_cons_self _ _)
    · intro _
      exact List.Subset.refl _

theorem evalCycle_resolves (p : Pipeline (Logged P)) :
    Ends (p.evalCycle cfg (logged hk) cycle) (fun _ => True) p.Resolves := by
  have steady := logged_steady hk
  have told : ∀ {p p' : Pipeline (Logged P)}, p.OnlyTells p' → p'.window = p.window := by
    rintro p _ ⟨events, hooks, rfl⟩
    rfl
  unfold evalCycle
  apply Ends.bind (Q := p.Resolves)
  · apply Ends.bind (((evalDecodeLoop_frame p.DQ p).mono (fun _ _ => trivial) fun _ h => h).and_right
      (steady.evalDecodeLoop p.DQ p))
    rintro ⟨queue, p'⟩ ⟨htells, hcalls⟩
    exact .of_same (told htells ▸ List.Subset.refl _) hcalls
  intro p₁ h₁
  apply Ends.bind (Q := p.Resolves)
  · apply Ends.bind (((evalQueue_frame ⟨by simp, by simp⟩ notifyAgen_ends p₁.AQ p₁).mono
      (fun _ _ => trivial) fun _ h => h).and_right (steady.evalQueue rfl steady.notifyAgen p₁.AQ p₁))
    rintro ⟨queue, p'⟩ ⟨htells, hcalls⟩
    exact h₁.trans (.of_same (told htells ▸ List.Subset.refl _) hcalls)
  intro p₂ h₂
  apply Ends.bind (Q := p.Resolves)
  · apply Ends.bind (evalExecLoop_resolves p₂.EQ p₂)
    rintro ⟨queue, p'⟩ hp'
    exact h₂.trans ⟨hp'.window, hp'.kept, hp'.calls⟩
  intro p₃ h₃
  apply Ends.bind (Q := p.Resolves)
  · apply Ends.bind ((evalRetireLoop_window p₃.window p₃).and_right
      (steady.evalRetireLoop cfg p₃.window p₃))
    rintro ⟨window, p'⟩ ⟨hwindow, hcalls⟩
    exact h₃.trans (.of_same hwindow hcalls)
  intro p₄ h₄
  exact ⟨h₄.window, h₄.kept, h₄.calls⟩

theorem catchUp_resolves (first last : Nat) (p : Pipeline (Logged P)) :
    Ends (p.catchUp cfg (logged hk) first last) (fun _ => True) p.Resolves :=
  catchUp_steps Resolves.refl Resolves.trans (fun _ => evalCycle_resolves) first last p

end Pipeline

/-! ## The prediction of a branch -/

/-- The direction of a conditional branch, as `bp_t::predict` decides it. -/
def fetchDir (inst : DbInst) : Bool := inst.nextPc != (inst.pc + 4) % 2 ^ 64

/-- The direction of a branch is the same at fetch and in the trace. -/
structure SameDirection (inst : DbInst) : Prop where
  cond : inst.insnClass = .condBranch → fetchDir inst = inst.isTaken
  uncond : inst.insnClass.isUncondBr = true → inst.isTaken = true

/-- **Where the two directions are the same**: on every piece that the reader builds,
unless it is a conditional branch that is taken to `pc + 4`. -/
theorem sameDirection_of_readable {inst : DbInst} (h : inst.Readable)
    (hfar : inst.insnClass = .condBranch → inst.isTaken = true →
      inst.nextPc ≠ (inst.pc + 4) % 2 ^ 64) : SameDirection inst where
  cond := by
    intro hclass
    cases htaken : inst.isTaken with
    | true => exact bne_iff_ne.mpr (hfar hclass htaken)
    | false => exact bne_eq_false_iff_eq.mpr (h.fallsThrough htaken)
  uncond := h.uncond

/-- What a call made at the fetch of `inst` says, which is mispredicted or not. -/
def DirectionCall.Fits (cfg : Config) (inst : DbInst) (misp : Bool) : DirectionCall → Prop
  | .predicted _ _ dir => inst.insnClass = .condBranch ∧
      (cfg.mispReductionPerc = 0 → misp = (dir != inst.isTaken))
  | .updated _ _ _ resolveDir _ => inst.insnClass.isBr = true ∧ resolveDir = inst.isTaken
  | .resolved _ _ _ _ _ => False

/-- The calls made for the prediction of `inst`. -/
structure Asks (cfg : Config) (seqNo piece : Nat) (inst : DbInst) (misp : Bool)
    (calls : List DirectionCall) : Prop where
  number : ∀ call ∈ calls, call.seqNo = seqNo
  fits : ∀ call ∈ calls, call.Fits cfg inst misp
  asked : cfg.perfectBranchPred = false → inst.insnClass.isBr = true →
    ∃ predDir, .updated seqNo piece inst.insnClass inst.isTaken predDir ∈ calls

theorem Asks.nothing (cfg : Config) (seqNo piece : Nat) {inst : DbInst} (misp : Bool)
    (h : cfg.perfectBranchPred = false → inst.insnClass.isBr = false) :
    Asks cfg seqNo piece inst misp [] where
  number _ hcall := absurd hcall List.not_mem_nil
  fits _ hcall := absurd hcall List.not_mem_nil
  asked hoff hbr := absurd ((h hoff).symm.trans hbr) Bool.false_ne_true

/-- An unconditional branch is told to `spec_update` only. -/
theorem Asks.uncond (cfg : Config) (seqNo piece : Nat) {inst : DbInst} (misp : Bool)
    (hdir : SameDirection inst) (hclass : inst.insnClass.isUncondBr = true) :
    Asks cfg seqNo piece inst misp [.updated seqNo piece inst.insnClass true true] := by
  have htaken := hdir.uncond hclass
  have hbr : inst.insnClass.isBr = true := by
    simp only [InstClass.isUncondBr, Bool.and_eq_true] at hclass
    exact hclass.1
  constructor
  · intro call hcall
    rw [List.mem_singleton.mp hcall]
    rfl
  · intro call hcall
    rw [List.mem_singleton.mp hcall]
    exact ⟨hbr, htaken.symm⟩
  · intro _ _
    rw [htaken]
    exact ⟨true, List.mem_singleton_self _⟩

namespace Bp

variable {cfg : Config} {hk : Hooks P H} {b : Bp} {p : Logged P} {seqNo piece : Nat}
  {inst : DbInst}

theorem predictCond_asks (hdir : SameDirection inst) (hclass : inst.insnClass = .condBranch)
    (predCycle fetchCycle execCycle : Nat) :
    Ends (b.predictCond cfg (logged hk) p seqNo piece inst predCycle fetchCycle execCycle)
      (fun _ => True) fun x =>
        ∃ calls, x.2.2.2 = p.2 ++ calls ∧ Asks cfg seqNo piece inst x.1 calls := by
  have hsame : (inst.nextPc != (inst.pc + 4) % 2 ^ 64) = inst.isTaken := hdir.cond hclass
  have hbr : inst.insnClass.isBr = true := by rw [hclass]; rfl
  unfold predictCond
  dsimp only
  rw [hsame]
  apply Ends.bind (ends_mapError.mpr (getCondDirPrediction_logs p _ _ _ _ _ _))
  rintro ⟨dir, p₁⟩ h₁
  dsimp only at h₁ ⊢
  generalize hflip : (if cfg.mispReductionPerc != 0 && dir != inst.isTaken then
    flipMispred cfg (logged hk) b.mispredCorrectionSeed else (false, b.mispredCorrectionSeed)) = flip
  have hperc : cfg.mispReductionPerc = 0 → flip.1 = false := by
    intro hzero
    rw [← hflip, hzero]
    rfl
  apply Ends.bind (ends_mapError.mpr (logging_ends _ _))
  intro p₂ h₂
  refine ⟨[.predicted seqNo piece dir, .updated seqNo piece inst.insnClass inst.isTaken
    (if flip.1 = true then inst.isTaken else dir)], ?_, ?_⟩
  · rw [h₂, h₁, List.append_assoc]
    rfl
  · constructor
    · simp [DirectionCall.seqNo]
    · simp only [List.mem_cons, List.not_mem_nil, or_false, forall_eq_or_imp, forall_eq,
        DirectionCall.Fits]
      refine ⟨⟨hclass, ?_⟩, hbr, trivial⟩
      intro hzero
      rw [hperc hzero]
      simp
    · intro _ _
      exact ⟨_, List.mem_cons_of_mem _ List.mem_cons_self⟩

theorem predictDirect_asks (hdir : SameDirection inst)
    (hclass : inst.insnClass.isUncondBr = true) :
    Ends (b.predictDirect cfg (logged hk) p seqNo piece inst) (fun _ => True) fun x =>
      ∃ calls, x.2.2.2 = p.2 ++ calls ∧ Asks cfg seqNo piece inst x.1 calls := by
  unfold predictDirect
  apply Ends.bind (ends_mapError.mpr (logging_ends _ _))
  intro p₁ h₁
  apply Ends.bind (Q := SameCalls p₁)
  · apply Ends.ite
    · intro _
      rfl
    · intro _
      exact ends_mapError.mpr (logging_ends _ _)
  · intro p₂ h₂
    exact ⟨_, h₂.trans h₁, Asks.uncond cfg seqNo piece false hdir hclass⟩

theorem predictIndirect_asks (hdir : SameDirection inst)
    (hclass : inst.insnClass.isUncondBr = true) :
    Ends (b.predictIndirect cfg (logged hk) p seqNo piece inst) (fun _ => True) fun x =>
      ∃ calls, x.2.2.2 = p.2 ++ calls ∧ Asks cfg seqNo piece inst x.1 calls := by
  unfold predictIndirect
  apply Ends.bind (Q := fun x => SameCalls p x.2)
  · apply Ends.ite
    · intro _
      rfl
    · intro _
      apply Ends.bind (ends_mapError.mpr (ittageGetPrediction_logs p _))
      rintro ⟨target, p₁⟩ h₁
      apply Ends.bind (ends_mapError.mpr (logging_ends _ _))
      intro p₂ h₂
      exact h₂.trans h₁
  · rintro ⟨misp, p₁⟩ h₁
    apply Ends.bind (ends_mapError.mpr (logging_ends _ _))
    intro p₂ h₂
    refine ⟨_, ?_, Asks.uncond cfg seqNo piece misp hdir hclass⟩
    rw [← h₁]
    exact h₂

/-- The calls of `bp_t::predict`. -/
theorem predict_asks (hdir : SameDirection inst) (predCycle fetchCycle execCycle : Nat) :
    Ends (b.predict cfg (logged hk) p seqNo piece inst predCycle fetchCycle execCycle)
      (fun _ => True) fun x =>
        ∃ calls, x.2.2.2 = p.2 ++ calls ∧ Asks cfg seqNo piece inst x.1 calls := by
  unfold predict
  split
  case h_1 hclass => exact predictCond_asks hdir hclass _ _ _
  case h_2 hclass => exact predictDirect_asks hdir (by rw [hclass]; rfl)
  case h_3 hclass => exact predictDirect_asks hdir (by rw [hclass]; rfl)
  case h_4 hclass => exact predictIndirect_asks hdir (by rw [hclass]; rfl)
  case h_5 hclass => exact predictIndirect_asks hdir (by rw [hclass]; rfl)
  case h_6 hclass => exact predictIndirect_asks hdir (by rw [hclass]; rfl)
  case h_7 hcond hdirect hcall hindirect hcallind hret =>
    refine ⟨[], (List.append_nil _).symm, Asks.nothing cfg seqNo piece _ ?_⟩
    intro _
    cases hclass : inst.insnClass <;> simp_all [InstClass.isBr]

end Bp

/-! ## The invariant -/

/-- The calls so far agree with each other and with the window: what a branch was
resolved with is what `spec_update` was given, and the window remembers what was
predicted. -/
structure Agree (cfg : Config) (window : List WindowEntry) (calls : List DirectionCall) :
    Prop where
  resolved : ∀ {seqNo piece c r d}, .updated seqNo piece c r d ∈ calls →
    ∀ {piece' c' d' taken}, .resolved seqNo piece' c' d' taken ∈ calls → taken = some r
  stored : cfg.mispReductionPerc = 0 → ∀ {seqNo piece dir}, .predicted seqNo piece dir ∈ calls →
    ∀ w ∈ window, w.seqNo = seqNo → w.predTaken = dir

/-- The invariant behind it; `n` is the number of the next instruction. -/
structure AgreeKept (cfg : Config) (n : Nat) (window : List WindowEntry)
    (calls : List DirectionCall) : Prop extends Agree cfg window calls where
  calledBefore : ∀ call ∈ calls, call.seqNo < n
  fetchedBefore : ∀ w ∈ window, w.seqNo < n
  pending : ∀ {seqNo piece c r d}, .updated seqNo piece c r d ∈ calls →
    ∀ w ∈ window, w.seqNo = seqNo → w.execInfo.taken = some r

section Kept

variable {cfg : Config} {n : Nat} {window : List WindowEntry} {calls : List DirectionCall}

theorem AgreeKept.empty (cfg : Config) : AgreeKept cfg 0 [] [] where
  resolved h := absurd h List.not_mem_nil
  stored _ _ _ _ h := absurd h List.not_mem_nil
  calledBefore _ h := absurd h List.not_mem_nil
  fetchedBefore _ h := absurd h List.not_mem_nil
  pending h := absurd h List.not_mem_nil

/-- Instructions execute and retire. -/
theorem AgreeKept.resolves {p p' : Pipeline (Logged P)}
    (h : AgreeKept cfg n p.window p.hooks.2) (hp : p.Resolves p') :
    AgreeKept cfg n p'.window p'.hooks.2 where
  resolved := by
    intro seqNo piece c r d hupdated piece' c' d' taken hresolved
    have hupdated : .updated seqNo piece c r d ∈ p.hooks.2 := by
      rcases hp.calls _ hupdated with h | ⟨w, -, heq⟩
      · exact h
      · cases heq
    rcases hp.calls _ hresolved with hresolved | ⟨w, hw, heq⟩
    · exact h.resolved hupdated hresolved
    · obtain ⟨hnumber, -, -, -, htaken⟩ := DirectionCall.resolved.inj heq
      rw [htaken]
      exact h.pending hupdated w hw hnumber.symm
  stored := by
    intro hperc seqNo piece dir hpredicted w hw hnumber
    rcases hp.calls _ hpredicted with hpredicted | ⟨w', -, heq⟩
    · exact h.stored hperc hpredicted w (hp.window hw) hnumber
    · cases heq
  calledBefore := by
    intro call hcall
    rcases hp.calls call hcall with hcall | ⟨w, hw, rfl⟩
    · exact h.calledBefore call hcall
    · exact h.fetchedBefore w hw
  fetchedBefore := fun w hw => h.fetchedBefore w (hp.window hw)
  pending := by
    intro seqNo piece c r d hupdated w hw hnumber
    rcases hp.calls _ hupdated with hupdated | ⟨w', -, heq⟩
    · exact h.pending hupdated w (hp.window hw) hnumber
    · cases heq

/-- An instruction is fetched and its branch predicted. -/
theorem AgreeKept.fetch (h : AgreeKept cfg n window calls) {inst : DbInst} {misp : Bool}
    {new : List DirectionCall} {piece : Nat} (hnew : Asks cfg n piece inst misp new)
    {w : WindowEntry} (hnumber : w.seqNo = n)
    (htaken : inst.insnClass.isBr = true → w.execInfo.taken = some inst.isTaken)
    (hpredTaken : inst.insnClass = .condBranch → w.predTaken = (inst.isTaken != misp)) :
    AgreeKept cfg (n + 1) (window ++ [w]) (calls ++ new) := by
  -- the new calls and the new entry are the only ones of the number `n`
  have ofOld : ∀ call ∈ calls ++ new, call.seqNo < n → call ∈ calls := by
    intro call hcall hlt
    rcases List.mem_append.mp hcall with hcall | hcall
    · exact hcall
    · exact absurd (hnew.number call hcall) hlt.ne
  have notNew : ∀ seqNo piece' c' d' t, .resolved seqNo piece' c' d' t ∈ calls ++ new →
      .resolved seqNo piece' c' d' t ∈ calls := by
    intro seqNo piece' c' d' t hcall
    rcases List.mem_append.mp hcall with hcall | hcall
    · exact hcall
    · exact absurd (hnew.fits _ hcall) id
  constructor
  · constructor
    · intro seqNo piece c r d hupdated piece' c' d' taken hresolved
      have hresolved := notNew _ _ _ _ _ hresolved
      have hlt : seqNo < n := h.calledBefore _ hresolved
      exact h.resolved (ofOld _ hupdated hlt) hresolved
    · intro hperc seqNo piece dir hpredicted w' hw' heq
      rcases List.mem_append.mp hw' with hw' | hw'
      · have hlt : seqNo < n := heq ▸ h.fetchedBefore w' hw'
        exact h.stored hperc (ofOld _ hpredicted hlt) w' hw' heq
      · obtain rfl := List.mem_singleton.mp hw'
        rcases List.mem_append.mp hpredicted with hold | hpredicted
        · exact absurd (h.calledBefore _ hold) (by simp [DirectionCall.seqNo, ← heq, hnumber])
        · obtain ⟨hclass, hmisp⟩ := hnew.fits _ hpredicted
          rw [hpredTaken hclass, hmisp hperc]
          cases dir <;> cases inst.isTaken <;> rfl
  · intro call hcall
    rcases List.mem_append.mp hcall with hcall | hcall
    · exact (h.calledBefore call hcall).trans (Nat.lt_succ_self n)
    · exact hnew.number call hcall ▸ Nat.lt_succ_self n
  · intro w' hw'
    rcases List.mem_append.mp hw' with hw' | hw'
    · exact (h.fetchedBefore w' hw').trans (Nat.lt_succ_self n)
    · exact List.mem_singleton.mp hw' ▸ hnumber ▸ Nat.lt_succ_self _
  · intro seqNo piece c r d hupdated w' hw' heq
    rcases List.mem_append.mp hw' with hw' | hw'
    · have hlt : seqNo < n := heq ▸ h.fetchedBefore w' hw'
      exact h.pending (ofOld _ hupdated hlt) w' hw' heq
    · obtain rfl := List.mem_singleton.mp hw'
      rcases List.mem_append.mp hupdated with hold | hupdated
      · exact absurd (h.calledBefore _ hold) (by simp [DirectionCall.seqNo, ← heq, hnumber])
      · obtain ⟨hbr, hr⟩ := hnew.fits _ hupdated
        rw [htaken hbr, hr]

end Kept

/-! ## The step -/

/-- What the window is told of the direction of a branch. -/
theorem populateExecInfo_taken {inst : DbInst} {info : ExecuteInfo}
    (h : populateExecInfo inst = .ok info) (hbr : inst.insnClass.isBr = true) :
    info.taken = some inst.isTaken := by
  obtain ⟨decInfo, -, h⟩ := bind_eq_ok.mp h
  obtain ⟨-, h⟩ := guard_eq_ok.mp h
  rw [← Except.ok.inj h]
  exact if_pos hbr

section Step

variable {cfg : Config} {hk : Hooks P H} {s s' : Uarchsim (Logged P)} {inst : DbInst}
  {c : Course (Logged P)}

open Uarchsim

theorem predictValue_sameCalls (cfg : Config) (hk : Hooks P H) (s : Uarchsim (Logged P))
    (inst : DbInst) :
    Ends (s.predictValue cfg (logged hk) inst) (fun _ => True) fun x =>
      SameCalls s.pipe.hooks x.2.2.pipe.hooks := by
  unfold predictValue
  apply Ends.ite
  · intro _
    rfl
  · intro _
    apply Ends.bind (Ends.of_any fun _ => trivial)
    rintro ⟨req, res⟩ _
    apply Ends.ite
    · intro _
      rfl
    · intro _
      apply Ends.bind (ends_mapError.mpr (getPrediction_logs s.pipe.hooks req))
      rintro ⟨pred, hooks⟩ hhooks
      apply Ends.bind (ends_mapError.mpr (logging_ends _ _))
      intro hooks' hhooks'
      exact hhooks'.trans hhooks

/-- Before the instruction is dispatched only instructions in flight were resolved. -/
theorem Course.Leads.resolves (h : Course.Leads cfg (logged hk) s inst c) :
    s.pipe.Resolves c.written.pipe := by
  obtain ⟨-, _, pipe, hpipe, hbegun⟩ := beginStep_eq_ok h.begun
  obtain ⟨-, -, pipe', hpipe', hblocked⟩ := fetchBlock_eq_ok h.blocked
  obtain ⟨_, _, -, -, hbefore⟩ := predictValue_eq_ok h.before
  have h₁ : c.begun.pipe = pipe := by rw [hbegun]
  have h₂ : c.blocked.pipe = pipe' := by rw [hblocked]
  have h₃ : c.before.pipe.window = c.blocked.pipe.window := by rw [hbefore]
  have h₄ : c.written.pipe = c.before.pipe := by rw [h.written_eq]
  have begun : s.pipe.Resolves c.begun.pipe :=
    h₁ ▸ (Pipeline.catchUp_resolves _ _ _).of_ok hpipe
  have blocked : c.begun.pipe.Resolves c.blocked.pipe :=
    h₂ ▸ (Pipeline.catchUp_resolves _ _ _).of_ok hpipe'
  have before : c.blocked.pipe.Resolves c.before.pipe :=
    .of_same (h₃ ▸ List.Subset.refl _) ((predictValue_sameCalls cfg hk _ inst).of_ok h.before)
  exact h₄ ▸ (begun.trans blocked).trans before

/-- The prediction of the branch, or none of it. -/
theorem predictBranch_asks {a : Uarchsim (Logged P)} {seqNo predictCycle execCycle : Nat}
    {misp : Bool} (hdir : SameDirection inst)
    (h : s.predictBranch cfg (logged hk) inst seqNo predictCycle execCycle = .ok (misp, a)) :
    ∃ new, a.pipe.hooks.2 = s.pipe.hooks.2 ++ new ∧ a.pipe.window = s.pipe.window ∧
      Asks cfg seqNo s.piece inst misp new := by
  cases hperfect : cfg.perfectBranchPred with
  | true =>
    unfold predictBranch at h
    rw [if_pos hperfect] at h
    cases h
    refine ⟨[], (List.append_nil _).symm, rfl, Asks.nothing cfg seqNo s.piece false ?_⟩
    exact fun hoff => absurd (hperfect.symm.trans hoff) Bool.noConfusion
  | false =>
    obtain ⟨BP, hooks, hpredict, ⟨rfl, rfl⟩ | ⟨rfl, rfl⟩⟩ := predictBranch_eq_ok h hperfect
    · obtain ⟨new, hcalls, hnew⟩ := (Bp.predict_asks hdir _ _ _).of_ok hpredict
      exact ⟨new, hcalls, rfl, hnew⟩
    · obtain ⟨new, hcalls, hnew⟩ := (Bp.predict_asks hdir _ _ _).of_ok hpredict
      exact ⟨new, hcalls, rfl, hnew⟩

/-- The dispatch of the instruction. -/
theorem Course.Leads.dispatches (h : Course.Leads cfg (logged hk) s inst c) :
    c.before.numUop = s.numUop ∧ c.before.fetched = s.fetched ∧
      c.managed.piece = c.before.piece ∧ c.managed.numUop = s.numUop + 1 ∧
      c.managed.pipe.hooks.2 = c.written.pipe.hooks.2 ∧
      ∃ w, c.managed.pipe.window = c.written.pipe.window ++ [w] ∧ w.seqNo = s.numUop ∧
        (inst.insnClass.isBr = true → w.execInfo.taken = some inst.isTaken) := by
  obtain ⟨-, hooks, w, _, hfetch, hinfo, hnumber, -, hdispatched⟩ := dispatch_eq_ok h.dispatched
  obtain ⟨-, hbefore⟩ := h.before_eq
  obtain ⟨-, -, hmanaged⟩ := h.managed_eq
  have hnum : c.before.numUop = s.numUop := by rw [hbefore]
  have hfetched : c.before.fetched = s.fetched := by rw [hbefore]
  have hpiece : c.managed.piece = c.before.piece := by rw [hmanaged, h.written_eq]
  have hmanagedNum : c.managed.numUop = c.before.numUop + 1 := by rw [hmanaged, h.written_eq]
  have hhooks : c.managed.pipe.hooks = hooks := by rw [hmanaged, hdispatched]
  refine ⟨hnum, hfetched, hpiece, ?_, ?_, w, ?_, hnumber.trans hnum,
    populateExecInfo_taken hinfo⟩
  · rw [hmanagedNum, hnum]
  · rw [hhooks]
    exact (logging_ends _ _).of_ok hfetch
  · rw [hmanaged, hdispatched]

/-- The end of a step. -/
theorem Course.Of.lastPipe (h : Course.Of cfg (logged hk) s inst c s') :
    s'.pipe.window = c.told.pipe.window ∧ s'.pipe.hooks = c.predicted.pipe.hooks ∧
      s'.numUop = c.managed.numUop := by
  obtain ⟨-, hlast⟩ := h.last_eq
  rw [hlast]
  exact ⟨rfl, rfl, rfl⟩

/-- `update_pred_taken` on the youngest entry. -/
theorem Course.Of.predTaken (h : Course.Of cfg (logged hk) s inst c s')
    {front : List WindowEntry} {w : WindowEntry} (hwindow : c.predicted.pipe.window = front ++ [w]) :
    ∃ w', c.told.pipe.window = front ++ [w'] ∧ w'.seqNo = w.seqNo ∧ w'.execInfo = w.execInfo ∧
      (inst.insnClass = .condBranch → w'.predTaken = (inst.isTaken != c.misp)) := by
  obtain ⟨window, htold, hback⟩ := updatePredTaken_eq_ok h.told
  have htoldWindow : c.told.pipe.window = window := by rw [htold]
  rw [htoldWindow]
  rw [hwindow] at hback
  split at hback
  · refine ⟨{ w with
      predTaken := if inst.insnClass.isCondBr then inst.isTaken != c.misp else true },
      hback.trans ?_, rfl, rfl, ?_⟩
    · rw [updateBack, List.dropLast_concat, List.getLast?_concat]
      rfl
    · intro hclass
      rw [hclass]
      rfl
  · rename_i hnot
    refine ⟨w, hback, rfl, rfl, ?_⟩
    intro hclass
    rw [hclass] at hnot
    exact absurd rfl hnot

/-- **A step keeps the agreement.** -/
theorem Course.Of.agreeKept (h : Course.Of cfg (logged hk) s inst c s')
    (hdir : SameDirection inst) (hs : AgreeKept cfg s.numUop s.pipe.window s.pipe.hooks.2) :
    AgreeKept cfg s'.numUop s'.pipe.window s'.pipe.hooks.2 ∧
      s.pipe.hooks.2 ⊆ s'.pipe.hooks.2 ∧
      s'.fetched = s.fetched ++ [c.fetched cfg inst] ∧
      (cfg.perfectBranchPred = false → inst.insnClass.isBr = true →
        ∃ predDir, .updated (c.fetched cfg inst).seqNo (c.fetched cfg inst).piece inst.insnClass
          inst.isTaken predDir ∈ s'.pipe.hooks.2) := by
  obtain ⟨hnum, hfetched, hpiece, hmanagedNum, hcalls, w, hwindow, hnumber, htaken⟩ :=
    h.toLeads.dispatches
  obtain ⟨new, hnewCalls, hsameWindow, hnew⟩ := predictBranch_asks hdir h.predicted
  obtain ⟨w', hw', hnumber', hinfo', hpredTaken⟩ := h.predTaken (hsameWindow.trans hwindow)
  obtain ⟨hlastWindow, hlastHooks, hlastNum⟩ := h.lastPipe
  have hresolves := h.toLeads.resolves
  rw [hlastWindow, hlastHooks, hlastNum, hw', hnewCalls, hcalls, hmanagedNum]
  rw [hnum, hpiece] at hnew
  refine ⟨?_, ?_, ?_, ?_⟩
  · refine (hs.resolves hresolves).fetch hnew (hnumber'.trans hnumber) ?_ hpredTaken
    rw [hinfo']
    exact htaken
  · exact List.Subset.trans hresolves.kept (List.subset_append_left _ _)
  · rw [h.last]
    dsimp only
    rw [hfetched]
  · intro hoff hbr
    obtain ⟨predDir, hmem⟩ := hnew.asked hoff hbr
    have hseqNo : (c.fetched cfg inst).seqNo = s.numUop := hnum
    rw [hseqNo]
    exact ⟨predDir, List.mem_append_right _ hmem⟩

end Step

/-! ## The run -/

/-- In the state that is reached, every branch that was predicted was told to
`spec_update` with the direction of the trace, and the calls and the window agree. -/
structure DirectionsAgree (cfg : Config) (s : Uarchsim (Logged P)) : Prop
    extends Agree cfg s.pipe.window s.pipe.hooks.2 where
  asked : cfg.perfectBranchPred = false → ∀ x ∈ s.fetched, x.inst.insnClass.isBr = true →
    ∃ predDir, .updated x.seqNo x.piece x.inst.insnClass x.inst.isTaken predDir ∈ s.pipe.hooks.2

/-- The program did not stop at an assert about a direction. -/
def OffDirections (e : Abort) : Prop := ofDirections e = false

instance : DecidablePred (Admits OffDirections : Stop H → Prop)
  | .abort e => inferInstanceAs (Decidable (ofDirections e = false))
  | .hook _ => inferInstanceAs (Decidable True)

theorem offDirections_of_ordinary {e : Abort} (h : Ordinary e) : OffDirections e := by
  simp only [Ordinary, Bool.or_eq_false_iff] at h
  exact h.2

theorem offDirections_of_ofResources {e : Abort} (h : ofResources e = true) :
    OffDirections e := by
  cases e with
  | stepBranchTaken => cases h
  | stepTakenBranch => cases h
  | stepMispredict => cases h
  | _ => rfl

section Run

open Uarchsim

variable {cfg : Config} {hk : Hooks P H}

/-- A piece of the reader passes the asserts about its direction. -/
theorem directed_of_sameDirection {inst : DbInst} (h : inst.Readable) (hdir : SameDirection inst) :
    Directed cfg inst OffDirections where
  uncond := Or.inl hdir.uncond
  taken := by
    left
    intro _ htaken
    unfold takenBranch
    cases huncond : inst.insnClass.isUncondBr with
    | true => exact Bool.or_true _
    | false =>
      cases hbr : inst.insnClass.isBr with
      | false => exact absurd ((h.other hbr).symm.trans htaken) Bool.false_ne_true
      | true =>
        have hclass : inst.insnClass = .condBranch := by
          simpa [InstClass.isUncondBr, hbr] using huncond
        have hfetch := (hdir.cond hclass).trans htaken
        unfold fetchDir at hfetch
        rw [hclass, hfetch]
        rfl

theorem directions_ran {s₀ s : Uarchsim (Logged P)} {log : List (DbInst × Course (Logged P))}
    (hran : Ran cfg (logged hk) s₀ log s)
    (start : AgreeKept cfg s₀.numUop s₀.pipe.window s₀.pipe.hooks.2 ∧ DirectionsAgree cfg s₀)
    (hdir : ∀ x ∈ log, SameDirection x.1) :
    AgreeKept cfg s.numUop s.pipe.window s.pipe.hooks.2 ∧ DirectionsAgree cfg s := by
  induction hran with
  | nil => exact start
  | @snoc log s s' inst c _ hc ih =>
    obtain ⟨hkept, hagree⟩ := ih fun x hx => hdir x (List.mem_append_left _ hx)
    have hinst : SameDirection inst := hdir _ (List.mem_append_right _ List.mem_cons_self)
    obtain ⟨hkept', hcalls, hfetched, hasked⟩ := hc.agreeKept hinst hkept
    refine ⟨hkept', { hkept'.toAgree with asked := ?_ }⟩
    intro hoff x hx hbr
    rw [hfetched] at hx
    rcases List.mem_append.mp hx with hx | hx
    · obtain ⟨predDir, hmem⟩ := hagree.asked hoff x hx hbr
      exact ⟨predDir, hcalls hmem⟩
    · rw [List.mem_singleton.mp hx] at hbr ⊢
      exact hasked hoff hbr

/-- **The direction of a branch is the same at fetch and at resolve**, in every run on a
trace none of whose conditional branches is taken to `pc + 4`, and no assert about a
direction fails. -/
theorem directions_run (u : Unset) (v : Trace.Uninit) (cfg : Config) (hk : Hooks P H) (p : P)
    (bytes : List Byte) (insts : List DbInst) (htrace : Trace.IsTrace v bytes insts)
    (hfar : ∀ inst ∈ insts, inst.insnClass = .condBranch → inst.isTaken = true →
      inst.nextPc ≠ (inst.pc + 4) % 2 ^ 64) :
    (∀ s, simulate u cfg (logged hk) (p, []) insts = .ok s → DirectionsAgree cfg s) ∧
      ∀ e, simulate u cfg (logged hk) (p, []) insts = .error e → Admits OffDirections e := by
  have hread := htrace.readable
  have hdir : ∀ inst ∈ insts, SameDirection inst := fun inst hinst =>
    sameDirection_of_readable (hread inst hinst) (hfar inst hinst)
  constructor
  · intro s hs
    obtain ⟨s₀, hs₀, log, hran, rfl⟩ := simulate_eq_ok.mp hs
    have initial : Initial cfg (p, []) s₀ :=
      (new_ends u cfg (p, [])).of_ok hs₀
    refine (directions_ran hran ?_ ?_).2
    · have hkept : AgreeKept cfg s₀.numUop s₀.pipe.window s₀.pipe.hooks.2 := by
        rw [initial.numUop, initial.pipe]
        exact AgreeKept.empty cfg
      refine ⟨hkept, { hkept.toAgree with asked := ?_ }⟩
      intro _ x hx
      rw [initial.fetched] at hx
      exact absurd hx List.not_mem_nil
    · intro x hx
      exact hdir x.1 (List.mem_map_of_mem hx)
  · intro e he
    have run : Ends (simulate u cfg (logged hk) (p, []) insts) (Admits OffDirections)
        fun _ => True := by
      apply simulate_keeps (I := fun _ _ => True)
      · exact fun e => offDirections_of_ordinary
      · exact fun _ _ => trivial
      · exact fun inst _ => keeps_of_ofResources cfg inst (fun e => offDirections_of_ordinary)
          fun e => offDirections_of_ofResources
      · exact fun inst hinst => directed_of_sameDirection (hread inst hinst) (hdir inst hinst)
    exact run.of_error he

/-- A conditional branch at 64 that is taken to `target`. -/
def takenRecord (target : Trace.Word) : Trace.Record where
  pc := 64
  typeByte := 3
  effAddr := 0
  memSize := 0
  baseUpd := 0
  hasRegOffset := 0
  taken := true
  target := target
  inRegs := [1]
  outs := []
  length_inRegs := Trace.Record.length_oneInput
  length_outs := by decide

/-- The piece of that record. -/
def takenInst (target : Nat) : DbInst :=
  { regInst .condBranch 64 { intReg 1 with value := 0xdeadbeef } {} {} with
    isTaken := true, nextPc := target, addr := 0xdeadbeef, size := 1 }

theorem isTrace_takenRecords : Trace.IsTrace ⟨0, 0, 0, 0⟩
    (Trace.encodeAll [takenRecord 256, takenRecord 256]) [takenInst 256, takenInst 256] := by
  obtain ⟨⟨insts, t⟩, h, rfl⟩ := exists_of_observe (show
    ((Trace.TraceReader.new ⟨0, 0, 0, 0⟩
      (Trace.encodeAll [takenRecord 256, takenRecord 256])).getInsts ⟨0, 0, 0, 0⟩ 3).toOption.map
        (·.1) = some [takenInst 256, takenInst 256] by decide +kernel)
  exact ⟨3, t, h⟩

/-- The same branch twice; the first one is resolved when the second is predicted. -/
theorem directions_takenRecords :
    ∃ s, simulate ⟨fun _ => ⟨0, 0, 0⟩, 0⟩ {} (logged idlePredictors) ((), [])
      [takenInst 256, takenInst 256] = .ok s ∧ DirectionsAgree {} s := by
  obtain ⟨s, hs⟩ := exists_of_isOk
    (show (simulate ⟨fun _ => ⟨0, 0, 0⟩, 0⟩ {} (logged idlePredictors) ((), [])
      [takenInst 256, takenInst 256]).isOk = true by decide +kernel)
  exact ⟨s, hs, (directions_run _ _ {} idlePredictors () _ _ isTrace_takenRecords
    (by decide)).1 s hs⟩

/-- A branch that is taken to `pc + 4` is read from a trace, and its fetch fails the
assert on a taken branch. -/
theorem takenToNext_aborts :
    Trace.IsTrace ⟨0, 0, 0, 0⟩ (Trace.encodeAll [takenRecord 68]) [takenInst 68] ∧
      ¬ ((∀ s, simulate ⟨fun _ => ⟨0, 0, 0⟩, 0⟩ {} (logged idlePredictors) ((), []) [takenInst 68] =
          .ok s → DirectionsAgree {} s) ∧
        ∀ e, simulate ⟨fun _ => ⟨0, 0, 0⟩, 0⟩ {} (logged idlePredictors) ((), []) [takenInst 68] =
          .error e → Admits OffDirections e) := by
  constructor
  · obtain ⟨⟨insts, t⟩, h, rfl⟩ := exists_of_observe (show
      ((Trace.TraceReader.new ⟨0, 0, 0, 0⟩ (Trace.encodeAll [takenRecord 68])).getInsts
        ⟨0, 0, 0, 0⟩ 2).toOption.map (·.1) = some [takenInst 68] by decide +kernel)
    exact ⟨2, t, h⟩
  · apply not_runs_of_error
    decide +kernel

end Run

end CbpSim.Core
