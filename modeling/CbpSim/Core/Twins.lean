/-
  Core/Twins.lean --- two simulators in lockstep.

  Two simulators that differ in their predictors, and in the parameters that say what
  is predicted, go through a trace in lockstep as long as they are given the same
  predictions: whatever else the predictors do, the cycles, the window, the queues
  and the caches are the same.  `Notices` and `Decides` collect what has to be known
  of the predictors; `simulate_paired` is the rule.
-/
import CbpSim.Core.Guise

set_option autoImplicit false

namespace CbpSim.Core

open CbpSim.Foundation CbpSim.Lanes CbpSim.Memory

variable {P Q H H' : Type}

/-! ## The relation -/

/-- An instruction that was fetched, without the predictors. -/
def Fetched.timing (x : Fetched P) : Fetched Unit := { x with predictors := () }

/-- How the guises of the two sides compare. -/
structure Likeness (P Q : Type) where
  hooks : P → Q → Prop
  BP : Bp → Bp → Prop
  numEligible : Nat → Nat → Prop

/-- The same instruction was fetched in the same cycles. -/
def Likeness.Fetches (L : Likeness P Q) (a : Fetched P) (b : Fetched Q) : Prop :=
  a.timing = b.timing ∧ L.hooks a.predictors b.predictors

/-- The guises compare so, and the same instructions were fetched. -/
structure Likeness.Guises (L : Likeness P Q) (g : Guise P) (g' : Guise Q) : Prop where
  hooks : L.hooks g.hooks g'.hooks
  BP : L.BP g.BP g'.BP
  numEligible : L.numEligible g.numEligible g'.numEligible
  fetched : List.Forall₂ L.Fetches g.fetched g'.fetched

theorem Likeness.Guises.timing {L : Likeness P Q} {g : Guise P} {g' : Guise Q}
    (h : L.Guises g g') : g.fetched.map Fetched.timing = g'.fetched.map Fetched.timing := by
  have hmap : ∀ {xs : List (Fetched P)} {ys : List (Fetched Q)}, List.Forall₂ L.Fetches xs ys →
      xs.map Fetched.timing = ys.map Fetched.timing := by
    intro xs ys hxs
    induction hxs with
    | nil => rfl
    | cons hxy _ ih => rw [List.map_cons, List.map_cons, hxy.1, ih]
  exact hmap h.fetched

/-- The same pipeline with other predictors. -/
def Pipeline.Twin (R : P → Q → Prop) (p : Pipeline P) (p' : Pipeline Q) : Prop :=
  ∃ q, p' = p.recast q ∧ R p.hooks q

/-- The same simulator in another guise. -/
def Twin (L : Likeness P Q) (s : Uarchsim P) (s' : Uarchsim Q) : Prop :=
  ∃ g, s' = s.recast g ∧ L.Guises s.guise g

/-- A function without hooks does the same on both sides. -/
theorem lift_paired {α : Type} {X : Excuses (Stop H) (Stop H')}
    (habort : ∀ e, X.both (.abort e) (.abort e)) (y : Except Abort α) :
    Paired X Eq (lift y) (lift y) := by
  cases y with
  | ok a => rfl
  | error e => exact Paired.error (habort e)

/-! ## The evaluation of a cycle -/

/-- What has to be known of the calls that take no decision: a side that stops in one
of them is excused, or the two sides stop together. -/
structure Notices (X : Excuses (Stop H) (Stop H')) (cfg : Config) (x : Predicting)
    (hk : Hooks P H) (hk' : Hooks Q H') (R : P → Q → Prop) : Prop where
  abort (e : Abort) : X.both (.abort e) (.abort e)
  fetch {p : P} {q : Q} (h : R p q) (seqNo piece pc c : Nat) :
    Paired X R (call (hk.notifyInstrFetch p seqNo piece pc c))
      (call (hk'.notifyInstrFetch q seqNo piece pc c))
  decode {p : P} {q : Q} (h : R p q) (seqNo piece pc : Nat) (info : DecodeInfo) (c : Nat) :
    Paired X R (call (hk.notifyInstrDecode p seqNo piece pc info c))
      (call (hk'.notifyInstrDecode q seqNo piece pc info c))
  agen {p : P} {q : Q} (h : R p q) (seqNo piece pc : Nat) (info : DecodeInfo) (va sz c : Nat) :
    Paired X R (call (hk.notifyAgenComplete p seqNo piece pc info va sz c))
      (call (hk'.notifyAgenComplete q seqNo piece pc info va sz c))
  resolve {p : P} {q : Q} (h : R p q) (seqNo piece pc : Nat) (predDir : Bool) (info : ExecuteInfo)
    (c : Nat) :
    Paired X R (call (hk.notifyInstrExecuteResolve p seqNo piece pc predDir info c))
      (call (hk'.notifyInstrExecuteResolve q seqNo piece pc predDir info c))
  commit {p : P} {q : Q} (h : R p q) (seqNo piece pc : Nat) (predDir : Bool) (info : ExecuteInfo)
    (c : Nat) :
    Paired X R (call (hk.notifyInstrCommit p seqNo piece pc predDir info c))
      (call (hk'.notifyInstrCommit q seqNo piece pc predDir info c))
  update {p : P} {q : Q} (h : R p q) (seqNo addr value latency : Nat) :
    Paired X R
      (if cfg.vpEnable && !cfg.vpPerfect then call (hk.updatePredictor p seqNo addr value latency)
        else .ok p)
      (if x.vpEnable && !x.vpPerfect then call (hk'.updatePredictor q seqNo addr value latency)
        else .ok q)

namespace Pipeline

variable {X : Excuses (Stop H) (Stop H')} {cfg : Config} {x : Predicting} {hk : Hooks P H}
  {hk' : Hooks Q H'} {R : P → Q → Prop} {cycle : Nat}

/-- A delivery after a call. -/
theorem Twin.deliver {a : P} {b : Q} (h : R a b) (p : Pipeline P) (q : Q) (stage : Stage)
    (w : WindowEntry) :
    Twin R (p.deliver a stage w cycle) ((p.recast q).deliver b stage w cycle) :=
  ⟨b, rfl, h⟩

theorem notifyDecode_paired (notices : Notices X cfg x hk hk' R) (e : QueueEntry)
    (p : Pipeline P) (p' : Pipeline Q) (h : Twin R p p') :
    Paired X (Twin R) (notifyDecode hk cycle e p) (notifyDecode hk' cycle e p') := by
  obtain ⟨q, rfl, hq⟩ := h
  apply Paired.bind (lift_paired notices.abort (p.locateEntryInWindow e.seqNo e.piece))
  rintro w _ rfl
  apply Paired.ite
  · intro _
    exact Paired.error (notices.abort _)
  · intro _
    apply Paired.bind (notices.decode hq _ _ _ _ _)
    intro a b hab
    exact Twin.deliver hab p q .decode w

theorem notifyAgen_paired (notices : Notices X cfg x hk hk' R) (e : QueueEntry)
    (p : Pipeline P) (p' : Pipeline Q) (h : Twin R p p') :
    Paired X (Twin R) (notifyAgen hk cycle e p) (notifyAgen hk' cycle e p') := by
  obtain ⟨q, rfl, hq⟩ := h
  apply Paired.bind (lift_paired notices.abort (p.locateEntryInWindow e.seqNo e.piece))
  rintro w _ rfl
  apply Paired.ite
  · intro _
    exact Paired.error (notices.abort _)
  · intro _
    apply Paired.ite
    · intro _
      exact Paired.error (notices.abort _)
    · intro _
      apply Paired.ite
      · intro _
        exact Paired.error (notices.abort _)
      · intro _
        cases w.execInfo.memVa with
        | none => exact Paired.error (notices.abort _)
        | some va =>
          cases w.execInfo.memSz with
          | none => exact Paired.error (notices.abort _)
          | some sz =>
            apply Paired.bind (notices.agen hq _ _ _ _ _ _ _)
            intro a b hab
            exact Twin.deliver hab p q .agen w

theorem notifyExecute_paired (notices : Notices X cfg x hk hk' R) (e : QueueEntry)
    (p : Pipeline P) (p' : Pipeline Q) (h : Twin R p p') :
    Paired X (Twin R) (notifyExecute hk cycle e p) (notifyExecute hk' cycle e p') := by
  obtain ⟨q, rfl, hq⟩ := h
  apply Paired.bind (lift_paired notices.abort (p.locateEntryInWindow e.seqNo e.piece))
  rintro w _ rfl
  apply Paired.ite
  · intro _
    exact Paired.error (notices.abort _)
  · intro _
    apply Paired.bind (notices.resolve hq _ _ _ _ _ _)
    intro a b hab
    exact Twin.deliver hab p q .execute w

theorem notifyCommit_paired (notices : Notices X cfg x hk hk' R) (w : WindowEntry)
    (p : Pipeline P) (p' : Pipeline Q) (h : Twin R p p') :
    Paired X (Twin R) (notifyCommit cfg hk cycle w p)
      (notifyCommit (cfg.predicting x) hk' cycle w p') := by
  obtain ⟨q, rfl, hq⟩ := h
  apply Paired.bind (notices.commit hq _ _ _ _ _ _)
  intro a b hab
  apply Paired.bind (notices.update hab _ _ _ _)
  intro a' b' hab'
  exact Twin.deliver hab' p q .commit w

/-- The relation of a loop: the same entries are left. -/
def SameRest {α : Type} (R : P → Q → Prop) (a : List α × Pipeline P) (b : List α × Pipeline Q) :
    Prop :=
  a.1 = b.1 ∧ Twin R a.2 b.2

theorem evalDecodeLoop_paired (notices : Notices X cfg x hk hk' R) (queue : List QueueEntry)
    (p : Pipeline P) (p' : Pipeline Q) (h : Twin R p p') :
    Paired X (SameRest R) (evalDecodeLoop hk cycle queue p)
      (evalDecodeLoop hk' cycle queue p') := by
  induction queue generalizing p p' with
  | nil => exact ⟨rfl, h⟩
  | cons e queue ih =>
    apply Paired.ite
    · intro _
      exact Paired.error (notices.abort _)
    · intro _
      apply Paired.ite
      · intro _
        exact Paired.bind (notifyDecode_paired notices e p p' h) fun a b hab => ih a b hab
      · intro _
        exact ⟨rfl, h⟩

/-- The loop of the other two queues. -/
theorem evalQueue_paired (notices : Notices X cfg x hk hk' R)
    {notify : QueueEntry → Pipeline P → Except (Stop H) (Pipeline P)}
    {notify' : QueueEntry → Pipeline Q → Except (Stop H') (Pipeline Q)}
    (hnotify : ∀ e p p', Twin R p p' → Paired X (Twin R) (notify e p) (notify' e p'))
    (late : Abort) (queue : List QueueEntry) (p : Pipeline P) (p' : Pipeline Q) (h : Twin R p p') :
    Paired X (SameRest R) (evalQueue notify late cycle queue p)
      (evalQueue notify' late cycle queue p') := by
  induction queue generalizing p p' with
  | nil => exact ⟨rfl, h⟩
  | cons e queue ih =>
    apply Paired.ite
    · intro _
      exact Paired.error (notices.abort _)
    · intro _
      apply Paired.ite
      · intro _
        exact Paired.bind (hnotify e p p' h) fun a b hab => ih a b hab
      · intro _
        apply Paired.bind (ih p p' h)
        rintro ⟨rest, a⟩ ⟨_, b⟩ ⟨rfl, hab⟩
        exact ⟨rfl, hab⟩

theorem evalRetireLoop_paired (notices : Notices X cfg x hk hk' R) (window : List WindowEntry)
    (p : Pipeline P) (p' : Pipeline Q) (h : Twin R p p') :
    Paired X (SameRest R) (evalRetireLoop cfg hk cycle window p)
      (evalRetireLoop (cfg.predicting x) hk' cycle window p') := by
  induction window generalizing p p' with
  | nil => exact ⟨rfl, h⟩
  | cons w window ih =>
    apply Paired.ite
    · intro _
      exact Paired.bind (notifyCommit_paired notices w p p' h) fun a b hab => ih a b hab
    · intro _
      exact ⟨rfl, h⟩

/-- The evaluation of a cycle. -/
theorem evalCycle_paired (notices : Notices X cfg x hk hk' R) (p : Pipeline P)
    (p' : Pipeline Q) (h : Twin R p p') :
    Paired X (Twin R) (p.evalCycle cfg hk cycle) (p'.evalCycle (cfg.predicting x) hk' cycle) := by
  unfold evalCycle
  apply Paired.bind (R := Twin R)
  · obtain ⟨q, rfl, hq⟩ := h
    apply Paired.bind (evalDecodeLoop_paired notices p.DQ p _ ⟨q, rfl, hq⟩)
    rintro ⟨queue, a⟩ ⟨_, b⟩ ⟨rfl, q', rfl, hq'⟩
    exact ⟨q', rfl, hq'⟩
  intro p₁ p₁' h₁
  apply Paired.bind (R := Twin R)
  · obtain ⟨q, rfl, hq⟩ := h₁
    apply Paired.bind (evalQueue_paired notices (notifyAgen_paired notices) _ p₁.AQ p₁ _
      ⟨q, rfl, hq⟩)
    rintro ⟨queue, a⟩ ⟨_, b⟩ ⟨rfl, q', rfl, hq'⟩
    exact ⟨q', rfl, hq'⟩
  intro p₂ p₂' h₂
  apply Paired.bind (R := Twin R)
  · obtain ⟨q, rfl, hq⟩ := h₂
    apply Paired.bind (evalQueue_paired notices (notifyExecute_paired notices) _ p₂.EQ p₂ _
      ⟨q, rfl, hq⟩)
    rintro ⟨queue, a⟩ ⟨_, b⟩ ⟨rfl, q', rfl, hq'⟩
    exact ⟨q', rfl, hq'⟩
  intro p₃ p₃' h₃
  apply Paired.bind (R := Twin R)
  · obtain ⟨q, rfl, hq⟩ := h₃
    apply Paired.bind (evalRetireLoop_paired notices p₃.window p₃ _ ⟨q, rfl, hq⟩)
    rintro ⟨window, a⟩ ⟨_, b⟩ ⟨rfl, q', rfl, hq'⟩
    exact ⟨q', rfl, hq'⟩
  rintro p₄ _ ⟨q, rfl, hq⟩
  exact ⟨q, rfl, hq⟩

theorem evalCycles_paired (notices : Notices X cfg x hk hk' R) (n first : Nat)
    (p : Pipeline P) (p' : Pipeline Q) (h : Twin R p p') :
    Paired X (Twin R) (evalCycles cfg hk n first p)
      (evalCycles (cfg.predicting x) hk' n first p') := by
  induction n generalizing first p p' with
  | zero => exact h
  | succ n ih => exact Paired.bind (evalCycle_paired notices p p' h) fun a b hab => ih _ a b hab

theorem catchUp_paired (notices : Notices X cfg x hk hk' R) (first last : Nat)
    (p : Pipeline P) (p' : Pipeline Q) (h : Twin R p p') :
    Paired X (Twin R) (p.catchUp cfg hk first last) (p'.catchUp (cfg.predicting x) hk' first last) := by
  apply Paired.ite
  · intro _
    exact h
  · intro _
    exact evalCycles_paired notices _ _ p p' h

end Pipeline

namespace Uarchsim

variable {X : Excuses (Stop H) (Stop H')} {cfg : Config} {x : Predicting} {hk : Hooks P H}
  {hk' : Hooks Q H'} {L : Likeness P Q} {s : Uarchsim P} {s' : Uarchsim Q} {inst : DbInst}

/-! ## The parts without hooks -/

/-- A part of the step that calls no hook.  On either side it is the same part in
another guise, and it takes the guise to the next one. -/
theorem paired_of_recast {α : Type} {f : Except Abort (α × Uarchsim P)}
    {f' : Except Abort (α × Uarchsim Q)} {g : Guise P} {g' : Guise Q}
    (habort : ∀ e, X.both (.abort e) (.abort e))
    (own : f = f.map fun r => (r.1, r.2.recast g))
    (other : f' = f.map fun r => (r.1, r.2.recast g')) (hguises : L.Guises g g') :
    Paired X (fun a b => a.1 = b.1 ∧ Twin L a.2 b.2) (lift f) (lift f') := by
  refine Paired.mapError (Paired.of_map other ?_) habort
  rintro ⟨r, t⟩ ht
  refine ⟨rfl, g', rfl, ?_⟩
  rw [ht] at own
  have hown : t = t.recast g := congrArg Prod.snd (Except.ok.inj own)
  rw [hown]
  exact hguises

/-- The same for a part that returns the simulator only. -/
theorem paired_of_recast' {f : Except Abort (Uarchsim P)} {f' : Except Abort (Uarchsim Q)}
    {g : Guise P} {g' : Guise Q} (habort : ∀ e, X.both (.abort e) (.abort e))
    (own : f = f.map fun r => r.recast g) (other : f' = f.map fun r => r.recast g')
    (hguises : L.Guises g g') : Paired X (Twin L) (lift f) (lift f') := by
  refine Paired.mapError (Paired.of_map other ?_) habort
  intro t ht
  refine ⟨g', rfl, ?_⟩
  rw [ht] at own
  have hown : t = t.recast g := Except.ok.inj own
  rw [hown]
  exact hguises

theorem schedule_paired (habort : ∀ e, X.both (.abort e) (.abort e)) (h : Twin L s s') :
    Paired X (fun a b => a.1 = b.1 ∧ Twin L a.2 b.2) (lift (s.schedule cfg inst))
      (lift (s'.schedule (cfg.predicting x) inst)) := by
  obtain ⟨g, rfl, hg⟩ := h
  exact paired_of_recast habort (schedule_recast cfg cfg.toPredicting s s.guise inst)
    (schedule_recast cfg x s g inst) hg

/-- A value that one side predicts and the other one does not is not speculated on. -/
theorem writeBack_paired (habort : ∀ e, X.both (.abort e) (.abort e)) (h : Twin L s s')
    (t : Timing) (pred : PredictionResult) {predictable predictable' : Bool}
    (hpredictable : predictable = predictable' ∨ pred.speculate = false)
    (hcount : ∀ m n, L.numEligible m n →
      L.numEligible (m + predictable.toNat) (n + predictable'.toNat)) :
    Paired X (fun a b => a.1 = b.1 ∧ Twin L a.2 b.2)
      (lift (s.writeBack cfg inst t pred predictable))
      (lift (s'.writeBack (cfg.predicting x) inst t pred predictable')) := by
  obtain ⟨g, rfl, hg⟩ := h
  refine paired_of_recast habort
    (writeBack_recast cfg cfg.toPredicting s s.guise inst t pred predictable predictable (.inl rfl))
    (writeBack_recast cfg x s g inst t pred predictable predictable' hpredictable) ?_
  exact { hg with numEligible := hcount _ _ hg.numEligible }

theorem manageFetch_paired (habort : ∀ e, X.both (.abort e) (.abort e)) (h : Twin L s s')
    (squash : Bool) :
    Paired X (Twin L) (lift (s.manageFetch cfg inst squash))
      (lift (s'.manageFetch (cfg.predicting x) inst squash)) := by
  obtain ⟨g, rfl, hg⟩ := h
  exact paired_of_recast' habort (manageFetch_recast cfg cfg.toPredicting s s.guise inst squash)
    (manageFetch_recast cfg x s g inst squash) hg

theorem updatePredTaken_paired (habort : ∀ e, X.both (.abort e) (.abort e)) (h : Twin L s s')
    (misp : Bool) :
    Paired X (Twin L) (lift (s.updatePredTaken inst misp))
      (lift (s'.updatePredTaken inst misp)) := by
  obtain ⟨g, rfl, hg⟩ := h
  exact paired_of_recast' habort (updatePredTaken_recast s s.guise inst misp)
    (updatePredTaken_recast s g inst misp) hg

theorem endStep_paired (habort : ∀ e, X.both (.abort e) (.abort e))
    (hepoch : ∀ b b', L.BP b b' → L.BP b.newEpoch b'.newEpoch) (h : Twin L s s')
    (predictCycle : Nat) :
    Paired X (Twin L) (lift (s.endStep cfg inst predictCycle))
      (lift (s'.endStep (cfg.predicting x) inst predictCycle)) := by
  obtain ⟨g, rfl, hg⟩ := h
  refine paired_of_recast' habort (endStep_recast cfg cfg.toPredicting s s.guise inst predictCycle)
    (endStep_recast cfg x s g inst predictCycle) ?_
  split
  · exact { hg with BP := hepoch _ _ hg.BP }
  · exact hg

/-! ## The parts with hooks -/

theorem beginStep_paired (notices : Notices X cfg x hk hk' L.hooks) (h : Twin L s s') :
    Paired X (Twin L) (s.beginStep cfg hk) (s'.beginStep (cfg.predicting x) hk') := by
  obtain ⟨g, rfl, hg⟩ := h
  apply Paired.ite
  · intro _
    exact Paired.error (notices.abort _)
  · intro _
    apply Paired.bind (Pipeline.catchUp_paired notices _ _ s.pipe _ ⟨g.hooks, rfl, hg.hooks⟩)
    rintro a _ ⟨q, rfl, hq⟩
    exact ⟨{ g with hooks := q }, rfl, { hg with hooks := hq }⟩

theorem fetchBlock_paired (notices : Notices X cfg x hk hk' L.hooks) (h : Twin L s s') :
    Paired X (Twin L) (s.fetchBlock cfg hk inst) (s'.fetchBlock (cfg.predicting x) hk' inst) := by
  obtain ⟨g, rfl, hg⟩ := h
  apply Paired.ite
  · intro _
    apply Paired.bind (lift_paired notices.abort (s.res.accessIC cfg s.fetchCycle inst.pc))
    rintro ⟨nextFetchCycle, res⟩ _ rfl
    apply Paired.ite
    · intro _
      exact Paired.error (notices.abort _)
    · intro _
      apply Paired.bind (Pipeline.catchUp_paired notices _ _ s.pipe _ ⟨g.hooks, rfl, hg.hooks⟩)
      rintro a _ ⟨q, rfl, hq⟩
      exact ⟨{ g with hooks := q }, rfl, { hg with hooks := hq }⟩
  · intro _
    exact ⟨g, rfl, hg⟩

theorem dispatch_paired (notices : Notices X cfg x hk hk' L.hooks) (h : Twin L s s')
    (seqNo : Nat) (t : Timing) :
    Paired X (Twin L) (s.dispatch cfg hk inst seqNo t)
      (s'.dispatch (cfg.predicting x) hk' inst seqNo t) := by
  obtain ⟨g, rfl, hg⟩ := h
  apply Paired.bind (lift_paired notices.abort (populateExecInfo inst))
  rintro info _ rfl
  apply Paired.ite
  · intro _
    exact Paired.error (notices.abort _)
  · intro _
    apply Paired.ite
    · intro _
      exact Paired.error (notices.abort _)
    · intro _
      apply Paired.bind (notices.fetch hg.hooks _ _ _ _)
      intro p q hq
      apply Paired.ite
      · intro _
        exact Paired.error (notices.abort _)
      · intro _
        exact ⟨{ g with hooks := q }, rfl, { hg with hooks := hq }⟩

/-! ## The step -/

/-- What has to be known of the predictions on the instructions of a trace: both sides
are given the same ones. -/
structure Decides (X : Excuses (Stop H) (Stop H')) (cfg : Config) (x : Predicting)
    (hk : Hooks P H) (hk' : Hooks Q H') (L : Likeness P Q) (insts : List DbInst) : Prop where
  newEpoch (b b' : Bp) : L.BP b b' → L.BP b.newEpoch b'.newEpoch
  value (inst : DbInst) : inst ∈ insts → ∀ (s : Uarchsim P) (s' : Uarchsim Q), Twin L s s' →
    Paired X (fun a b => a.1 = b.1 ∧ (a.2.1 = b.2.1 ∨ a.1.speculate = false) ∧
        (∀ m n, L.numEligible m n → L.numEligible (m + a.2.1.toNat) (n + b.2.1.toNat)) ∧
        Twin L a.2.2 b.2.2)
      (s.predictValue cfg hk inst) (s'.predictValue (cfg.predicting x) hk' inst)
  branch (inst : DbInst) : inst ∈ insts → ∀ (s : Uarchsim P) (s' : Uarchsim Q), Twin L s s' →
    ∀ seqNo predictCycle execCycle,
    Paired X (fun a b => a.1 = b.1 ∧ Twin L a.2 b.2)
      (s.predictBranch cfg hk inst seqNo predictCycle execCycle)
      (s'.predictBranch (cfg.predicting x) hk' inst seqNo predictCycle execCycle)

theorem step_paired {insts : List DbInst} (notices : Notices X cfg x hk hk' L.hooks)
    (decides : Decides X cfg x hk hk' L insts) (hinst : inst ∈ insts) (h : Twin L s s') :
    Paired X (Twin L) (s.step cfg hk inst) (s'.step (cfg.predicting x) hk' inst) := by
  apply Paired.bind (beginStep_paired notices h)
  intro s₁ s₁' h₁
  apply Paired.bind (fetchBlock_paired notices h₁)
  intro s₂ s₂' h₂
  apply Paired.bind (decides.value inst hinst s₂ s₂' h₂)
  rintro ⟨pred, predictable, s₃⟩ ⟨_, predictable', s₃'⟩ ⟨rfl, hpredictable, hcount, h₃⟩
  apply Paired.bind (schedule_paired notices.abort h₃)
  rintro ⟨t, s₄⟩ ⟨_, s₄'⟩ ⟨rfl, h₄⟩
  apply Paired.bind (writeBack_paired notices.abort h₄ t pred hpredictable hcount)
  rintro ⟨squash, s₅⟩ ⟨_, s₅'⟩ ⟨rfl, h₅⟩
  obtain ⟨g, rfl, hg⟩ := h₃
  apply Paired.bind (dispatch_paired notices h₅ s₃.numUop t)
  intro s₆ s₆' h₆
  apply Paired.bind (manageFetch_paired notices.abort h₆ squash)
  intro s₇ s₇' h₇
  apply Paired.bind (decides.branch inst hinst s₇ s₇' h₇ s₃.numUop s₃.fetchCycle t.execCycle)
  rintro ⟨misp, s₈⟩ ⟨_, s₈'⟩ ⟨rfl, h₈⟩
  apply Paired.bind (updatePredTaken_paired notices.abort h₈ misp)
  intro s₉ s₉' h₉
  apply Paired.bind (endStep_paired notices.abort decides.newEpoch h₉ s₃.fetchCycle)
  rintro s₁₀ _ ⟨g', rfl, hg'⟩
  obtain ⟨g₆, rfl, hg₆⟩ := h₆
  refine ⟨{ g' with
    fetched := g.fetched ++ [record (cfg.predicting x) inst t (s₃.recast g) (s₆.recast g₆)] },
    rfl, { hg' with fetched := ?_ }⟩
  -- the cycles that are recorded are the same
  exact List.rel_append hg.fetched (.cons ⟨rfl, hg₆.hooks⟩ .nil)

/-! ## The run -/

/-- **The lockstep rule.**  Two simulators that are given the same predictions go through
a trace in lockstep. -/
theorem simulate_paired (u : Unset) {insts : List DbInst} {p : P} {q : Q}
    (notices : Notices X cfg x hk hk' L.hooks) (decides : Decides X cfg x hk hk' L insts)
    (hooks : L.hooks p q) (hBP : ∀ b, b.measPerEpoch = [{}] → L.BP b b)
    (hnum : ∀ n, L.numEligible n n) :
    Paired X (Twin L) (simulate u cfg hk p insts) (simulate u (cfg.predicting x) hk' q insts) := by
  apply Paired.bind (R := Twin L)
  · refine Paired.mapError (Paired.of_map (new_recast u cfg x p q) ?_) notices.abort
    intro s hs
    have initial : Initial cfg p s := (new_ends u cfg p).of_ok hs
    refine ⟨_, rfl,
      { hooks := ?_, BP := hBP _ (new_opened hs).measPerEpoch, numEligible := hnum _
        fetched := ?_ }⟩
    · change L.hooks s.pipe.hooks q
      rw [initial.pipe]
      exact hooks
    · change List.Forall₂ L.Fetches s.fetched []
      rw [initial.fetched]
      exact .nil
  · intro s s' hs
    have kept : ∀ t t' inst, inst ∈ insts → Twin L t t' →
        Paired X (Twin L) (t.step cfg hk inst) (t'.step (cfg.predicting x) hk' inst) :=
      fun t t' inst hinst ht => step_paired notices decides hinst ht
    exact Paired.foldlM kept hs

end Uarchsim

end CbpSim.Core
