/-
  Core/Hearing.lean --- the notifications are what the predictors hear.

  Source: src/lib/uarchsim.cc, the hooks that `eval_decode`, `eval_aq`, `eval_exec` and
  `eval_retire` call.

  `events` is no member of the source: it stands for the calls of the four notifications.
  An ear is a reading of the predictors that grows by a notification in its call, and in
  no other; what it hears in a run is `events`.  There is one for all predictors:
  `hearing` writes the calls down beside them.
-/
import CbpSim.Core.Course

set_option autoImplicit false

namespace CbpSim.Core

open CbpSim.Foundation

variable {P H : Type}

/-! ## Logs -/

/-- A hook that returned a state, with a log beside it. -/
def logging {α : Type} (x : Except H P) (log : α) : Except H (P × α) := do
  let p ← x
  .ok (p, log)

/-- A hook that returned a value and a state, with a log beside it. -/
def loggingResult {α β : Type} (x : Except H (β × P)) (log : β → α) : Except H (β × P × α) := do
  let (b, p) ← x
  .ok (b, p, log b)

theorem logging_ends {α : Type} (x : Except H P) (log : α) :
    Ends (logging x log) (fun _ => True) fun p => p.2 = log := by
  unfold logging
  apply Ends.bind (Ends.of_any fun _ => trivial)
  intro p _
  rfl

theorem loggingResult_ends {α β : Type} (x : Except H (β × P)) (log : β → α) :
    Ends (loggingResult x log) (fun _ => True) fun y => y.2.2 = log y.1 := by
  unfold loggingResult
  apply Ends.bind (Ends.of_any fun _ => trivial)
  intro p _
  rfl

/-! ## Ears -/

/-- A call of a notification is heard. -/
def Grows (ear : P → List Event) (e : Event) (p p' : P) : Prop := ear p' = ear p ++ [e]

/-- Nothing is heard. -/
def Still (ear : P → List Event) (p p' : P) : Prop := ear p' = ear p

/-- `ear` hears the four notifications, and no other hook. -/
structure Hears (hk : Hooks P H) (ear : P → List Event) : Prop where
  decode (p : P) (seqNo piece pc : Nat) (info : DecodeInfo) (cycle : Nat) :
    Ends (hk.notifyInstrDecode p seqNo piece pc info cycle) (fun _ => True)
      (Grows ear ⟨.decode, seqNo, piece, pc, cycle⟩ p)
  agen (p : P) (seqNo piece pc : Nat) (info : DecodeInfo) (va sz cycle : Nat) :
    Ends (hk.notifyAgenComplete p seqNo piece pc info va sz cycle) (fun _ => True)
      (Grows ear ⟨.agen, seqNo, piece, pc, cycle⟩ p)
  execute (p : P) (seqNo piece pc : Nat) (predDir : Bool) (info : ExecuteInfo) (cycle : Nat) :
    Ends (hk.notifyInstrExecuteResolve p seqNo piece pc predDir info cycle) (fun _ => True)
      (Grows ear ⟨.execute, seqNo, piece, pc, cycle⟩ p)
  commit (p : P) (seqNo piece pc : Nat) (predDir : Bool) (info : ExecuteInfo) (cycle : Nat) :
    Ends (hk.notifyInstrCommit p seqNo piece pc predDir info cycle) (fun _ => True)
      (Grows ear ⟨.commit, seqNo, piece, pc, cycle⟩ p)
  quiet : Quiet hk (fun _ => True) (Still ear)
  getCondDirPrediction (p : P) (seqNo piece pc predCycle fetchCycle execCycle : Nat) :
    Ends (hk.getCondDirPrediction p seqNo piece pc predCycle fetchCycle execCycle)
      (fun _ => True) fun x => Still ear p x.2
  updatePredictor (p : P) (seqNo addr value latency : Nat) :
    Ends (hk.updatePredictor p seqNo addr value latency) (fun _ => True) (Still ear p)

/-- The same hooks, which write down the notifications. -/
def hearing (hk : Hooks P H) : Hooks (P × List Event) H where
  notifyInstrFetch p seqNo piece pc c := logging (hk.notifyInstrFetch p.1 seqNo piece pc c) p.2
  getCondDirPrediction p seqNo piece pc c c' c'' :=
    loggingResult (hk.getCondDirPrediction p.1 seqNo piece pc c c' c'') fun _ => p.2
  specUpdate p seqNo piece pc insnClass resolveDir predDir nextPc :=
    logging (hk.specUpdate p.1 seqNo piece pc insnClass resolveDir predDir nextPc) p.2
  notifyInstrDecode p seqNo piece pc info c :=
    logging (hk.notifyInstrDecode p.1 seqNo piece pc info c)
      (p.2 ++ [Event.mk .decode seqNo piece pc c])
  notifyAgenComplete p seqNo piece pc info va sz c :=
    logging (hk.notifyAgenComplete p.1 seqNo piece pc info va sz c)
      (p.2 ++ [Event.mk .agen seqNo piece pc c])
  notifyInstrExecuteResolve p seqNo piece pc predDir info c :=
    logging (hk.notifyInstrExecuteResolve p.1 seqNo piece pc predDir info c)
      (p.2 ++ [Event.mk .execute seqNo piece pc c])
  notifyInstrCommit p seqNo piece pc predDir info c :=
    logging (hk.notifyInstrCommit p.1 seqNo piece pc predDir info c)
      (p.2 ++ [Event.mk .commit seqNo piece pc c])
  getPrediction p request := loggingResult (hk.getPrediction p.1 request) fun _ => p.2
  speculativeUpdate p update := logging (hk.speculativeUpdate p.1 update) p.2
  updatePredictor p seqNo addr value latency :=
    logging (hk.updatePredictor p.1 seqNo addr value latency) p.2
  ittageGetPrediction p pc := loggingResult (hk.ittageGetPrediction p.1 pc) fun _ => p.2
  ittageUpdatePredictor p pc nextPc := logging (hk.ittageUpdatePredictor p.1 pc nextPc) p.2
  ittageTrackOtherInst p pc nextPc := logging (hk.ittageTrackOtherInst p.1 pc nextPc) p.2
  randR := hk.randR

/-- Any predictors can be listened to. -/
theorem hearing_hears (hk : Hooks P H) : Hears (hearing hk) Prod.snd where
  decode _ _ _ _ _ _ := logging_ends _ _
  agen _ _ _ _ _ _ _ _ := logging_ends _ _
  execute _ _ _ _ _ _ _ := logging_ends _ _
  commit _ _ _ _ _ _ _ := logging_ends _ _
  quiet :=
    { refl := fun _ => rfl
      trans := fun h h' => Eq.trans h' h
      notifyInstrFetch := fun _ _ _ _ _ => logging_ends _ _
      getPrediction := fun p request =>
        loggingResult_ends (hk.getPrediction p.1 request) fun _ => p.2
      speculativeUpdate := fun _ _ => logging_ends _ _
      specUpdate := fun _ _ _ _ _ _ _ _ => logging_ends _ _
      ittageGetPrediction := fun p pc =>
        loggingResult_ends (hk.ittageGetPrediction p.1 pc) fun _ => p.2
      ittageUpdatePredictor := fun _ _ _ => logging_ends _ _
      ittageTrackOtherInst := fun _ _ _ => logging_ends _ _
      getCondDirPrediction := fun _ _ _ _ _ _ _ => Ends.of_any fun _ => trivial }
  getCondDirPrediction p seqNo piece pc c c' c'' :=
    loggingResult_ends (hk.getCondDirPrediction p.1 seqNo piece pc c c' c'') fun _ => p.2
  updatePredictor _ _ _ _ _ := logging_ends _ _

/-! ## The evaluation of cycles -/

/-- The ear has heard the notifications. -/
def Pipeline.Heard (ear : P → List Event) (p : Pipeline P) : Prop := ear p.hooks = p.events

namespace Pipeline

variable {hk : Hooks P H} {ear : P → List Event} {cycle : Nat}

theorem Heard.deliver {p : Pipeline P} (h : p.Heard ear) {hooks : P} {stage : Stage}
    {w : WindowEntry}
    (hooks_grow : Grows ear ⟨stage, w.seqNo, w.piece, w.pc, cycle⟩ p.hooks hooks) :
    (p.deliver hooks stage w cycle).Heard ear := by
  unfold Heard at h ⊢
  unfold Pipeline.deliver
  rw [hooks_grow, h]

theorem Heard.still {p : Pipeline P} (h : p.Heard ear) {hooks : P}
    (hstill : Still ear p.hooks hooks) : ear hooks = p.events :=
  Eq.trans hstill h

variable (hears : Hears hk ear)
include hears

theorem notifyDecode_heard (q : QueueEntry) {p : Pipeline P} (h : p.Heard ear) :
    Ends (notifyDecode hk cycle q p) (fun _ => True) (Heard ear) := by
  unfold notifyDecode
  apply Ends.bind (Ends.of_any fun _ => trivial)
  intro w _
  apply Ends.ite
  · intro _
    trivial
  · intro _
    apply Ends.bind (Ends.call (hears.decode p.hooks w.seqNo w.piece w.pc _ cycle))
    intro hooks hhooks
    exact h.deliver hhooks

theorem notifyAgen_heard (q : QueueEntry) {p : Pipeline P} (h : p.Heard ear) :
    Ends (notifyAgen hk cycle q p) (fun _ => True) (Heard ear) := by
  unfold notifyAgen
  apply Ends.bind (Ends.of_any fun _ => trivial)
  intro w _
  apply Ends.ite
  · intro _
    trivial
  · intro _
    apply Ends.ite
    · intro _
      trivial
    · intro _
      apply Ends.ite
      · intro _
        trivial
      · intro _
        split
        · apply Ends.bind (Ends.call (hears.agen p.hooks w.seqNo w.piece w.pc _ _ _ cycle))
          intro hooks hhooks
          exact h.deliver hhooks
        · trivial

theorem notifyExecute_heard (q : QueueEntry) {p : Pipeline P} (h : p.Heard ear) :
    Ends (notifyExecute hk cycle q p) (fun _ => True) (Heard ear) := by
  unfold notifyExecute
  apply Ends.bind (Ends.of_any fun _ => trivial)
  intro w _
  apply Ends.ite
  · intro _
    trivial
  · intro _
    apply Ends.bind (Ends.call (hears.execute p.hooks w.seqNo w.piece w.pc _ _ cycle))
    intro hooks hhooks
    exact h.deliver hhooks

theorem notifyCommit_heard (cfg : Config) (w : WindowEntry) {p : Pipeline P} (h : p.Heard ear) :
    Ends (notifyCommit cfg hk cycle w p) (fun _ => True) (Heard ear) := by
  unfold notifyCommit
  apply Ends.bind (Ends.call (hears.commit p.hooks w.seqNo w.piece w.pc _ _ cycle))
  intro hooks hhooks
  apply Ends.bind (Q := Grows ear ⟨.commit, w.seqNo, w.piece, w.pc, cycle⟩ p.hooks)
  · apply Ends.ite
    · intro _
      exact (Ends.call (hears.updatePredictor hooks _ _ _ _)).imp fun _ h' => Eq.trans h' hhooks
    · intro _
      exact hhooks
  · intro hooks' hhooks'
    exact h.deliver hhooks'

theorem evalDecodeLoop_heard (queue : List QueueEntry) {p : Pipeline P} (h : p.Heard ear) :
    Ends (evalDecodeLoop hk cycle queue p) (fun _ => True) fun x => x.2.Heard ear := by
  induction queue generalizing p with
  | nil => exact h
  | cons q queue ih =>
    rw [evalDecodeLoop]
    apply Ends.ite
    · intro _
      trivial
    · intro _
      apply Ends.ite
      · intro _
        apply Ends.bind (notifyDecode_heard hears q h)
        intro p' hp'
        exact ih hp'
      · intro _
        exact h

omit hears in
/-- The loop of the other two queues. -/
theorem evalQueue_heard {notify : QueueEntry → Pipeline P → Except (Stop H) (Pipeline P)}
    (late : Abort)
    (hnotify : ∀ q p, p.Heard ear → Ends (notify q p) (fun _ => True) (Heard ear))
    (queue : List QueueEntry) {p : Pipeline P} (h : p.Heard ear) :
    Ends (evalQueue notify late cycle queue p) (fun _ => True) fun x => x.2.Heard ear := by
  induction queue generalizing p with
  | nil => exact h
  | cons q queue ih =>
    rw [evalQueue]
    apply Ends.ite
    · intro _
      trivial
    · intro _
      apply Ends.ite
      · intro _
        apply Ends.bind (hnotify q p h)
        intro p' hp'
        exact ih hp'
      · intro _
        apply Ends.bind (ih h)
        intro x hx
        exact hx

theorem evalRetireLoop_heard (cfg : Config) (window : List WindowEntry) {p : Pipeline P}
    (h : p.Heard ear) :
    Ends (evalRetireLoop cfg hk cycle window p) (fun _ => True) fun x => x.2.Heard ear := by
  induction window generalizing p with
  | nil => exact h
  | cons w window ih =>
    rw [evalRetireLoop]
    apply Ends.ite
    · intro _
      apply Ends.bind (notifyCommit_heard hears cfg w h)
      intro p' hp'
      exact ih hp'
    · intro _
      exact h

/-- A cycle. -/
theorem evalCycle_heard (cfg : Config) {p : Pipeline P} (h : p.Heard ear) :
    Ends (p.evalCycle cfg hk cycle) (fun _ => True) (Heard ear) := by
  unfold evalCycle
  apply Ends.bind (Q := Heard ear)
  · apply Ends.bind (evalDecodeLoop_heard hears p.DQ h)
    rintro ⟨queue, p'⟩ hp'
    exact hp'
  intro p₁ h₁
  apply Ends.bind (Q := Heard ear)
  · apply Ends.bind (evalQueue_heard .evalAqLate (fun q p => notifyAgen_heard hears q) p₁.AQ h₁)
    rintro ⟨queue, p'⟩ hp'
    exact hp'
  intro p₂ h₂
  apply Ends.bind (Q := Heard ear)
  · apply Ends.bind
      (evalQueue_heard .evalExecLate (fun q p => notifyExecute_heard hears q) p₂.EQ h₂)
    rintro ⟨queue, p'⟩ hp'
    exact hp'
  intro p₃ h₃
  apply Ends.bind (Q := Heard ear)
  · apply Ends.bind (evalRetireLoop_heard hears cfg p₃.window h₃)
    rintro ⟨window, p'⟩ hp'
    exact hp'
  intro p₄ h₄
  exact h₄

theorem catchUp_heard (cfg : Config) (first last : Nat) {p : Pipeline P} (h : p.Heard ear) :
    Ends (p.catchUp cfg hk first last) (fun _ => True) (Heard ear) := by
  have hkept : Ends (p.catchUp cfg hk first last) (fun _ => True)
      fun p' => p.Heard ear → p'.Heard ear := by
    apply catchUp_steps (R := fun p p' => p.Heard ear → p'.Heard ear)
    · exact fun _ h => h
    · exact fun h h' hp => h' (h hp)
    · intro cycle p
      by_cases hp : p.Heard ear
      · exact (evalCycle_heard hears cfg hp).imp fun _ hp' _ => hp'
      · exact (Ends.of_any fun _ => trivial).imp fun _ _ hp' => absurd hp' hp
  exact hkept.imp fun _ hp' => hp' h

end Pipeline

/-! ## The step -/

section Step

variable {cfg : Config} {hk : Hooks P H} {ear : P → List Event} {s s' : Uarchsim P}
  {inst : DbInst} {c : Course P}

open Uarchsim

theorem predictValue_still (hears : Hears hk ear) (s : Uarchsim P) (inst : DbInst) :
    Ends (s.predictValue cfg hk inst) (fun _ => True) fun x =>
      Still ear s.pipe.hooks x.2.2.pipe.hooks := by
  unfold predictValue
  apply Ends.ite
  · intro _
    rfl
  · intro _
    apply Ends.bind (Ends.of_any fun _ => trivial)
    rintro ⟨req, res⟩ _
    apply Ends.ite
    · intro _
      rfl
    · intro _
      apply Ends.bind (Ends.call (hears.quiet.getPrediction s.pipe.hooks req))
      rintro ⟨pred, hooks⟩ hhooks
      apply Ends.bind (Ends.call (hears.quiet.speculativeUpdate hooks _))
      intro hooks' hhooks'
      exact hears.quiet.trans hhooks hhooks'

theorem predictBranch_still (hears : Hears hk ear) {a : Uarchsim P}
    {seqNo predictCycle execCycle : Nat} {misp : Bool}
    (h : s.predictBranch cfg hk inst seqNo predictCycle execCycle = .ok (misp, a)) :
    Still ear s.pipe.hooks a.pipe.hooks := by
  cases hperfect : cfg.perfectBranchPred with
  | true =>
    unfold predictBranch at h
    rw [if_pos hperfect] at h
    cases h
    rfl
  | false =>
    obtain ⟨BP, hooks, hpredict, hcase⟩ := predictBranch_eq_ok h hperfect
    have hhooks : a.pipe.hooks = hooks := by
      rcases hcase with ⟨-, rfl⟩ | ⟨-, rfl⟩
      · rfl
      · rfl
    have hsame := (Bp.predict_ends hears.quiet s.BP s.pipe.hooks seqNo s.piece inst predictCycle
      s.fetchCycle execCycle).of_ok hpredict
    rw [hhooks]
    split at hsame
    · obtain ⟨dir, q, hget, hq⟩ := hsame
      exact hears.quiet.trans ((hears.getCondDirPrediction _ _ _ _ _ _ _).of_ok hget) hq
    · exact hsame

/-- When the branch is to be predicted, the ear has heard all notifications so far. -/
theorem Course.Leads.heard (h : Course.Leads cfg hk s inst c) (hears : Hears hk ear)
    (hs : s.pipe.Heard ear) : c.managed.pipe.Heard ear := by
  obtain ⟨-, _, pipe, hpipe, hbegun⟩ := beginStep_eq_ok h.begun
  obtain ⟨-, -, pipe', hpipe', hblocked⟩ := fetchBlock_eq_ok h.blocked
  obtain ⟨_, _, -, -, hbefore⟩ := predictValue_eq_ok h.before
  obtain ⟨-, hooks, w, _, hfetch, -, -, -, hdispatched⟩ := dispatch_eq_ok h.dispatched
  obtain ⟨-, -, hmanaged⟩ := h.managed_eq
  have hbegun : c.begun.pipe = pipe := by rw [hbegun]
  have hblocked : c.blocked.pipe = pipe' := by rw [hblocked]
  have hevents : c.before.pipe.events = c.blocked.pipe.events := by rw [hbefore]
  have hwritten : c.written.pipe = c.before.pipe := by rw [h.written_eq]
  have begun : c.begun.pipe.Heard ear :=
    hbegun ▸ (Pipeline.catchUp_heard hears cfg _ _ hs).of_ok hpipe
  have blocked : c.blocked.pipe.Heard ear :=
    hblocked ▸ (Pipeline.catchUp_heard hears cfg _ _ begun).of_ok hpipe'
  have before : c.before.pipe.Heard ear := by
    have hstill := (predictValue_still hears c.blocked inst).of_ok h.before
    exact (blocked.still hstill).trans hevents.symm
  have hstill := (hears.quiet.notifyInstrFetch _ _ _ _ _).of_ok hfetch
  have hmanagedEvents : c.managed.pipe.events = c.written.pipe.events := by
    rw [hmanaged, hdispatched]
  have hmanagedHooks : c.managed.pipe.hooks = hooks := by rw [hmanaged, hdispatched]
  unfold Pipeline.Heard
  rw [hmanagedHooks, hmanagedEvents]
  exact Pipeline.Heard.still (hwritten ▸ before) hstill

/-- **A step is heard.** -/
theorem Course.Of.heard (h : Course.Of cfg hk s inst c s') (hears : Hears hk ear)
    (hs : s.pipe.Heard ear) : s'.pipe.Heard ear := by
  obtain ⟨-, hlast⟩ := h.last_eq
  have hmanaged := (h.toLeads.heard hears hs).still (predictBranch_still hears h.predicted)
  rw [hlast]
  exact hmanaged

/-- **A run is heard.** -/
theorem heard_of_ran {s₀ : Uarchsim P} {log : List (DbInst × Course P)} (hears : Hears hk ear)
    (hs₀ : s₀.pipe.Heard ear) (hran : Ran cfg hk s₀ log s) : s.pipe.Heard ear := by
  induction hran with
  | nil => exact hs₀
  | snoc _ hc ih => exact hc.heard hears ih

theorem heard_of_simulate {u : Unset} {p : P} {insts : List DbInst} (hears : Hears hk ear)
    (hp : ear p = []) (hrun : simulate u cfg hk p insts = .ok s) : s.pipe.Heard ear := by
  obtain ⟨s₀, hnew, log, hran, rfl⟩ := simulate_eq_ok.mp hrun
  have hinit := (new_ends u cfg p).of_ok hnew
  refine heard_of_ran hears ?_ hran
  unfold Pipeline.Heard
  rw [hinit.pipe]
  exact hp

end Step

end CbpSim.Core
