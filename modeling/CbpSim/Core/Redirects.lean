/-
  Core/Redirects.lean --- a mispredicted branch resolves before anything younger is
  predicted.

  Source: src/lib/uarchsim.cc, the loops of `step` that catch up, `eval_exec` and
  the redirect after `bp_t::predict`.

  A misprediction moves the fetch cycle to the cycle at which the branch executes.
  The next step first evaluates the cycles up to its fetch, and the queue entry of
  the branch is due in one of them: `eval_exec` delivers it, or stops the program.
-/
import CbpSim.Core.Hearing
import CbpSim.Core.Queues

set_option autoImplicit false

namespace CbpSim.Core

open CbpSim.Foundation

variable {P H : Type}

namespace Pipeline

variable {cfg : Config} {hk : Hooks P H} {cycle : Nat}

/-- `notify_instr_execute_resolve` was called for the entry of `EQ`, in its cycle. -/
def Executed (q : QueueEntry) (p : Pipeline P) : Prop :=
  ∃ e ∈ p.events, e.stage = .execute ∧ e.seqNo = q.seqNo ∧ e.piece = q.piece ∧ e.cycle = q.cycle

theorem Executed.mono {q : QueueEntry} {p p' : Pipeline P} (h : p.Executed q)
    (hevents : p.events ⊆ p'.events) : p'.Executed q := by
  obtain ⟨e, he, hstage⟩ := h
  exact ⟨e, hevents he, hstage⟩

theorem OnlyTells.events_subset {p p' : Pipeline P} (h : p.OnlyTells p') :
    p.events ⊆ p'.events := by
  obtain ⟨events, hooks, rfl⟩ := h
  exact List.subset_append_left _ _

theorem OnlyTells.EQ {p p' : Pipeline P} (h : p.OnlyTells p') : p'.EQ = p.EQ := by
  obtain ⟨events, hooks, rfl⟩ := h
  rfl

/-- The entry is executed, or waits for a cycle after `cycle`. -/
def ExecutedBy (cycle : Nat) (q : QueueEntry) (p : Pipeline P) : Prop :=
  p.Executed q ∨ q ∈ p.EQ ∧ cycle < q.cycle

theorem notifyExecute_executed (q : QueueEntry) (p : Pipeline P) (hcycle : cycle = q.cycle) :
    Ends (notifyExecute hk cycle q p) (fun _ => True) (Executed q) := by
  unfold notifyExecute
  apply Ends.bind (Q := fun w => w.seqNo = q.seqNo ∧ w.piece = q.piece)
  · apply ends_mapError.mpr
    unfold locateEntryInWindow
    split
    · apply Ends.ite
      · exact fun h => h
      · intro _
        trivial
    · trivial
  · rintro w ⟨hseqNo, hpiece⟩
    apply Ends.ite
    · intro _
      trivial
    · intro _
      apply Ends.bind (Ends.of_any fun _ => trivial)
      intro hooks _
      exact ⟨_, List.mem_append_right _ List.mem_cons_self, rfl, hseqNo, hpiece, hcycle⟩

/-- The loop of `eval_exec` leaves only what is due later. -/
theorem evalExecLoop_executed (queue : List QueueEntry) (p : Pipeline P) :
    Ends (evalQueue (notifyExecute hk cycle) .evalExecLate cycle queue p) (fun _ => True) fun x =>
      p.OnlyTells x.2 ∧ ∀ q ∈ queue, x.2.Executed q ∨ q ∈ x.1 ∧ cycle < q.cycle := by
  induction queue generalizing p with
  | nil =>
    refine ⟨OnlyTells.refl p, ?_⟩
    intro q hq
    cases hq
  | cons q queue ih =>
    rw [evalQueue]
    apply Ends.ite
    · intro _
      trivial
    · intro hdue
      apply Ends.ite
      · intro hcycle
        apply Ends.bind ((notifyExecute_ends q p).and_right (notifyExecute_executed q p hcycle))
        rintro p' ⟨htells, hexecuted⟩
        apply (ih p').imp
        rintro x ⟨htells', hrest⟩
        refine ⟨htells.trans htells', ?_⟩
        intro q' hq'
        rcases List.mem_cons.mp hq' with rfl | hq'
        · exact Or.inl (hexecuted.mono htells'.events_subset)
        · exact hrest q' hq'
      · intro hne
        apply Ends.bind (ih p)
        rintro ⟨rest, p'⟩ ⟨htells, hrest⟩
        refine ⟨htells, ?_⟩
        intro q' hq'
        rcases List.mem_cons.mp hq' with rfl | hq'
        · exact Or.inr ⟨List.mem_cons_self, lt_of_le_of_ne (not_lt.mp hdue) hne⟩
        · exact (hrest q' hq').imp id fun h => ⟨List.mem_cons_of_mem _ h.1, h.2⟩

theorem Ends.of_frame {α : Type} {x : Except (Stop H) α} {Q : α → Prop} (h : Ends x OffWindow Q) :
    Ends x (fun _ => True) Q :=
  h.mono (fun _ _ => trivial) fun _ h => h

/-- The evaluation of a cycle keeps the notifications and executes what is due. -/
theorem evalCycle_executed (p : Pipeline P) :
    Ends (p.evalCycle cfg hk cycle) (fun _ => True) fun p' =>
      p.events ⊆ p'.events ∧ ∀ q ∈ p.EQ, ExecutedBy cycle q p' := by
  unfold evalCycle
  apply Ends.bind (Q := fun p' => p.events ⊆ p'.events ∧ p'.EQ = p.EQ)
  · apply Ends.bind (Ends.of_frame (evalDecodeLoop_frame p.DQ p))
    rintro ⟨queue, p'⟩ htells
    exact ⟨htells.events_subset, htells.EQ⟩
  rintro p₁ ⟨hevents₁, hEQ₁⟩
  apply Ends.bind (Q := fun p' => p.events ⊆ p'.events ∧ p'.EQ = p.EQ)
  · apply Ends.bind (Ends.of_frame (evalQueue_frame ⟨by simp, by simp⟩ notifyAgen_ends p₁.AQ p₁))
    rintro ⟨queue, p'⟩ htells
    exact ⟨List.Subset.trans hevents₁ htells.events_subset, htells.EQ.trans hEQ₁⟩
  rintro p₂ ⟨hevents₂, hEQ₂⟩
  apply Ends.bind (Q := fun p' => p.events ⊆ p'.events ∧ ∀ q ∈ p.EQ, ExecutedBy cycle q p')
  · apply Ends.bind (evalExecLoop_executed p₂.EQ p₂)
    rintro ⟨queue, p'⟩ ⟨htells, hqueue⟩
    exact ⟨List.Subset.trans hevents₂ htells.events_subset, fun q hq => hqueue q (hEQ₂ ▸ hq)⟩
  rintro p₃ ⟨hevents₃, hqueue₃⟩
  apply Ends.bind (Q := fun p' => p.events ⊆ p'.events ∧ ∀ q ∈ p.EQ, ExecutedBy cycle q p')
  · apply Ends.bind ((evalRetireLoop_ends cfg hk cycle p₃.window p₃).mono
      (fun _ _ => trivial) fun _ h => h)
    rintro ⟨window, p'⟩ ⟨-, htells⟩
    have htells : p₃.OnlyTells p' := ⟨_, htells⟩
    refine ⟨List.Subset.trans hevents₃ htells.events_subset, ?_⟩
    intro q hq
    rcases hqueue₃ q hq with h | ⟨hmem, hlater⟩
    · exact Or.inl (h.mono htells.events_subset)
    · exact Or.inr ⟨htells.EQ ▸ hmem, hlater⟩
  intro p₄ h₄
  exact h₄

theorem ExecutedBy.evalCycle {first : Nat} {q : QueueEntry} {p : Pipeline P}
    (h : p.Executed q ∨ q ∈ p.EQ) :
    Ends (p.evalCycle cfg hk first) (fun _ => True) (ExecutedBy first q) := by
  apply evalCycle_executed p |>.imp
  rintro p' ⟨hevents, hqueue⟩
  rcases h with h | h
  · exact Or.inl (h.mono hevents)
  · exact hqueue q h

/-- The cycles from `first` to `first + n`. -/
theorem evalCycles_executed (q : QueueEntry) :
    ∀ (n first : Nat) (p : Pipeline P), p.Executed q ∨ q ∈ p.EQ →
      Ends (evalCycles cfg hk (n + 1) first p) (fun _ => True) (ExecutedBy (first + n) q) := by
  intro n
  induction n with
  | zero =>
    intro first p h
    rw [evalCycles]
    apply Ends.bind (ExecutedBy.evalCycle h)
    intro p' hp'
    exact hp'
  | succ n ih =>
    intro first p h
    rw [evalCycles]
    apply Ends.bind (ExecutedBy.evalCycle h)
    intro p' hp'
    have hnext := ih (first + 1) p' (hp'.imp id And.left)
    rwa [Nat.add_right_comm] at hnext

/-- Catching up to a later cycle. -/
theorem catchUp_executed {first last : Nat} (hlt : first < last) (q : QueueEntry)
    {p : Pipeline P} (h : p.Executed q ∨ q ∈ p.EQ) :
    Ends (p.catchUp cfg hk first last) (fun _ => True) (ExecutedBy last q) := by
  unfold catchUp
  rw [if_neg hlt.ne]
  obtain ⟨n, rfl⟩ := Nat.exists_eq_add_of_le hlt.le
  have heq : first + n + 1 - first = n + 1 := by omega
  rw [heq]
  exact evalCycles_executed q n first p h

theorem catchUp_events (first last : Nat) (p : Pipeline P) :
    Ends (p.catchUp cfg hk first last) (fun _ => True) fun p' => p.events ⊆ p'.events := by
  apply catchUp_steps (R := fun p p' => p.events ⊆ p'.events)
  · exact fun _ => List.Subset.refl _
  · exact List.Subset.trans
  · exact fun _ p => (evalCycle_executed p).imp fun _ h => h.1

end Pipeline

/-! ## The steps -/

section Steps

variable {cfg : Config} {hk : Hooks P H} {s s' : Uarchsim P} {inst : DbInst} {c : Course P}

open Uarchsim

/-- From the begun step to the prediction of the branch no notification is lost. -/
theorem Course.Leads.events (h : Course.Leads cfg hk s inst c) :
    s.pipe.events ⊆ c.begun.pipe.events ∧ c.begun.pipe.events ⊆ c.managed.pipe.events := by
  obtain ⟨-, _, pipe, hpipe, hbegun⟩ := beginStep_eq_ok h.begun
  obtain ⟨-, -, pipe', hpipe', hblocked⟩ := fetchBlock_eq_ok h.blocked
  obtain ⟨_, _, -, -, hbefore⟩ := predictValue_eq_ok h.before
  obtain ⟨-, _, _, _, -, -, -, -, hdispatched⟩ := dispatch_eq_ok h.dispatched
  obtain ⟨-, -, hmanaged⟩ := h.managed_eq
  have h₁ : c.begun.pipe = pipe := by rw [hbegun]
  have h₂ : c.blocked.pipe = pipe' := by rw [hblocked]
  have h₃ : c.before.pipe.events = c.blocked.pipe.events := by rw [hbefore]
  have h₄ : c.written.pipe.events = c.before.pipe.events := by rw [h.written_eq]
  have h₅ : c.managed.pipe.events = c.written.pipe.events := by rw [hmanaged, hdispatched]
  constructor
  · rw [h₁]
    exact (Pipeline.catchUp_events _ _ _).of_ok hpipe
  · rw [h₅, h₄, h₃, h₂]
    exact (Pipeline.catchUp_events _ _ _).of_ok hpipe'

/-- The fetch cycle does not go back. -/
theorem Course.Leads.fetchCycle (h : Course.Leads cfg hk s inst c) :
    s.fetchCycle ≤ c.before.fetchCycle ∧ c.before.fetchCycle ≤ c.managed.fetchCycle ∧
      c.before.fetchCycle < c.timing.execCycle ∧
      c.managed.previousFetchCycle = c.before.fetchCycle := by
  obtain ⟨hlater, hle, hmanaged⟩ := h.managed_eq
  have hprevious : c.managed.previousFetchCycle = c.before.fetchCycle := by rw [hmanaged]
  exact ⟨h.before_eq.1, hle, hlater, hprevious⟩

/-- The instruction waits in `EQ` for its cycle. -/
theorem Course.Leads.queued (h : Course.Leads cfg hk s inst c) :
    (c.fetched cfg inst).entry Fetched.execCycle ∈ c.managed.pipe.EQ := by
  obtain ⟨-, _, _, _, -, -, -, -, hdispatched⟩ := dispatch_eq_ok h.dispatched
  obtain ⟨-, -, hmanaged⟩ := h.managed_eq
  have hpiece : c.written.piece = c.before.piece := by rw [h.written_eq]
  have hEQ : c.managed.pipe.EQ =
      c.written.pipe.EQ ++ [⟨c.before.numUop, c.written.piece, c.timing.execCycle⟩] := by
    rw [hmanaged, hdispatched]
  rw [hEQ, hpiece]
  exact List.mem_append_right _ List.mem_cons_self

/-- The end of a step leaves the queues and the notifications alone; after a
misprediction fetching waits for the branch. -/
theorem Course.Of.after (h : Course.Of cfg hk s inst c s') :
    s'.pipe.EQ = c.managed.pipe.EQ ∧ s'.pipe.events = c.managed.pipe.events ∧
      s'.previousFetchCycle = c.managed.previousFetchCycle ∧
      c.managed.fetchCycle ≤ s'.fetchCycle ∧
      (c.misp = true → c.timing.execCycle ≤ s'.fetchCycle) := by
  obtain ⟨hle, hmisp, -⟩ := predictBranch_frame h.predicted
  obtain ⟨-, hlast⟩ := h.last_eq
  rw [hlast]
  exact ⟨rfl, rfl, rfl, hle, hmisp⟩

/-- Fetching waits for the entry `q` of `EQ`, which is executed or will be when the next
step catches up. -/
structure AwaitsEntry (q : QueueEntry) (s : Uarchsim P) : Prop where
  executed : s.pipe.Executed q ∨ q ∈ s.pipe.EQ ∧ s.previousFetchCycle < q.cycle
  later : q.cycle ≤ s.fetchCycle

/-- The next step executes the entry before it predicts a branch. -/
theorem AwaitsEntry.leads {q : QueueEntry} (hq : AwaitsEntry q s)
    (h : Course.Leads cfg hk s inst c) :
    c.managed.pipe.Executed q ∧ q.cycle ≤ c.before.fetchCycle := by
  obtain ⟨hevents, hevents'⟩ := h.events
  refine ⟨?_, hq.later.trans h.fetchCycle.1⟩
  rcases hq.executed with hexecuted | ⟨hmem, hlater⟩
  · exact hexecuted.mono (List.Subset.trans hevents hevents')
  · obtain ⟨-, _, pipe, hpipe, hbegun⟩ := beginStep_eq_ok h.begun
    have hbegun : c.begun.pipe = pipe := by rw [hbegun]
    have hcaught := (Pipeline.catchUp_executed (hlater.trans_le hq.later) q (Or.inr hmem)).of_ok
      hpipe
    rw [← hbegun] at hcaught
    rcases hcaught with hexecuted | ⟨-, hafter⟩
    · exact hexecuted.mono hevents'
    · exact absurd hq.later (not_le.mpr hafter)

theorem AwaitsEntry.step {q : QueueEntry} (hq : AwaitsEntry q s)
    (h : Course.Of cfg hk s inst c s') : AwaitsEntry q s' := by
  obtain ⟨hexecuted, hle⟩ := hq.leads h.toLeads
  obtain ⟨-, hevents, -, hle', -⟩ := h.after
  have hsubset : c.managed.pipe.events ⊆ s'.pipe.events := by
    rw [hevents]
    exact List.Subset.refl _
  exact { executed := Or.inl (hexecuted.mono hsubset)
          later := (hle.trans h.fetchCycle.2.1).trans hle' }

/-- A misprediction makes fetching wait for the branch. -/
theorem Course.Of.awaits (h : Course.Of cfg hk s inst c s') (hmisp : c.misp = true) :
    AwaitsEntry ((c.fetched cfg inst).entry Fetched.execCycle) s' := by
  obtain ⟨-, -, hlater, hprevious⟩ := h.fetchCycle
  obtain ⟨hEQ, -, hprevious', -, hredirected⟩ := h.after
  exact {
    executed := by
      rw [hEQ, hprevious', hprevious]
      exact Or.inr ⟨h.queued, hlater⟩
    later := hredirected hmisp }

end Steps

/-! ## The run -/

section Run

variable {cfg : Config} {hk : Hooks P H} {s₀ s : Uarchsim P}

open Uarchsim

theorem AwaitsEntry.ran {q : QueueEntry} {front later : List (DbInst × Course P)}
    (h : Ran cfg hk s₀ (front ++ later) s)
    (start : ∀ s₁, Ran cfg hk s₀ front s₁ → AwaitsEntry q s₁) : AwaitsEntry q s := by
  induction later using List.reverseRecOn generalizing s with
  | nil => exact start s (by simpa using h)
  | append_singleton later x ih =>
    rw [← List.append_assoc] at h
    obtain ⟨s₁, hran, hc⟩ := ran_concat.mp h
    exact (ih hran).step hc

/-- **A mispredicted branch resolves before anything younger is predicted.**  After the
instruction `b` was mispredicted, `later` may have followed.  When the step on a
younger instruction `y` comes to the prediction of its branch, which is where
`get_cond_dir_prediction` and `spec_update` are called, the execution of `b` has been
notified, and `y` was fetched in that cycle or later; the predictors have heard the
notifications so far. -/
theorem resolved_before_younger (cfg : Config) (hk : Hooks P H) (s₀ s : Uarchsim P)
    (front later : List (DbInst × Course P)) (b y : DbInst) (c c' : Course P)
    (hran : Ran cfg hk s₀ (front ++ (b, c) :: later) s) (hmisp : c.misp = true)
    (hy : Course.Leads cfg hk s y c') :
    c'.managed.pipe.Executed ((c.fetched cfg b).entry Fetched.execCycle) ∧
      (c.fetched cfg b).execCycle ≤ (c'.fetched cfg y).fetchCycle ∧
      ∀ ear, Hears hk ear → ear s₀.pipe.hooks = s₀.pipe.events →
        ear c'.managed.pipe.hooks = c'.managed.pipe.events := by
  have hq : AwaitsEntry ((c.fetched cfg b).entry Fetched.execCycle) s := by
    rw [List.append_cons] at hran
    apply AwaitsEntry.ran hran
    intro s₁ h
    obtain ⟨s₂, -, hc⟩ := ran_concat.mp h
    exact hc.awaits hmisp
  obtain ⟨hexecuted, hlater⟩ := hq.leads hy
  refine ⟨hexecuted, hlater, ?_⟩
  intro ear hears hs₀
  exact hy.heard hears (heard_of_ran hears hs₀ hran)

/-- A branch that is taken, which `idlePredictors` do not expect. -/
def farBranch : DbInst :=
  { regInst .condBranch 64 (intReg 1) {} {} with isTaken := true, nextPc := 256 }

theorem resolved_before_younger_farBranch :
    ∃ (s₀ s : Uarchsim (Unit × List Event)) (c c' : Course (Unit × List Event)),
      Ran {} (hearing idlePredictors) s₀ [(farBranch, c)] s ∧ c.misp = true ∧
      Course.Leads {} (hearing idlePredictors) s (regInst .condBranch 256 (intReg 1) {} {}) c' ∧
      c'.managed.pipe.Executed ((c.fetched {} farBranch).entry Fetched.execCycle) ∧
      c'.managed.pipe.hooks.2 = c'.managed.pipe.events := by
  obtain ⟨⟨s₀, c, s, c'⟩, h, hmisp⟩ := exists_of_observe (show ((do
      let s₀ ← lift (new ⟨fun _ => ⟨0, 0, 0⟩, 0⟩ {} ((), []))
      let (c, s) ← s₀.course {} (hearing idlePredictors) farBranch
      let (c', _) ← s.course {} (hearing idlePredictors) (regInst .condBranch 256 (intReg 1) {} {})
      .ok (s₀, c, s, c') : Except (Stop Empty) _).toOption.map fun x => x.2.1.misp) = some true by
    decide +kernel)
  obtain ⟨_, hnew, h⟩ := bind_eq_ok.mp h
  obtain ⟨⟨_, _⟩, hc, h⟩ := bind_eq_ok.mp h
  obtain ⟨⟨_, _⟩, hc', h⟩ := bind_eq_ok.mp h
  cases h
  have hran := Ran.snoc Ran.nil (course_eq_ok hc)
  have hy := (course_eq_ok hc').toLeads
  have hinit := (new_ends _ _ _).of_ok (lift_eq_ok.mp hnew)
  obtain ⟨hexecuted, -, hheard⟩ := resolved_before_younger {} (hearing idlePredictors) s₀ s [] []
    farBranch _ c c' hran hmisp hy
  refine ⟨s₀, s, c, c', hran, hmisp, hy, hexecuted, hheard Prod.snd (hearing_hears _) ?_⟩
  rw [hinit.pipe]

end Run

end CbpSim.Core
