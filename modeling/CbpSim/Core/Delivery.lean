/-
  Core/Delivery.lean --- every notification is delivered once, in its cycle.

  The two loops of `step` evaluate overlapping ranges of cycles.  `Sync` is the joint
  invariant of the window, the three queues and the notifications so far: each queue
  holds exactly what is still to come, so evaluating the next cycle delivers what is
  due in it, and evaluating the last cycle once more delivers nothing.
-/
import CbpSim.Core.Hearing
import CbpSim.Core.Queues

set_option autoImplicit false

namespace CbpSim.Core

open CbpSim.Foundation

variable {P H : Type}

/-! ## What is due -/

/-- The notifications of an instruction, in their order. -/
def Fetched.schedule (x : Fetched P) : List Event :=
  [x.notice .decode x.decodeCycle] ++
    ((if x.inst.insnClass.isMem then [x.notice .agen x.agenCycle] else []) ++
      ([x.notice .execute x.execCycle] ++ [x.notice .commit x.retireCycle]))

theorem WellTimed.schedule_ordered {x : Fetched P} (h : WellTimed x) :
    x.schedule.Pairwise fun e e' => e.cycle ≤ e'.cycle := by
  have hdecode := h.decode
  have hretire := h.retire
  cases hmem : x.inst.insnClass.isMem with
  | false => simp [Fetched.schedule, Fetched.notice, hmem]; omega
  | true =>
    have hagen := h.agen hmem
    simp [Fetched.schedule, Fetched.notice, hmem]
    omega

/-- The cycle of a stage is not among the first `n`. -/
def pending (n : Nat) (time : Fetched P → Nat) (x : Fetched P) : Bool := decide (n ≤ time x)

/-- The cycle of a stage is among the first `m`, but not among the first `n`. -/
def between (n m : Nat) (time : Fetched P → Nat) (x : Fetched P) : Bool :=
  decide (n ≤ time x) && decide (time x < m)

section Cycle

variable {L : List (Fetched P)} {n cycle : Nat} (time : Fetched P → Nat)

theorem filter_pending_due (hlo : cycle ≤ n) :
    (L.filter (pending n time)).filter (Pipeline.dueAt cycle time) =
      L.filter (between n (cycle + 1) time) := by
  rw [List.filter_filter]
  apply List.filter_congr
  intro x _
  rw [Bool.eq_iff_iff]
  simp only [pending, between, Pipeline.dueAt, Bool.and_eq_true, beq_iff_eq, decide_eq_true_eq]
  omega

theorem filter_pending_late (hlo : cycle ≤ n) (hhi : n ≤ cycle + 1) :
    ((L.filter (pending n time)).filter fun x => !Pipeline.dueAt cycle time x) =
      L.filter (pending (cycle + 1) time) := by
  rw [List.filter_filter]
  apply List.filter_congr
  intro x _
  rw [Bool.eq_iff_iff]
  simp only [pending, Pipeline.dueAt, Bool.and_eq_true, Bool.not_eq_true', beq_eq_false_iff_ne,
    decide_eq_true_eq]
  omega

/-- The notifications of a stage that the cycles from `n` to `m` deliver. -/
def news (stage : Stage) (time : Fetched P → Nat) (n m : Nat) (L : List (Fetched P)) :
    List Event :=
  (L.filter (between n m time)).map fun x => x.notice stage (time x)

/-- What a stage tells of one instruction. -/
theorem filter_news (hL : Timed L) {x : Fetched P} (hx : x ∈ L) (stage : Stage) (n m : Nat)
    (kind : Fetched P → Bool) :
    (news stage time n m (L.filter kind)).filter (·.seqNo == x.seqNo) =
      if kind x && between n m time x then [x.notice stage (time x)] else [] := by
  have hone : L.filter (fun y => y.seqNo == x.seqNo) = [x] := filter_key_eq hL.nodup hx
  have hswap : ((L.filter kind).filter (between n m time)).filter (·.seqNo == x.seqNo) =
      (L.filter (·.seqNo == x.seqNo)).filter fun y => kind y && between n m time y := by
    simp only [List.filter_filter]
    apply List.filter_congr
    intro y _
    rw [Bool.eq_iff_iff]
    simp only [Bool.and_eq_true]
    tauto
  rw [news, List.filter_map]
  have hcomp : ((fun e : Event => e.seqNo == x.seqNo) ∘ fun y : Fetched P =>
      y.notice stage (time y)) = fun y => y.seqNo == x.seqNo := rfl
  rw [hcomp, hswap, hone]
  cases hkind : kind x && between n m time x with
  | false => simp [hkind]
  | true => simp [hkind]

end Cycle

/-! ## The joint invariant -/

/-- The queues hold what is still to come, and the notifications so far are those of
the cycles evaluated. -/
structure Sync (L : List (Fetched P)) (p : Pipeline P) : Prop where
  inWindow : InWindow L p
  DQ : p.DQ = (L.filter (pending p.evaluated (·.decodeCycle))).map (Fetched.entry (·.decodeCycle))
  AQ : p.AQ = ((L.filter (·.inst.insnClass.isMem)).filter
    (pending p.evaluated (·.agenCycle))).map (Fetched.entry (·.agenCycle))
  EQ : p.EQ = (L.filter (pending p.evaluated (·.execCycle))).map (Fetched.entry (·.execCycle))
  notices : ∀ x ∈ L, p.events.filter (·.seqNo == x.seqNo) =
    x.schedule.filter fun e => decide (e.cycle < p.evaluated)
  known : ∀ e ∈ p.events, ∃ x ∈ L, e.seqNo = x.seqNo
  commits : (p.events.filter (·.stage == .commit)).map (·.seqNo) =
    (L.filter fun x => decide (x.retireCycle < p.evaluated)).map (·.seqNo)

namespace Pipeline

section Stages

variable {L : List (Fetched P)} {p : Pipeline P} {hk : Hooks P H} {cycle : Nat}

/-- What is still to come at a stage before retirement is in the window. -/
theorem holds_of_pending (hL : Timed L) (hp : InWindow L p) {x : Fetched P} (hx : x ∈ L)
    {time : Nat} (hpending : p.evaluated ≤ time) (htime : time ≤ x.execCycle) : p.Holds x :=
  locateEntry_eq hL hp hx ((hpending.trans htime).trans (hL.each x hx).retire)

theorem evalDecode_ends (hL : Timed L) (hp : InWindow L p)
    (hDQ : p.DQ = (L.filter (pending p.evaluated (·.decodeCycle))).map
      (Fetched.entry (·.decodeCycle)))
    (hlo : cycle ≤ p.evaluated) (hhi : p.evaluated ≤ cycle + 1) :
    Ends (evalDecode hk cycle p) InHook fun p' => ∃ hooks, p' = { p with
      hooks := hooks
      events := p.events ++ news .decode (·.decodeCycle) p.evaluated (cycle + 1) L
      DQ := (L.filter (pending (cycle + 1) (·.decodeCycle))).map
        (Fetched.entry (·.decodeCycle)) } := by
  have hlate : ∀ x ∈ L.filter (pending p.evaluated (·.decodeCycle)), cycle ≤ x.decodeCycle := by
    intro x hx
    exact hlo.trans (of_decide_eq_true (List.mem_filter.mp hx).2)
  have hordered : (L.filter (pending p.evaluated (·.decodeCycle))).Pairwise fun x y =>
      dueAt cycle (·.decodeCycle) y = true → dueAt cycle (·.decodeCycle) x = true := by
    apply (hL.decodes.sublist List.filter_sublist).imp_of_mem
    intro x y hx _ hxy hy
    exact beq_iff_eq.mpr (le_antisymm (hxy.trans (beq_iff_eq.mp hy).le) (hlate x hx))
  unfold evalDecode
  rw [hDQ]
  apply Ends.bind (evalDecodeLoop_ends _ p hlate _)
  · rintro ⟨_, _⟩ ⟨rfl, hooks, rfl⟩
    refine ⟨hooks, ?_⟩
    rw [dropWhile_eq_filter hordered, takeWhile_eq_filter hordered, filter_pending_due _ hlo,
      filter_pending_late _ hlo hhi]
    rfl
  · intro x hx hdue p' hwindow
    obtain ⟨hmem, hpending⟩ := List.mem_filter.mp hx
    apply notifyDecode_tells _ hdue
    exact (holds_of_pending hL hp hmem (of_decide_eq_true hpending)
      (hL.each x hmem).decode.le).of_window hwindow

/-- On what is still to come the loop delivers what is due. -/
theorem evalQueue_pending {notify : QueueEntry → Pipeline P → Except (Stop H) (Pipeline P)}
    {late : Abort} {time : Fetched P → Nat} (stage : Stage) (hlo : cycle ≤ p.evaluated)
    (hhi : p.evaluated ≤ cycle + 1)
    (htell : ∀ x ∈ L.filter (pending p.evaluated time), time x = cycle → ∀ p',
      p'.window = p.window →
        Ends (notify (x.entry time) p') InHook (p'.Tells [x.notice stage (time x)])) :
    Ends (evalQueue notify late cycle
        ((L.filter (pending p.evaluated time)).map (Fetched.entry time)) p) InHook fun r =>
      r.1 = (L.filter (pending (cycle + 1) time)).map (Fetched.entry time) ∧
        p.Tells (news stage time p.evaluated (cycle + 1) L) r.2 := by
  have hlate : ∀ x ∈ L.filter (pending p.evaluated time), cycle ≤ time x := by
    intro x hx
    exact hlo.trans (of_decide_eq_true (List.mem_filter.mp hx).2)
  apply (evalQueue_ends stage _ p hlate htell).imp
  rintro r ⟨hrest, htold⟩
  rw [filter_pending_late _ hlo hhi] at hrest
  rw [filter_pending_due _ hlo] at htold
  exact ⟨hrest, htold⟩

theorem evalAq_ends (hL : Timed L) (hp : InWindow L p)
    (hAQ : p.AQ = ((L.filter (·.inst.insnClass.isMem)).filter
      (pending p.evaluated (·.agenCycle))).map (Fetched.entry (·.agenCycle)))
    (hlo : cycle ≤ p.evaluated) (hhi : p.evaluated ≤ cycle + 1) :
    Ends (evalAq hk cycle p) InHook fun p' => ∃ hooks, p' = { p with
      hooks := hooks
      events := p.events ++ news .agen (·.agenCycle) p.evaluated (cycle + 1)
        (L.filter (·.inst.insnClass.isMem))
      AQ := ((L.filter (·.inst.insnClass.isMem)).filter
        (pending (cycle + 1) (·.agenCycle))).map (Fetched.entry (·.agenCycle)) } := by
  unfold evalAq
  rw [hAQ]
  apply Ends.bind (evalQueue_pending .agen hlo hhi _)
  · rintro ⟨_, _⟩ ⟨rfl, hooks, rfl⟩
    exact ⟨hooks, rfl⟩
  · intro x hx hdue p' hwindow
    obtain ⟨hmem, hpending⟩ := List.mem_filter.mp hx
    obtain ⟨hmem, hclass⟩ := List.mem_filter.mp hmem
    have htimed := hL.each x hmem
    apply notifyAgen_tells _ hdue htimed hclass (hL.memory x hmem hclass)
    exact (holds_of_pending hL hp hmem (of_decide_eq_true hpending)
      (htimed.agen hclass).2).of_window hwindow

theorem evalExec_ends (hL : Timed L) (hp : InWindow L p)
    (hEQ : p.EQ = (L.filter (pending p.evaluated (·.execCycle))).map
      (Fetched.entry (·.execCycle)))
    (hlo : cycle ≤ p.evaluated) (hhi : p.evaluated ≤ cycle + 1) :
    Ends (evalExec hk cycle p) InHook fun p' => ∃ hooks, p' = { p with
      hooks := hooks
      events := p.events ++ news .execute (·.execCycle) p.evaluated (cycle + 1) L
      EQ := (L.filter (pending (cycle + 1) (·.execCycle))).map
        (Fetched.entry (·.execCycle)) } := by
  unfold evalExec
  rw [hEQ]
  apply Ends.bind (evalQueue_pending .execute hlo hhi _)
  · rintro ⟨_, _⟩ ⟨rfl, hooks, rfl⟩
    exact ⟨hooks, rfl⟩
  · intro x hx hdue p' hwindow
    obtain ⟨hmem, hpending⟩ := List.mem_filter.mp hx
    apply notifyExecute_tells _ hdue
    exact (holds_of_pending hL hp hmem (of_decide_eq_true hpending) le_rfl).of_window hwindow

theorem evalRetire_ends (cfg : Config) (hp : InWindow L p) (hlo : cycle ≤ p.evaluated) :
    Ends (evalRetire cfg hk cycle p) InHook fun p' => ∃ hooks, p' = { p with
      hooks := hooks
      events := p.events ++ news .commit (·.retireCycle) p.evaluated (cycle + 1) L
      window := p.window.dropWhile (retires cycle) } := by
  have hnews : (p.window.takeWhile (retires cycle)).map (notice .commit cycle) =
      news .commit (·.retireCycle) p.evaluated (cycle + 1) L := by
    have htake := forall₂_takeWhile (p := retires cycle)
      (q := fun x : Fetched P => !unretired (cycle + 1) x)
      (fun w x hwx => hwx.retires_eq cycle) hp.window
    rw [takeWhile_eq_filter (hp.ordered_unretired p.evaluated cycle)] at htake
    rw [map_eq_map_of_forall₂ htake (g := fun x => x.notice .commit x.retireCycle)]
    · rw [news, List.filter_filter]
      congr 1
      apply List.filter_congr
      intro x _
      rw [Bool.eq_iff_iff]
      simp only [unretired, between, Bool.and_eq_true, Bool.not_eq_true', decide_eq_true_eq,
        decide_eq_false_iff_not]
      omega
    · intro w x hwx hx
      obtain ⟨hmem, hretires⟩ := List.mem_filter.mp hx
      have hlate := of_decide_eq_true (List.mem_filter.mp hmem).2
      simp only [unretired, Bool.not_eq_true', decide_eq_false_iff_not] at hretires
      have hcycle : cycle = x.retireCycle := by omega
      rw [hwx.notice_eq, hcycle]
  unfold evalRetire
  apply Ends.bind (evalRetireLoop_ends cfg hk cycle p.window p)
  rintro ⟨_, _⟩ ⟨rfl, hooks, rfl⟩
  rw [hnews]
  exact ⟨hooks, rfl⟩

end Stages

end Pipeline

/-! ## One cycle -/

/-- What the four stages tell in the cycles from `n` to `m`. -/
def cycleNews (n m : Nat) (L : List (Fetched P)) : List Event :=
  news .decode (·.decodeCycle) n m L ++
    (news .agen (·.agenCycle) n m (L.filter (·.inst.insnClass.isMem)) ++
      (news .execute (·.execCycle) n m L ++ news .commit (·.retireCycle) n m L))

section News

variable {L : List (Fetched P)} {n m : Nat}

theorem filter_news_all (hL : Timed L) {x : Fetched P} (hx : x ∈ L) (stage : Stage)
    (time : Fetched P → Nat) :
    (news stage time n m L).filter (·.seqNo == x.seqNo) =
      if between n m time x then [x.notice stage (time x)] else [] := by
  have h := filter_news time hL hx stage n m fun _ => true
  rwa [List.filter_true, Bool.true_and] at h

/-- What a cycle tells of one instruction is the part of its schedule in the cycle. -/
theorem filter_cycleNews (hL : Timed L) {x : Fetched P} (hx : x ∈ L) :
    (cycleNews n m L).filter (·.seqNo == x.seqNo) =
      x.schedule.filter fun e => decide (n ≤ e.cycle) && decide (e.cycle < m) := by
  simp only [cycleNews, Fetched.schedule, List.filter_append, filter_news_all hL hx,
    filter_news _ hL hx, between]
  cases x.inst.insnClass.isMem with
  | false => simp [List.filter_cons, Fetched.notice]
  | true => simp [List.filter_cons, Fetched.notice]

theorem cycleNews_known {e : Event} (he : e ∈ cycleNews n m L) : ∃ x ∈ L, e.seqNo = x.seqNo := by
  simp only [cycleNews, news, List.mem_append, List.mem_map, List.mem_filter] at he
  rcases he with ⟨x, ⟨hx, _⟩, rfl⟩ | ⟨x, ⟨⟨hx, _⟩, _⟩, rfl⟩ | ⟨x, ⟨hx, _⟩, rfl⟩ | ⟨x, ⟨hx, _⟩, rfl⟩
  · exact ⟨x, hx, rfl⟩
  · exact ⟨x, hx, rfl⟩
  · exact ⟨x, hx, rfl⟩
  · exact ⟨x, hx, rfl⟩

theorem filter_stage_news (stage stage' : Stage) (time : Fetched P → Nat) :
    (news stage time n m L).filter (·.stage == stage') =
      if stage = stage' then news stage time n m L else [] := by
  rw [news, List.filter_map]
  rcases eq_or_ne stage stage' with rfl | hne
  · rw [if_pos rfl, List.filter_eq_self.mpr]
    intro x _
    exact beq_self_eq_true _
  · rw [if_neg hne, List.filter_eq_nil_iff.mpr, List.map_nil]
    intro x _ heq
    exact hne (beq_iff_eq.mp heq)

/-- The commits of a cycle are in program order. -/
theorem commits_cycleNews :
    ((cycleNews n m L).filter (·.stage == .commit)).map (·.seqNo) =
      (L.filter (between n m (·.retireCycle))).map (·.seqNo) := by
  simp only [cycleNews, List.filter_append, filter_stage_news, reduceCtorEq, if_false, if_true,
    List.nil_append]
  rw [news, List.map_map]
  rfl

end News

section Cycle

variable {L : List (Fetched P)} {p : Pipeline P}

/-- The evaluation of a cycle keeps the invariant, and can only stop in a hook. -/
theorem Sync.evalCycle (cfg : Config) (hk : Hooks P H) (hL : Timed L) (h : Sync L p)
    {cycle : Nat} (hlo : cycle ≤ p.evaluated) (hhi : p.evaluated ≤ cycle + 1) :
    Ends (p.evalCycle cfg hk cycle) InHook fun p' => Sync L p' ∧ p'.evaluated = cycle + 1 := by
  have hwindow := h.inWindow
  unfold Pipeline.evalCycle
  apply Ends.bind (Pipeline.evalDecode_ends hL hwindow h.DQ hlo hhi)
  rintro _ ⟨_, rfl⟩
  refine Ends.bind (Pipeline.evalAq_ends hL ⟨hwindow.window, hwindow.ordered⟩ h.AQ hlo hhi) ?_
  rintro _ ⟨_, rfl⟩
  refine Ends.bind (Pipeline.evalExec_ends hL ⟨hwindow.window, hwindow.ordered⟩ h.EQ hlo hhi) ?_
  rintro _ ⟨_, rfl⟩
  refine Ends.bind (Pipeline.evalRetire_ends cfg ⟨hwindow.window, hwindow.ordered⟩ hlo) ?_
  rintro _ ⟨hooks, rfl⟩
  refine ⟨?_, rfl⟩
  have hevents : ((((p.events ++ news .decode (·.decodeCycle) p.evaluated (cycle + 1) L) ++
      news .agen (·.agenCycle) p.evaluated (cycle + 1) (L.filter (·.inst.insnClass.isMem))) ++
      news .execute (·.execCycle) p.evaluated (cycle + 1) L) ++
      news .commit (·.retireCycle) p.evaluated (cycle + 1) L) =
      p.events ++ cycleNews p.evaluated (cycle + 1) L := by
    simp only [cycleNews, List.append_assoc]
  dsimp only
  rw [hevents]
  exact {
    inWindow := hwindow.evalCycle hhi rfl rfl
    DQ := rfl
    AQ := rfl
    EQ := rfl
    notices := by
      intro x hx
      rw [List.filter_append, h.notices x hx, filter_cycleNews hL hx,
        ← filter_lt_append (hL.each x hx).schedule_ordered hhi]
    known := by
      intro e he
      rcases List.mem_append.mp he with he | he
      · exact h.known e he
      · exact cycleNews_known he
    commits := by
      rw [List.filter_append, List.map_append, h.commits, commits_cycleNews, ← List.map_append]
      congr 1
      exact (filter_lt_append hwindow.ordered hhi).symm }

end Cycle

/-! ## The dispatch -/

/-- The latencies put the stages of an instruction in order. -/
theorem Fetches.wellTimed {cfg : Config} {hk : Hooks P H} {K : P → P → Prop} {a s' : Uarchsim P}
    {inst : DbInst} {t : Timing} {x : Fetched P} {w : WindowEntry} (hlat : cfg.DefaultLatencies)
    (hx : Fetches cfg hk K a inst t x w s') : WellTimed x := by
  have hfill := hx.scheduled.filled
  have hagen := hx.scheduled.agen
  have hload := hx.scheduled.load
  have hfixed := hx.scheduled.fixed
  have hlatency : 1 ≤ fixedLatency cfg inst.insnClass := by
    unfold fixedLatency
    rw [hlat.fp, hlat.slowAlu, hlat.default]
    split
    · decide
    · split
      · decide
      · decide
  have hexec : t.laneCycle + 1 ≤ t.execCycle := by
    cases hl : inst.isLoad with
    | true => exact (Nat.le_succ _).trans (hload hl)
    | false =>
      rw [hfixed hl]
      exact Nat.add_le_add_left hlatency _
  rw [hlat.fill] at hfill
  refine { decode := ?_, agen := ?_, retire := ?_ }
  · rw [hx.records.decodeCycle, hx.records.execCycle, hlat.dq]
    omega
  · rw [hx.records.inst, hx.records.decodeCycle, hx.records.agenCycle, hx.records.execCycle,
      hlat.dq]
    intro hmem
    rw [hagen hmem]
    omega
  · rw [hx.records.retireCycle, hx.records.execCycle]
    exact le_max_left _ _

section Dispatch

variable {cfg : Config} {hk : Hooks P H} {K : P → P → Prop} {L : List (Fetched P)}
  {a s' : Uarchsim P} {inst : DbInst} {t : Timing} {x : Fetched P} {w : WindowEntry}

theorem Timed.dispatch (hL : Timed L) (hx : Fetches cfg hk K a inst t x w s')
    (hflags : inst.FlagsMatch) (htimed : WellTimed x) (hnum : a.numUop = L.length)
    (hdecodes : ∀ y ∈ L, y.decodeCycle ≤ x.decodeCycle) : Timed (L ++ [x]) where
  numbered := by
    rw [List.map_append, hL.numbered, List.length_append, List.length_singleton,
      List.range_succ, List.map_singleton, hx.records.seqNo, hnum]
  decodes := by
    refine List.pairwise_append.mpr ⟨hL.decodes, List.pairwise_singleton _ _, ?_⟩
    intro y hy z hz
    rw [List.mem_singleton.mp hz]
    exact hdecodes y hy
  each := by
    intro y hy
    rcases List.mem_append.mp hy with hy | hy
    · exact hL.each y hy
    · rw [List.mem_singleton.mp hy]
      exact htimed
  memory := by
    intro y hy
    rcases List.mem_append.mp hy with hy | hy
    · exact hL.memory y hy
    · rw [List.mem_singleton.mp hy, hx.records.inst, hflags.load, hflags.store]
      exact id

/-- An instruction is appended to a queue whose cycle is still to come. -/
theorem filter_pending_concat {n : Nat} {time : Fetched P → Nat} (h : n ≤ time x) :
    (L ++ [x]).filter (pending n time) = L.filter (pending n time) ++ [x] := by
  have hx : pending n time x = true := decide_eq_true h
  rw [List.filter_append, List.filter_cons_of_pos hx, List.filter_nil]

theorem Sync.dispatch (h : Sync L a.pipe) (hL : Timed (L ++ [x]))
    (hx : Fetches cfg hk K a inst t x w s') (hdecode : a.pipe.evaluated ≤ x.decodeCycle) :
    Sync (L ++ [x]) s'.pipe := by
  have htimed := hL.each x (List.mem_append_right L (List.mem_singleton_self x))
  have hexec : a.pipe.evaluated ≤ x.execCycle := hdecode.trans htimed.decode.le
  have hretire : x.retireCycle = max x.execCycle a.pipe.backRetire := by
    rw [hx.records.retireCycle, hx.records.execCycle]
  -- no notification is about the new instruction yet
  have hnew : ∀ y ∈ L, y.seqNo ≠ x.seqNo := by
    intro y hy
    exact ((List.pairwise_append.mp hL.increasing).2.2 y hy x (List.mem_singleton_self x)).ne
  have hfuture : x.schedule.filter (fun e => decide (e.cycle < a.pipe.evaluated)) = [] := by
    have hdecode' := htimed.decode
    have hretire' := htimed.retire
    rw [List.filter_eq_nil_iff]
    intro e he hlt
    have hlt := of_decide_eq_true hlt
    simp only [Fetched.schedule, List.mem_append, List.mem_singleton] at he
    rcases he with rfl | he | rfl | rfl
    · exact absurd hlt (not_lt.mpr hdecode)
    · split at he
      · rename_i hmem
        obtain rfl := List.mem_singleton.mp he
        exact absurd hlt (not_lt.mpr (hdecode.trans (htimed.agen hmem).1.le))
      · cases he
    · exact absurd hlt (not_lt.mpr hexec)
    · exact absurd hlt (not_lt.mpr (hexec.trans hretire'))
  exact {
    inWindow := h.inWindow.dispatch hx.describes hexec hretire hx.window hx.evaluated
    DQ := by
      rw [hx.DQ, h.DQ, hx.evaluated, filter_pending_concat hdecode, List.map_append]
      rfl
    AQ := by
      rw [hx.AQ, h.AQ, hx.evaluated, List.filter_append, hx.records.inst.symm]
      cases hmem : x.inst.insnClass.isMem with
      | false => simp [hmem]
      | true =>
        have hagen := hdecode.trans (htimed.agen hmem).1.le
        rw [if_pos rfl, List.filter_cons_of_pos (p := fun y : Fetched P => y.inst.insnClass.isMem)
          hmem, List.filter_nil, filter_pending_concat hagen, List.map_append]
        rfl
    EQ := by
      rw [hx.EQ, h.EQ, hx.evaluated, filter_pending_concat hexec, List.map_append]
      rfl
    notices := by
      intro y hy
      rw [hx.events, hx.evaluated]
      rcases List.mem_append.mp hy with hy | hy
      · exact h.notices y hy
      · rw [List.mem_singleton.mp hy, hfuture, List.filter_eq_nil_iff]
        intro e he heq
        obtain ⟨z, hz, hez⟩ := h.known e he
        exact hnew z hz (hez.symm.trans (beq_iff_eq.mp heq))
    known := by
      rw [hx.events]
      intro e he
      obtain ⟨z, hz, hez⟩ := h.known e he
      exact ⟨z, List.mem_append_left _ hz, hez⟩
    commits := by
      have hlate : ¬ x.retireCycle < a.pipe.evaluated := not_lt.mpr (hexec.trans htimed.retire)
      rw [hx.events, hx.evaluated, h.commits, List.filter_append, List.filter_cons_of_neg
        (by simpa using hlate), List.filter_nil, List.append_nil] }

end Dispatch

/-! ## Every run -/

/-- The program did not stop at an assert of the evaluation of a cycle. -/
def OffEvaluation : Stop H → Prop
  | .abort e => ofEvaluation e = false
  | .hook _ => True

theorem offEvaluation_of_elsewhere {e : Abort} (h : Elsewhere e) :
    OffEvaluation (.abort e : Stop H) := by
  simp only [Elsewhere, ofPipeline, Bool.or_eq_false_iff] at h
  exact h.1.1

theorem InHook.offEvaluation {e : Stop H} (h : InHook e) : OffEvaluation e := by
  cases e with
  | hook r => trivial
  | abort site => exact absurd h id

/-- Every instruction that was fetched was notified of exactly those stages whose cycle
is evaluated, in the order of the stages and in their cycles. -/
structure Delivered (cfg : Config) (s : Uarchsim P) : Prop where
  notices : ∀ x ∈ s.fetched, s.pipe.events.filter (·.seqNo == x.seqNo) =
    x.schedule.filter fun e => decide (e.cycle < s.pipe.evaluated)
  known : ∀ e ∈ s.pipe.events, ∃ x ∈ s.fetched, e.seqNo = x.seqNo
  numbered : s.fetched.map (·.seqNo) = List.range s.fetched.length
  commits : ((s.pipe.events.filter (·.stage == .commit)).map (·.seqNo)).Pairwise (· < ·)
  decodes : ∀ x ∈ s.fetched, x.decodeCycle = x.fetchCycle + cfg.dqLatency
  timed : ∀ x ∈ s.fetched, WellTimed x

/-- The invariant behind it. -/
structure DeliveryKept (cfg : Config) (s : Uarchsim P) : Prop where
  caughtUp : Evaluated s.pipe s.previousFetchCycle
  timed : Timed s.fetched
  sync : Sync s.fetched s.pipe
  numUop : s.numUop = s.fetched.length
  fetchedBy : ∀ x ∈ s.fetched, x.fetchCycle ≤ s.fetchCycle
  decodes : ∀ x ∈ s.fetched, x.decodeCycle = x.fetchCycle + cfg.dqLatency

theorem DeliveryKept.delivered {cfg : Config} {s : Uarchsim P} (h : DeliveryKept cfg s) :
    Delivered cfg s where
  notices := h.sync.notices
  known := h.sync.known
  numbered := h.timed.numbered
  commits := by
    rw [h.sync.commits]
    exact List.pairwise_map.mpr (h.timed.increasing.sublist List.filter_sublist)
  decodes := h.decodes
  timed := h.timed.each

theorem DeliveryKept.initial {cfg : Config} {p : P} {s : Uarchsim P}
    (h : Uarchsim.Initial cfg p s) : DeliveryKept cfg s where
  caughtUp := h.caughtUp
  timed := by
    rw [h.fetched]
    exact { numbered := rfl, decodes := .nil, each := by simp, memory := by simp }
  sync := by
    rw [h.fetched, h.pipe]
    exact { inWindow := ⟨.nil, .nil⟩, DQ := rfl, AQ := rfl, EQ := rfl, notices := by simp
            known := by simp, commits := rfl }
  numUop := by rw [h.numUop, h.fetched, List.length_nil]
  fetchedBy := by simp [h.fetched]
  decodes := by simp [h.fetched]

theorem deliveryKept_step {cfg : Config} (hk : Hooks P H) (hlat : cfg.DefaultLatencies)
    {s : Uarchsim P} (h : DeliveryKept cfg s) {inst : DbInst} (hflags : inst.FlagsMatch) :
    Ends (s.step cfg hk inst) OffEvaluation (DeliveryKept cfg) := by
  have keeps : EvalKeeps cfg hk OffEvaluation (Sync s.fetched) := by
    intro cycle p hp hlo hhi
    exact (hp.evalCycle cfg hk h.timed hlo hhi).mono (fun _ => InHook.offEvaluation) fun _ hp' => hp'
  have hstep := Uarchsim.step_ends (E := OffEvaluation) (J := Sync s.fetched)
    (fun _ => offEvaluation_of_elsewhere) (Quiet.of_any hk fun _ => trivial) keeps
    (fun p hooks hp _ => { hp with inWindow := ⟨hp.inWindow.window, hp.inWindow.ordered⟩ })
    h.sync h.caughtUp (fun _ _ => Or.inr rfl) (fun _ _ => Or.inr rfl) inst
  apply hstep.imp
  rintro s' ⟨a, t, x, w, ha, hx⟩
  have hfetched : s'.fetched = s.fetched ++ [x] := by rw [hx.fetched, ha.fetched]
  have hnum : a.numUop = s.fetched.length := by rw [ha.numUop, h.numUop]
  have hdecode : x.decodeCycle = a.fetchCycle + cfg.dqLatency := hx.records.decodeCycle
  have hordered : ∀ y ∈ s.fetched, y.decodeCycle ≤ x.decodeCycle := by
    intro y hy
    rw [h.decodes y hy, hdecode]
    exact Nat.add_le_add_right ((h.fetchedBy y hy).trans ha.later) _
  have htimed := h.timed.dispatch hx hflags (hx.wellTimed hlat) hnum hordered
  have hpending : a.pipe.evaluated ≤ x.decodeCycle := by
    rw [hdecode, hlat.dq]
    rcases ha.evaluated with hev | ⟨hev, _⟩
    · omega
    · omega
  refine { caughtUp := hx.caughtUp ha, timed := ?_, sync := ?_, numUop := ?_, fetchedBy := ?_
           decodes := ?_ }
  · rw [hfetched]
    exact htimed
  · rw [hfetched]
    exact ha.pipe.dispatch htimed hx hpending
  · rw [hx.numUop, hnum, hfetched, List.length_append, List.length_singleton]
  · rw [hfetched]
    intro y hy
    rcases List.mem_append.mp hy with hy | hy
    · exact ((h.fetchedBy y hy).trans ha.later).trans hx.moved.le
    · rw [List.mem_singleton.mp hy, hx.records.fetchCycle]
      exact hx.moved.le
  · rw [hfetched]
    intro y hy
    rcases List.mem_append.mp hy with hy | hy
    · exact h.decodes y hy
    · rw [List.mem_singleton.mp hy, hdecode, hx.records.fetchCycle]

/-- **Pipeline event delivery**, in every state that the simulator reaches, where the
notifications are those that the predictors heard; and no assert of the evaluation of a
cycle fails on the way. -/
theorem delivered_run (u : Unset) (cfg : Config) (hk : Hooks P H) (p : P) (insts : List DbInst)
    (hlat : cfg.DefaultLatencies) (hflags : ∀ inst ∈ insts, inst.FlagsMatch) :
    (∀ s, Uarchsim.simulate u cfg hk p insts = .ok s → Delivered cfg s ∧
        ∀ ear, Hears hk ear → ear p = [] → ear s.pipe.hooks = s.pipe.events) ∧
      ∀ e, Uarchsim.simulate u cfg hk p insts = .error e → OffEvaluation e := by
  have hends : Ends (Uarchsim.simulate u cfg hk p insts) OffEvaluation (DeliveryKept cfg) := by
    apply Uarchsim.simulate_ends (fun _ => offEvaluation_of_elsewhere)
    · intro s h
      exact DeliveryKept.initial h
    · intro s inst hinst h
      exact deliveryKept_step hk hlat h (hflags inst hinst)
  obtain ⟨hreturns, hstops⟩ := ends_iff.mp hends
  refine ⟨fun s hs => ⟨(hreturns s hs).delivered, ?_⟩, hstops⟩
  intro ear hears hp
  exact heard_of_simulate hears hp hs

/-- Three dependent instructions of different latencies. -/
def loadStoreTrace : List DbInst :=
  [regInst .load 64 (intReg 1) {} (intReg 2), regInst .store 68 (intReg 1) (intReg 2) {},
    regInst .fp 72 (intReg 2) {} (intReg 3)]

/-- The predictors write the notifications down. -/
theorem delivered_loadStoreTrace :
    ∃ s, Uarchsim.simulate ⟨fun _ => ⟨0, 0, 0⟩, 0⟩ { windowSize := 1 } (hearing idlePredictors)
        ((), []) loadStoreTrace = .ok s ∧
      Delivered { windowSize := 1 } s ∧ s.pipe.hooks.2 = s.pipe.events := by
  obtain ⟨s, hs⟩ := exists_of_isOk
    (show (Uarchsim.simulate ⟨fun _ => ⟨0, 0, 0⟩, 0⟩ { windowSize := 1 } (hearing idlePredictors)
      ((), []) loadStoreTrace).isOk = true by decide +kernel)
  have hlat : ({ windowSize := 1 } : Config).DefaultLatencies :=
    { fill := rfl, dq := rfl, default := rfl, fp := rfl, slowAlu := rfl }
  obtain ⟨hdelivered, hheard⟩ := (delivered_run _ _ (hearing idlePredictors) ((), [])
    loadStoreTrace hlat (by decide)).1 s hs
  exact ⟨s, hs, hdelivered, hheard Prod.snd (hearing_hears _) rfl⟩

end CbpSim.Core
