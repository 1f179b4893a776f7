/-
  Core/FetchLimits.lean --- the limits of fetching.

  Source: src/lib/uarchsim.cc, "Manage fetch cycle" of `step`.

  The fetch cycle moves for five causes, and each resets other counters of the fetch
  bundle.  `Moved` says how they can change; the limits follow, for every
  configuration and every trace: on the window, on the pieces and branches of a
  cycle, and on what shares a cycle with a branch that ends its bundle.
-/
import CbpSim.Core.Window

set_option autoImplicit false

namespace CbpSim.Core

open CbpSim.Foundation

variable {P H : Type}

/-! ## Pieces of a cycle -/

/-- The pieces of a kind that were fetched in a cycle. -/
def countAt (kind : DbInst → Bool) (L : List (Fetched P)) (cycle : Nat) : Nat :=
  L.countP fun x => kind x.inst && x.fetchCycle == cycle

theorem countAt_concat (kind : DbInst → Bool) (L : List (Fetched P)) (x : Fetched P)
    (cycle : Nat) :
    countAt kind (L ++ [x]) cycle =
      countAt kind L cycle + (kind x.inst && x.fetchCycle == cycle).toNat := by
  rw [countAt, List.countP_append, List.countP_singleton]
  cases kind x.inst && x.fetchCycle == cycle with
  | false => rfl
  | true => rfl

theorem countAt_eq_zero {kind : DbInst → Bool} {L : List (Fetched P)} {cycle : Nat}
    (h : ∀ x ∈ L, x.fetchCycle < cycle) : countAt kind L cycle = 0 := by
  rw [countAt, List.countP_eq_zero]
  intro x hx heq
  simp only [Bool.and_eq_true, beq_iff_eq] at heq
  exact absurd heq.2 (h x hx).ne

/-- A counter of the bundle: it is below its limit, and counts at least the pieces of
the current cycle. -/
structure Bounded (kind : DbInst → Bool) (limit counter : Nat) (L : List (Fetched P))
    (cycle : Nat) : Prop where
  current : countAt kind L cycle ≤ counter
  room : counter < limit
  every : ∀ c, countAt kind L c ≤ limit

theorem Bounded.nil (kind : DbInst → Bool) (cycle : Nat) {limit : Nat} (h : 0 < limit) :
    Bounded kind limit 0 ([] : List (Fetched P)) cycle where
  current := le_rfl
  room := h
  every _ := Nat.zero_le _

/-- The next piece keeps the limit: either the cycle moves on, or the piece is
counted and the counter has not come to its limit. -/
theorem Bounded.concat {kind : DbInst → Bool} {limit n n' cycle cycle' : Nat}
    {L : List (Fetched P)} {x : Fetched P} (h : Bounded kind limit n L cycle)
    (hL : ∀ y ∈ L, y.fetchCycle ≤ cycle) (hx : cycle ≤ x.fetchCycle)
    (moved : x.fetchCycle < cycle' ∧ n' < limit ∨
      cycle' = x.fetchCycle ∧ n' = n + (kind x.inst).toNat ∧ (kind x.inst → n' ≠ limit)) :
    Bounded kind limit n' (L ++ [x]) cycle' := by
  have before : countAt kind L x.fetchCycle ≤ n := by
    rcases hx.eq_or_lt with rfl | hlt
    · exact h.current
    · rw [countAt_eq_zero fun y hy => (hL y hy).trans_lt hlt]
      exact Nat.zero_le n
  have now : countAt kind (L ++ [x]) x.fetchCycle ≤ n + (kind x.inst).toNat := by
    rw [countAt_concat]
    simpa using before
  have hlimit : n + (kind x.inst).toNat ≤ limit := by
    have := Bool.toNat_le (kind x.inst)
    have := h.room
    omega
  have every : ∀ c, countAt kind (L ++ [x]) c ≤ limit := by
    intro c
    rcases eq_or_ne x.fetchCycle c with rfl | hne
    · exact now.trans hlimit
    · rw [countAt_concat, beq_false_of_ne hne, Bool.and_false]
      exact h.every c
  rcases moved with ⟨hlater, hroom⟩ | ⟨rfl, rfl, hne⟩
  · refine { current := ?_, room := hroom, every := every }
    rw [countAt_eq_zero]
    · exact Nat.zero_le n'
    · intro y hy
      rcases List.mem_append.mp hy with hy | hy
      · exact ((hL y hy).trans hx).trans_lt hlater
      · rw [List.mem_singleton.mp hy]
        exact hlater
  · refine { current := now, room := ?_, every := every }
    cases hkind : kind x.inst with
    | false => exact h.room
    | true =>
      rw [hkind] at hlimit hne
      exact lt_of_le_of_ne hlimit (hne rfl)

/-! ## The limits -/

/-- The instruction ends its fetch bundle. -/
def endsBundle (cfg : Config) (inst : DbInst) : Bool :=
  cfg.fetchStopAtTaken && inst.isTaken || cfg.fetchStopAtIndirect && inst.insnClass.isUncondIndBr

/-- The limits on the window and on the fetch bundles.  `previousFetchCycle` is the
cycle of the last dispatch. -/
structure WithinLimits (cfg : Config) (s : Uarchsim P) : Prop where
  window : s.pipe.window.length ≤ cfg.windowSize
  front : ∀ f ∈ s.pipe.window.head?, s.previousFetchCycle < f.retireCycle
  awaitsRoom : ∀ (i : Nat) (x y : Fetched P), s.fetched[i]? = some x →
    s.fetched[i + cfg.windowSize]? = some y → x.retireCycle ≤ y.fetchCycle
  width : 0 < cfg.fetchWidth → ∀ c, countAt (·.isLastPiece) s.fetched c ≤ cfg.fetchWidth
  branches : 0 < cfg.fetchNumBranch →
    ∀ c, countAt (·.insnClass.isBr) s.fetched c ≤ cfg.fetchNumBranch
  apart : s.fetched.Pairwise fun x y => endsBundle cfg x.inst → x.fetchCycle ≠ y.fetchCycle

/-- The invariant behind them. -/
structure LimitsKept (cfg : Config) (s : Uarchsim P) : Prop where
  caughtUp : Evaluated s.pipe s.previousFetchCycle
  inWindow : InWindow s.fetched s.pipe
  capacity : s.windowCapacity = cfg.windowSize
  room : s.pipe.window.length ≤ cfg.windowSize
  full : s.pipe.window.length = cfg.windowSize →
    s.previousFetchCycle < s.fetchCycle ∧ ∃ f ∈ s.pipe.window, f.retireCycle ≤ s.fetchCycle
  front : ∀ f ∈ s.pipe.window.head?, s.previousFetchCycle < f.retireCycle
  retires : ∀ x ∈ s.fetched, 0 < x.retireCycle
  fetchedBy : ∀ x ∈ s.fetched, x.fetchCycle ≤ s.fetchCycle
  awaitsRoom : ∀ (i : Nat) (x y : Fetched P), s.fetched[i]? = some x →
    s.fetched[i + cfg.windowSize]? = some y → x.retireCycle ≤ y.fetchCycle
  width : 0 < cfg.fetchWidth →
    Bounded (·.isLastPiece) cfg.fetchWidth s.numFetched s.fetched s.fetchCycle
  branches : 0 < cfg.fetchNumBranch →
    Bounded (·.insnClass.isBr) cfg.fetchNumBranch s.numFetchedBranch s.fetched s.fetchCycle
  stopped : ∀ x ∈ s.fetched, endsBundle cfg x.inst → x.fetchCycle < s.fetchCycle
  apart : s.fetched.Pairwise fun x y => endsBundle cfg x.inst → x.fetchCycle ≠ y.fetchCycle

theorem LimitsKept.withinLimits {cfg : Config} {s : Uarchsim P} (h : LimitsKept cfg s) :
    WithinLimits cfg s where
  window := h.room
  front := h.front
  awaitsRoom := h.awaitsRoom
  width hpos := (h.width hpos).every
  branches hpos := (h.branches hpos).every
  apart := h.apart

theorem LimitsKept.initial {cfg : Config} {p : P} {s : Uarchsim P}
    (h : Uarchsim.Initial cfg p s) : LimitsKept cfg s where
  caughtUp := h.caughtUp
  inWindow := by
    rw [h.fetched, h.pipe]
    exact ⟨.nil, .nil⟩
  capacity := h.windowCapacity
  room := by
    rw [h.pipe]
    exact Nat.zero_le _
  full := by
    rw [h.pipe]
    intro hzero
    exact absurd hzero h.windowSize.ne
  front := by simp [h.pipe]
  retires := by simp [h.fetched]
  fetchedBy := by simp [h.fetched]
  awaitsRoom := by simp [h.fetched]
  width := by
    rw [h.fetched, h.numFetched]
    exact Bounded.nil _ _
  branches := by
    rw [h.fetched, h.numFetchedBranch]
    exact Bounded.nil _ _
  stopped := by simp [h.fetched]
  apart := by
    rw [h.fetched]
    exact .nil

/-! ## Catching up -/

/-- What is known of the pipeline while it catches up with a step from `s`. -/
structure CatchingUp (s : Uarchsim P) (p : Pipeline P) : Prop where
  inWindow : InWindow s.fetched p
  evaluated : s.pipe.evaluated ≤ p.evaluated

theorem catchingUp_kept (cfg : Config) (hk : Hooks P H) (s : Uarchsim P) :
    EvalKeeps cfg hk OffWindow (CatchingUp s) := by
  intro cycle p hp _ hnext
  apply (Pipeline.evalCycle_window cfg hk cycle p).imp
  rintro p' ⟨hwindow, hevaluated⟩
  refine ⟨{ inWindow := hp.inWindow.evalCycle hnext hwindow hevaluated, evaluated := ?_ },
    hevaluated⟩
  rw [hevaluated]
  exact hp.evaluated.trans hnext

section Caught

variable {cfg : Config} {s a : Uarchsim P}

/-- Before the dispatch the window has room. -/
theorem LimitsKept.length_lt (h : LimitsKept cfg s) (ha : Caught (CatchingUp s) s a) :
    a.pipe.window.length < cfg.windowSize := by
  have hsub : (s.fetched.filter (unretired a.pipe.evaluated)).Sublist
      (s.fetched.filter (unretired s.pipe.evaluated)) := by
    apply List.monotone_filter_right
    intro x hx
    exact decide_eq_true (ha.pipe.evaluated.trans (of_decide_eq_true hx))
  have hle : a.pipe.window.length ≤ s.pipe.window.length := by
    rw [ha.pipe.inWindow.length_eq, h.inWindow.length_eq]
    exact hsub.length_le
  rcases (hle.trans h.room).lt_or_eq with hlt | heq
  · exact hlt
  · -- a full window: something in it retires before the next fetch cycle
    have hfull : s.pipe.window.length = cfg.windowSize := le_antisymm h.room (heq ▸ hle)
    obtain ⟨hmoved, f, hf, hretired⟩ := h.full hfull
    have hsame := hsub.eq_of_length (by
      rw [← ha.pipe.inWindow.length_eq, ← h.inWindow.length_eq, heq, hfull])
    have hretire : f.retireCycle ∈ s.pipe.window.map (·.retireCycle) := List.mem_map_of_mem hf
    rw [h.inWindow.retireCycles_eq, ← hsame, ← ha.pipe.inWindow.retireCycles_eq] at hretire
    obtain ⟨g, hg, hgf⟩ := List.mem_map.mp hretire
    have hlate := ha.pipe.inWindow.evaluated_le hg
    have hlater := ha.later
    rcases ha.evaluated with hev | ⟨_, hzero⟩
    · omega
    · omega

/-- The front of the window retires after the cycle of the dispatch. -/
theorem LimitsKept.fetchCycle_lt (h : LimitsKept cfg s) (ha : Caught (CatchingUp s) s a)
    {f : WindowEntry} (hf : f ∈ a.pipe.window) : a.fetchCycle < f.retireCycle := by
  rcases ha.evaluated with hev | ⟨_, hzero⟩
  · have hlate := ha.pipe.inWindow.evaluated_le hf
    rw [hev] at hlate
    exact hlate
  · have hmem : f.retireCycle ∈ a.pipe.window.map (·.retireCycle) := List.mem_map_of_mem hf
    rw [ha.pipe.inWindow.retireCycles_eq] at hmem
    obtain ⟨x, hx, heq⟩ := List.mem_map.mp hmem
    rw [hzero, ← heq]
    exact h.retires x (List.mem_of_mem_filter hx)

/-- An instruction has retired when the one `WINDOW_SIZE` after it is fetched. -/
theorem LimitsKept.retired (h : LimitsKept cfg s) (ha : Caught (CatchingUp s) s a) {i : Nat}
    (hi : i + cfg.windowSize = s.fetched.length) {x : Fetched P} (hx : s.fetched[i]? = some x) :
    x.retireCycle ≤ a.fetchCycle := by
  apply Nat.le_of_not_lt
  intro hlater
  have hev : a.pipe.evaluated ≤ x.retireCycle := by
    rcases ha.evaluated with hev | ⟨hev, _⟩
    · rw [hev]
      exact hlater
    · rw [hev]
      exact Nat.zero_le _
  -- then it is in the window, and so are the instructions after it: too many
  have hcons : s.fetched.drop i = x :: s.fetched.drop (i + 1) := by
    obtain ⟨hlt, rfl⟩ := List.getElem?_eq_some_iff.mp hx
    exact List.drop_eq_getElem_cons hlt
  have hordered := ha.pipe.inWindow.ordered.sublist (List.drop_sublist i s.fetched)
  rw [hcons] at hordered
  have hall : (s.fetched.drop i).filter (unretired a.pipe.evaluated) = s.fetched.drop i := by
    rw [List.filter_eq_self, hcons]
    intro y hy
    apply decide_eq_true
    rcases List.mem_cons.mp hy with rfl | hy
    · exact hev
    · exact hev.trans ((List.pairwise_cons.mp hordered).1 y hy)
  have hle := ((List.drop_sublist i s.fetched).filter (unretired a.pipe.evaluated)).length_le
  rw [hall, ← ha.pipe.inWindow.length_eq, List.length_drop, ← hi, Nat.add_sub_cancel_left] at hle
  exact absurd (h.length_lt ha) (not_lt.mpr hle)

end Caught

/-! ## The step -/

section Fetching

variable {cfg : Config} {hk : Hooks P H} {K : P → P → Prop} {s a s' : Uarchsim P} {inst : DbInst}
  {t : Timing} {x : Fetched P} {w : WindowEntry}

theorem LimitsKept.awaitsRoom_concat (h : LimitsKept cfg s) (ha : Caught (CatchingUp s) s a)
    (hcycle : x.fetchCycle = a.fetchCycle) (i : Nat) (y z : Fetched P)
    (hy : (s.fetched ++ [x])[i]? = some y) (hz : (s.fetched ++ [x])[i + cfg.windowSize]? = some z) :
    y.retireCycle ≤ z.fetchCycle := by
  have hpos : 0 < cfg.windowSize := (Nat.zero_le _).trans_lt (h.length_lt ha)
  rcases lt_trichotomy (i + cfg.windowSize) s.fetched.length with hlt | heq | hgt
  · rw [List.getElem?_append_left hlt] at hz
    rw [List.getElem?_append_left (by omega)] at hy
    exact h.awaitsRoom i y z hy hz
  · rw [heq, List.getElem?_concat_length] at hz
    rw [List.getElem?_append_left (by omega)] at hy
    rw [← Option.some.inj hz, hcycle]
    exact h.retired ha heq hy
  · rw [List.getElem?_eq_none (by simpa using hgt)] at hz
    cases hz

theorem LimitsKept.width_concat (h : LimitsKept cfg s) (ha : Caught (CatchingUp s) s a)
    (hx : Fetches cfg hk K a inst t x w s') (hpos : 0 < cfg.fetchWidth) :
    Bounded (·.isLastPiece) cfg.fetchWidth s'.numFetched (s.fetched ++ [x]) s'.fetchCycle := by
  have hcycle : x.fetchCycle = a.fetchCycle := hx.records.fetchCycle
  apply (h.width hpos).concat h.fetchedBy (hcycle ▸ ha.later)
  rw [hx.records.inst, hcycle]
  cases hx.moved with
  | next later width branches => exact Or.inl ⟨later, width ▸ hpos⟩
  | same stays width branches indirect taken =>
    obtain ⟨hwidth, hne⟩ := width hpos
    rw [ha.numFetched] at hwidth
    exact Or.inr ⟨stays, hwidth, fun _ => hne⟩

theorem LimitsKept.branches_concat (h : LimitsKept cfg s) (ha : Caught (CatchingUp s) s a)
    (hx : Fetches cfg hk K a inst t x w s') (hpos : 0 < cfg.fetchNumBranch) :
    Bounded (·.insnClass.isBr) cfg.fetchNumBranch s'.numFetchedBranch (s.fetched ++ [x])
      s'.fetchCycle := by
  have hcycle : x.fetchCycle = a.fetchCycle := hx.records.fetchCycle
  apply (h.branches hpos).concat h.fetchedBy (hcycle ▸ ha.later)
  rw [hx.records.inst, hcycle]
  cases hx.moved with
  | next later width branches =>
    refine Or.inl ⟨later, ?_⟩
    rcases branches with hzero | hsame
    · exact hzero ▸ hpos
    · rw [hsame, ha.numFetchedBranch]
      exact (h.branches hpos).room
  | same stays width branches indirect taken =>
    obtain ⟨hbranches, hne⟩ := branches hpos
    rw [ha.numFetchedBranch] at hbranches
    exact Or.inr ⟨stays, hbranches, hne⟩

/-- Behind an instruction that ends its bundle fetching goes on in a later cycle. -/
theorem LimitsKept.stopped_concat (h : LimitsKept cfg s) (ha : Caught (CatchingUp s) s a)
    (hx : Fetches cfg hk K a inst t x w s') (y : Fetched P) (hy : y ∈ s.fetched ++ [x])
    (hends : endsBundle cfg y.inst) : y.fetchCycle < s'.fetchCycle := by
  have hmoved : Moved cfg a inst s'.fetchCycle s'.numFetched s'.numFetchedBranch := hx.moved
  rcases List.mem_append.mp hy with hy | hy
  · exact ((h.stopped y hy hends).trans_le ha.later).trans_le hmoved.le
  · rw [List.mem_singleton.mp hy, hx.records.inst] at hends
    rw [List.mem_singleton.mp hy, hx.records.fetchCycle]
    cases hmoved with
    | next later width branches => exact later
    | same stays width branches indirect taken =>
      simp only [endsBundle, Bool.or_eq_true, Bool.and_eq_true] at hends
      rcases hends with ⟨hstop, htaken⟩ | ⟨hstop, hindirect⟩
      · exact absurd htaken (by simp [taken hstop])
      · exact absurd hindirect (by simp [indirect hstop])

end Fetching

theorem limitsKept_step (cfg : Config) (hk : Hooks P H) {s : Uarchsim P} (h : LimitsKept cfg s)
    (inst : DbInst) : Ends (s.step cfg hk inst) OffWindow (LimitsKept cfg) := by
  have hstep := Uarchsim.step_ends (E := OffWindow) (J := CatchingUp s)
    (fun _ => offWindow_of_elsewhere)
    (Quiet.of_any hk fun r => InHook.offWindow (e := .hook r) trivial)
    (catchingUp_kept cfg hk s) (fun p hooks hp _ => ⟨⟨hp.inWindow.window, hp.inWindow.ordered⟩,
      hp.evaluated⟩) ⟨h.inWindow, le_rfl⟩ h.caughtUp
    (fun a ha => Or.inl (by rw [ha.windowCapacity, h.capacity]; exact h.length_lt ha))
    (fun a ha => Or.inl fun f hf => h.fetchCycle_lt ha (List.mem_of_mem_head? hf)) inst
  apply hstep.imp
  rintro s' ⟨a, t, x, w, ha, hx⟩
  have hfetched : s'.fetched = s.fetched ++ [x] := by rw [hx.fetched, ha.fetched]
  have hcapacity : s'.windowCapacity = cfg.windowSize := by
    rw [hx.capacity, ha.windowCapacity, h.capacity]
  have hcycle : x.fetchCycle = a.fetchCycle := hx.records.fetchCycle
  have hbefore : s.fetchCycle ≤ x.fetchCycle := hcycle ▸ ha.later
  have hmoved : Moved cfg a inst s'.fetchCycle s'.numFetched s'.numFetchedBranch := hx.moved
  have hexec : a.pipe.evaluated ≤ x.execCycle := by
    have hlater := hx.later
    rw [hx.records.execCycle]
    rcases ha.evaluated with hev | ⟨hev, _⟩
    · omega
    · omega
  have hretire : x.retireCycle = max x.execCycle a.pipe.backRetire := by
    rw [hx.records.retireCycle, hx.records.execCycle]
  exact {
    caughtUp := hx.caughtUp ha
    inWindow := by
      rw [hfetched]
      exact ha.pipe.inWindow.dispatch hx.describes hexec hretire hx.window hx.evaluated
    capacity := hcapacity
    room := hcapacity ▸ hx.room
    full := by
      rw [hx.previousFetchCycle, ← hcapacity]
      exact hx.full
    front := by
      rw [hx.previousFetchCycle]
      exact hx.front
    retires := by
      rw [hfetched]
      intro y hy
      rcases List.mem_append.mp hy with hy | hy
      · exact h.retires y hy
      · rw [List.mem_singleton.mp hy, hretire, hx.records.execCycle]
        exact (Nat.zero_le _).trans_lt (hx.later.trans_le (le_max_left _ _))
    fetchedBy := by
      rw [hfetched]
      intro y hy
      rcases List.mem_append.mp hy with hy | hy
      · exact ((h.fetchedBy y hy).trans ha.later).trans hmoved.le
      · rw [List.mem_singleton.mp hy, hcycle]
        exact hmoved.le
    awaitsRoom := by
      rw [hfetched]
      exact h.awaitsRoom_concat ha hcycle
    width := by
      intro hpos
      rw [hfetched]
      exact h.width_concat ha hx hpos
    branches := by
      intro hpos
      rw [hfetched]
      exact h.branches_concat ha hx hpos
    stopped := by
      rw [hfetched]
      exact h.stopped_concat ha hx
    apart := by
      rw [hfetched]
      refine List.pairwise_append.mpr ⟨h.apart, List.pairwise_singleton _ _, ?_⟩
      intro y hy z hz hends
      rw [List.mem_singleton.mp hz]
      exact ((h.stopped y hy hends).trans_le hbefore).ne }

/-! ## Every run -/

/-- **Fetch and window limits** hold in every state that the simulator reaches, on any
trace, and neither assert about the window fails. -/
theorem withinLimits_run (u : Unset) (cfg : Config) (hk : Hooks P H) (p : P)
    (insts : List DbInst) :
    Ends (Uarchsim.simulate u cfg hk p insts) OffWindow (WithinLimits cfg) := by
  have hends : Ends (Uarchsim.simulate u cfg hk p insts) OffWindow (LimitsKept cfg) := by
    apply Uarchsim.simulate_ends (fun _ => offWindow_of_elsewhere)
    · intro s h
      exact LimitsKept.initial h
    · intro s inst _ h
      exact limitsKept_step cfg hk h inst
  exact hends.imp fun _ => LimitsKept.withinLimits

end CbpSim.Core
