/-
  Core/Phases.lean --- what a step can do.

  `step_ends` says once what fetching an instruction does to the state: first
  cycles are evaluated and the value is predicted (`Caught`), then the instruction
  is scheduled, dispatched and the next fetch cycle is chosen (`Fetches`).  The
  invariants of the simulator are derived from it; nothing else opens `step`.

  The theorem is about any predictors.  `E` are the reasons to stop that a user
  admits, `J` is what the user knows about the pipeline, kept by the evaluation of
  a cycle, and `K` is what the hooks other than the prediction of a conditional
  branch do to the predictors.
-/
import CbpSim.Core.Sites

set_option autoImplicit false

namespace CbpSim.Core

open CbpSim.Foundation CbpSim.Lanes CbpSim.Memory

variable {P H : Type} {E : Stop H → Prop} {J : Pipeline P → Prop} {K : P → P → Prop}

/-! ## Calls -/

/-- A function of the simulator fails an assert that is not about the pipeline. -/
theorem Ends.lift {α : Type} {x : Except Abort α} {Q : α → Prop} (h : Ends x Elsewhere Q)
    (hE : ∀ e, Elsewhere e → E (.abort e)) : Ends (lift x) E Q :=
  ends_mapError.mpr (h.mono hE fun _ ha => ha)

theorem Ends.call {α : Type} {x : Except H α} {Q : α → Prop}
    (h : Ends x (fun r => E (.hook r)) Q) : Ends (call x : Except (Stop H) α) E Q :=
  ends_mapError.mpr h

/-- The hooks that `step` calls: what all but the prediction of a conditional
branch do to the predictors. -/
structure Quiet (hk : Hooks P H) (E : Stop H → Prop) (K : P → P → Prop) : Prop where
  refl (p : P) : K p p
  trans {p q r : P} : K p q → K q r → K p r
  notifyInstrFetch (p : P) (seqNo piece pc cycle : Nat) :
    Ends (hk.notifyInstrFetch p seqNo piece pc cycle) (fun r => E (.hook r)) (K p)
  getPrediction (p : P) (request : PredictionRequest) :
    Ends (hk.getPrediction p request) (fun r => E (.hook r)) fun x => K p x.2
  speculativeUpdate (p : P) (update : SpeculativeUpdate) :
    Ends (hk.speculativeUpdate p update) (fun r => E (.hook r)) (K p)
  specUpdate (p : P) (seqNo piece pc : Nat) (c : InstClass) (resolveDir predDir : Bool)
    (nextPc : Nat) :
    Ends (hk.specUpdate p seqNo piece pc c resolveDir predDir nextPc) (fun r => E (.hook r)) (K p)
  ittageGetPrediction (p : P) (pc : Nat) :
    Ends (hk.ittageGetPrediction p pc) (fun r => E (.hook r)) fun x => K p x.2
  ittageUpdatePredictor (p : P) (pc nextPc : Nat) :
    Ends (hk.ittageUpdatePredictor p pc nextPc) (fun r => E (.hook r)) (K p)
  ittageTrackOtherInst (p : P) (pc nextPc : Nat) :
    Ends (hk.ittageTrackOtherInst p pc nextPc) (fun r => E (.hook r)) (K p)
  getCondDirPrediction (p : P) (seqNo piece pc predCycle fetchCycle execCycle : Nat) :
    Ends (hk.getCondDirPrediction p seqNo piece pc predCycle fetchCycle execCycle)
      (fun r => E (.hook r)) fun _ => True

/-- Nothing is known of the hooks. -/
theorem Quiet.of_any (hk : Hooks P H) (hE : ∀ r, E (.hook r)) : Quiet hk E fun _ _ => True where
  refl _ := trivial
  trans _ _ := trivial
  notifyInstrFetch _ _ _ _ _ := Ends.of_any hE
  getPrediction _ _ := Ends.of_any hE
  speculativeUpdate _ _ := Ends.of_any hE
  specUpdate _ _ _ _ _ _ _ _ := Ends.of_any hE
  ittageGetPrediction _ _ := Ends.of_any hE
  ittageUpdatePredictor _ _ _ := Ends.of_any hE
  ittageTrackOtherInst _ _ _ := Ends.of_any hE
  getCondDirPrediction _ _ _ _ _ _ _ := Ends.of_any hE

/-! ## Catching up -/

/-- The pipeline is evaluated up to `cycle`; before the first evaluation `cycle` is
0. -/
def Evaluated (p : Pipeline P) (cycle : Nat) : Prop :=
  p.evaluated = cycle + 1 ∨ p.evaluated = 0 ∧ cycle = 0

/-- The evaluation of the next cycle, or of the last one once more, keeps `J`. -/
def EvalKeeps (cfg : Config) (hk : Hooks P H) (E : Stop H → Prop) (J : Pipeline P → Prop) : Prop :=
  ∀ cycle p, J p → cycle ≤ p.evaluated → p.evaluated ≤ cycle + 1 →
    Ends (p.evalCycle cfg hk cycle) E fun p' => J p' ∧ p'.evaluated = cycle + 1

namespace Pipeline

theorem evalCycles_ends {cfg : Config} {hk : Hooks P H} (keeps : EvalKeeps cfg hk E J) :
    ∀ (n cycle : Nat) (p : Pipeline P), J p → cycle ≤ p.evaluated → p.evaluated ≤ cycle + 1 →
      Ends (evalCycles cfg hk (n + 1) cycle p) E fun p' => J p' ∧ p'.evaluated = cycle + n + 1 := by
  intro n
  induction n with
  | zero =>
    intro cycle p hJ hlo hhi
    rw [evalCycles]
    apply Ends.bind (keeps cycle p hJ hlo hhi)
    intro p' hp'
    exact hp'
  | succ n ih =>
    intro cycle p hJ hlo hhi
    rw [evalCycles]
    apply Ends.bind (keeps cycle p hJ hlo hhi)
    rintro p' ⟨hJ', hev⟩
    apply (ih (cycle + 1) p' hJ' hev.ge (hev.le.trans (Nat.le_succ _))).imp
    rintro p'' ⟨hJ'', hev'⟩
    exact ⟨hJ'', by rw [hev']; omega⟩

/-- The loops of `step` evaluate every cycle between their ends. -/
theorem catchUp_ends {cfg : Config} {hk : Hooks P H} (keeps : EvalKeeps cfg hk E J)
    {first last : Nat} (hle : first ≤ last) {p : Pipeline P} (hJ : J p)
    (hev : Evaluated p first) :
    Ends (p.catchUp cfg hk first last) E fun p' => J p' ∧ Evaluated p' last := by
  unfold catchUp
  split
  · rename_i heq
    exact ⟨hJ, heq ▸ hev⟩
  · obtain ⟨n, hn⟩ : ∃ n, last + 1 - first = n + 1 := ⟨last - first, by omega⟩
    have hlo : first ≤ p.evaluated := by
      rcases hev with h | ⟨h, h'⟩
      · omega
      · omega
    have hhi : p.evaluated ≤ first + 1 := by
      rcases hev with h | ⟨h, h'⟩
      · omega
      · omega
    rw [hn]
    apply (evalCycles_ends keeps n first p hJ hlo hhi).imp
    rintro p' ⟨hJ', hev'⟩
    exact ⟨hJ', Or.inl (by rw [hev']; omega)⟩

/-- What every cycle does to the pipeline, the loops do. -/
theorem catchUp_steps {cfg : Config} {hk : Hooks P H} {R : Pipeline P → Pipeline P → Prop}
    (refl : ∀ p, R p p) (trans : ∀ {p q r}, R p q → R q r → R p r)
    (step : ∀ cycle p, Ends (p.evalCycle cfg hk cycle) E (R p)) (first last : Nat)
    (p : Pipeline P) : Ends (p.catchUp cfg hk first last) E (R p) := by
  have cycles : ∀ n first p, Ends (evalCycles cfg hk n first p) E (R p) := by
    intro n
    induction n with
    | zero => exact fun _ p => refl p
    | succ n ih =>
      intro first p
      rw [evalCycles]
      apply Ends.bind (step first p)
      intro p₁ h₁
      exact (ih (first + 1) p₁).imp fun _ => trans h₁
  unfold catchUp
  apply Ends.ite
  · intro _
    exact refl p
  · intro _
    exact cycles _ _ p

end Pipeline

/-! ## The cycles before an instruction -/

/-- From `s`, the cycles up to the fetch of the next instruction were evaluated and
its value was predicted. -/
structure Caught (J : Pipeline P → Prop) (s a : Uarchsim P) : Prop where
  frame : a = { s with piece := a.piece, pipe := a.pipe, res := a.res, fetchCycle := a.fetchCycle }
  pipe : J a.pipe
  evaluated : Evaluated a.pipe a.fetchCycle
  later : s.fetchCycle ≤ a.fetchCycle
  RF : a.res.RF = s.res.RF

theorem Caught.fetched {s a : Uarchsim P} (h : Caught J s a) : a.fetched = s.fetched := by
  rw [h.frame]

theorem Caught.numUop {s a : Uarchsim P} (h : Caught J s a) : a.numUop = s.numUop := by
  rw [h.frame]

theorem Caught.windowCapacity {s a : Uarchsim P} (h : Caught J s a) :
    a.windowCapacity = s.windowCapacity := by
  rw [h.frame]

theorem Caught.numFetched {s a : Uarchsim P} (h : Caught J s a) :
    a.numFetched = s.numFetched := by
  rw [h.frame]

theorem Caught.numFetchedBranch {s a : Uarchsim P} (h : Caught J s a) :
    a.numFetchedBranch = s.numFetchedBranch := by
  rw [h.frame]

namespace Uarchsim

theorem beginStep_ends {cfg : Config} {hk : Hooks P H} (hE : ∀ e, Elsewhere e → E (.abort e))
    (keeps : EvalKeeps cfg hk E J) {s : Uarchsim P} (hJ : J s.pipe)
    (hev : Evaluated s.pipe s.previousFetchCycle) :
    Ends (s.beginStep cfg hk) E (Caught J s) := by
  unfold beginStep
  dsimp only
  split
  · exact hE _ rfl
  · rename_i hle
    apply Ends.bind (Pipeline.catchUp_ends keeps (not_not.mp hle) hJ hev)
    rintro pipe ⟨hJ', hev'⟩
    exact { frame := rfl, pipe := hJ', evaluated := hev', later := le_rfl, RF := rfl }

theorem fetchBlock_ends {cfg : Config} {hk : Hooks P H} (hE : ∀ e, Elsewhere e → E (.abort e))
    (keeps : EvalKeeps cfg hk E J) {s a : Uarchsim P} (ha : Caught J s a) (inst : DbInst) :
    Ends (a.fetchBlock cfg hk inst) E (Caught J s) := by
  unfold fetchBlock
  split
  · apply Ends.bind (Ends.lift ((Resources.accessIC_stops cfg a.res a.fetchCycle inst.pc).mono
      (fun _ h => elsewhere_of_ofResources (ofResources_of_ofCaches h)) fun _ h => h.2.sameRF) hE)
    rintro ⟨nextFetchCycle, res⟩ hres
    dsimp only
    split
    · exact hE _ rfl
    · rename_i hle
      apply Ends.bind (Pipeline.catchUp_ends keeps (not_not.mp hle) ha.pipe ha.evaluated)
      rintro pipe ⟨hJ', hev'⟩
      exact { frame := by rw [ha.frame]
              pipe := hJ'
              evaluated := hev'
              later := ha.later.trans (not_not.mp hle)
              RF := Eq.trans hres ha.RF }
  · exact ha

/-- The prediction of a value: none when value prediction is off. -/
theorem predictValue_ends {cfg : Config} {hk : Hooks P H} (hE : ∀ e, Elsewhere e → E (.abort e))
    (quiet : Quiet hk E K)
    (hooks : ∀ (p : Pipeline P) (h : P), J p → K p.hooks h → J { p with hooks := h })
    {s a : Uarchsim P} (ha : Caught J s a) (inst : DbInst) :
    Ends (a.predictValue cfg hk inst) E fun x =>
      Caught J s x.2.2 ∧ (cfg.vpEnable = false → x.1 = {}) := by
  unfold predictValue
  dsimp only
  split
  · exact ⟨ha, fun _ => rfl⟩
  · rename_i hvp
    have hoff : cfg.vpEnable ≠ false := by simpa using hvp
    apply Ends.bind (Ends.lift ((Resources.getValuePredictionReq_stops cfg a.res a.fetchCycle
      a.numUop a.piece inst).mono (fun _ => elsewhere_of_ofResources) fun _ h => h) hE)
    rintro ⟨req, res⟩ hres
    dsimp only
    have ha' : Caught J s { a with res := res } :=
      { frame := by rw [ha.frame]
        pipe := ha.pipe
        evaluated := ha.evaluated
        later := ha.later
        RF := Eq.trans hres ha.RF }
    split
    · exact ⟨ha', fun h => absurd h hoff⟩
    · apply Ends.bind (Ends.call (quiet.getPrediction a.pipe.hooks req))
      rintro ⟨pred, h₁⟩ hK₁
      apply Ends.bind (Ends.call (quiet.speculativeUpdate h₁ _))
      intro h₂ hK₂
      refine ⟨?_, fun h => absurd h hoff⟩
      exact { frame := by rw [ha.frame]
              pipe := hooks _ _ ha.pipe (quiet.trans hK₁ hK₂)
              evaluated := ha.evaluated
              later := ha.later
              RF := Eq.trans hres ha.RF }

end Uarchsim

/-! ## The instruction -/

/-- A window entry is the entry of an instruction that was fetched. -/
structure Describes (w : WindowEntry) (x : Fetched P) : Prop where
  seqNo : w.seqNo = x.seqNo
  piece : w.piece = x.piece
  pc : w.pc = x.inst.pc
  decodeCycle : w.decodeCycle = x.decodeCycle
  execCycle : w.execCycle = x.execCycle
  retireCycle : w.retireCycle = x.retireCycle
  execInfo : populateExecInfo x.inst = .ok w.execInfo

/-- What is remembered of an instruction fetched in `a`. -/
structure Records (cfg : Config) (a : Uarchsim P) (inst : DbInst) (t : Timing) (x : Fetched P) :
    Prop where
  inst : x.inst = inst
  seqNo : x.seqNo = a.numUop
  piece : x.piece = a.piece
  fetchCycle : x.fetchCycle = a.fetchCycle
  decodeCycle : x.decodeCycle = a.fetchCycle + cfg.dqLatency
  laneCycle : x.laneCycle = t.laneCycle
  agenCycle : x.agenCycle = t.agenCycle
  execCycle : x.execCycle = t.execCycle
  retireCycle : x.retireCycle = max t.execCycle a.pipe.backRetire

/-- How the fetch cycle and the counters of the bundle move from those of `a`. -/
inductive Moved (cfg : Config) (a : Uarchsim P) (inst : DbInst)
    (fetchCycle numFetched numFetchedBranch : Nat) : Prop where
  /-- a later cycle, with an empty bundle or at least no more branches in it -/
  | next (later : a.fetchCycle < fetchCycle) (width : numFetched = 0)
      (branches : numFetchedBranch = 0 ∨ numFetchedBranch = a.numFetchedBranch)
  /-- the same cycle, with a bundle that has room -/
  | same (stays : fetchCycle = a.fetchCycle)
      (width : 0 < cfg.fetchWidth → numFetched = a.numFetched + inst.isLastPiece.toNat ∧
        numFetched ≠ cfg.fetchWidth)
      (branches : 0 < cfg.fetchNumBranch →
        numFetchedBranch = a.numFetchedBranch + inst.insnClass.isBr.toNat ∧
          (inst.insnClass.isBr → numFetchedBranch ≠ cfg.fetchNumBranch))
      (indirect : cfg.fetchStopAtIndirect → inst.insnClass.isUncondIndBr = false)
      (taken : cfg.fetchStopAtTaken → inst.isTaken = false)

theorem Moved.of_eq {cfg : Config} {a a' : Uarchsim P} {inst : DbInst} {c n b : Nat}
    (h : Moved cfg a' inst c n b) (hc : a'.fetchCycle = a.fetchCycle)
    (hn : a'.numFetched = a.numFetched) (hb : a'.numFetchedBranch = a.numFetchedBranch) :
    Moved cfg a inst c n b := by
  cases h with
  | next later width branches => exact .next (hc ▸ later) width (hb ▸ branches)
  | same stays width branches indirect taken =>
    exact .same (hc ▸ stays) (hn ▸ width) (hb ▸ branches) indirect taken

theorem Moved.le {cfg : Config} {a : Uarchsim P} {inst : DbInst} {c n b : Nat}
    (h : Moved cfg a inst c n b) : a.fetchCycle ≤ c := by
  cases h with
  | next later width branches => exact later.le
  | same stays width branches indirect taken => exact stays.ge

/-- What the branch prediction of an instruction does to the predictors `p`: it
predicts the direction of a conditional branch, and otherwise is quiet. -/
def Predicts (cfg : Config) (hk : Hooks P H) (K : P → P → Prop) (x : Fetched P) (p p' : P) : Prop :=
  if cfg.perfectBranchPred = false ∧ x.inst.insnClass = .condBranch then
    ∃ fetchCycle dir q,
      hk.getCondDirPrediction p x.seqNo x.piece x.inst.pc x.fetchCycle fetchCycle x.execCycle =
          .ok (dir, q) ∧ K q p'
  else K p p'

/-- The instruction `inst`, scheduled by `t`, was fetched in `a` as `x`, is described
by `w` in the window, and led to `s`. -/
structure Fetches (cfg : Config) (hk : Hooks P H) (K : P → P → Prop) (a : Uarchsim P)
    (inst : DbInst) (t : Timing) (x : Fetched P) (w : WindowEntry) (s : Uarchsim P) : Prop where
  scheduled : Scheduled cfg a.res.RF a.fetchCycle inst t
  later : a.fetchCycle < t.execCycle
  records : Records cfg a inst t x
  describes : Describes w x
  fetched : s.fetched = a.fetched ++ [x]
  window : s.pipe.window = a.pipe.window ++ [w]
  DQ : s.pipe.DQ = a.pipe.DQ ++ [⟨x.seqNo, x.piece, x.decodeCycle⟩]
  AQ : s.pipe.AQ =
    a.pipe.AQ ++ if inst.insnClass.isMem then [⟨x.seqNo, x.piece, x.agenCycle⟩] else []
  EQ : s.pipe.EQ = a.pipe.EQ ++ [⟨x.seqNo, x.piece, x.execCycle⟩]
  events : s.pipe.events = a.pipe.events
  evaluated : s.pipe.evaluated = a.pipe.evaluated
  dispatched : K a.pipe.hooks x.predictors
  predicts : Predicts cfg hk K x x.predictors s.pipe.hooks
  numUop : s.numUop = a.numUop + 1
  capacity : s.windowCapacity = a.windowCapacity
  room : s.pipe.window.length ≤ s.windowCapacity
  front : ∀ f ∈ s.pipe.window.head?, a.fetchCycle < f.retireCycle
  full : s.pipe.window.length = s.windowCapacity →
    a.fetchCycle < s.fetchCycle ∧ ∃ f ∈ s.pipe.window, f.retireCycle ≤ s.fetchCycle
  previousFetchCycle : s.previousFetchCycle = a.fetchCycle
  moved : Moved cfg a inst s.fetchCycle s.numFetched s.numFetchedBranch
  RF : cfg.vpEnable = false → s.res.RF =
    if inst.D.valid && inst.D.logReg != rfZero then
      Function.update a.res.RF inst.D.logReg t.execCycle
    else a.res.RF

namespace Uarchsim

theorem schedule_ends (cfg : Config) (s : Uarchsim P) (inst : DbInst) :
    Ends (s.schedule cfg inst) Elsewhere fun x =>
      Scheduled cfg s.res.RF s.fetchCycle inst x.1 ∧
        ∃ res n m k, s.res.SameRF res ∧
          x.2 = { s with res := res, numLoad := n, numLoadSqmiss := m, statPfsIssuedToMem := k } := by
  unfold schedule
  apply Ends.bind ((Resources.execute_stops cfg s.res s.fetchCycle inst).mono
    (fun _ => elsewhere_of_ofResources) fun _ h => h)
  rintro ⟨t, res⟩ ⟨ht, hres⟩
  apply Ends.bind (Q := fun x => res.SameRF x.2)
  · split
    · exact (Resources.drainPrefetches_stops _ _ _ _ _).mono (fun _ => elsewhere_of_ofResources)
        fun _ h => h
    · rfl
  · rintro ⟨issued, res'⟩ hres'
    exact ⟨ht, res', _, _, _, Eq.trans hres' hres, rfl⟩

/-- The destination register gets the cycle at which the instruction is done, unless
its value was predicted. -/
theorem writeBack_ends (cfg : Config) (s : Uarchsim P) (inst : DbInst) (t : Timing)
    (pred : PredictionResult) (predictable : Bool) :
    Ends (s.writeBack cfg inst t pred predictable) Elsewhere fun x =>
      ∃ res n c m k i,
        x.2 = { s with
          res := res, numUop := s.numUop + 1, numInst := n, cycle := c, numEligible := m
          numCorrect := k, numIncorrect := i } ∧
        (pred.speculate = false → res.RF =
          if inst.D.valid && inst.D.logReg != rfZero then
            Function.update s.res.RF inst.D.logReg t.execCycle
          else s.res.RF) := by
  unfold writeBack
  dsimp only
  split
  · rfl
  · apply Ends.bind ((Resources.updateSQ_stops _ _ _ _ _).mono
      (fun _ => elsewhere_of_ofResources) fun _ h => h)
    intro res hres
    refine ⟨res, _, _, _, _, _, rfl, ?_⟩
    intro hpred
    rw [hres, hpred]
    cases inst.D.valid && inst.D.logReg != rfZero with
    | false => rfl
    | true => rfl

theorem populateExecInfo_ends (inst : DbInst) :
    Ends (populateExecInfo inst) Elsewhere fun _ => True := by
  unfold populateExecInfo
  apply Ends.bind (Q := fun _ => True)
  · unfold populateDecodeInfo
    split
    · trivial
    · rfl
  · intro _ _
    dsimp only
    split
    · rfl
    · trivial

/-- The instruction enters the window and the queues. -/
theorem dispatch_ends {cfg : Config} {hk : Hooks P H} (hE : ∀ e, Elsewhere e → E (.abort e))
    (quiet : Quiet hk E K) (s : Uarchsim P) (inst : DbInst) (seqNo : Nat) (t : Timing)
    (room : s.pipe.window.length < s.windowCapacity ∨ E (.abort .stepWindowSize)) :
    Ends (s.dispatch cfg hk inst seqNo t) E fun s' =>
      ∃ hooks w AQ,
        Describes w (P := P)
          { inst := inst, seqNo := seqNo, piece := s.piece, fetchCycle := s.fetchCycle
            decodeCycle := s.fetchCycle + cfg.dqLatency, laneCycle := t.laneCycle
            agenCycle := t.agenCycle, execCycle := t.execCycle
            retireCycle := max t.execCycle s.pipe.backRetire, predictors := hooks } ∧
        K s.pipe.hooks hooks ∧ s.fetchCycle < t.execCycle ∧
        s.pipe.window.length + 1 ≤ s.windowCapacity ∧
        AQ = s.pipe.AQ ++ (if inst.insnClass.isMem then [⟨seqNo, s.piece, t.agenCycle⟩] else []) ∧
        s' = { s with
          pipe := { s.pipe with
            window := s.pipe.window ++ [w]
            hooks := hooks
            DQ := s.pipe.DQ ++ [⟨seqNo, s.piece, s.fetchCycle + cfg.dqLatency⟩]
            AQ := AQ
            EQ := s.pipe.EQ ++ [⟨seqNo, s.piece, t.execCycle⟩] }
          previousFetchCycle := s.fetchCycle } := by
  unfold dispatch
  apply Ends.bind (Q := fun info => populateExecInfo inst = .ok info)
  · cases h : populateExecInfo inst with
    | ok info => rfl
    | error e => exact hE e ((populateExecInfo_ends inst).of_error h)
  · intro info hinfo
    dsimp only
    apply Ends.ite
    · intro _
      exact hE _ rfl
    · intro hlater
      apply Ends.ite
      · intro hsize
        rcases room with hroom | hstop
        · exact absurd (by rwa [List.length_append, List.length_singleton]) hsize
        · exact hstop
      · intro hsize
        apply Ends.bind (Ends.call (quiet.notifyInstrFetch s.pipe.hooks seqNo s.piece inst.pc
          s.fetchCycle))
        intro hooks hK
        apply Ends.ite
        · intro _
          exact hE _ rfl
        · intro _
          refine ⟨hooks, _, _, ?_, hK, not_not.mp hlater, ?_, ?_, rfl⟩
          · exact { seqNo := rfl, piece := rfl, pc := rfl, decodeCycle := rfl, execCycle := rfl
                    retireCycle := rfl, execInfo := hinfo }
          · simpa using hsize
          · cases inst.insnClass.isMem with
            | false => simp
            | true => simp

theorem bundle_ends (cfg : Config) (s : Uarchsim P) (inst : DbInst) :
    Ends (bundle cfg s inst) Elsewhere fun s' =>
      ∃ n b c, s' = { s with numFetched := n, numFetchedBranch := b, fetchCycle := c } ∧
        Moved cfg s inst c n b := by
  unfold bundle
  dsimp only
  apply Ends.ite
  · intro _
    rfl
  · intro _
    apply Ends.ite
    · intro _
      exact ⟨0, 0, _, rfl, .next (Nat.lt_succ_self _) rfl (Or.inl rfl)⟩
    · intro hstop
      simp only [Bool.or_eq_true, not_or, Bool.and_eq_true, decide_eq_true_eq, beq_iff_eq,
        not_and, Bool.not_eq_true] at hstop
      obtain ⟨⟨⟨hwidth, hbranch⟩, hindirect⟩, htaken⟩ := hstop
      refine ⟨_, _, _, rfl, .same rfl ?_ ?_ hindirect htaken⟩
      · intro hpos
        refine ⟨if_pos hpos, hwidth hpos⟩
      · intro hpos
        cases hbr : inst.insnClass.isBr with
        | false => simp
        | true =>
          have hcounts : (decide (cfg.fetchNumBranch > 0) && true) = true := by simpa using hpos
          have hne := hbranch ⟨hpos, hbr⟩
          rw [if_pos ⟨hpos, hbr⟩] at hne
          rw [if_pos hcounts]
          exact ⟨rfl, fun _ => hne⟩

/-- The next fetch cycle, as the squash, the full window or the bundle decides it. -/
theorem manageFetch_ends {cfg : Config} (hE : ∀ e, Elsewhere e → E (.abort e)) (s : Uarchsim P)
    (inst : DbInst) (squash : Bool) (hne : s.pipe.window ≠ [])
    (front : (∀ f ∈ s.pipe.window.head?, s.fetchCycle < f.retireCycle) ∨
      E (.abort .stepFrontRetire)) :
    Ends (lift (s.manageFetch cfg inst squash)) E fun s' =>
      ∃ n b c, s' = { s with numFetched := n, numFetchedBranch := b, fetchCycle := c } ∧
        Moved cfg s inst c n b ∧
        (∀ f ∈ s.pipe.window.head?, s.fetchCycle < f.retireCycle) ∧
        (s.pipe.window.length = s.windowCapacity →
          s.fetchCycle < c ∧ ∃ f ∈ s.pipe.window, f.retireCycle ≤ c) := by
  unfold manageFetch
  apply ends_mapError.mpr
  split
  · rename_i hnone
    exact absurd (List.head?_eq_none_iff.mp hnone) hne
  · rename_i f hf
    apply Ends.ite
    · intro hlate
      rcases front with hfront | hstop
      · exact absurd (hfront f hf) hlate
      · exact hstop
    · intro hlater
      have hfront : ∀ f ∈ s.pipe.window.head?, s.fetchCycle < f.retireCycle := by
        intro g hg
        rw [hf] at hg
        obtain rfl : f = g := Option.some.inj hg
        exact not_not.mp hlater
      apply Ends.ite
      · intro _
        apply Ends.ite
        · intro hback
          refine ⟨0, _, _, rfl, .next hback rfl (Or.inr rfl), hfront, ?_⟩
          intro _
          -- the youngest instruction in the window is the squashed one
          obtain ⟨w, hw⟩ := Option.ne_none_iff_exists'.mp (mt List.getLast?_eq_none_iff.mp hne)
          refine ⟨hback, w, List.mem_of_getLast? hw, ?_⟩
          rw [Pipeline.backRetire, hw]
          exact le_rfl
        · intro _
          exact hE _ rfl
      · intro _
        apply Ends.ite
        · intro _
          rw [if_pos (not_not.mp hlater)]
          exact ⟨0, _, _, rfl, .next (not_not.mp hlater) rfl (Or.inr rfl), hfront,
            fun _ => ⟨not_not.mp hlater, f, List.mem_of_head? hf, le_rfl⟩⟩
        · intro hsize
          apply (bundle_ends cfg s inst).mono hE
          rintro s' ⟨n, b, c, rfl, hmoved⟩
          exact ⟨n, b, c, rfl, hmoved, hfront, fun h => absurd h hsize⟩

end Uarchsim

/-! ## The prediction of branches -/

namespace Bp

/-- `bp_t::predict` asks for the direction of a conditional branch only. -/
theorem predict_ends {cfg : Config} {hk : Hooks P H} (quiet : Quiet hk E K) (b : Bp) (p : P)
    (seqNo piece : Nat) (inst : DbInst) (predCycle fetchCycle execCycle : Nat) :
    Ends (b.predict cfg hk p seqNo piece inst predCycle fetchCycle execCycle) E fun x =>
      if inst.insnClass = .condBranch then
        ∃ dir q, hk.getCondDirPrediction p seqNo piece inst.pc predCycle fetchCycle execCycle =
            .ok (dir, q) ∧ K q x.2.2
      else K p x.2.2 := by
  have cond : Ends (b.predictCond cfg hk p seqNo piece inst predCycle fetchCycle execCycle) E
      fun x => ∃ dir q,
        hk.getCondDirPrediction p seqNo piece inst.pc predCycle fetchCycle execCycle =
          .ok (dir, q) ∧ K q x.2.2 := by
    unfold predictCond
    apply Ends.bind (Q := fun r =>
      hk.getCondDirPrediction p seqNo piece inst.pc predCycle fetchCycle execCycle = .ok r)
    · apply Ends.call
      have h := quiet.getCondDirPrediction p seqNo piece inst.pc predCycle fetchCycle execCycle
      cases hget : hk.getCondDirPrediction p seqNo piece inst.pc predCycle fetchCycle execCycle with
      | ok r => rfl
      | error e => exact h.of_error hget
    · rintro ⟨dir, q⟩ hget
      apply Ends.bind (Ends.call (quiet.specUpdate q _ _ _ _ _ _ _))
      intro q' hK
      exact ⟨dir, q, hget, hK⟩
  have direct : Ends (b.predictDirect cfg hk p seqNo piece inst) E fun x => K p x.2.2 := by
    unfold predictDirect
    apply Ends.bind (Ends.call (quiet.specUpdate p _ _ _ _ _ _ _))
    intro q hq
    apply Ends.bind (Q := K p)
    · apply Ends.ite
      · intro _
        exact hq
      · intro _
        apply (Ends.call (quiet.ittageTrackOtherInst q _ _)).imp
        intro q' hq'
        exact quiet.trans hq hq'
    · intro q' hq'
      exact hq'
  have indirect : Ends (b.predictIndirect cfg hk p seqNo piece inst) E fun x => K p x.2.2 := by
    unfold predictIndirect
    apply Ends.bind (Q := fun x => K p x.2)
    · apply Ends.ite
      · intro _
        exact quiet.refl p
      · intro _
        apply Ends.bind (Ends.call (quiet.ittageGetPrediction p _))
        rintro ⟨target, q⟩ hq
        apply Ends.bind (Ends.call (quiet.ittageUpdatePredictor q _ _))
        intro q' hq'
        exact quiet.trans hq hq'
    · rintro ⟨misp, q⟩ hq
      apply Ends.bind (Ends.call (quiet.specUpdate q _ _ _ _ _ _ _))
      intro q' hq'
      exact quiet.trans hq hq'
  have other : inst.insnClass ≠ .condBranch → ∀ p', K p p' →
      if inst.insnClass = .condBranch then
        ∃ dir q, hk.getCondDirPrediction p seqNo piece inst.pc predCycle fetchCycle execCycle =
            .ok (dir, q) ∧ K q p'
      else K p p' := by
    intro hne p' hp'
    rwa [if_neg hne]
  unfold predict
  split
  case h_1 hclass =>
    simp only [hclass, if_true]
    exact cond
  case h_2 hclass => exact direct.imp fun x => other (by simp [hclass]) x.2.2
  case h_3 hclass => exact direct.imp fun x => other (by simp [hclass]) x.2.2
  case h_4 hclass => exact indirect.imp fun x => other (by simp [hclass]) x.2.2
  case h_5 hclass => exact indirect.imp fun x => other (by simp [hclass]) x.2.2
  case h_6 hclass => exact indirect.imp fun x => other (by simp [hclass]) x.2.2
  case h_7 hcond _ _ _ _ _ => exact other hcond p (quiet.refl p)

end Bp

namespace Uarchsim

/-- A misprediction moves the fetch cycle past that of the branch. -/
theorem predictBranch_ends {cfg : Config} {hk : Hooks P H} (hE : ∀ e, Elsewhere e → E (.abort e))
    (quiet : Quiet hk E K) {a s : Uarchsim P} {inst : DbInst}
    (moved : Moved cfg a inst s.fetchCycle s.numFetched s.numFetchedBranch)
    {execCycle : Nat} (hlater : a.fetchCycle < execCycle) (seqNo : Nat) :
    Ends (s.predictBranch cfg hk inst seqNo a.fetchCycle execCycle) E fun x =>
      ∃ BP hooks n b c w,
        x.2 = { s with
          BP := BP, pipe := { s.pipe with hooks := hooks }, numFetched := n
          numFetchedBranch := b, fetchCycle := c, cyclesOnWrongPath := w } ∧
        Moved cfg a inst c n b ∧ s.fetchCycle ≤ c ∧
        if cfg.perfectBranchPred = false ∧ inst.insnClass = .condBranch then
          ∃ fetchCycle dir q,
            hk.getCondDirPrediction s.pipe.hooks seqNo s.piece inst.pc a.fetchCycle fetchCycle
              execCycle = .ok (dir, q) ∧ K q hooks
        else K s.pipe.hooks hooks := by
  unfold predictBranch
  apply Ends.ite
  · intro hperfect
    refine ⟨_, _, _, _, _, _, rfl, moved, le_rfl, ?_⟩
    rw [if_neg (fun h => absurd (hperfect.symm.trans h.1) Bool.noConfusion)]
    exact quiet.refl _
  · intro hperfect
    apply Ends.bind (Bp.predict_ends quiet s.BP s.pipe.hooks seqNo s.piece inst a.fetchCycle
      s.fetchCycle execCycle)
    rintro ⟨misp, BP, hooks⟩ hpred
    have predicts : if cfg.perfectBranchPred = false ∧ inst.insnClass = .condBranch then
        ∃ fetchCycle dir q,
          hk.getCondDirPrediction s.pipe.hooks seqNo s.piece inst.pc a.fetchCycle fetchCycle
            execCycle = .ok (dir, q) ∧ K q hooks
        else K s.pipe.hooks hooks := by
      simp only [Bool.not_eq_true] at hperfect
      simp only [hperfect, true_and]
      dsimp only at hpred
      split at hpred
      · rename_i hclass
        rw [if_pos hclass]
        exact ⟨_, hpred⟩
      · rename_i hclass
        rwa [if_neg hclass]
    dsimp only
    apply Ends.ite
    · intro _
      exact ⟨_, _, _, _, _, _, rfl, moved, le_rfl, predicts⟩
    · intro _
      apply Ends.ite
      · intro _
        exact hE _ rfl
      · intro _
        exact ⟨_, _, _, _, _, _, rfl,
          .next (hlater.trans_le (le_max_right _ _)) rfl (Or.inl rfl), le_max_left _ _, predicts⟩

theorem updatePredTaken_ends {s : Uarchsim P} {front : List WindowEntry} {w : WindowEntry}
    (hw : s.pipe.window = front ++ [w]) (inst : DbInst) (misp : Bool) :
    Ends (s.updatePredTaken inst misp) Elsewhere fun s' =>
      ∃ predTaken, s' = { s with
        pipe := { s.pipe with window := front ++ [{ w with predTaken := predTaken }] } } := by
  unfold updatePredTaken
  apply Ends.ite
  · intro _
    exact ⟨w.predTaken, by rw [← hw]⟩
  · intro _
    apply Ends.ite
    · intro _
      rfl
    · intro _
      rw [hw]
      exact ⟨if inst.insnClass.isCondBr then inst.isTaken != misp else true, by simp [updateBack]⟩

theorem endCurrentBeginNewEpoch_ends (s : Uarchsim P) (firstEpoch lastEpoch : Bool)
    (epochEndCycle : Nat) :
    Ends (s.endCurrentBeginNewEpoch firstEpoch lastEpoch epochEndCycle) Elsewhere fun s' =>
      ∃ i c BP l, s' = { s with
        numInstsPerEpoch := i, numCyclesPerEpoch := c, BP := BP, lastEpochEndCycle := l } := by
  unfold endCurrentBeginNewEpoch
  apply Ends.bind (Q := fun s' => ∃ c, s' = { s with numCyclesPerEpoch := c })
  · apply Ends.ite
    · intro _
      exact ⟨_, rfl⟩
    · intro _
      apply Ends.ite
      · intro _
        exact ⟨_, rfl⟩
      · intro _
        rfl
  · rintro s' ⟨c, rfl⟩
    apply Ends.ite
    · intro _
      exact ⟨_, _, _, _, rfl⟩
    · intro _
      exact ⟨_, _, _, _, rfl⟩

theorem endStep_ends (cfg : Config) (s : Uarchsim P) (inst : DbInst) (predictCycle : Nat) :
    Ends (s.endStep cfg inst predictCycle) Elsewhere fun s' =>
      ∃ res piece i c BP l, s.res.SameRF res ∧
        s' = { s with
          res := res, piece := piece, numInstsPerEpoch := i, numCyclesPerEpoch := c, BP := BP
          lastEpochEndCycle := l } := by
  have hlanes : ∀ (lanes : ResourceSchedule) (newBase : Nat),
      Ends (lanes.advanceBaseCycle newBase) Elsewhere fun _ => True := by
    intro lanes newBase
    apply (advanceBaseCycle_stops lanes newBase).mono
    · rintro e ⟨rfl, -⟩
      rfl
    · exact fun _ _ => trivial
  unfold endStep
  apply Ends.bind (hlanes _ _)
  intro ldstLanes _
  apply Ends.bind (hlanes _ _)
  intro aluLanes _
  apply Ends.ite
  · intro _
    apply (endCurrentBeginNewEpoch_ends _ _ _ _).imp
    rintro s' ⟨i, c, BP, l, rfl⟩
    refine ⟨_, _, _, _, _, _, ?_, rfl⟩
    rfl
  · intro _
    refine ⟨_, _, _, _, _, _, ?_, rfl⟩
    rfl

/-! ## The parts behind the cycles -/

/-- The instruction, scheduled by `t` in `a` with the predicted value `pred`, entered the
window as `w`. -/
structure Entered (cfg : Config) (K : P → P → Prop) (a : Uarchsim P) (inst : DbInst)
    (t : Timing) (pred : PredictionResult) (w : WindowEntry) (d : Uarchsim P) : Prop where
  scheduled : Scheduled cfg a.res.RF a.fetchCycle inst t
  later : a.fetchCycle < t.execCycle
  records : Records cfg a inst t (record cfg inst t a d)
  describes : Describes w (record cfg inst t a d)
  dispatched : K a.pipe.hooks d.pipe.hooks
  room : d.pipe.window.length ≤ d.windowCapacity
  window : d.pipe.window = a.pipe.window ++ [w]
  DQ : d.pipe.DQ = a.pipe.DQ ++ [⟨a.numUop, a.piece, a.fetchCycle + cfg.dqLatency⟩]
  AQ : d.pipe.AQ =
    a.pipe.AQ ++ if inst.insnClass.isMem then [⟨a.numUop, a.piece, t.agenCycle⟩] else []
  EQ : d.pipe.EQ = a.pipe.EQ ++ [⟨a.numUop, a.piece, t.execCycle⟩]
  RF : pred.speculate = false → d.res.RF =
    if inst.D.valid && inst.D.logReg != rfZero then
      Function.update a.res.RF inst.D.logReg t.execCycle
    else a.res.RF
  frame : d = { a with
    pipe := { d.pipe with events := a.pipe.events, evaluated := a.pipe.evaluated }
    res := d.res, numUop := a.numUop + 1, numInst := d.numInst, cycle := d.cycle
    numEligible := d.numEligible, numCorrect := d.numCorrect, numIncorrect := d.numIncorrect
    numLoad := d.numLoad, numLoadSqmiss := d.numLoadSqmiss
    statPfsIssuedToMem := d.statPfsIssuedToMem, previousFetchCycle := a.fetchCycle }

/-- The schedule, the registers and the dispatch. -/
theorem dispatch_enters {cfg : Config} {hk : Hooks P H} (hE : ∀ e, Elsewhere e → E (.abort e))
    (quiet : Quiet hk E K) {a : Uarchsim P} {inst : DbInst} (pred : PredictionResult)
    (predictable : Bool)
    (room : a.pipe.window.length < a.windowCapacity ∨ E (.abort .stepWindowSize))
    {t : Timing} {s₁ s₂ : Uarchsim P} {squash : Bool}
    (hs₁ : a.schedule cfg inst = .ok (t, s₁))
    (hs₂ : s₁.writeBack cfg inst t pred predictable = .ok (squash, s₂)) :
    Ends (s₂.dispatch cfg hk inst a.numUop t) E fun d => ∃ w, Entered cfg K a inst t pred w d := by
  obtain ⟨hscheduled, res₁, _, _, _, hres₁, rfl⟩ := (schedule_ends cfg a inst).of_ok hs₁
  obtain ⟨res₂, _, _, _, _, _, rfl, hres₂⟩ := (writeBack_ends cfg _ inst t pred predictable).of_ok hs₂
  refine Ends.imp (dispatch_ends hE quiet _ inst a.numUop t ?_) ?_
  · exact room
  rintro d ⟨hooks, w, AQ, hdescribes, hK, hlater, hroom, hAQ, rfl⟩
  dsimp only at hdescribes hK hlater hroom hAQ hres₂
  have hback : ((a.pipe.window ++ [w]).getLast?.map (·.retireCycle)).getD 0 =
      max t.execCycle a.pipe.backRetire := by
    rw [List.getLast?_concat]
    exact hdescribes.retireCycle
  exact ⟨w, {
    scheduled := hscheduled
    later := hlater
    records := ⟨rfl, rfl, rfl, rfl, rfl, rfl, rfl, rfl, hback⟩
    describes := { hdescribes with retireCycle := hdescribes.retireCycle.trans hback.symm }
    dispatched := hK
    room := by simpa using hroom
    window := rfl
    DQ := rfl
    AQ := hAQ
    EQ := rfl
    RF := fun hoff => by rw [hres₂ hoff, hres₁]
    frame := rfl }⟩

/-- Behind the dispatch, which led to `d`: the next fetch cycle is chosen, and the youngest
entry may be told the direction that was predicted. -/
structure Follows (cfg : Config) (a : Uarchsim P) (inst : DbInst) (w : WindowEntry)
    (d s : Uarchsim P) : Prop where
  window : ∃ predTaken, s.pipe.window = a.pipe.window ++ [{ w with predTaken := predTaken }]
  front : ∀ f ∈ s.pipe.window.head?, a.fetchCycle < f.retireCycle
  full : s.pipe.window.length = s.windowCapacity →
    a.fetchCycle < s.fetchCycle ∧ ∃ f ∈ s.pipe.window, f.retireCycle ≤ s.fetchCycle
  moved : Moved cfg a inst s.fetchCycle s.numFetched s.numFetchedBranch
  RF : d.res.SameRF s.res
  frame : s = { d with
    pipe := { d.pipe with window := s.pipe.window, hooks := s.pipe.hooks }
    res := s.res, numFetched := s.numFetched, numFetchedBranch := s.numFetchedBranch
    fetchCycle := s.fetchCycle, cyclesOnWrongPath := s.cyclesOnWrongPath, BP := s.BP
    piece := s.piece, numInstsPerEpoch := s.numInstsPerEpoch
    numCyclesPerEpoch := s.numCyclesPerEpoch, lastEpochEndCycle := s.lastEpochEndCycle }

section Behind

variable {cfg : Config} {hk : Hooks P H} {a d s : Uarchsim P} {inst : DbInst} {t : Timing}
  {pred : PredictionResult} {w : WindowEntry}

/-- What the instruction finds at the front of the window, itself included. -/
theorem Entered.front (h : Entered cfg K a inst t pred w d)
    (front : (∀ f ∈ a.pipe.window.head?, a.fetchCycle < f.retireCycle) ∨
      E (.abort .stepFrontRetire)) :
    (∀ f ∈ d.pipe.window.head?, a.fetchCycle < f.retireCycle) ∨ E (.abort .stepFrontRetire) := by
  refine front.imp ?_ id
  intro hfront f hf
  rw [h.window] at hf
  cases hwindow : a.pipe.window with
  | nil =>
    rw [hwindow] at hf
    obtain rfl : w = f := by simpa using hf
    rw [h.describes.retireCycle, h.records.retireCycle]
    exact h.later.trans_le (le_max_left _ _)
  | cons g window =>
    rw [hwindow] at hf
    exact hfront f (by rw [hwindow]; exact hf)

/-- The next fetch cycle. -/
theorem Entered.manageFetch (hE : ∀ e, Elsewhere e → E (.abort e))
    (h : Entered cfg K a inst t pred w d)
    (front : (∀ f ∈ a.pipe.window.head?, a.fetchCycle < f.retireCycle) ∨
      E (.abort .stepFrontRetire)) (squash : Bool) :
    Ends (lift (d.manageFetch cfg inst squash)) E fun s =>
      Follows cfg a inst w d s ∧ s.pipe = d.pipe ∧ s.piece = a.piece := by
  have hpiece : d.piece = a.piece := by rw [h.frame]
  have hcycle : d.fetchCycle = a.fetchCycle := by rw [h.frame]
  have hnumFetched : d.numFetched = a.numFetched := by rw [h.frame]
  have hbranches : d.numFetchedBranch = a.numFetchedBranch := by rw [h.frame]
  have hne : d.pipe.window ≠ [] := by rw [h.window]; simp
  have hfront := h.front front
  rw [← hcycle] at hfront
  apply (manageFetch_ends hE d inst squash hne hfront).imp
  rintro s ⟨n, b, c, rfl, hmoved, hfront, hfull⟩
  rw [hcycle] at hfront hfull
  exact ⟨{
    window := ⟨w.predTaken, h.window⟩
    front := hfront
    full := hfull
    moved := hmoved.of_eq hcycle hnumFetched hbranches
    RF := rfl
    frame := rfl }, rfl, hpiece⟩

/-- The prediction of the branch. -/
theorem Follows.predictBranch (hE : ∀ e, Elsewhere e → E (.abort e)) (quiet : Quiet hk E K)
    (h : Follows cfg a inst w d s) {execCycle : Nat} (hlater : a.fetchCycle < execCycle)
    (seqNo : Nat) :
    Ends (s.predictBranch cfg hk inst seqNo a.fetchCycle execCycle) E fun x =>
      Follows cfg a inst w d x.2 ∧
        if cfg.perfectBranchPred = false ∧ inst.insnClass = .condBranch then
          ∃ fetchCycle dir q,
            hk.getCondDirPrediction s.pipe.hooks seqNo s.piece inst.pc a.fetchCycle fetchCycle
              execCycle = .ok (dir, q) ∧ K q x.2.pipe.hooks
        else K s.pipe.hooks x.2.pipe.hooks := by
  apply (predictBranch_ends hE quiet h.moved hlater seqNo).imp
  rintro ⟨misp, _⟩ ⟨BP, hooks, n, b, c, k, rfl, hmoved, hle, hpredicts⟩
  refine ⟨{
    window := h.window
    front := h.front
    full := ?_
    moved := hmoved
    RF := h.RF
    frame := by rw [h.frame] }, hpredicts⟩
  intro hlength
  obtain ⟨hlt, f, hf, hretired⟩ := h.full hlength
  exact ⟨hlt.trans_le hle, f, hf, hretired.trans hle⟩

/-- The youngest entry is told the direction; its retire cycle stays. -/
theorem Follows.updatePredTaken (h : Follows cfg a inst w d s) (misp : Bool) :
    Ends (s.updatePredTaken inst misp) Elsewhere fun s' =>
      Follows cfg a inst w d s' ∧ s'.pipe.hooks = s.pipe.hooks := by
  obtain ⟨predTaken, hwindow⟩ := h.window
  apply (updatePredTaken_ends hwindow inst misp).imp
  rintro _ ⟨predTaken', rfl⟩
  refine ⟨{
    window := ⟨predTaken', rfl⟩
    front := ?_
    full := ?_
    moved := h.moved
    RF := h.RF
    frame := by rw [h.frame] }, rfl⟩
  · have hfront := h.front
    rw [hwindow] at hfront
    intro f hf
    cases hold : a.pipe.window with
    | nil =>
      rw [hold] at hf hfront
      obtain rfl : { w with predTaken := predTaken' } = f := by simpa using hf
      exact hfront { w with predTaken := predTaken } rfl
    | cons g window =>
      rw [hold] at hf hfront
      exact hfront f hf
  · intro hlength
    obtain ⟨hlt, f, hf, hretired⟩ := h.full (by rw [hwindow]; simpa using hlength)
    refine ⟨hlt, ?_⟩
    rw [hwindow] at hf
    rcases List.mem_append.mp hf with hf | hf
    · exact ⟨f, List.mem_append_left _ hf, hretired⟩
    · obtain rfl := List.mem_singleton.mp hf
      exact ⟨_, List.mem_append_right _ (List.mem_singleton_self _), hretired⟩

/-- The end of the step. -/
theorem Follows.endStep (h : Follows cfg a inst w d s) (predictCycle : Nat) :
    Ends (s.endStep cfg inst predictCycle) Elsewhere fun s' =>
      Follows cfg a inst w d s' ∧ s'.pipe.hooks = s.pipe.hooks := by
  apply (endStep_ends cfg s inst predictCycle).imp
  rintro _ ⟨res, _, _, _, _, _, hres, rfl⟩
  exact ⟨{
    window := h.window
    front := h.front
    full := h.full
    moved := h.moved
    RF := Eq.trans hres h.RF
    frame := by rw [h.frame] }, rfl⟩

/-- Together the parts fetch the instruction. -/
theorem Follows.fetches (h : Follows cfg a inst w d s) (hd : Entered cfg K a inst t pred w d)
    (hpredicts : Predicts cfg hk K (record cfg inst t a d) d.pipe.hooks s.pipe.hooks)
    (hpred : cfg.vpEnable = false → pred = {}) :
    ∃ w', Fetches cfg hk K a inst t (record cfg inst t a d) w'
      { s with fetched := a.fetched ++ [record cfg inst t a d] } := by
  obtain ⟨predTaken, hwindow⟩ := h.window
  have hframe := h.frame
  have hcapacity : s.windowCapacity = d.windowCapacity := by rw [hframe]
  have hdcapacity : d.windowCapacity = a.windowCapacity := by rw [hd.frame]
  refine ⟨{ w with predTaken := predTaken }, {
    scheduled := hd.scheduled
    later := hd.later
    records := hd.records
    describes := { hd.describes with }
    fetched := rfl
    window := hwindow
    DQ := ?_
    AQ := ?_
    EQ := ?_
    events := ?_
    evaluated := ?_
    dispatched := hd.dispatched
    predicts := hpredicts
    numUop := ?_
    capacity := hcapacity.trans hdcapacity
    room := ?_
    front := h.front
    full := h.full
    previousFetchCycle := ?_
    moved := h.moved
    RF := ?_ }⟩
  · show s.pipe.DQ = _
    rw [hframe]
    exact hd.DQ
  · show s.pipe.AQ = _
    rw [hframe]
    exact hd.AQ
  · show s.pipe.EQ = _
    rw [hframe]
    exact hd.EQ
  · show s.pipe.events = _
    rw [hframe, hd.frame]
  · show s.pipe.evaluated = _
    rw [hframe, hd.frame]
  · show s.numUop = _
    rw [hframe, hd.frame]
  · show s.pipe.window.length ≤ s.windowCapacity
    have hroom := hd.room
    rw [hd.window, List.length_append] at hroom
    rw [hwindow, hcapacity, List.length_append]
    exact hroom
  · show s.previousFetchCycle = _
    rw [hframe, hd.frame]
  · intro hoff
    have hspeculate : pred.speculate = false := congrArg PredictionResult.speculate (hpred hoff)
    exact Eq.trans h.RF (hd.RF hspeculate)

end Behind

/-! ## The step -/

/-- **What a step does.**  From `s` the cycles up to the fetch of `inst` are evaluated,
and then the instruction is fetched. -/
theorem step_ends {cfg : Config} {hk : Hooks P H} (hE : ∀ e, Elsewhere e → E (.abort e))
    (quiet : Quiet hk E K) (keeps : EvalKeeps cfg hk E J)
    (hooks : ∀ (p : Pipeline P) (h : P), J p → K p.hooks h → J { p with hooks := h })
    {s : Uarchsim P} (hJ : J s.pipe) (hev : Evaluated s.pipe s.previousFetchCycle)
    (room : ∀ a, Caught J s a →
      a.pipe.window.length < a.windowCapacity ∨ E (.abort .stepWindowSize))
    (front : ∀ a, Caught J s a →
      (∀ f ∈ a.pipe.window.head?, a.fetchCycle < f.retireCycle) ∨ E (.abort .stepFrontRetire))
    (inst : DbInst) :
    Ends (s.step cfg hk inst) E fun s' =>
      ∃ a t x w, Caught J s a ∧ Fetches cfg hk K a inst t x w s' := by
  unfold step
  apply Ends.bind (beginStep_ends hE keeps hJ hev)
  intro a₀ h₀
  apply Ends.bind (fetchBlock_ends hE keeps h₀ inst)
  intro a₁ h₁
  apply Ends.bind (predictValue_ends hE quiet hooks h₁ inst)
  rintro ⟨pred, predictable, a⟩ ⟨ha, hpred⟩
  apply Ends.bind (Ends.lift (schedule_ends cfg a inst).returns hE)
  rintro ⟨t, s₁⟩ hs₁
  apply Ends.bind (Ends.lift (writeBack_ends cfg s₁ inst t pred predictable).returns hE)
  rintro ⟨squash, s₂⟩ hs₂
  apply Ends.bind (dispatch_enters hE quiet pred predictable (room a ha) hs₁ hs₂)
  rintro d ⟨w, hd⟩
  apply Ends.bind (hd.manageFetch hE (front a ha) squash)
  rintro s₄ ⟨h₄, hpipe, hpiece⟩
  apply Ends.bind (h₄.predictBranch hE quiet hd.later a.numUop)
  rintro ⟨misp, s₅⟩ ⟨h₅, hpredicts⟩
  rw [hpipe, hpiece] at hpredicts
  apply Ends.bind (Ends.lift (h₅.updatePredTaken misp) hE)
  rintro s₆ ⟨h₆, hooks₆⟩
  apply Ends.bind (Ends.lift (h₆.endStep a.fetchCycle) hE)
  rintro s₇ ⟨h₇, hooks₇⟩
  rw [← hooks₆, ← hooks₇] at hpredicts
  obtain ⟨w', hfetches⟩ := h₇.fetches hd hpredicts hpred
  exact ⟨a, t, _, w', ha, hfetches⟩

end Uarchsim

end CbpSim.Core
