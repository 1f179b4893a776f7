/-
  Core/Checkpoints.lean --- the life of a saved history.

  Source: src/cbp2016_tage_sc_l.h, `pred_time_histories` in `predict` and `update`;
  src/lib/uarchsim.cc, `eval_exec` and the prediction in `step`.

  A conditional branch saves the running history when its direction is predicted
  and drops it when it resolves.  The resolutions come in another order than the
  predictions, so the invariant relates the table to the set of branches between
  the two, and the loop of `eval_exec` takes one branch at a time out of it.
-/
import CbpSim.Core.Delivery
import CbpSim.Core.Stages
import CbpSim.Core.Predictors

set_option autoImplicit false

namespace CbpSim.Core

open CbpSim.Foundation CbpSim.Predictor

variable {P H V G : Type}

/-! ## Keys -/

/-- The key holds the number of the instruction, without its upper four bits. -/
theorem instKey_shiftRight (seqNo piece : Nat) : instKey seqNo piece >>> 4 = seqNo % 2 ^ 60 := by
  have hpiece : (piece &&& 0x000F) >>> 4 = 0 := by
    rw [Nat.shiftRight_eq_div_pow]
    exact Nat.div_eq_of_lt (Nat.and_lt_two_pow piece (by decide))
  have hseq : ((seqNo <<< 4) % 2 ^ 64) >>> 4 = seqNo % 2 ^ 60 := by
    rw [Nat.shiftRight_eq_div_pow, Nat.shiftLeft_eq]
    omega
  rw [instKey, Nat.shiftRight_or_distrib, hpiece, hseq, Nat.or_zero]

namespace Fetched

/-- The unique id of an instruction. -/
def key (x : Fetched P) : Nat := instKey x.seqNo x.piece

/-- The history that was active when the direction of the branch was predicted. -/
def history (x : Fetched (Predictors V)) : CbpHist := x.predictors.cond.tage.activeHist

/-- What `update` is to find for the branch. -/
def checkpoint (x : Fetched (Predictors V)) : Nat × CbpHist := (x.seqNo, x.history)

end Fetched

/-- No two instructions have one key. -/
def KeysApart (U : List (Fetched P)) : Prop := U.Pairwise fun x y => x.key ≠ y.key

/-- Numbers that are close have different keys. -/
theorem key_ne {x y : Fetched P} (hlt : x.seqNo < y.seqNo) (hclose : y.seqNo < x.seqNo + 2 ^ 60) :
    x.key ≠ y.key := by
  intro heq
  have hmod : x.seqNo % 2 ^ 60 = y.seqNo % 2 ^ 60 := by
    rw [← instKey_shiftRight x.seqNo x.piece, ← instKey_shiftRight y.seqNo y.piece]
    exact congrArg (· >>> 4) heq
  omega

/-- What is left of the window when the older instructions are out of it has keys
apart. -/
theorem keysApart_of_window {L : List (Fetched P)} {p : Pipeline P} (hL : Timed L)
    (hp : InWindow L p) (hroom : p.window.length ≤ 2 ^ 60) :
    KeysApart (L.filter (pending p.evaluated (·.execCycle))) := by
  rw [hp.length_eq] at hroom
  -- the window is the end of the program
  have hsuffix : L.filter (unretired p.evaluated) = L.dropWhile fun x => !unretired p.evaluated x := by
    rw [dropWhile_eq_filter]
    · simp
    · apply hp.ordered.imp
      intro x y hxy hy
      simp only [unretired, Bool.not_eq_true', decide_eq_false_iff_not, not_le] at hy ⊢
      exact hxy.trans_lt hy
  obtain ⟨front, hfront⟩ : (L.filter (unretired p.evaluated)) <:+ L := by
    rw [hsuffix]
    exact List.dropWhile_suffix _
  have hnumber : ∀ x ∈ L.filter (unretired p.evaluated),
      front.length ≤ x.seqNo ∧ x.seqNo < front.length + 2 ^ 60 := by
    intro x hx
    obtain ⟨i, hi, rfl⟩ := List.mem_iff_getElem.mp hx
    have hnum := hL.numbered
    rw [← hfront] at hnum
    have hget : ((front ++ L.filter (unretired p.evaluated)).map (·.seqNo))[front.length + i]? =
        some ((L.filter (unretired p.evaluated))[i].seqNo) := by
      rw [List.getElem?_map, List.getElem?_append_right (Nat.le_add_right _ _),
        Nat.add_sub_cancel_left, List.getElem?_eq_getElem hi]
      rfl
    rw [hnum, List.getElem?_range (by simpa using hi)] at hget
    rw [← Option.some.inj hget]
    omega
  have hsub : ∀ x ∈ L.filter (pending p.evaluated (·.execCycle)),
      x ∈ L.filter (unretired p.evaluated) := by
    intro x hx
    obtain ⟨hmem, hlate⟩ := List.mem_filter.mp hx
    exact List.mem_filter.mpr ⟨hmem,
      decide_eq_true ((of_decide_eq_true hlate).trans (hL.each x hmem).retire)⟩
  apply (hL.increasing.sublist List.filter_sublist).imp_of_mem
  intro x y hx hy hlt
  have hnx := hnumber x (hsub x hx)
  have hny := hnumber y (hsub y hy)
  apply key_ne hlt
  omega

/-! ## The table -/

/-- The table holds the histories of the conditional branches of `U`, and nothing
else. -/
structure Saves (U : List (Fetched (Predictors V))) (p : Predictors V) : Prop where
  saved : ∀ x ∈ U, x.inst.insnClass.isCondBr → p.saved x.key = some x.history
  keys : ∀ k, p.saved k ≠ none → ∃ x ∈ U, x.inst.insnClass.isCondBr ∧ x.key = k

theorem Saves.of_same {U : List (Fetched (Predictors V))} {p p' : Predictors V} (h : Saves U p)
    (hsame : SameSaved p p') : Saves U p' where
  saved := by
    rw [hsame.1]
    exact h.saved
  keys := by
    rw [hsame.1]
    exact h.keys

/-- A branch resolves. -/
theorem Saves.resolve {U U' : List (Fetched (Predictors V))} {x : Fetched (Predictors V)}
    {p p' : Predictors V} (h : Saves (U ++ x :: U') p) (hapart : KeysApart (U ++ x :: U'))
    (hsaved : p'.saved = if x.inst.insnClass.isCondBr then Function.update p.saved x.key none
      else p.saved) : Saves (U ++ U') p' := by
  have hother : ∀ y ∈ U ++ U', y.key ≠ x.key := by
    intro y hy
    obtain ⟨_, hxU', hUx⟩ := List.pairwise_append.mp hapart
    rcases List.mem_append.mp hy with hy | hy
    · exact hUx y hy x List.mem_cons_self
    · exact ((List.pairwise_cons.mp hxU').1 y hy).symm
  have hmem : ∀ y, y ∈ U ++ x :: U' ↔ y = x ∨ y ∈ U ++ U' := by
    intro y
    simp only [List.mem_append, List.mem_cons]
    tauto
  cases hx : x.inst.insnClass.isCondBr with
  | true =>
    rw [hx, if_pos rfl] at hsaved
    refine { saved := ?_, keys := ?_ }
    · intro y hy hbr
      rw [hsaved, Function.update_of_ne (hother y hy)]
      exact h.saved y ((hmem y).mpr (Or.inr hy)) hbr
    · intro k hk
      rcases eq_or_ne k x.key with rfl | hne
      · exact absurd (by rw [hsaved, Function.update_self]) hk
      · rw [hsaved, Function.update_of_ne hne] at hk
        obtain ⟨y, hy, hbr, rfl⟩ := h.keys k hk
        rcases (hmem y).mp hy with rfl | hy
        · exact absurd rfl hne
        · exact ⟨y, hy, hbr, rfl⟩
  | false =>
    rw [hx, if_neg Bool.false_ne_true] at hsaved
    refine { saved := ?_, keys := ?_ }
    · intro y hy hbr
      rw [hsaved]
      exact h.saved y ((hmem y).mpr (Or.inr hy)) hbr
    · intro k hk
      rw [hsaved] at hk
      obtain ⟨y, hy, hbr, rfl⟩ := h.keys k hk
      rcases (hmem y).mp hy with rfl | hy
      · exact absurd (hx.symm.trans hbr) Bool.false_ne_true
      · exact ⟨y, hy, hbr, rfl⟩

/-- A branch is predicted. -/
theorem Saves.predict {U : List (Fetched (Predictors V))} {x : Fetched (Predictors V)}
    {p : Predictors V} (h : Saves U x.predictors) (hapart : KeysApart (U ++ [x]))
    (hx : x.inst.insnClass.isCondBr)
    (hsaved : p.saved = Function.update x.predictors.saved x.key
      (some ((x.predictors.saved x.key).getD x.history))) : Saves (U ++ [x]) p := by
  have hother : ∀ y ∈ U, y.key ≠ x.key := fun y hy =>
    (List.pairwise_append.mp hapart).2.2 y hy x (List.mem_singleton_self x)
  have hnone : x.predictors.saved x.key = none := by
    by_contra hsome
    obtain ⟨y, hy, _, heq⟩ := h.keys x.key hsome
    exact hother y hy heq
  rw [hnone, Option.getD_none] at hsaved
  refine { saved := ?_, keys := ?_ }
  · intro y hy hbr
    rw [hsaved]
    rcases List.mem_append.mp hy with hy | hy
    · rw [Function.update_of_ne (hother y hy)]
      exact h.saved y hy hbr
    · rw [List.mem_singleton.mp hy, Function.update_self]
  · intro k hk
    rcases eq_or_ne k x.key with rfl | hne
    · exact ⟨x, List.mem_append_right _ (List.mem_singleton_self x), hx, rfl⟩
    · rw [hsaved, Function.update_of_ne hne] at hk
      obtain ⟨y, hy, hbr, rfl⟩ := h.keys k hk
      exact ⟨y, List.mem_append_left _ hy, hbr, rfl⟩

/-- An instruction that is no conditional branch, or no longer due, has no part in
it. -/
theorem Saves.skip {U : List (Fetched (Predictors V))} {x : Fetched (Predictors V)}
    {p : Predictors V} (h : Saves U p) (hx : ¬ x.inst.insnClass.isCondBr) :
    Saves (U ++ [x]) p where
  saved := by
    intro y hy hbr
    rcases List.mem_append.mp hy with hy | hy
    · exact h.saved y hy hbr
    · exact absurd (List.mem_singleton.mp hy ▸ hbr) hx
  keys := by
    intro k hk
    obtain ⟨y, hy, hbr, rfl⟩ := h.keys k hk
    exact ⟨y, List.mem_append_left _ hy, hbr, rfl⟩

/-! ## One cycle -/

/-- The checkpoints of the conditional branches of a list. -/
def checkpointsOf (xs : List (Fetched (Predictors V))) : List (Nat × CbpHist) :=
  (xs.filter (·.inst.insnClass.isCondBr)).map Fetched.checkpoint

theorem checkpointsOf_append (xs ys : List (Fetched (Predictors V))) :
    checkpointsOf (xs ++ ys) = checkpointsOf xs ++ checkpointsOf ys := by
  rw [checkpointsOf, List.filter_append, List.map_append]
  rfl

namespace Pipeline

section Execute

variable {cfg : Config} {side : SidePredictors V G} {cycle : Nat}

/-- The stages other than `eval_exec` leave the saved histories alone. -/
theorem predictorHooks_steady :
    Steady (predictorHooks cfg side) (HistoryFound (G := G)) SameSaved where
  refl _ := ⟨rfl, rfl⟩
  trans h h' := ⟨h'.1.trans h.1, h'.2.trans h.2⟩
  abort _ _ := by simp [HistoryFound]
  decode p seqNo piece _ info _ := p.onCond_ends (Cond.notifyInstrDecode_ends p.cond seqNo piece info)
  agen _ _ _ _ _ _ _ _ := ⟨rfl, rfl⟩
  commit p _ _ _ _ info _ := p.onCond_ends (Cond.notifyInstrCommit_ends p.cond info)
  update p _ _ _ _ := p.onSide_ends _

/-- The resolution of an instruction that waits for it. -/
theorem notifyExecute_saves {U U' : List (Fetched (Predictors V))}
    {x : Fetched (Predictors V)} {p : Pipeline (Predictors V)} (hx : p.Holds x)
    (hapart : KeysApart (U ++ x :: U')) (hsaves : Saves (U ++ x :: U') p.hooks) :
    Ends (notifyExecute (predictorHooks cfg side) cycle (x.entry (·.execCycle)) p) HistoryFound
      fun p' => p'.window = p.window ∧ Saves (U ++ U') p'.hooks ∧
        p'.hooks.updates = p.hooks.updates ++ checkpointsOf [x] := by
  obtain ⟨w, hw, hwx⟩ := hx
  obtain ⟨hclass, _⟩ := populateExecInfo_mem hwx.execInfo
  have hsaved : x.inst.insnClass.isCondBr → p.hooks.saved x.key = some x.history :=
    hsaves.saved x (List.mem_append_right _ List.mem_cons_self)
  have hkey : instKey w.seqNo w.piece = x.key := by rw [hwx.seqNo, hwx.piece, Fetched.key]
  unfold notifyExecute Fetched.entry
  rw [hw]
  apply Ends.bind (Q := fun w' => w' = w) (ends_ok.mpr rfl)
  rintro _ rfl
  apply Ends.ite
  · intro _
    simp [HistoryFound]
  · intro _
    apply Ends.bind (Ends.call ((executeResolve_ends cfg side p.hooks _ _ _ _ _ _).mono _
      fun _ h => h))
    · rintro hooks ⟨hupdates, hdrop⟩
      rw [hclass, hkey] at hdrop
      refine ⟨rfl, hsaves.resolve hapart hdrop, ?_⟩
      refine hupdates.trans ?_
      congr 1
      rw [Predictors.found, hclass, hkey, hwx.seqNo, checkpointsOf]
      cases hbr : x.inst.insnClass.isCondBr with
      | true =>
        rw [if_pos rfl, hsaved hbr, List.filter_cons_of_pos (by simpa using hbr)]
        rfl
      | false =>
        rw [if_neg Bool.false_ne_true, List.filter_cons_of_neg (by simp [hbr])]
        rfl
    · intro r hr heq
      obtain ⟨hbr, hnone⟩ := hr (by simpa using heq)
      rw [hclass] at hbr
      rw [hkey, hsaved hbr] at hnone
      cases hnone

/-- The loop of `eval_exec`, among branches `kept` that it has passed. -/
theorem evalExecLoop_saves (xs : List (Fetched (Predictors V)))
    (kept : List (Fetched (Predictors V))) (p : Pipeline (Predictors V))
    (hholds : ∀ x ∈ xs, p.Holds x) (hapart : KeysApart (kept ++ xs))
    (hsaves : Saves (kept ++ xs) p.hooks) :
    Ends (evalQueue (notifyExecute (predictorHooks cfg side) cycle) .evalExecLate cycle
        (xs.map (Fetched.entry (·.execCycle))) p) HistoryFound fun r =>
      Saves (kept ++ xs.filter fun x => !dueAt cycle (·.execCycle) x) r.2.hooks ∧
      r.2.hooks.updates = p.hooks.updates ++ checkpointsOf (xs.filter (dueAt cycle (·.execCycle))) := by
  induction xs generalizing kept p with
  | nil => exact ⟨hsaves, (List.append_nil _).symm⟩
  | cons x xs ih =>
    rw [List.map_cons, evalQueue]
    apply Ends.ite
    · intro _
      simp [HistoryFound]
    · intro _
      apply Ends.ite
      · intro hdue
        have hx : dueAt cycle (·.execCycle) x = true := beq_iff_eq.mpr hdue.symm
        rw [List.filter_cons_of_pos hx, List.filter_cons_of_neg (by simp [hx])]
        apply Ends.bind (notifyExecute_saves (hholds x List.mem_cons_self) hapart hsaves)
        rintro p' ⟨hwindow, hsaves', hupdates⟩
        apply (ih kept p' ?_ (hapart.sublist ((List.Sublist.refl kept).append
          (List.sublist_cons_self x xs))) hsaves').imp
        · rintro r ⟨hr, hupdates'⟩
          refine ⟨hr, ?_⟩
          rw [hupdates', hupdates, List.append_assoc, ← checkpointsOf_append]
          rfl
        · intro y hy
          exact (hholds y (List.mem_cons_of_mem _ hy)).of_window hwindow
      · intro hlater
        have hx : ¬ dueAt cycle (·.execCycle) x = true := fun h => hlater (beq_iff_eq.mp h).symm
        rw [List.filter_cons_of_neg hx, List.filter_cons_of_pos (by simpa using hx),
          List.append_cons]
        rw [List.append_cons] at hapart hsaves
        apply Ends.bind (ih (kept ++ [x]) p (fun y hy => hholds y (List.mem_cons_of_mem _ hy))
          hapart hsaves)
        rintro ⟨rest, p'⟩ h
        exact h

end Execute

end Pipeline

/-- What the simulator knows of the table: it holds the histories of the branches
whose execution is still to come, and `update` found those of the others. -/
structure Tabled (L : List (Fetched (Predictors V))) (p : Pipeline (Predictors V)) : Prop where
  saves : Saves (L.filter (pending p.evaluated (·.execCycle))) p.hooks
  updates : ∀ u, u ∈ p.hooks.updates ↔
    u ∈ checkpointsOf (L.filter fun x => decide (x.execCycle < p.evaluated))

theorem Tabled.of_same {L : List (Fetched (Predictors V))} {p : Pipeline (Predictors V)}
    (h : Tabled L p) {hooks : Predictors V} (hsame : SameSaved p.hooks hooks) :
    Tabled L { p with hooks := hooks } where
  saves := h.saves.of_same hsame
  updates := by
    rw [hsame.2]
    exact h.updates

section Cycle

variable {cfg : Config} {side : SidePredictors V G} {L : List (Fetched (Predictors V))}
  {p : Pipeline (Predictors V)} {cycle : Nat}

/-- The evaluation of a cycle takes what executes in it out of the table. -/
theorem Tabled.evalCycle (hL : Timed L) (hsync : Sync L p) (h : Tabled L p)
    (hroom : p.window.length ≤ 2 ^ 60) (hlo : cycle ≤ p.evaluated)
    (hhi : p.evaluated ≤ cycle + 1) :
    Ends (p.evalCycle cfg (predictorHooks cfg side) cycle) HistoryFound (Tabled L) := by
  have steady : Pipeline.Steady (predictorHooks cfg side) (HistoryFound (G := G)) SameSaved :=
    Pipeline.predictorHooks_steady
  have hapart := keysApart_of_window hL hsync.inWindow hroom
  unfold Pipeline.evalCycle
  apply Ends.bind (Q := fun p₁ => SameSaved p.hooks p₁.hooks ∧ p₁.window = p.window ∧
    p₁.AQ = p.AQ ∧ p₁.EQ = p.EQ ∧ p₁.evaluated = p.evaluated)
  · apply Ends.bind ((Pipeline.evalDecodeLoop_frame p.DQ p).and_right
      (steady.evalDecodeLoop p.DQ p))
    rintro ⟨queue, _⟩ ⟨⟨events, hooks, rfl⟩, hsame⟩
    exact ⟨hsame, rfl, rfl, rfl, rfl⟩
  rintro p₁ ⟨hsame₁, hwindow₁, hAQ₁, hEQ₁, hev₁⟩
  apply Ends.bind (Q := fun p₂ => SameSaved p.hooks p₂.hooks ∧ p₂.window = p.window ∧
    p₂.EQ = p.EQ ∧ p₂.evaluated = p.evaluated)
  · apply Ends.bind ((Pipeline.evalQueue_frame ⟨by simp, by simp⟩ Pipeline.notifyAgen_ends p₁.AQ
      p₁).and_right (steady.evalQueue rfl steady.notifyAgen p₁.AQ p₁))
    rintro ⟨queue, _⟩ ⟨⟨events, hooks, rfl⟩, hsame⟩
    exact ⟨steady.trans hsame₁ hsame, hwindow₁, hEQ₁, hev₁⟩
  rintro p₂ ⟨hsame₂, hwindow₂, hEQ₂, hev₂⟩
  apply Ends.bind (Q := fun p₃ =>
    Saves (L.filter (pending (cycle + 1) (·.execCycle))) p₃.hooks ∧
      p₃.hooks.updates = p.hooks.updates ++
        checkpointsOf (L.filter (between p.evaluated (cycle + 1) (·.execCycle))))
  · unfold Pipeline.evalExec
    rw [hEQ₂, hsync.EQ]
    apply Ends.bind (Pipeline.evalExecLoop_saves _ [] p₂ _ hapart (h.saves.of_same hsame₂))
    · rintro ⟨queue, p₃⟩ ⟨hsaves, hupdates⟩
      rw [List.nil_append, filter_pending_late _ hlo hhi] at hsaves
      rw [filter_pending_due _ hlo, hsame₂.2] at hupdates
      exact ⟨hsaves, hupdates⟩
    · intro x hx
      obtain ⟨hmem, hlate⟩ := List.mem_filter.mp hx
      exact (Pipeline.holds_of_pending hL hsync.inWindow hmem (of_decide_eq_true hlate)
        le_rfl).of_window hwindow₂
  rintro p₃ ⟨hsaves₃, hupdates₃⟩
  apply Ends.bind (Q := fun p₄ => SameSaved p₃.hooks p₄.hooks)
  · apply Ends.bind (steady.evalRetireLoop cfg p₃.window p₃)
    rintro ⟨window, p₄⟩ hsame
    exact hsame
  intro p₄ hsame₄
  refine { saves := hsaves₃.of_same hsame₄, updates := ?_ }
  intro u
  rw [hsame₄.2, hupdates₃, List.mem_append, h.updates u]
  simp only [checkpointsOf, List.mem_map, List.mem_filter, between, Bool.and_eq_true,
    decide_eq_true_eq]
  constructor
  · rintro (⟨x, ⟨⟨hmem, hlt⟩, hbr⟩, rfl⟩ | ⟨x, ⟨⟨hmem, hlate, hlt⟩, hbr⟩, rfl⟩)
    · exact ⟨x, ⟨⟨hmem, by omega⟩, hbr⟩, rfl⟩
    · exact ⟨x, ⟨⟨hmem, hlt⟩, hbr⟩, rfl⟩
  · rintro ⟨x, ⟨⟨hmem, hlt⟩, hbr⟩, rfl⟩
    rcases Nat.lt_or_ge x.execCycle p.evaluated with hpast | hlate
    · exact Or.inl ⟨x, ⟨⟨hmem, hpast⟩, hbr⟩, rfl⟩
    · exact Or.inr ⟨x, ⟨⟨hmem, hlate, hlt⟩, hbr⟩, rfl⟩

/-- The fetch of an instruction puts it into the table if it is a conditional
branch. -/
theorem Tabled.dispatch {a s' : Uarchsim (Predictors V)} {inst : DbInst} {t : Timing}
    {x : Fetched (Predictors V)} {w : WindowEntry} (h : Tabled L a.pipe)
    (hx : Fetches cfg (predictorHooks cfg side) SameSaved a inst t x w s')
    (hpredicts : cfg.perfectBranchPred = false ∨ inst.insnClass ≠ .condBranch)
    (hlate : a.pipe.evaluated ≤ x.execCycle)
    (hapart : KeysApart ((L ++ [x]).filter (pending a.pipe.evaluated (·.execCycle)))) :
    Tabled (L ++ [x]) s'.pipe := by
  rw [filter_pending_concat hlate] at hapart
  have hsaves := h.saves.of_same hx.dispatched
  have hnew : ¬ x.execCycle < a.pipe.evaluated := not_lt.mpr hlate
  have hresult : Saves (L.filter (pending a.pipe.evaluated (·.execCycle)) ++ [x]) s'.pipe.hooks ∧
      s'.pipe.hooks.updates = a.pipe.hooks.updates := by
    have hpred := hx.predicts
    unfold Predicts at hpred
    split at hpred
    · rename_i hbr
      obtain ⟨_, dir, q, hget, hsame⟩ := hpred
      obtain ⟨hupdates, hsaved⟩ := getCondDirPrediction_saves cfg side hget
      refine ⟨Saves.of_same (hsaves.predict hapart ?_ hsaved) hsame, ?_⟩
      · simp [InstClass.isCondBr, hbr.2]
      · rw [hsame.2, hupdates, hx.dispatched.2]
    · rename_i hbr
      refine ⟨(hsaves.of_same hpred).skip ?_, ?_⟩
      · rw [hx.records.inst] at hbr ⊢
        simp only [InstClass.isCondBr, beq_iff_eq]
        intro hclass
        rcases hpredicts with hoff | hne
        · exact hbr ⟨hoff, hclass⟩
        · exact hne hclass
      · rw [hpred.2, hx.dispatched.2]
  refine { saves := ?_, updates := ?_ }
  · rw [hx.evaluated, filter_pending_concat hlate]
    exact hresult.1
  · rw [hx.evaluated, hresult.2, List.filter_append, List.filter_cons_of_neg (by simpa using hnew),
      List.filter_nil, List.append_nil]
    exact h.updates

end Cycle

/-! ## Every run -/

/-- `notify_instr_execute_resolve` has run for the instruction. -/
def Resolved (s : Uarchsim P) (x : Fetched P) : Prop :=
  ∃ e ∈ s.pipe.events, e.stage = .execute ∧ e.seqNo = x.seqNo

/-- The table holds exactly the conditional branches that are fetched and not resolved,
each with the history that was active at its prediction; `update` found that history
for each of those resolved. -/
structure Checkpoints (s : Uarchsim (Predictors V)) : Prop where
  saved : ∀ x ∈ s.fetched, x.inst.insnClass.isCondBr → ¬ Resolved s x →
    s.pipe.hooks.saved x.key = some x.history
  keys : ∀ k, s.pipe.hooks.saved k ≠ none →
    ∃ x ∈ s.fetched, x.inst.insnClass.isCondBr ∧ ¬ Resolved s x ∧ x.key = k
  updates : ∀ u, u ∈ s.pipe.hooks.updates ↔
    ∃ x ∈ s.fetched, x.inst.insnClass.isCondBr ∧ Resolved s x ∧ u = x.checkpoint

/-- The invariant behind it. -/
structure CheckpointsKept (cfg : Config) (s : Uarchsim (Predictors V)) : Prop where
  delivery : DeliveryKept cfg s
  tabled : Tabled s.fetched s.pipe
  capacity : s.windowCapacity = cfg.windowSize
  room : s.pipe.window.length ≤ cfg.windowSize

theorem DeliveryKept.resolved_iff {cfg : Config} {s : Uarchsim P} (h : DeliveryKept cfg s)
    {x : Fetched P} (hx : x ∈ s.fetched) : Resolved s x ↔ x.execCycle < s.pipe.evaluated := by
  have hnotices := h.sync.notices x hx
  have hmem : ∀ e, e ∈ s.pipe.events ∧ e.seqNo = x.seqNo ↔
      e ∈ x.schedule ∧ e.cycle < s.pipe.evaluated := by
    intro e
    have hiff := congrArg (e ∈ ·) hnotices
    simpa [List.mem_filter] using hiff
  constructor
  · rintro ⟨e, he, hstage, hseq⟩
    obtain ⟨hschedule, hlt⟩ := (hmem e).mp ⟨he, hseq⟩
    simp only [Fetched.schedule, List.mem_append, List.mem_singleton] at hschedule
    rcases hschedule with rfl | hagen | rfl | rfl
    · cases hstage
    · split at hagen
      · obtain rfl := List.mem_singleton.mp hagen
        cases hstage
      · cases hagen
    · exact hlt
    · cases hstage
  · intro hlt
    obtain ⟨he, hseq⟩ := (hmem (x.notice .execute x.execCycle)).mpr
      ⟨by simp [Fetched.schedule], hlt⟩
    exact ⟨_, he, rfl, hseq⟩

theorem CheckpointsKept.checkpoints {cfg : Config} {s : Uarchsim (Predictors V)}
    (h : CheckpointsKept cfg s) : Checkpoints s where
  saved := by
    intro x hx hbr hopen
    rw [h.delivery.resolved_iff hx, not_lt] at hopen
    exact h.tabled.saves.saved x (List.mem_filter.mpr ⟨hx, decide_eq_true hopen⟩) hbr
  keys := by
    intro k hk
    obtain ⟨x, hx, hbr, hkey⟩ := h.tabled.saves.keys k hk
    obtain ⟨hmem, hlate⟩ := List.mem_filter.mp hx
    refine ⟨x, hmem, hbr, ?_, hkey⟩
    rw [h.delivery.resolved_iff hmem, not_lt]
    exact of_decide_eq_true hlate
  updates := by
    intro u
    rw [h.tabled.updates u]
    simp only [checkpointsOf, List.mem_map, List.mem_filter, decide_eq_true_eq]
    constructor
    · rintro ⟨x, ⟨⟨hx, hlt⟩, hbr⟩, rfl⟩
      exact ⟨x, hx, hbr, (h.delivery.resolved_iff hx).mpr hlt, rfl⟩
    · rintro ⟨x, hx, hbr, hresolved, rfl⟩
      exact ⟨x, ⟨⟨hx, (h.delivery.resolved_iff hx).mp hresolved⟩, hbr⟩, rfl⟩

theorem CheckpointsKept.initial {cfg : Config} {v : V} {s : Uarchsim (Predictors V)}
    (h : Uarchsim.Initial cfg (.init v) s) :
    CheckpointsKept cfg s where
  delivery := DeliveryKept.initial h
  tabled := by
    rw [h.fetched, h.pipe]
    exact {
      saves := ⟨by simp, fun k hk => absurd rfl hk⟩
      updates := by simp [checkpointsOf, Predictors.init] }
  capacity := h.windowCapacity
  room := by simp [h.pipe]

/-- The window holds few of the numbers that fit into a key: it is small, or not many
instructions were fetched. -/
theorem CheckpointsKept.window_le {cfg : Config} {s : Uarchsim (Predictors V)}
    (h : CheckpointsKept cfg s) (hfew : cfg.windowSize ≤ 2 ^ 60 ∨ s.fetched.length ≤ 2 ^ 60) :
    s.pipe.window.length ≤ 2 ^ 60 := by
  rcases hfew with hsize | hfew
  · exact h.room.trans hsize
  · rw [h.delivery.sync.inWindow.length_eq]
    exact (List.length_filter_le _ _).trans hfew

theorem checkpointsKept_step {cfg : Config} (side : SidePredictors V G)
    (hlat : cfg.DefaultLatencies) {s : Uarchsim (Predictors V)}
    (hfew : cfg.windowSize ≤ 2 ^ 60 ∨ s.fetched.length < 2 ^ 60) (h : CheckpointsKept cfg s)
    {inst : DbInst} (hflags : inst.FlagsMatch)
    (hpredicts : cfg.perfectBranchPred = false ∨ inst.insnClass ≠ .condBranch) :
    Ends (s.step cfg (predictorHooks cfg side) inst) HistoryFound fun s' =>
      CheckpointsKept cfg s' ∧ s'.fetched.length = s.fetched.length + 1 := by
  have keeps : EvalKeeps cfg (predictorHooks cfg side) HistoryFound fun p =>
      (Sync s.fetched p ∧ Tabled s.fetched p) ∧ p.window.length ≤ 2 ^ 60 := by
    rintro cycle p ⟨⟨hsync, htabled⟩, hroom⟩ hlo hhi
    apply (((hsync.evalCycle cfg _ h.delivery.timed hlo hhi).and
      (Pipeline.evalCycle_window cfg _ cycle p)).and_right
      (htabled.evalCycle h.delivery.timed hsync hroom hlo hhi)).imp
    rintro p' ⟨⟨⟨hsync', hev⟩, hwindow, _⟩, htabled'⟩
    refine ⟨⟨⟨hsync', htabled'⟩, ?_⟩, hev⟩
    rw [hwindow]
    exact (List.dropWhile_sublist _).length_le.trans hroom
  have hstep := Uarchsim.step_ends (E := HistoryFound) (fun _ _ => by simp [HistoryFound])
    (predictorHooks_quiet cfg side) keeps
    (fun p hooks hp hsame => ⟨⟨{ hp.1.1 with
      inWindow := ⟨hp.1.1.inWindow.window, hp.1.1.inWindow.ordered⟩ }, hp.1.2.of_same hsame⟩, hp.2⟩)
    ⟨⟨h.delivery.sync, h.tabled⟩, h.window_le (hfew.imp_right le_of_lt)⟩ h.delivery.caughtUp
    (fun _ _ => Or.inr (by simp [HistoryFound])) (fun _ _ => Or.inr (by simp [HistoryFound])) inst
  apply ((deliveryKept_step _ hlat h.delivery hflags).and_right hstep).imp
  rintro s' ⟨hdelivery, a, t, x, w, ha, hx⟩
  have hfetched : s'.fetched = s.fetched ++ [x] := by rw [hx.fetched, ha.fetched]
  have hcapacity : s'.windowCapacity = cfg.windowSize := by
    rw [hx.capacity, ha.windowCapacity, h.capacity]
  have hroom : s'.pipe.window.length ≤ cfg.windowSize := hcapacity ▸ hx.room
  have hlate : a.pipe.evaluated ≤ x.execCycle := by
    have hlater := hx.later
    rw [hx.records.execCycle]
    rcases ha.evaluated with hev | ⟨hev, _⟩
    · omega
    · omega
  have hlength : s'.fetched.length = s.fetched.length + 1 := by
    rw [hfetched, List.length_append, List.length_singleton]
  have hwindow : s'.pipe.window.length ≤ 2 ^ 60 := by
    rcases hfew with hsize | hfew
    · exact hroom.trans hsize
    · rw [hdelivery.sync.inWindow.length_eq]
      exact (List.length_filter_le _ _).trans (hlength ▸ hfew)
  refine ⟨{ delivery := hdelivery, tabled := ?_, capacity := hcapacity, room := hroom }, hlength⟩
  have hapart := keysApart_of_window hdelivery.timed hdelivery.sync.inWindow hwindow
  rw [hfetched, hx.evaluated] at hapart
  rw [hfetched]
  exact ha.pipe.1.2.dispatch hx hpredicts hlate hapart

/-- **The life of a saved history**, in every run in which the direction of every
conditional branch is predicted, and the lookup of a history never fails.  The ids of
the instructions in flight are different: the window or the trace is not longer than the
60 bits of a number allow. -/
theorem checkpoints_run (u : Unset) (cfg : Config) (side : SidePredictors V G) (v : V)
    (insts : List DbInst) (hlat : cfg.DefaultLatencies)
    (hfew : cfg.windowSize ≤ 2 ^ 60 ∨ insts.length ≤ 2 ^ 60)
    (hflags : ∀ inst ∈ insts, inst.FlagsMatch)
    (hpredicts : cfg.perfectBranchPred = false ∨
      ∀ inst ∈ insts, inst.insnClass ≠ .condBranch) :
    (∀ s, Uarchsim.simulate u cfg (predictorHooks cfg side) (.init v) insts = .ok s →
      Checkpoints s) ∧
    ∀ e, Uarchsim.simulate u cfg (predictorHooks cfg side) (.init v) insts = .error e →
      HistoryFound e := by
  have hends : Ends (Uarchsim.simulate u cfg (predictorHooks cfg side) (.init v) insts)
      HistoryFound fun s => CheckpointsKept cfg s ∧ s.fetched.length = insts.length := by
    apply Uarchsim.simulate_ends_along
      (I := fun done s => CheckpointsKept cfg s ∧ s.fetched.length = done.length)
      (fun _ _ => by simp [HistoryFound])
    · intro s h
      exact ⟨CheckpointsKept.initial h, by rw [h.fetched]; rfl⟩
    · rintro done inst rest s htrace ⟨h, hlength⟩
      have hinst : inst ∈ insts := htrace ▸ List.mem_append_right _ List.mem_cons_self
      have hbefore : s.fetched.length < insts.length := by
        rw [hlength, ← htrace, List.length_append, List.length_cons]
        omega
      rw [List.length_append, List.length_singleton, ← hlength]
      apply checkpointsKept_step side hlat (hfew.imp_right hbefore.trans_le) h (hflags inst hinst)
      exact hpredicts.imp_right fun hnone => hnone inst hinst
  exact ends_iff.mp (hends.imp fun _ h => h.1.checkpoints)

/-- Two conditional branches that fall through. -/
def branchTrace : List DbInst :=
  [regInst .condBranch 64 (intReg 1) {} {}, regInst .condBranch 68 (intReg 2) {} {}]

theorem checkpoints_branchTrace :
    ∃ s, Uarchsim.simulate ⟨fun _ => ⟨0, 0, 0⟩, 0⟩ { windowSize := 1 }
      (predictorHooks { windowSize := 1 } idleSide) (.init ()) branchTrace = .ok s ∧
      Checkpoints s := by
  obtain ⟨s, hs⟩ := exists_of_isOk
    (show (Uarchsim.simulate ⟨fun _ => ⟨0, 0, 0⟩, 0⟩ { windowSize := 1 }
      (predictorHooks { windowSize := 1 } idleSide) (.init ()) branchTrace).isOk = true by
        decide +kernel)
  refine ⟨s, hs, ?_⟩
  have hlat : ({ windowSize := 1 } : Config).DefaultLatencies :=
    { fill := rfl, dq := rfl, default := rfl, fp := rfl, slowAlu := rfl }
  exact (checkpoints_run _ _ idleSide () branchTrace hlat (Or.inr (by decide)) (by decide)
    (Or.inl rfl)).1 s hs

/-- With `PERFECT_BRANCH_PRED` nothing is saved, but the first branch that executes
is looked up all the same. -/
theorem perfect_history_missing :
    ¬ ((∀ s, Uarchsim.simulate ⟨fun _ => ⟨0, 0, 0⟩, 0⟩ { windowSize := 1, perfectBranchPred := true }
        (predictorHooks { windowSize := 1, perfectBranchPred := true } idleSide) (.init ())
        branchTrace = .ok s → Checkpoints s) ∧
      ∀ e, Uarchsim.simulate ⟨fun _ => ⟨0, 0, 0⟩, 0⟩ { windowSize := 1, perfectBranchPred := true }
        (predictorHooks { windowSize := 1, perfectBranchPred := true } idleSide) (.init ())
        branchTrace = .error e → HistoryFound e) := by
  apply not_runs_of_error
  decide +kernel

end CbpSim.Core
