/-
  Core/Queues.lean --- draining the queues.

  Source: src/lib/uarchsim.cc, `eval_decode`, `eval_aq` and `eval_exec`.

  When a queue holds the entries of instructions that are still in the window, with
  cycles that have not passed, its loop delivers exactly the notifications that are
  due, in the order of the queue, and fails no assert: it can only stop in a hook.
-/
import CbpSim.Core.Window

set_option autoImplicit false

namespace CbpSim.Core

open CbpSim.Foundation

variable {P H : Type}

namespace Fetched

/-- The entry of an instruction in the queue of a stage that it reaches at `cycle`. -/
def entry (cycle : Fetched P → Nat) (x : Fetched P) : QueueEntry := ⟨x.seqNo, x.piece, cycle x⟩

/-- The notification of an instruction at a stage. -/
def notice (stage : Stage) (cycle : Nat) (x : Fetched P) : Event where
  stage := stage
  seqNo := x.seqNo
  piece := x.piece
  pc := x.inst.pc
  cycle := cycle

end Fetched

theorem Describes.notice_eq {w : WindowEntry} {x : Fetched P} (h : Describes w x) (stage : Stage)
    (cycle : Nat) : Pipeline.notice stage cycle w = x.notice stage cycle := by
  rw [Pipeline.notice, Fetched.notice, h.seqNo, h.piece, h.pc]

/-! ## The order of the stages -/

/-- The cycles of an instruction follow the order of the stages. -/
structure WellTimed (x : Fetched P) : Prop where
  decode : x.decodeCycle < x.execCycle
  agen : x.inst.insnClass.isMem → x.decodeCycle < x.agenCycle ∧ x.agenCycle ≤ x.execCycle
  retire : x.execCycle ≤ x.retireCycle

/-- The instructions are numbered in program order, decode in that order, and follow
the order of the stages. -/
structure Timed (L : List (Fetched P)) : Prop where
  numbered : L.map (·.seqNo) = List.range L.length
  decodes : L.Pairwise fun x y => x.decodeCycle ≤ y.decodeCycle
  each : ∀ x ∈ L, WellTimed x
  memory : ∀ x ∈ L, x.inst.insnClass.isMem → x.inst.isLoad || x.inst.isStore

namespace Timed

variable {L : List (Fetched P)}

theorem nodup (h : Timed L) : (L.map (·.seqNo)).Nodup := by
  rw [h.numbered]
  exact List.nodup_range

theorem increasing (h : Timed L) : L.Pairwise fun x y => x.seqNo < y.seqNo := by
  have hrange : (L.map (·.seqNo)).Pairwise (· < ·) := by
    rw [h.numbered]
    exact List.pairwise_lt_range
  exact List.pairwise_map.mp hrange

end Timed

namespace Pipeline

variable {L : List (Fetched P)} {p : Pipeline P}

/-! ## Locating an entry -/

/-- `locate_entry_in_window` finds what has not retired. -/
theorem locateEntry_eq (hL : Timed L) (hp : InWindow L p) {x : Fetched P} (hx : x ∈ L)
    (hlate : p.evaluated ≤ x.retireCycle) :
    ∃ w, p.locateEntryInWindow x.seqNo x.piece = .ok w ∧ Describes w x := by
  have hmem : x ∈ L.filter (unretired p.evaluated) :=
    List.mem_filter.mpr ⟨hx, decide_eq_true hlate⟩
  have hfind : (L.filter (unretired p.evaluated)).find?
      (fun y => decide (x.seqNo ≤ y.seqNo)) = some x :=
    find?_key_eq (hL.increasing.sublist (List.filter_sublist (p := unretired p.evaluated))) hmem
  obtain ⟨w, hw, hwx⟩ := forall₂_find? (p := fun w : WindowEntry => decide (x.seqNo ≤ w.seqNo))
    (fun w y hwy => by rw [hwy.seqNo]) hp.window hfind
  refine ⟨w, ?_, hwx⟩
  unfold locateEntryInWindow
  rw [hw]
  exact if_pos ⟨hwx.seqNo, hwx.piece⟩

section Notify

variable {hk : Hooks P H} {cycle : Nat} {x : Fetched P}

/-- The window of `p` holds the instruction. -/
def Holds (p : Pipeline P) (x : Fetched P) : Prop :=
  ∃ w, p.locateEntryInWindow x.seqNo x.piece = .ok w ∧ Describes w x

theorem Holds.of_window {p p' : Pipeline P} (h : p.Holds x) (hwindow : p'.window = p.window) :
    p'.Holds x := by
  unfold Holds locateEntryInWindow
  rw [hwindow]
  exact h

theorem notifyDecode_tells (hx : p.Holds x) (hcycle : x.decodeCycle = cycle) :
    Ends (notifyDecode hk cycle (x.entry (·.decodeCycle)) p) InHook
      (p.Tells [x.notice .decode x.decodeCycle]) := by
  obtain ⟨w, hw, hwx⟩ := hx
  unfold notifyDecode Fetched.entry
  rw [hw]
  apply Ends.bind (Q := fun w' => w' = w) (ends_ok.mpr rfl)
  rintro _ rfl
  rw [if_neg (not_not.mpr hwx.decodeCycle.symm)]
  apply Ends.bind (call_ends _)
  intro hooks _
  rw [← hwx.notice_eq, hcycle]
  exact tells_deliver _ _ _ _ _

theorem notifyExecute_tells (hx : p.Holds x) (hcycle : x.execCycle = cycle) :
    Ends (notifyExecute hk cycle (x.entry (·.execCycle)) p) InHook
      (p.Tells [x.notice .execute x.execCycle]) := by
  obtain ⟨w, hw, hwx⟩ := hx
  unfold notifyExecute Fetched.entry
  rw [hw]
  apply Ends.bind (Q := fun w' => w' = w) (ends_ok.mpr rfl)
  rintro _ rfl
  rw [if_neg (not_not.mpr hwx.execCycle)]
  apply Ends.bind (call_ends _)
  intro hooks _
  rw [← hwx.notice_eq, hcycle]
  exact tells_deliver _ _ _ _ _

/-- What the window is told of a memory access. -/
theorem populateExecInfo_mem {inst : DbInst} {info : ExecuteInfo}
    (h : populateExecInfo inst = .ok info) :
    info.decInfo.insnClass = inst.insnClass ∧
      (inst.isLoad || inst.isStore → info.memVa = some inst.addr ∧ info.memSz = some inst.size) := by
  obtain ⟨decInfo, hdec, h⟩ := bind_eq_ok.mp h
  have hclass : decInfo.insnClass = inst.insnClass := by
    unfold populateDecodeInfo at hdec
    split at hdec
    · rw [← Except.ok.inj hdec]
    · cases hdec
  dsimp only at h
  split at h
  · cases h
  · rw [← Except.ok.inj h]
    exact ⟨hclass, fun hmem => ⟨if_pos hmem, if_pos hmem⟩⟩

theorem notifyAgen_tells (hx : p.Holds x) (hcycle : x.agenCycle = cycle) (htimed : WellTimed x)
    (hclass : x.inst.insnClass.isMem) (hmem : x.inst.isLoad || x.inst.isStore) :
    Ends (notifyAgen hk cycle (x.entry (·.agenCycle)) p) InHook
      (p.Tells [x.notice .agen x.agenCycle]) := by
  obtain ⟨w, hw, hwx⟩ := hx
  obtain ⟨hinfo, hva⟩ := populateExecInfo_mem hwx.execInfo
  obtain ⟨hlo, hhi⟩ := htimed.agen hclass
  unfold notifyAgen Fetched.entry
  rw [hw]
  apply Ends.bind (Q := fun w' => w' = w) (ends_ok.mpr rfl)
  rintro _ rfl
  rw [hinfo, hclass, (hva hmem).1, (hva hmem).2, if_neg (by decide),
    if_neg (not_not.mpr (by rw [hwx.decodeCycle, ← hcycle]; exact hlo)),
    if_neg (not_not.mpr (by rw [hwx.execCycle, ← hcycle]; exact hhi))]
  apply Ends.bind (call_ends _)
  intro hooks _
  rw [← hwx.notice_eq, hcycle]
  exact tells_deliver _ _ _ _ _

end Notify

/-! ## The loops -/

/-- The instruction reaches a stage in this cycle. -/
def dueAt (cycle : Nat) (time : Fetched P → Nat) (x : Fetched P) : Bool := time x == cycle

section Loops

variable {hk : Hooks P H} {cycle : Nat}

theorem evalDecodeLoop_ends (xs : List (Fetched P)) (p : Pipeline P)
    (hlate : ∀ x ∈ xs, cycle ≤ x.decodeCycle)
    (htell : ∀ x ∈ xs, x.decodeCycle = cycle → ∀ p', p'.window = p.window →
      Ends (notifyDecode hk cycle (x.entry (·.decodeCycle)) p') InHook
        (p'.Tells [x.notice .decode x.decodeCycle])) :
    Ends (evalDecodeLoop hk cycle (xs.map (Fetched.entry (·.decodeCycle))) p) InHook fun r =>
      r.1 = (xs.dropWhile (dueAt cycle (·.decodeCycle))).map (Fetched.entry (·.decodeCycle)) ∧
      p.Tells ((xs.takeWhile (dueAt cycle (·.decodeCycle))).map
        fun x => x.notice .decode x.decodeCycle) r.2 := by
  induction xs generalizing p with
  | nil => exact ⟨rfl, Tells.refl p⟩
  | cons x xs ih =>
    rw [List.map_cons, evalDecodeLoop]
    apply Ends.ite
    · intro hpast
      exact absurd hpast (not_lt.mpr (hlate x List.mem_cons_self))
    · intro _
      apply Ends.ite
      · intro hdue
        have hx : dueAt cycle (·.decodeCycle) x = true := beq_iff_eq.mpr hdue.symm
        rw [List.dropWhile_cons_of_pos hx, List.takeWhile_cons_of_pos hx]
        apply Ends.bind (htell x List.mem_cons_self hdue.symm p rfl)
        intro p' hp'
        apply (ih p' (fun y hy => hlate y (List.mem_cons_of_mem _ hy)) ?_).imp
        · rintro r ⟨hrest, hr⟩
          exact ⟨hrest, hp'.trans hr⟩
        · intro y hy hcycle q hq
          exact htell y (List.mem_cons_of_mem _ hy) hcycle q (hq.trans hp'.window)
      · intro hlater
        have hx : ¬ dueAt cycle (·.decodeCycle) x = true :=
          fun h => hlater (beq_iff_eq.mp h).symm
        rw [List.dropWhile_cons_of_neg hx, List.takeWhile_cons_of_neg hx]
        exact ⟨rfl, Tells.refl p⟩

theorem evalQueue_ends {notify : QueueEntry → Pipeline P → Except (Stop H) (Pipeline P)}
    {late : Abort} {time : Fetched P → Nat} (stage : Stage) (xs : List (Fetched P))
    (p : Pipeline P) (hlate : ∀ x ∈ xs, cycle ≤ time x)
    (htell : ∀ x ∈ xs, time x = cycle → ∀ p', p'.window = p.window →
      Ends (notify (x.entry time) p') InHook (p'.Tells [x.notice stage (time x)])) :
    Ends (evalQueue notify late cycle (xs.map (Fetched.entry time)) p) InHook fun r =>
      r.1 = (xs.filter fun x => !dueAt cycle time x).map (Fetched.entry time) ∧
      p.Tells ((xs.filter (dueAt cycle time)).map fun x => x.notice stage (time x)) r.2 := by
  induction xs generalizing p with
  | nil => exact ⟨rfl, Tells.refl p⟩
  | cons x xs ih =>
    have hlate' : ∀ y ∈ xs, cycle ≤ time y := fun y hy => hlate y (List.mem_cons_of_mem _ hy)
    rw [List.map_cons, evalQueue]
    apply Ends.ite
    · intro hpast
      exact absurd hpast (not_lt.mpr (hlate x List.mem_cons_self))
    · intro _
      apply Ends.ite
      · intro hdue
        have hx : dueAt cycle time x = true := beq_iff_eq.mpr hdue.symm
        rw [List.filter_cons_of_pos hx, List.filter_cons_of_neg (by simp [hx])]
        apply Ends.bind (htell x List.mem_cons_self hdue.symm p rfl)
        intro p' hp'
        apply (ih p' hlate' ?_).imp
        · rintro r ⟨hrest, hr⟩
          exact ⟨hrest, hp'.trans hr⟩
        · intro y hy hcycle q hq
          exact htell y (List.mem_cons_of_mem _ hy) hcycle q (hq.trans hp'.window)
      · intro hlater
        have hx : ¬ dueAt cycle time x = true := fun h => hlater (beq_iff_eq.mp h).symm
        rw [List.filter_cons_of_neg hx, List.filter_cons_of_pos (by simpa using hx)]
        apply Ends.bind (ih p hlate' ?_)
        · rintro ⟨rest, p'⟩ ⟨rfl, hr⟩
          exact ⟨rfl, hr⟩
        · intro y hy
          exact htell y (List.mem_cons_of_mem _ hy)

end Loops

end Pipeline

end CbpSim.Core
