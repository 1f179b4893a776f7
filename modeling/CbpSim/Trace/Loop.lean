/-
  Trace/Loop.lean --- the instructions that the simulator is given.

  Source: src/lib/cbp.cc, the loop of `main`; src/lib/trace_reader.h, `get_inst`.

  The main function asks for a piece until there is none.  A trace of a file is
  what it got after some rounds.  Each piece is `Readable`: the reader makes an
  access at least one byte long, and a branch that is not taken falls through.
-/
import CbpSim.Trace.Reader

set_option autoImplicit false

namespace CbpSim

/-- What holds of every piece that the reader builds. -/
structure DbInst.Readable (inst : DbInst) : Prop where
  size : 1 ≤ inst.size
  fallsThrough : inst.isTaken = false → inst.nextPc = (inst.pc + 4) % 2 ^ 64
  uncond : inst.insnClass.isUncondBr = true → inst.isTaken = true
  other : inst.insnClass.isBr = false → inst.isTaken = false

namespace Trace

open CbpSim.Foundation

/-- The first `n` rounds of the loop: what `get_inst` returns before the null pointer. -/
def TraceReader.getInsts (u : Uninit) :
    Nat → TraceReader → Except Abort (List DbInst × TraceReader)
  | 0, t => .ok ([], t)
  | n + 1, t => do
    let (inst, t) ← t.getInst u
    match inst with
    | none => .ok ([], t)
    | some inst => do
      let (insts, t) ← getInsts u n t
      .ok (inst :: insts, t)

/-- The pieces that the main loop gets from a file, in some rounds. -/
def IsTrace (u : Uninit) (bytes : List Byte) (insts : List DbInst) : Prop :=
  ∃ n t, (TraceReader.new u bytes).getInsts u n = .ok (insts, t)

/-! ## Reading a record -/

/-- Unless a branch is taken, the next instruction is the one that follows. -/
def Instr.Follows (m : Instr) : Prop := m.mTaken = false → m.mNextPc = (m.mPc + 4) % 2 ^ 64

/-- The program counters and the taken flag are the same. -/
structure Instr.SamePcs (m m' : Instr) : Prop where
  pc : m'.mPc = m.mPc
  taken : m'.mTaken = m.mTaken
  nextPc : m'.mNextPc = m.mNextPc

theorem Instr.SamePcs.follows {m m' : Instr} (h : m.SamePcs m') (hm : m.Follows) : m'.Follows := by
  unfold Instr.Follows
  rw [h.pc, h.taken, h.nextPc]
  exact hm

theorem readType_samePcs (m : Instr) (s : InStream) : m.SamePcs (readType m s).1 := by
  unfold readType
  split
  · exact ⟨rfl, rfl, rfl⟩
  · exact ⟨rfl, rfl, rfl⟩

theorem readMem_samePcs (m : Instr) (s : InStream) : m.SamePcs (readMem m s).1 := by
  unfold readMem
  split
  · dsimp only
    split
    · exact ⟨rfl, rfl, rfl⟩
    · exact ⟨rfl, rfl, rfl⟩
  · exact ⟨rfl, rfl, rfl⟩

theorem readBranch_follows {m : Instr} (s : InStream) (h : m.mNextPc = (m.mPc + 4) % 2 ^ 64) :
    Ends (readBranch m s) (fun _ => True) fun x => x.1.Follows := by
  unfold readBranch
  apply Ends.ite
  · intro _
    apply Ends.ite
    · intro _
      trivial
    · intro _
      apply Ends.ite
      · intro htaken hnot
        exact absurd (htaken.symm.trans hnot) Bool.noConfusion
      · intro _ _
        exact h
  · intro _ _
    exact h

theorem captureBaseUpdateLogReg_samePcs (m : Instr) :
    Ends m.captureBaseUpdateLogReg (fun _ => True) fun x => m.SamePcs x.2 := by
  have same : ∀ reg, m.SamePcs { m with mBaseUpdReg := reg } := fun _ => ⟨rfl, rfl, rfl⟩
  have refl : m.SamePcs m := ⟨rfl, rfl, rfl⟩
  unfold Instr.captureBaseUpdateLogReg
  split_ifs
  · trivial
  · exact refl
  · trivial
  · trivial
  · split
    · exact same _
    · exact refl
  · trivial
  · exact refl
  · dsimp only
    split_ifs
    · trivial
    · split
      · exact same _
      · trivial
  · dsimp only
    split_ifs
    · trivial
    · exact refl

theorem moveBaseUpd_samePcs (m : Instr) (v : Values) :
    Ends (moveBaseUpd m v) (fun _ => True) m.SamePcs := by
  unfold moveBaseUpd
  split
  · exact ⟨rfl, rfl, rfl⟩
  · apply Ends.ite
    · intro _
      trivial
    · intro _
      exact ⟨rfl, rfl, rfl⟩

theorem readRecord_follows (u : Uninit) (m : Instr) (s : InStream) :
    Ends (readRecord u m s) (fun _ => True) fun x => x.2.1.Follows := by
  unfold readRecord
  dsimp only
  have htype := readType_samePcs { m with mNextPc := (m.mPc + 4) % 2 ^ 64 } s
  generalize readType _ s = x at htype ⊢
  have hmem := readMem_samePcs x.1 x.2
  generalize readMem x.1 x.2 = y at hmem ⊢
  have hnext : y.1.mNextPc = (y.1.mPc + 4) % 2 ^ 64 := by
    rw [hmem.nextPc, hmem.pc, htype.nextPc, htype.pc]
  apply Ends.ite
  · intro _
    trivial
  · intro _
    apply Ends.bind (readBranch_follows y.2 hnext)
    rintro ⟨m₃, s₃⟩ h₃
    apply Ends.bind (captureBaseUpdateLogReg_samePcs _)
    rintro ⟨present, m₄⟩ h₄
    apply Ends.bind (Ends.of_any fun _ => trivial)
    intro v _
    apply Ends.bind (moveBaseUpd_samePcs m₄ v)
    intro m₅ h₅
    apply h₅.follows
    apply h₄.follows
    exact h₃

/-! ## Building a piece -/

namespace TraceReader

/-- While pieces are left the reader is at an instruction whose next one is known. -/
def Follows (t : TraceReader) : Prop := t.mProcessedPieces ≠ t.mTotalPieces → t.mInstr.Follows

theorem readInstr_follows (u : Uninit) {t : TraceReader}
    (hdone : t.mProcessedPieces = t.mTotalPieces) :
    Ends (t.readInstr u) (fun _ => True) fun x =>
      if x.1 then x.2.mInstr.Follows else x.2.mProcessedPieces = x.2.mTotalPieces := by
  unfold readInstr
  apply Ends.ite
  · intro _
    exact hdone
  · intro _
    apply Ends.bind (readRecord_follows u _ _)
    rintro ⟨baseUpdate, m, v⟩ hm
    apply Ends.bind (Ends.of_any fun _ => trivial)
    rintro ⟨memPieces, totalPieces, sizeFactor⟩ _
    apply Ends.bind (Ends.of_any fun _ => trivial)
    intro _ _
    exact hm

theorem populateNewInstr_readable {t : TraceReader} (ht : t.mInstr.Follows) :
    Ends t.populateNewInstr (fun _ => True) fun x =>
      x.1.Readable ∧ x.2.mInstr = t.mInstr := by
  apply (populateNewInstr_built t).imp
  rintro ⟨inst, t'⟩ h
  have hfits := h.taken
  refine ⟨?_, h.mInstr⟩
  exact {
    size := h.size ▸ le_max_left _ _
    fallsThrough := by
      rw [h.isTaken, h.nextPc, h.pc]
      exact ht
    uncond := by
      intro hclass
      rw [takenFits, if_pos hclass] at hfits
      rwa [h.isTaken]
    other := by
      intro hclass
      rw [takenFits, if_neg (by simp [InstClass.isUncondBr, hclass]),
        if_neg (fun hcond => by simp [InstClass.isBr_of_isCondBr hcond] at hclass)] at hfits
      rw [h.isTaken]
      simpa using hfits }

theorem getInst_readable (u : Uninit) {t : TraceReader} (ht : t.Follows) :
    Ends (t.getInst u) (fun _ => True) fun x => (∀ inst ∈ x.1, inst.Readable) ∧ x.2.Follows := by
  have built : ∀ t : TraceReader, t.mInstr.Follows →
      Ends (t.populateNewInstr >>= fun x => .ok (some x.1, x.2)) (fun _ => True) fun x =>
        (∀ inst ∈ x.1, inst.Readable) ∧ x.2.Follows := by
    intro t ht
    apply Ends.bind (populateNewInstr_readable ht)
    rintro ⟨inst, t'⟩ ⟨hinst, ht'⟩
    refine ⟨?_, fun _ => ht'.symm ▸ ht⟩
    intro inst' heq
    exact Option.some.inj heq ▸ hinst
  unfold getInst
  apply Ends.ite
  · intro hleft
    exact built t (ht hleft)
  · intro hdone
    apply Ends.bind (readInstr_follows u (not_not.mp hdone))
    rintro ⟨more, t'⟩ hread
    cases more with
    | true => exact built t' hread
    | false =>
      constructor
      · intro inst heq
        cases heq
      · exact fun hleft => absurd hread hleft

theorem getInsts_readable (u : Uninit) (n : Nat) {t : TraceReader} (ht : t.Follows) :
    Ends (t.getInsts u n) (fun _ => True) fun x => ∀ inst ∈ x.1, inst.Readable := by
  induction n generalizing t with
  | zero =>
    intro inst hinst
    cases hinst
  | succ n ih =>
    rw [getInsts]
    apply Ends.bind (getInst_readable u ht)
    rintro ⟨inst, t'⟩ ⟨hinst, ht'⟩
    cases inst with
    | none =>
      intro inst hinst
      cases hinst
    | some inst =>
      apply Ends.bind (ih ht')
      rintro ⟨insts, t''⟩ hinsts inst' hmem
      rcases List.mem_cons.mp hmem with rfl | hmem
      · exact hinst inst' rfl
      · exact hinsts inst' hmem

end TraceReader

/-- Every piece of a trace is readable. -/
theorem IsTrace.readable {u : Uninit} {bytes : List Byte} {insts : List DbInst}
    (h : IsTrace u bytes insts) : ∀ inst ∈ insts, inst.Readable := by
  obtain ⟨n, t, h⟩ := h
  apply (TraceReader.getInsts_readable u n ?_).of_ok h
  exact fun hleft => absurd rfl hleft

end Trace

end CbpSim
