/-
  Trace/MadeUp.lean --- pieces of operands that were not read.

  Source: src/lib/trace_reader.h, `readInstr` and `get_inst`.

  A read that fails leaves its variable as it was, and behind the program counter
  `readInstr` does not ask whether a read failed.  So whatever the stream holds the
  operands go through `capture_base_update_log_reg`, the loop over the values and the
  counts, and when these raise no assert `get_inst` builds a piece.
-/
import CbpSim.Trace.Decode

set_option autoImplicit false

namespace CbpSim.Trace

open CbpSim.Foundation

/-! ## Registers and values that are not read -/

theorem readRegs_sound (junk : Nat → Nat) (n i : Nat) {s : InStream} (hs : s.Sound) :
    (readRegs junk n i s).1.length = n ∧ (readRegs junk n i s).2.Sound ∧
      (readRegs junk n i s).2.bytes.length = s.bytes.length - n := by
  induction n generalizing i s with
  | zero => exact ⟨rfl, hs, rfl⟩
  | succ n ih =>
    obtain ⟨hlen, hsound, hbytes⟩ := ih (i + 1) (hs.readInto 1 (junk i))
    refine ⟨congrArg Nat.succ hlen, hsound, ?_⟩
    rw [hs.length_readInto] at hbytes
    exact hbytes.trans (by omega)

/-- The variables of the rounds from `i` on hold `regs`. -/
def Guesses (junk : Nat → Nat) (i : Nat) (regs : List Byte) : Prop :=
  ∀ j b, regs[j]? = some b → junk (i + j) = b.val

theorem Guesses.head {junk : Nat → Nat} {i : Nat} {b : Byte} {regs : List Byte}
    (h : Guesses junk i (b :: regs)) : junk i = b.val := h 0 b rfl

theorem Guesses.tail {junk : Nat → Nat} {i : Nat} {b : Byte} {regs : List Byte}
    (h : Guesses junk i (b :: regs)) : Guesses junk (i + 1) regs := by
  intro j b' hb'
  rw [Nat.add_assoc, Nat.add_comm 1 j]
  exact h (j + 1) b' hb'

theorem guesses_getD (regs : List Byte) : Guesses (fun i => (regs[i]?.getD 0).val) 0 regs := by
  intro j b hb
  simp [hb]

/-- Without bytes the registers are what the variables hold. -/
theorem readRegs_dry {junk : Nat → Nat} {i : Nat} {regs : List Byte} (h : Guesses junk i regs)
    {s : InStream} (hs : s.Sound) (hdry : s.bytes = []) :
    (readRegs junk regs.length i s).1 = regs.map Fin.val := by
  induction regs generalizing i s with
  | nil => rfl
  | cons b regs ih =>
    have hnext : (s.readInto 1 (junk i)).2.bytes = [] := by
      apply List.length_eq_zero_iff.mp
      rw [hs.length_readInto, hdry]
      rfl
    have hval : (s.readInto 1 (junk i)).1 = b.val := by
      rw [InStream.readInto_dry 1 (junk i) hdry, h.head]
      exact Nat.mod_eq_of_lt b.isLt
    rw [List.map_cons, ← ih h.tail (hs.readInto 1 (junk i)) hnext, ← hval]
    simp only [List.length_cons, readRegs]

/-- Wherever the bytes end, the registers may be those of the record. -/
theorem readRegs_guess {junk : Nat → Nat} {i : Nat} {regs : List Byte} (h : Guesses junk i regs)
    (rest : List Byte) (p : Nat) :
    (readRegs junk regs.length i (onBytes ((regs ++ rest).take p))).1 = regs.map Fin.val := by
  induction regs generalizing i p with
  | nil => rfl
  | cons b regs ih =>
    cases p with
    | zero => exact readRegs_dry h (fun heof => by cases heof) rfl
    | succ p =>
      rw [List.length_cons, readRegs, List.cons_append, List.take_succ_cons, readInto_byte]
      exact congrArg (b.val :: ·) (ih h.tail p)

/-- The loop over the values goes through on any stream, unless it meets the base-update
register twice. -/
theorem readValues_ok (junk : Nat → Nat) {mType : InstClass} (hstore : mType.isStore = false)
    (baseUpd : Option Nat) (regs : List Nat) (i : Nat) (v : Values)
    (honce : ∀ reg, baseUpd = some reg → regs.count reg ≤ 1)
    (hbefore : ∀ reg ∈ regs, baseUpd = some reg → v.baseUpdPosInOutRegs = 255)
    (hi : i + regs.length ≤ 255) (htotal : v.mTotalPieces + regs.length < 256) :
    ∃ v', readValues junk mType baseUpd regs i v = .ok v' ∧
      v.mTotalPieces ≤ v'.mTotalPieces ∧ v'.mTotalPieces ≤ v.mTotalPieces + regs.length ∧
      (∀ reg ∈ regs, baseUpd = some reg → v'.baseUpdPosInOutRegs ≠ 255) ∧
      ((∀ reg ∈ regs, baseUpd ≠ some reg) → v'.baseUpdPosInOutRegs = v.baseUpdPosInOutRegs) ∧
      (v.mOutRegsValues ≠ [] ∨ (∃ reg ∈ regs, baseUpd ≠ some reg) → v'.mOutRegsValues ≠ []) := by
  induction regs generalizing i v with
  | nil =>
    refine ⟨v, rfl, Nat.le_refl _, Nat.le_refl _, by simp, fun _ => rfl, ?_⟩
    rintro (hne | ⟨reg, hreg, -⟩)
    · exact hne
    · cases hreg
  | cons reg regs ih =>
    rw [List.length_cons] at hi htotal
    have honce' : ∀ reg', baseUpd = some reg' → regs.count reg' ≤ 1 := fun reg' h =>
      (List.count_le_count_cons).trans (honce reg' h)
    rw [readValues]
    rcases v.input.readInto 8 (junk i) with ⟨val, input⟩
    dsimp only
    by_cases hbase : baseUpd = some reg
    · -- the base-update register, which does not come again
      have hpos := hbefore reg List.mem_cons_self hbase
      have hfresh : ∀ reg' ∈ regs, baseUpd ≠ some reg' := by
        intro reg' hmem heq
        obtain rfl : reg = reg' := Option.some.inj (hbase.symm.trans heq)
        have hone := honce reg hbase
        rw [List.count_cons_self] at hone
        have := List.count_pos_iff.mpr hmem
        omega
      obtain ⟨v', hv', hge, hle, -, hkept, hvalues⟩ := ih (i + 1)
        { v with input := input, baseUpdPosInOutRegs := i, baseUpdVal := val } honce'
        (fun reg' hmem heq => absurd heq (hfresh reg' hmem)) (by omega)
        (show v.mTotalPieces + regs.length < 256 by omega)
      have hfinal : v'.baseUpdPosInOutRegs = i := hkept hfresh
      rw [if_pos hbase, if_neg (not_not.mpr hpos)]
      refine ⟨v', hv', hge, hle.trans (Nat.le_succ _), fun _ _ _ => by omega, ?_, ?_⟩
      · exact fun hnever => absurd hbase (hnever reg List.mem_cons_self)
      · rintro (hne | ⟨reg', hmem, hother⟩)
        · exact hvalues (Or.inl hne)
        · rcases List.mem_cons.mp hmem with rfl | hmem
          · exact absurd hbase hother
          · exact hvalues (Or.inr ⟨reg', hmem, hother⟩)
    · rw [if_neg hbase]
      -- what every value adds, and perhaps a piece
      have hrest : ∀ (input : InStream) (values : List Nat) (total : Nat), values ≠ [] →
          v.mTotalPieces ≤ total → total ≤ v.mTotalPieces + 1 →
          ∃ v', readValues junk mType baseUpd regs (i + 1)
              { v with input := input, mOutRegsValues := values, mTotalPieces := total } = .ok v' ∧
            v.mTotalPieces ≤ v'.mTotalPieces ∧
            v'.mTotalPieces ≤ v.mTotalPieces + (regs.length + 1) ∧
            (∀ reg' ∈ reg :: regs, baseUpd = some reg' → v'.baseUpdPosInOutRegs ≠ 255) ∧
            ((∀ reg' ∈ reg :: regs, baseUpd ≠ some reg') →
              v'.baseUpdPosInOutRegs = v.baseUpdPosInOutRegs) ∧
            (v.mOutRegsValues ≠ [] ∨ (∃ reg' ∈ reg :: regs, baseUpd ≠ some reg') →
              v'.mOutRegsValues ≠ []) := by
        intro input values total hne hlow hhigh
        obtain ⟨v', hv', hge, hle, hfound, hkept, hvalues⟩ := ih (i + 1)
          { v with input := input, mOutRegsValues := values, mTotalPieces := total } honce'
          (fun reg' hmem => hbefore reg' (List.mem_cons_of_mem _ hmem)) (by omega)
          (show total + regs.length < 256 by omega)
        dsimp only at hge hle
        refine ⟨v', hv', hlow.trans hge, by omega, ?_, ?_, fun _ => hvalues (Or.inl hne)⟩
        · intro reg' hmem heq
          rcases List.mem_cons.mp hmem with rfl | hmem
          · exact absurd heq hbase
          · exact hfound reg' hmem heq
        · exact fun hnever => hkept fun reg' hmem => hnever reg' (List.mem_cons_of_mem _ hmem)
      split
      · exact hrest _ _ _ (List.append_ne_nil_of_right_ne_nil _ (List.cons_ne_nil _ _))
          (Nat.le_refl _) (Nat.le_succ _)
      · rw [if_neg (by simp [hstore])]
        rcases input.readInto 8 val with ⟨high, input'⟩
        dsimp only
        apply hrest _ _ _ (List.append_ne_nil_of_right_ne_nil _ (List.cons_ne_nil _ _))
        · split <;> omega
        · split <;> omega

/-! ## Reading in parts -/

/-- `readRecord` from the base-update register on. -/
def readOutputs (u : Uninit) (m : Instr) (s : InStream) : Except Abort (Bool × Instr × Values) := do
  let (baseUpdatePresent, m) ← m.captureBaseUpdateLogReg
  let v ← readValues u.val m.mType m.mBaseUpdReg m.mOutRegs 0
    { input := s
      mOutRegsValues := []
      mTotalPieces := if m.mNumOutRegs > 0 then m.mNumOutRegs else 1
      baseUpdPosInOutRegs := 255
      baseUpdVal := 2 ^ 64 - 1 }
  let m ← moveBaseUpd m v
  .ok (baseUpdatePresent, m, v)

/-- `mInstr` with the operands. -/
def Instr.withRegs (m : Instr) (inRegs outRegs : List Nat) : Instr :=
  { m with
    mNumInRegs := inRegs.length
    mInRegs := inRegs
    mNumOutRegs := outRegs.length
    mOutRegs := outRegs }

/-- `readRecord` from the number of inputs on. -/
def readOperands (u : Uninit) (m : Instr) (s : InStream) : Except Abort (Bool × Instr × Values) :=
  let (numInRegs, s) := s.readInto 1 m.mNumInRegs
  let (inRegs, s) := readRegs u.inReg numInRegs 0 s
  let (numOutRegs, s) := s.readInto 1 m.mNumOutRegs
  let (outRegs, s) := readRegs u.outReg numOutRegs 0 s
  readOutputs u { m with
    mNumInRegs := numInRegs, mInRegs := inRegs, mNumOutRegs := numOutRegs, mOutRegs := outRegs } s

theorem readRecord_eq (u : Uninit) (m : Instr) (s : InStream) :
    readRecord u m s =
      let m := { m with mNextPc := (m.mPc + 4) % 2 ^ 64 }
      let (m, s) := readType m s
      if m.mType = .undef then .error .readUndef
      else
        let (m, s) := readMem m s
        readBranch m s >>= fun x => readOperands u x.1 x.2 := rfl

/-- `readInstr` after the bytes, and the first piece. -/
def firstPiece (t : TraceReader) (x : Bool × Instr × Values) :
    Except Abort (Option DbInst × TraceReader) := do
  let (baseUpdate, m, v) := x
  let (mMemPieces, mTotalPieces, mSizeFactor) ← countPieces m baseUpdate v.mTotalPieces
  checkPieces m baseUpdate mMemPieces mTotalPieces
  let (inst, t) ← TraceReader.populateNewInstr {
    dpressedInput := v.input
    mInstr := m
    mTotalPieces := mTotalPieces
    mMemPieces := mMemPieces
    mProcessedPieces := 0
    mCrackRegIdx := 0
    mCrackValIdx := 0
    mSizeFactor := mSizeFactor
    nInstr := (t.nInstr + 1) % 2 ^ 64
    startFpReg := 0 }
  .ok (some inst, t)

/-- Past the program counter, `get_inst` reads a record and builds its first piece. -/
theorem getInst_eq (u : Uninit) {t : TraceReader} {pc : Word} {bytes : List Byte}
    (ht : t.dpressedInput = onBytes (leBytes 8 pc.val ++ bytes))
    (hdone : t.mProcessedPieces = t.mTotalPieces) :
    t.getInst u =
      readRecord u { t.mInstr.reset with mPc := pc.val } (onBytes bytes) >>= firstPiece t := by
  rw [TraceReader.getInst, if_neg (by simp [hdone]), TraceReader.readInstr, ht, readInto_word]
  dsimp only
  rw [if_neg (by simp)]
  cases readRecord u { t.mInstr.reset with mPc := pc.val } (onBytes bytes) with
  | error e => rfl
  | ok x =>
    rw [ok_bind, ok_bind]
    unfold firstPiece
    dsimp only
    cases countPieces x.2.1 x.1 x.2.2.mTotalPieces with
    | error e => rfl
    | ok y =>
      rw [ok_bind, ok_bind]
      cases checkPieces x.2.1 x.1 y.1 y.2.1 with
      | error e => rfl
      | ok _ => rfl

/-! ## Operands at the end of a stream -/

/-- The number of inputs is cut off: there are no operands. -/
theorem readOperands_dry (u : Uninit) {m : Instr} (hin : m.mNumInRegs = 0) (hout : m.mNumOutRegs = 0)
    {s : InStream} (hs : s.Sound) (hdry : s.bytes = []) :
    ∃ s', readOperands u m s = readOutputs u (m.withRegs [] []) s' := by
  have hnext : (s.readInto 1 0).2.bytes = [] := by
    apply List.length_eq_zero_iff.mp
    rw [hs.length_readInto, hdry]
    rfl
  have hcountIn : (s.readInto 1 0).1 = 0 := InStream.readInto_dry 1 0 hdry
  have hcountOut : ((s.readInto 1 0).2.readInto 1 0).1 = 0 :=
    InStream.readInto_dry 1 0 hnext
  unfold readOperands
  rw [hin, hout]
  simp only [hcountIn, readRegs, hcountOut]
  exact ⟨_, rfl⟩

/-- The number of outputs is cut off: there are inputs, but no outputs. -/
theorem readOperands_inputs (u : Uninit) {m : Instr} (hout : m.mNumOutRegs = 0) (count : Byte)
    {bytes : List Byte} (hle : bytes.length ≤ count.val) :
    ∃ inRegs s', inRegs.length = count.val ∧
      readOperands u m (onBytes (count :: bytes)) = readOutputs u (m.withRegs inRegs []) s' := by
  obtain ⟨hlen, hsound, hbytes⟩ :=
    readRegs_sound u.inReg count.val 0 (s := onBytes bytes) (fun h => by cases h)
  have hdry : (readRegs u.inReg count.val 0 (onBytes bytes)).2.bytes = [] := by
    apply List.length_eq_zero_iff.mp
    rw [hbytes]
    exact Nat.sub_eq_zero_of_le hle
  have hcountOut : ((readRegs u.inReg count.val 0 (onBytes bytes)).2.readInto 1 0).1 = 0 :=
    InStream.readInto_dry 1 0 hdry
  refine ⟨(readRegs u.inReg count.val 0 (onBytes bytes)).1,
    ((readRegs u.inReg count.val 0 (onBytes bytes)).2.readInto 1 0).2, hlen, ?_⟩
  unfold readOperands
  rw [hout]
  simp only [readInto_byte, hcountOut, readRegs]
  rw [Instr.withRegs, hlen]
  rfl

/-- The number of outputs is there: their names may be those of the record. -/
theorem readOperands_outputs {u : Uninit} {r : Record}
    (hu : Guesses u.outReg 0 (r.outs.map Output.reg)) (m : Instr) (rest : List Byte) (p : Nat) :
    ∃ s', readOperands u m (onBytes (Record.countByte _ r.length_inRegs ::
        (r.inRegs ++ (Record.countByte _ r.length_outs ::
          (r.outs.map Output.reg ++ rest).take p)))) =
      readOutputs u (m.withRegs (r.inRegs.map Fin.val) (r.outs.map fun o => o.reg.val)) s' := by
  have hregs := readRegs_guess hu rest p
  rw [List.length_map, List.map_map] at hregs
  refine ⟨(readRegs u.outReg r.outs.length 0
    (onBytes ((r.outs.map Output.reg ++ rest).take p))).2, ?_⟩
  unfold readOperands
  simp only [readInto_byte, Record.countByte, readRegs_bytes, hregs]
  rw [Instr.withRegs, List.length_map, List.length_map]
  rfl

/-! ## The first piece -/

/-- The first piece of an instruction is built when its operands are there. -/
theorem populate_first {t : TraceReader} (hprocessed : t.mProcessedPieces = 0)
    (hregIdx : t.mCrackRegIdx = 0) (hfit : t.piecesFit = true)
    (htaken : TraceReader.takenFits t.mInstr.mType t.mInstr.mTaken = true)
    (hinputs : ∃ x, t.populateInputs false = .ok x)
    (houtput : ∃ x, t.populateOutput false = .ok x)
    (hregs : 1 ≤ t.mInstr.mNumOutRegs → t.mInstr.mOutRegs ≠ []) :
    ∃ inst t', t.populateNewInstr = .ok (inst, t') := by
  have hcreate : t.createBaseUpdateOp = false := by
    simp [TraceReader.createBaseUpdateOp, hprocessed]
  obtain ⟨⟨A, B, C⟩, hinputs⟩ := hinputs
  obtain ⟨⟨D, startFpReg⟩, houtput⟩ := houtput
  have hfirst : t.mCrackRegIdx < t.mInstr.mNumOutRegs →
      t.mCrackRegIdx < t.mInstr.mOutRegs.length := by
    intro hmore
    rw [hregIdx]
    exact List.length_pos_iff.mpr (hregs (Nat.zero_lt_of_lt hmore))
  obtain ⟨inst, t', hpopulate, -⟩ :=
    TraceReader.populateNewInstr_ok hcreate hfit htaken hinputs houtput hfirst
  exact ⟨inst, t', hpopulate⟩

/-- The counts of a record that is no store. -/
theorem counts_other {present : Bool} {m : Instr} {total : Nat} (hstore : m.mType.isStore = false)
    (hinputs : m.mNumInRegs ≤ 3) (hpos : 1 ≤ total) (hlt : total < 256)
    (hload : m.mType.isLoad = true → present.toNat < total)
    (hother : m.mType.isLoad = false → present = false ∧ m.mMemSize = 0) :
    ∃ memPieces factor, countPieces m present total = .ok (memPieces, total, factor) ∧
      checkPieces m present memPieces total = .ok () ∧ memPieces ≤ total ∧
      (if m.mType.isMem then decide (memPieces ≥ 1) else memPieces == 0) = true := by
  have hnum : (!m.mType.isStore && decide (m.mNumInRegs > 3)) = false := by
    simp [Nat.not_lt.mpr hinputs]
  cases htype : m.mType.isLoad with
  | true =>
    have hbase := hload htype
    have hbool := Bool.toNat_le present
    have hmem : (total + 256 - present.toNat) % 256 = total - present.toNat := by omega
    have hsum : total - present.toNat + present.toNat = total := by omega
    refine ⟨total - present.toNat, m.mMemSize / (total - present.toNat), ?_, ?_, Nat.sub_le _ _, ?_⟩
    · rw [countPieces, if_neg (by simp [hstore]), if_pos htype]
      dsimp only
      rw [hmem, if_neg (by omega)]
    · rw [checkPieces, if_neg (by omega), hsum, bne_self_eq_false, Bool.and_false,
        if_neg (by decide), if_neg (by simp [hnum])]
    · simp only [InstClass.isMem, htype, Bool.true_or, if_true, decide_eq_true_eq]
      omega
  | false =>
    obtain ⟨rfl, hsize⟩ := hother htype
    refine ⟨0, 0, ?_, ?_, Nat.zero_le _, ?_⟩
    · rw [countPieces, if_neg (by simp [hstore]), if_neg (by simp [htype]), if_neg (by omega),
        hsize, Nat.zero_div, if_neg (by decide)]
    · rw [checkPieces, if_neg (by omega), if_neg (by simp), if_neg (by simp [hnum])]
    · simp [InstClass.isMem, htype, hstore]

/-- A record that is no store gets its first piece if the counts fit. -/
theorem firstPiece_other (t : TraceReader) {present : Bool} {m : Instr} {v : Values}
    (hstore : m.mType.isStore = false) (htaken : TraceReader.takenFits m.mType m.mTaken = true)
    (hinputs : m.mNumInRegs ≤ 3) (hpos : 1 ≤ v.mTotalPieces) (hlt : v.mTotalPieces < 256)
    (hload : m.mType.isLoad = true → present.toNat < v.mTotalPieces)
    (hother : m.mType.isLoad = false → present = false ∧ m.mMemSize = 0)
    (hregs : 1 ≤ m.mNumOutRegs → m.mOutRegs ≠ [] ∧ m.mOutRegsValues ≠ []) :
    ∃ inst t', firstPiece t (present, m, v) = .ok (some inst, t') := by
  obtain ⟨memPieces, factor, hcount, hcheck, hle, hmem⟩ :=
    counts_other hstore hinputs hpos hlt hload hother
  unfold firstPiece
  dsimp only
  rw [hcount, ok_bind]
  dsimp only
  rw [hcheck, ok_bind]
  obtain ⟨inst, t', hpopulate⟩ := populate_first (t := {
    dpressedInput := v.input, mInstr := m, mTotalPieces := v.mTotalPieces, mMemPieces := memPieces
    mProcessedPieces := 0, mCrackRegIdx := 0, mCrackValIdx := 0, mSizeFactor := factor
    nInstr := (t.nInstr + 1) % 2 ^ 64, startFpReg := 0 }) rfl rfl
    (by simp [TraceReader.piecesFit, hle, hmem]; exact hpos) htaken
    (by
      unfold TraceReader.populateInputs
      simp only [Bool.false_eq_true, if_false, hstore]
      exact ⟨_, rfl⟩)
    (by
      unfold TraceReader.populateOutput
      simp only [Bool.false_eq_true, if_false, hstore, Bool.not_false, Bool.true_and,
        decide_eq_true_eq]
      split
      · rename_i hnum
        obtain ⟨hne, hne'⟩ := hregs hnum
        obtain ⟨reg, regs, hcons⟩ := List.exists_cons_of_ne_nil hne
        obtain ⟨value, values, hcons'⟩ := List.exists_cons_of_ne_nil hne'
        rw [hcons, hcons']
        exact ⟨_, rfl⟩
      · exact ⟨_, rfl⟩)
    (fun hnum => (hregs hnum).1)
  rw [hpopulate]
  exact ⟨_, _, rfl⟩

/-- Moving the base-update register keeps everything but outputs and values, and leaves
some of both. -/
theorem moveBaseUpd_found {m : Instr} {v : Values}
    (hfound : ∀ reg, m.mBaseUpdReg = some reg → v.baseUpdPosInOutRegs ≠ 255) :
    ∃ outRegs values, moveBaseUpd m v = .ok { m with mOutRegs := outRegs, mOutRegsValues := values } ∧
      (m.mOutRegs ≠ [] → outRegs ≠ []) ∧
      (m.mBaseUpdReg.isSome = true ∨ v.mOutRegsValues ≠ [] → values ≠ []) := by
  unfold moveBaseUpd
  cases hreg : m.mBaseUpdReg with
  | none => exact ⟨m.mOutRegs, v.mOutRegsValues, rfl, id, by simp⟩
  | some reg =>
    dsimp only
    rw [if_neg (hfound reg hreg)]
    refine ⟨_, _, rfl, ?_, fun _ => List.append_ne_nil_of_right_ne_nil _ (List.cons_ne_nil _ _)⟩
    intro hne
    split
    · exact List.append_ne_nil_of_right_ne_nil _ (List.cons_ne_nil _ _)
    · exact hne

/-- **A made-up piece.**  Whatever is left of the bytes, a record that is no store gets a
first piece once its base-update register is captured. -/
theorem outputs_other (u : Uninit) (t : TraceReader) {m m' : Instr} {s : InStream} {present : Bool}
    (hcapture : m.captureBaseUpdateLogReg = .ok (present, m')) (hnone : m.mBaseUpdReg = none)
    (hlen : m.mNumOutRegs = m.mOutRegs.length) (hshort : m.mOutRegs.length ≤ 127)
    (honce : ∀ reg < 32, m.mOutRegs.count reg ≤ 1) (hstore : m.mType.isStore = false)
    (htaken : TraceReader.takenFits m.mType m.mTaken = true) (hinputs : m.mNumInRegs ≤ 3)
    (hother : m.mType.isLoad = false → m.mMemSize = 0) :
    ∃ inst t', (readOutputs u m s >>= firstPiece t) = .ok (some inst, t') := by
  have hcaptured := captured hnone hlen hcapture
  have hregs : m'.mOutRegs = m.mOutRegs := by rw [hcaptured.frame]
  have htype : m'.mType = m.mType := by rw [hcaptured.frame]
  have hnum : m'.mNumOutRegs = m.mOutRegs.length := by rw [hcaptured.frame, ← hlen]
  have hbase : ∀ reg, m'.mBaseUpdReg = some reg → reg < 32 ∧ reg ∈ m.mOutRegs := by
    intro reg hreg
    obtain ⟨hlt, -, hmem⟩ := (hcaptured.load hstore reg hreg reg).mpr rfl
    exact ⟨hlt, hmem⟩
  obtain ⟨v, hvalues, hge, hle, hfound, -, hsome⟩ := readValues_ok u.val
    (htype.symm ▸ hstore : m'.mType.isStore = false) m'.mBaseUpdReg m'.mOutRegs 0
    { input := s, mOutRegsValues := []
      mTotalPieces := if m'.mNumOutRegs > 0 then m'.mNumOutRegs else 1
      baseUpdPosInOutRegs := 255, baseUpdVal := 2 ^ 64 - 1 }
    (fun reg hreg => hregs ▸ honce reg (hbase reg hreg).1) (fun _ _ _ => rfl)
    (by rw [hregs]; omega) (by rw [hregs, hnum]; dsimp only; split <;> omega)
  dsimp only at hge hle
  rw [hregs] at hle hfound hsome
  rw [hnum] at hge hle
  obtain ⟨outRegs, values, hmove, houts, hvals⟩ := moveBaseUpd_found (m := m') (v := v)
    fun reg hreg => hfound reg (hbase reg hreg).2 hreg
  have hread : readOutputs u m s = .ok (present,
      { m' with mOutRegs := outRegs, mOutRegsValues := values }, v) := by
    unfold readOutputs
    rw [hcapture, ok_bind]
    dsimp only
    rw [hvalues, ok_bind, hmove, ok_bind]
  have hbound : m.mOutRegs.length ≤ v.mTotalPieces ∧ 1 ≤ v.mTotalPieces ∧ v.mTotalPieces < 256 := by
    split at hge <;> split at hle <;> omega
  obtain ⟨hlow, hpos, hlt⟩ := hbound
  rw [hread, ok_bind]
  apply firstPiece_other t
  · exact htype ▸ hstore
  · dsimp only
    rw [hcaptured.frame]
    exact htaken
  · dsimp only
    rw [hcaptured.frame]
    exact hinputs
  · exact hpos
  · exact hlt
  · intro _
    cases hpresent : present with
    | false => exact hpos
    | true =>
      have hsome : m'.mBaseUpdReg ≠ none := by
        intro hnone'
        have := hcaptured.present
        rw [hnone', hpresent] at this
        cases this
      have := hcaptured.loadOutputs hstore hsome
      show 1 < v.mTotalPieces
      omega
  · intro hload
    dsimp only at hload ⊢
    rw [htype] at hload
    constructor
    · rw [hcaptured.present]
      cases hreg : m'.mBaseUpdReg with
      | none => rfl
      | some reg =>
        have hmem := (hcaptured.mem reg hreg).1
        simp [InstClass.isMem, hload, hstore] at hmem
    · rw [hcaptured.frame]
      exact hother hload
  · intro hone
    dsimp only at hone ⊢
    rw [hnum] at hone
    have hne : m.mOutRegs ≠ [] := List.ne_nil_of_length_pos hone
    refine ⟨houts (hregs.symm ▸ hne), hvals ?_⟩
    cases hreg : m'.mBaseUpdReg with
    | some reg => exact Or.inl rfl
    | none =>
      obtain ⟨reg, hmem⟩ := List.exists_mem_of_ne_nil _ hne
      exact Or.inr (hsome (Or.inr ⟨reg, hmem, by simp [hreg]⟩))

/-- Without a memory access there is no base update. -/
theorem capture_other {m : Instr} (hundef : m.mType ≠ .undef) (hmem : m.mType.isMem = false) :
    m.captureBaseUpdateLogReg = .ok (false, m) := by
  rw [Instr.captureBaseUpdateLogReg, if_neg hundef, if_pos (by simp [hmem])]

/-- A load has an output. -/
theorem capture_load_outputs {m m' : Instr} {present : Bool} (hload : m.mType.isLoad = true)
    (h : m.captureBaseUpdateLogReg = .ok (present, m')) : m.mOutRegs ≠ [] := by
  have htype : m.mType = .load := by simpa [InstClass.isLoad] using hload
  have hstore : ¬ m.mType.isStore = true := by
    rw [htype]
    decide
  unfold Instr.captureBaseUpdateLogReg at h
  obtain ⟨-, h⟩ := guard_eq_ok.mp h
  rw [if_neg (by simp [InstClass.isMem, hload]), if_neg hstore] at h
  obtain ⟨hne, -⟩ := guard_eq_ok.mp h
  exact fun hnil => hne (by rw [hnil, List.length_nil])

/-! ### Stores -/

/-- The asserts on the inputs and the size of a store, when it has its inputs. -/
structure StoreFits (m : Instr) (baseUpdate : Bool) : Prop where
  type : m.mType.isStore = true
  taken : m.mTaken = false
  inRegs : m.mInRegs ≠ []
  offset : m.mHasRegOffset ≠ 0 → 2 ≤ m.mNumInRegs
  size : m.mMemSize % trueStrValRegs m = 0
  total : trueStrValRegs m + baseUpdate.toNat < 256

theorem one_le_trueStrValRegs (m : Instr) : 1 ≤ trueStrValRegs m := by
  unfold trueStrValRegs
  dsimp only
  split <;> omega

/-- A store gets its first piece if its inputs are there. -/
theorem firstPiece_store (t : TraceReader) {present : Bool} {m : Instr} (v : Values)
    (h : StoreFits m present) (hregs : 1 ≤ m.mNumOutRegs → m.mOutRegs ≠ []) :
    ∃ inst t', firstPiece t (present, m, v) = .ok (some inst, t') := by
  have hpos := one_le_trueStrValRegs m
  have htotal : (trueStrValRegs m + present.toNat) % 256 = trueStrValRegs m + present.toNat :=
    Nat.mod_eq_of_lt h.total
  have hcount : countPieces m present v.mTotalPieces = .ok (trueStrValRegs m,
      trueStrValRegs m + present.toNat, m.mMemSize / trueStrValRegs m) := by
    rw [countPieces, if_pos h.type]
    dsimp only
    rw [if_neg (by simp [h.size]), htotal]
  have hcheck : checkPieces m present (trueStrValRegs m) (trueStrValRegs m + present.toNat) =
      .ok () := by
    rw [checkPieces, if_neg (by omega), if_neg (by simp), if_neg (by simp [h.type])]
  have hmem : m.mType.isMem = true := by simp [InstClass.isMem, h.type]
  have htype : m.mType = .store := by simpa [InstClass.isStore] using h.type
  unfold firstPiece
  dsimp only
  rw [hcount, ok_bind]
  dsimp only
  rw [hcheck, ok_bind]
  obtain ⟨inst, t', hpopulate⟩ := populate_first (t := {
    dpressedInput := v.input, mInstr := m, mTotalPieces := trueStrValRegs m + present.toNat
    mMemPieces := trueStrValRegs m, mProcessedPieces := 0, mCrackRegIdx := 0, mCrackValIdx := 0
    mSizeFactor := m.mMemSize / trueStrValRegs m, nInstr := (t.nInstr + 1) % 2 ^ 64
    startFpReg := 0 }) rfl rfl
    (by
      simp only [TraceReader.piecesFit, hmem, if_true, Bool.and_eq_true, decide_eq_true_eq]
      omega)
    (by
      dsimp only
      rw [htype, h.taken]
      rfl)
    (by
      unfold TraceReader.populateInputs
      obtain ⟨reg, regs, hcons⟩ := List.exists_cons_of_ne_nil h.inRegs
      simp only [Bool.false_eq_true, if_false, h.type, if_true, hcons]
      split
      · rename_i hoffset
        rw [if_neg (Nat.not_lt.mpr (h.offset hoffset))]
        exact ⟨_, rfl⟩
      · exact ⟨_, rfl⟩)
    (by
      unfold TraceReader.populateOutput
      simp only [Bool.false_eq_true, if_false, h.type, Bool.not_true, Bool.false_and]
      exact ⟨_, rfl⟩)
    hregs
  rw [hpopulate]
  exact ⟨_, _, rfl⟩

/-- The base-update register of a store is its output. -/
theorem capture_store {m : Instr} (hstore : m.mType.isStore = true)
    (hlen : m.mNumOutRegs = m.mOutRegs.length) (hone : m.mOutRegs.length ≤ 1)
    (hbase : m.mBaseUpd = 1 ↔ m.mOutRegs ≠ []) :
    m.captureBaseUpdateLogReg = match m.mOutRegs with
      | reg :: _ => .ok (true, { m with mBaseUpdReg := some reg })
      | [] => .ok (false, m) := by
  have htype : m.mType = .store := by simpa [InstClass.isStore] using hstore
  have hagree : ((m.mNumOutRegs == 1) != (m.mBaseUpd == 1)) = false := by
    cases houts : m.mOutRegs with
    | nil =>
      rw [houts] at hlen hbase
      have hne : ¬ m.mBaseUpd = 1 := by simpa using hbase
      simp [hlen, hne]
    | cons reg regs =>
      rw [houts] at hlen hbase hone
      have heq : m.mBaseUpd = 1 := hbase.mpr (List.cons_ne_nil _ _)
      have hregs : regs = [] := by simpa using hone
      simp [hlen, heq, hregs]
  have hundef : ¬ m.mType = .undef := by
    rw [htype]
    decide
  have hmem : ¬ (!m.mType.isMem) = true := by simp [InstClass.isMem, hstore]
  have hnum : ¬ m.mNumOutRegs > 1 := by omega
  have hmatch : ¬ ((m.mNumOutRegs == 1) != (m.mBaseUpd == 1)) = true := by simp [hagree]
  unfold Instr.captureBaseUpdateLogReg
  refine (if_neg hundef).trans ((if_neg hmem).trans ((if_pos hstore).trans
    ((if_neg hnum).trans ((if_neg hmatch).trans ?_))))
  cases m.mOutRegs with
  | nil => rfl
  | cons reg regs => rfl

/-- **A made-up piece of a store**, whose base-update byte agrees with its outputs. -/
theorem outputs_store (u : Uninit) (t : TraceReader) {m : Instr} (s : InStream)
    (hnone : m.mBaseUpdReg = none) (hlen : m.mNumOutRegs = m.mOutRegs.length)
    (hone : m.mOutRegs.length ≤ 1) (hbase : m.mBaseUpd = 1 ↔ m.mOutRegs ≠ [])
    (h : StoreFits m (m.mBaseUpd == 1)) :
    ∃ inst t', (readOutputs u m s >>= firstPiece t) = .ok (some inst, t') := by
  have hcapture := capture_store h.type hlen hone hbase
  cases houts : m.mOutRegs with
  | nil =>
    have hupd : (m.mBaseUpd == 1) = false := by
      rw [houts] at hbase
      simpa using hbase
    rw [houts] at hcapture hlen
    rw [hupd] at h
    have hread : ∃ v, readOutputs u m s = .ok (false, { m with mOutRegsValues := [] }, v) := by
      unfold readOutputs
      rw [hcapture, ok_bind]
      dsimp only
      rw [houts, readValues, ok_bind, moveBaseUpd, hnone]
      dsimp only
      rw [ok_bind, houts]
      exact ⟨_, rfl⟩
    obtain ⟨v, hread⟩ := hread
    rw [hread, ok_bind]
    exact firstPiece_store t v { h with } fun hpos => absurd hpos (by simp [hlen])
  | cons reg regs =>
    have hupd : (m.mBaseUpd == 1) = true := by
      rw [houts] at hbase
      simpa using hbase
    rw [houts] at hcapture
    rw [hupd] at h
    obtain rfl : regs = [] := by simpa [houts] using hone
    have hread : ∃ v outRegs values, outRegs ≠ [] ∧ readOutputs u m s = .ok (true,
        { m with mBaseUpdReg := some reg, mOutRegs := outRegs, mOutRegsValues := values }, v) := by
      unfold readOutputs
      rw [hcapture, ok_bind]
      dsimp only
      rw [readValues]
      rcases InStream.readInto s 8 (u.val 0) with ⟨val, input⟩
      dsimp only
      rw [if_pos rfl, if_neg (by decide), readValues, ok_bind, moveBaseUpd]
      dsimp only
      rw [if_neg (by decide), ok_bind]
      exact ⟨_, _, _, List.cons_ne_nil reg [], rfl⟩
    obtain ⟨v, outRegs, values, hne, hread⟩ := hread
    rw [hread, ok_bind]
    exact firstPiece_store t v { h with } fun _ => hne

/-- The base-update byte of a store agrees with its outputs. -/
theorem capture_store_agrees {m m' : Instr} {present : Bool} (hstore : m.mType.isStore = true)
    (hlen : m.mNumOutRegs = m.mOutRegs.length)
    (h : m.captureBaseUpdateLogReg = .ok (present, m')) :
    m.mOutRegs.length ≤ 1 ∧ (m.mBaseUpd = 1 ↔ m.mOutRegs ≠ []) ∧ present = (m.mBaseUpd == 1) := by
  unfold Instr.captureBaseUpdateLogReg at h
  obtain ⟨-, h⟩ := guard_eq_ok.mp h
  rw [if_neg (by simp [InstClass.isMem, hstore]), if_pos hstore] at h
  obtain ⟨hone, h⟩ := guard_eq_ok.mp h
  obtain ⟨hagree, h⟩ := guard_eq_ok.mp h
  rw [hlen] at hone hagree
  have hbool : (m.mBaseUpd == 1) = (m.mOutRegs.length == 1) := by
    rw [bne_iff_ne, not_not] at hagree
    exact hagree.symm
  have hiff : m.mBaseUpd = 1 ↔ m.mOutRegs.length = 1 := by
    rw [← beq_iff_eq, hbool, beq_iff_eq]
  have hle : m.mOutRegs.length ≤ 1 := Nat.not_lt.mp hone
  rw [hiff, hbool]
  cases houts : m.mOutRegs with
  | nil =>
    rw [houts] at h
    exact ⟨Nat.zero_le 1, by simp, (Prod.mk.inj (Except.ok.inj h)).1.symm⟩
  | cons reg regs =>
    rw [houts] at h hle
    obtain rfl : regs = [] := by simpa using hle
    exact ⟨hle, by simp, (Prod.mk.inj (Except.ok.inj h)).1.symm⟩

theorem trueStrValRegs_congr {m m' : Instr} (hnum : m.mNumInRegs = m'.mNumInRegs)
    (hoffset : m.mHasRegOffset = m'.mHasRegOffset) : trueStrValRegs m = trueStrValRegs m' := by
  unfold trueStrValRegs
  rw [hnum, hoffset]

theorem trueStrValRegs_lt (m : Instr) : trueStrValRegs m < 256 := by
  unfold trueStrValRegs
  dsimp only
  split <;> omega

/-- What the first piece of a store asks of the inputs. -/
theorem store_inputs {t t' : TraceReader} {inst : DbInst} (hprocessed : t.mProcessedPieces = 0)
    (hstore : t.mInstr.mType.isStore = true) (h : t.populateNewInstr = .ok (inst, t')) :
    t.mInstr.mInRegs ≠ [] ∧ (t.mInstr.mHasRegOffset ≠ 0 → 2 ≤ t.mInstr.mNumInRegs) := by
  have hcreate : t.createBaseUpdateOp = false := by
    simp [TraceReader.createBaseUpdateOp, hprocessed]
  obtain ⟨hinputs, -⟩ := TraceReader.populateNewInstr_operands h
  unfold TraceReader.populateInputs at hinputs
  simp only [hcreate, Bool.false_eq_true, if_false, hstore, if_true] at hinputs
  split at hinputs
  · cases hinputs
  · rename_i hregs
    refine ⟨by simp [hregs], ?_⟩
    intro hoffset
    rw [if_pos hoffset] at hinputs
    obtain ⟨htwo, -⟩ := guard_eq_ok.mp hinputs
    exact Nat.not_lt.mp htwo

/-- What the counts of a store ask of its size. -/
theorem store_counts {m : Instr} {present : Bool} {counted : Nat} {x : Nat × Nat × Nat}
    (hstore : m.mType.isStore = true) (hcount : countPieces m present counted = .ok x)
    (hpos : x.2.1 ≠ 0) :
    m.mMemSize % trueStrValRegs m = 0 ∧ trueStrValRegs m + present.toNat < 256 := by
  rw [countPieces, if_pos hstore] at hcount
  obtain ⟨hsize, hcount⟩ := guard_eq_ok.mp hcount
  have hx := Except.ok.inj hcount
  rw [← hx] at hpos
  have hlt := trueStrValRegs_lt m
  have hbool := Bool.toNat_le present
  dsimp only at hpos
  exact ⟨by simpa using hsize, by omega⟩

/-- The counts of a store that pass the checks. -/
theorem store_counts_eq {m : Instr} {present : Bool} {counted mem total size : Nat}
    (hstore : m.mType.isStore = true)
    (hcount : countPieces m present counted = .ok (mem, total, size))
    (hcheck : checkPieces m present mem total = .ok ()) :
    m.mMemSize % trueStrValRegs m = 0 ∧ trueStrValRegs m + present.toNat < 256 ∧
      mem = trueStrValRegs m ∧ total = trueStrValRegs m + present.toNat ∧
        size = m.mMemSize / trueStrValRegs m := by
  have hpos : total ≠ 0 := by
    unfold checkPieces at hcheck
    exact (guard_eq_ok.mp hcheck).1
  obtain ⟨hdvd, hlt⟩ := store_counts hstore hcount hpos
  rw [countPieces, if_pos hstore] at hcount
  obtain ⟨-, hcount⟩ := guard_eq_ok.mp hcount
  rw [Nat.mod_eq_of_lt hlt] at hcount
  cases hcount
  exact ⟨hdvd, hlt, rfl, rfl, rfl⟩

/-- The base-update register of a store is its only output. -/
theorem Captured.baseUpdReg_store {m m' : Instr} {present : Bool} (h : Captured m present m')
    (hstore : m.mType.isStore = true) : m'.mBaseUpdReg = m.mOutRegs.head? := by
  have hone := h.storeOutputs hstore
  cases hregs : m.mOutRegs with
  | nil =>
    cases hbase : m'.mBaseUpdReg with
    | none => rfl
    | some reg =>
      have hsame := (h.store hstore reg).mp hbase
      rw [hregs] at hsame
      cases hsame
  | cons reg regs =>
    have hnil : regs = [] := by simpa [hregs] using hone
    rw [(h.store hstore reg).mpr (by rw [hregs, hnil]), List.head?_cons]

end CbpSim.Trace
