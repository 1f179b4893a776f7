/-
  Trace/Cracking.lean --- what the pieces of a record carry.

  Source: src/lib/trace_reader.h, `readInstr` (the number of pieces),
  `populateNewInstr` (the crack cursors) and `get_inst`.

  `readInstr` counts a piece for each output register and one more for each SIMD
  register whose high half is not zero; `populateNewInstr` steps through the lanes
  of the outputs one by one, zero or not.  `Cursor` ties the two cursors to the
  number of the piece: piece `p` carries lane `p`.  So the pieces carry the FIRST
  lanes, as many as there are pieces, and lose the last ones exactly when a zero
  high half comes before them.
-/
import CbpSim.Trace.Decode
import CbpSim.Trace.Pieces

set_option autoImplicit false

namespace CbpSim.Trace

open CbpSim.Foundation

/-! ## Lanes -/

namespace Output

/-- The register and the value of each lane. -/
def pairs (o : Output) : List (Nat × Nat) := o.lanes.map fun value => (o.reg.val, value)

/-- Which lanes must be delivered: all but a high half that is zero. -/
def needed (o : Output) : List Bool :=
  if regIsInt o.reg.val then [true] else [true, o.high != 0]

end Output

/-- The lanes of a record that must be delivered, in the reader's order. -/
def Record.needed (r : Record) : List Bool := r.orderedOuts.flatMap Output.needed

/-- The pieces of the record in front of the reader lose no destination: every
output register is the destination of a piece, and every lane that must be
delivered is the destination value of exactly one. -/
def LosesNothing (u : Uninit) (r : Record) (t : TraceReader) : Prop :=
  ∃ pieces, t.getPieces u 255 = .ok pieces ∧
    (∀ o ∈ r.outs, ∃ p ∈ pieces, p.inst.D.valid = true ∧ p.inst.D.logReg = o.reg.val) ∧
    ∀ k, r.needed[k]? = some true →
      ∃ p, (pieces.filter fun p => p.lane == some k) = [p] ∧ p.inst.D.valid = true ∧
        (r.orderedOuts.flatMap Output.lanes)[k]? = some p.inst.D.value

/-! ## The crack cursors -/

/-- The cursors stand at lane `p`. -/
structure Cursor (outs : List Output) (p regIdx startFpReg : Nat) : Prop where
  passed : ((outs.take regIdx).flatMap Output.pairs).length + startFpReg % 2 = p
  high : startFpReg % 2 = 1 → ∃ o, outs[regIdx]? = some o ∧ regIsInt o.reg.val = false

theorem cursor_start (outs : List Output) : Cursor outs 0 0 0 :=
  ⟨by simp, by simp⟩

/-- `start_fp_reg` after a piece of the output. -/
def nextFp (o : Output) (startFpReg : Nat) : Nat :=
  if regIsInt o.reg.val then 0 else (startFpReg + 1) % 256

/-- The register cursor after a piece of the output. -/
def nextReg (o : Output) (regIdx startFpReg : Nat) : Nat :=
  if regIsInt o.reg.val || nextFp o startFpReg % 2 == 0 then regIdx + 1 else regIdx

/-- At a lane, the register cursor stands at its output, and the next piece moves
to the next lane. -/
theorem Cursor.step {outs : List Output} {p regIdx startFpReg : Nat}
    (h : Cursor outs p regIdx startFpReg) (hp : p < (outs.flatMap Output.pairs).length) :
    ∃ o value, outs[regIdx]? = some o ∧
      (outs.flatMap Output.pairs)[p]? = some (o.reg.val, value) ∧
      Cursor outs (p + 1) (nextReg o regIdx startFpReg) (nextFp o startFpReg) := by
  have hlt : regIdx < outs.length := by
    by_contra hge
    have hpassed := h.passed
    rw [List.take_of_length_le (Nat.not_lt.mp hge)] at hpassed
    omega
  obtain ⟨o, ho⟩ : ∃ o, outs[regIdx]? = some o := ⟨_, List.getElem?_eq_getElem hlt⟩
  have hsplit : outs.flatMap Output.pairs =
      (outs.take regIdx).flatMap Output.pairs ++
        (o.pairs ++ (outs.drop (regIdx + 1)).flatMap Output.pairs) := by
    have hget := (List.getElem?_eq_some_iff.mp ho).2
    conv_lhs => rw [← List.take_append_drop regIdx outs, List.drop_eq_getElem_cons hlt, hget]
    simp
  have htake : (outs.take (regIdx + 1)).flatMap Output.pairs =
      (outs.take regIdx).flatMap Output.pairs ++ o.pairs := by
    rw [List.take_add_one, ho]
    simp
  have hpassed := h.passed
  cases hint : regIsInt o.reg.val with
  | true =>
    have heven : startFpReg % 2 = 0 := by
      rcases Nat.mod_two_eq_zero_or_one startFpReg with h0 | h1
      · exact h0
      · obtain ⟨o', ho', hsimd⟩ := h.high h1
        rw [ho] at ho'
        obtain rfl := Option.some.inj ho'
        rw [hint] at hsimd
        exact Bool.noConfusion hsimd
    have hpairs : o.pairs = [(o.reg.val, o.low.val)] := by simp [Output.pairs, Output.lanes, hint]
    refine ⟨o, o.low.val, ho, ?_, ?_, ?_⟩
    · rw [hsplit, List.getElem?_append_right (by omega), hpairs]
      have hzero : p - ((outs.take regIdx).flatMap Output.pairs).length = 0 := by omega
      rw [hzero]
      rfl
    · simp only [nextReg, nextFp, hint, Bool.true_or, if_true]
      rw [htake, List.length_append, hpairs, List.length_singleton]
      omega
    · simp [nextFp, hint]
  | false =>
    have hpairs : o.pairs = [(o.reg.val, o.low.val), (o.reg.val, o.high.val)] := by
      simp [Output.pairs, Output.lanes, hint]
    rcases Nat.mod_two_eq_zero_or_one startFpReg with heven | hodd
    · have hnext : (startFpReg + 1) % 256 % 2 = 1 := by omega
      refine ⟨o, o.low.val, ho, ?_, ?_, ?_⟩
      · rw [hsplit, List.getElem?_append_right (by omega), hpairs]
        have hzero : p - ((outs.take regIdx).flatMap Output.pairs).length = 0 := by omega
        rw [hzero]
        rfl
      · simp only [nextReg, nextFp, hint, Bool.false_or, Bool.false_eq_true, if_false, hnext]
        simpa [heven] using hpassed
      · simp only [nextReg, nextFp, hint, Bool.false_or, Bool.false_eq_true, if_false, hnext]
        exact fun _ => ⟨o, by simpa using ho, hint⟩
    · have hnext : (startFpReg + 1) % 256 % 2 = 0 := by omega
      refine ⟨o, o.high.val, ho, ?_, ?_, ?_⟩
      · rw [hsplit, List.getElem?_append_right (by omega), hpairs]
        have hone : p - ((outs.take regIdx).flatMap Output.pairs).length = 1 := by omega
        rw [hone]
        rfl
      · simp only [nextReg, nextFp, hint, Bool.false_or, Bool.false_eq_true, if_false, hnext,
          beq_self_eq_true, if_true]
        rw [htake, List.length_append, hpairs]
        simp only [List.length_cons, List.length_nil]
        omega
      · simp [nextFp, hint, hnext]

/-! ## The reader with a record -/

/-- The base-update register and the number of pieces of a digest. -/
theorem Record.digest_pieces {r : Record} (hstore : r.type.isStore = false) {mBaseUpd : Nat}
    {s : InStream} {present : Bool} {m : Instr} {v : Values}
    (h : r.digest mBaseUpd s = .ok (present, m, v)) :
    m.mBaseUpdReg = r.baseUpdOut.map (fun o => o.reg.val) ∧
      (∀ o, r.baseUpdOut = some o → o.reg.val < 32 ∧ r.type.isLoad = true) ∧
      v.mTotalPieces = (max 1 r.outs.length + r.outs.countP Output.hasHigh) % 256 ∧
      (r.type.isUncondBr && !r.taken) = false := by
  obtain ⟨-, hjump, m₁, hcapture, htake, hmove⟩ := digest_eq_ok h
  have hclean : r.Clean := by simp [Record.Clean, hstore]
  have hcaptured := captured rfl (by simp [Record.instr]) hcapture
  have hlen := r.length_outs
  have hmet := takeOutputs_met (by omega) htake
  have hstart : (r.values s).mTotalPieces = max 1 r.outs.length := by
    simp only [Record.values]
    split <;> omega
  have htotal := takeOutputs_total htake (by omega)
  obtain ⟨-, -, hkeep⟩ := moveBaseUpd_ok hclean hcaptured htake hmove
  have hreg₂ : m.mBaseUpdReg = m₁.mBaseUpdReg := by rw [hkeep]
  rw [hstart] at htotal
  rw [hreg₂, htotal]
  cases hreg : m₁.mBaseUpdReg with
  | none =>
    have hidx := Record.baseUpdIdx_none hcaptured hreg
    have hout : r.baseUpdOut = none := by simp [Record.baseUpdOut, hidx]
    refine ⟨by simp [hout], by simp [hout], ?_, hjump⟩
    simp [holdsBaseUpd]
  | some reg =>
    cases hmet with
    | never position value absent =>
      unfold moveBaseUpd at hmove
      rw [hreg] at hmove
      have hpos : v.baseUpdPosInOutRegs = 255 := position
      simp only [hpos, if_true] at hmove
      cases hmove
    | once k o at_k first others before position value =>
      have hidx := Record.baseUpdIdx_some hcaptured hstore hreg first
      have hout : r.baseUpdOut = some o := by simp [Record.baseUpdOut, hidx, at_k]
      obtain ⟨hlt, hget⟩ := List.getElem?_eq_some_iff.mp at_k
      have hbase : reg = o.reg.val := by
        obtain ⟨_, hat, -⟩ := List.findIdx?_eq_some_iff_getElem.mp first
        rw [hget, hreg] at hat
        simpa [holdsBaseUpd] using hat
      obtain ⟨hint, -, -⟩ := (hcaptured.load hstore reg hreg reg).mpr rfl
      have hload : r.type.isLoad = true := by
        have hmem : r.type.isMem = true := (hcaptured.mem reg hreg).1
        simpa [InstClass.isMem, hstore] using hmem
      have hperm : (o :: r.outs.eraseIdx k).Perm r.outs := by
        rw [← hget]
        exact List.getElem_cons_eraseIdx_perm hlt
      have hcount : (r.outs.eraseIdx k).countP Output.hasHigh = r.outs.countP Output.hasHigh := by
        rw [← hperm.countP_eq, List.countP_cons_of_neg]
        simp [Output.hasHigh, regIsInt, ← hbase, hint]
      rw [hreg] at others
      refine ⟨by simp [hout, hbase], ?_, by rw [others, hcount], hjump⟩
      rintro o' ho'
      rw [hout] at ho'
      obtain rfl := Option.some.inj ho'
      exact ⟨hbase ▸ hint, hload⟩

/-- The counts of pieces when the asserts on them hold. -/
theorem countPieces_ok {m : Instr} (hstore : m.mType.isStore = false) {baseUpdate : Bool}
    {counted mMemPieces mTotalPieces mSizeFactor : Nat}
    (hcount : countPieces m baseUpdate counted = .ok (mMemPieces, mTotalPieces, mSizeFactor))
    (hcheck : checkPieces m baseUpdate mMemPieces mTotalPieces = .ok ()) (hlt : counted < 256) :
    mTotalPieces = counted ∧
      (m.mType.isMem = true →
        1 ≤ mMemPieces ∧ mMemPieces + baseUpdate.toNat = mTotalPieces) ∧
      (m.mType.isMem = false → mMemPieces = 0) ∧ 1 ≤ mTotalPieces := by
  unfold checkPieces at hcheck
  split at hcheck
  · cases hcheck
  rename_i hpos
  split at hcheck
  · cases hcheck
  rename_i hsum
  unfold countPieces at hcount
  rw [if_neg (by simp [hstore])] at hcount
  split at hcount
  · rename_i hload
    simp only at hcount
    split at hcount
    · cases hcount
    rename_i hne
    obtain ⟨rfl, rfl, -⟩ : _ ∧ _ ∧ _ := by simpa using Except.ok.inj hcount
    have hmem : m.mType.isMem = true := by simp [InstClass.isMem, hload]
    refine ⟨rfl, fun _ => ⟨by omega, ?_⟩, by simp [hmem], by omega⟩
    cases baseUpdate with
    | false => simp only [Bool.toNat_false]; omega
    | true =>
      simp only [Bool.true_and, bne_iff_ne, ne_eq, not_not] at hsum
      exact hsum.symm
  · rename_i hload
    have hmem : m.mType.isMem = false := by simp [InstClass.isMem, hload, hstore]
    split at hcount
    · cases hcount
    split at hcount
    · cases hcount
    obtain ⟨rfl, rfl, -⟩ : _ ∧ _ ∧ _ := by simpa using Except.ok.inj hcount
    exact ⟨rfl, by simp [hmem], fun _ => rfl, by omega⟩

/-- The reader has the record and built none of its pieces. -/
structure Loaded (r : Record) (t : TraceReader) : Prop where
  type : t.mInstr.mType = r.type
  store : r.type.isStore = false
  taken : TraceReader.takenFits t.mInstr.mType t.mInstr.mTaken = true
  numOutRegs : t.mInstr.mNumOutRegs = r.outs.length
  outRegs : t.mInstr.mOutRegs = r.orderedOuts.map fun o => o.reg.val
  values : t.mInstr.mOutRegsValues = r.orderedOuts.flatMap Output.lanes
  baseUpdReg : t.mInstr.mBaseUpdReg = r.baseUpdOut.map fun o => o.reg.val
  baseUpd : ∀ o, r.baseUpdOut = some o → o.reg.val < 32 ∧ r.type.isLoad = true
  total : t.mTotalPieces = (max 1 r.outs.length + r.outs.countP Output.hasHigh) % 256
  total_pos : 1 ≤ t.mTotalPieces
  mem : r.type.isMem = true →
    1 ≤ t.mMemPieces ∧ t.mMemPieces + r.baseUpdOut.isSome.toNat = t.mTotalPieces
  noMem : r.type.isMem = false → t.mMemPieces = 0
  start : t.mProcessedPieces = 0 ∧ t.mCrackRegIdx = 0 ∧ t.mCrackValIdx = 0 ∧ t.startFpReg = 0

/-- An accepted record that is no store is loaded by `readInstr`. -/
theorem loaded_of_read {u : Uninit} {r : Record} (hstore : r.type.isStore = false)
    {t t' : TraceReader} {s : List Byte} (ht : t.dpressedInput = onBytes (r.encode ++ s))
    (h : t.readInstr u = .ok (true, t')) : Loaded r t' := by
  have hclean : r.Clean := by simp [Record.Clean, hstore]
  obtain ⟨present, m, v, mem, total, size, hdigest, hcount, hcheck, -, rfl⟩ :=
    readInstr_eq_ok hclean ht h
  obtain ⟨hholds, -, hpresent⟩ := hclean.holds hdigest
  obtain ⟨hreg, hbase, htotal, hjump⟩ := Record.digest_pieces hstore hdigest
  have htype : m.mType = r.type := hholds.type
  have hsome : present = r.baseUpdOut.isSome := by
    rw [hpresent, hreg]
    cases r.baseUpdOut <;> rfl
  have htaken : TraceReader.takenFits m.mType m.mTaken = true := by
    rw [htype, hholds.taken]
    exact takenFits_jumps hjump
  obtain ⟨htot, hmem, hnoMem, hpos⟩ := countPieces_ok (htype ▸ hstore) hcount hcheck
    (by rw [htotal]; exact Nat.mod_lt _ (by decide))
  rw [htype, hsome] at hmem
  rw [htype] at hnoMem
  exact ⟨htype, hstore, htaken, hholds.numOutRegs, hholds.outRegs, hholds.outRegsValues, hreg, hbase,
    htot.trans htotal, hpos, hmem, hnoMem, rfl, rfl, rfl, rfl⟩

/-! ## Building the pieces -/

/-- The loaded reader after `p` pieces. -/
def TraceReader.after (t : TraceReader) (p regIdx startFpReg : Nat) : TraceReader :=
  { t with
    mProcessedPieces := p
    mCrackValIdx := p
    mCrackRegIdx := regIdx
    startFpReg := startFpReg }

/-- While pieces are left `get_inst` builds the next one. -/
theorem TraceReader.getInst_after (u : Uninit) (t : TraceReader) (p regIdx startFpReg : Nat)
    (hp : p < t.mTotalPieces) :
    (t.after p regIdx startFpReg).getInst u =
        ((t.after p regIdx startFpReg).populateNewInstr >>= fun x => .ok (some x.1, x.2)) ∧
      (t.after p regIdx startFpReg).ready u = t.after p regIdx startFpReg := by
  have hne : (t.after p regIdx startFpReg).mProcessedPieces ≠
      (t.after p regIdx startFpReg).mTotalPieces := Nat.ne_of_lt hp
  refine ⟨?_, ?_⟩
  · unfold TraceReader.getInst
    rw [if_pos hne]
  · rw [TraceReader.ready, if_pos hne]

/-- The pieces other than the base-update piece. -/
def Record.plainPieces (r : Record) (t : TraceReader) : Nat :=
  t.mTotalPieces - r.baseUpdOut.isSome.toNat

/-- Reordering keeps the outputs. -/
theorem Record.orderedOuts_perm (r : Record) : r.orderedOuts.Perm r.outs := by
  unfold Record.orderedOuts Record.plainOuts Record.baseUpdOut
  cases hidx : r.baseUpdIdx with
  | none => simp
  | some k =>
    have hlt : k < r.outs.length := by
      unfold Record.baseUpdIdx at hidx
      split at hidx
      · exact (List.findIdx?_eq_some_iff_getElem.mp hidx).1
      · cases hidx
    simp only [Option.bind_some, List.getElem?_eq_getElem hlt, Option.toList_some]
    exact List.perm_append_singleton _ _ |>.trans (List.getElem_cons_eraseIdx_perm hlt)

theorem Record.length_orderedOuts (r : Record) : r.orderedOuts.length = r.outs.length :=
  r.orderedOuts_perm.length_eq

/-- The values of the pairs are the lanes. -/
theorem map_snd_pairs (outs : List Output) :
    (outs.flatMap Output.pairs).map Prod.snd = outs.flatMap Output.lanes := by
  rw [List.map_flatMap]
  congr 1
  funext o
  simp [Output.pairs, Function.comp_def]

namespace Loaded

variable {r : Record} {t : TraceReader}

theorem total_lt (h : Loaded r t) : t.mTotalPieces < 256 := by
  rw [h.total]
  exact Nat.mod_lt _ (by decide)

theorem piecesFit (h : Loaded r t) {p : Nat} (hp : p < t.mTotalPieces) (regIdx startFpReg : Nat) :
    (t.after p regIdx startFpReg).piecesFit = true := by
  have htype := h.type
  cases hmem : r.type.isMem with
  | true =>
    obtain ⟨hpos, hsum⟩ := h.mem hmem
    have hle : t.mMemPieces ≤ t.mTotalPieces := hsum ▸ Nat.le_add_right _ _
    simp [TraceReader.piecesFit, TraceReader.after, htype, hmem, hp, hpos, hle]
  | false =>
    simp [TraceReader.piecesFit, TraceReader.after, htype, hmem, hp, h.noMem hmem]

/-- The pieces before the last ones are no base-update pieces. -/
theorem createBaseUpdateOp_plain (h : Loaded r t) {p : Nat} (hp : p < r.plainPieces t)
    (regIdx startFpReg : Nat) : (t.after p regIdx startFpReg).createBaseUpdateOp = false := by
  have htype := h.type
  unfold Record.plainPieces at hp
  cases hmem : r.type.isMem with
  | true =>
    obtain ⟨hpos, hsum⟩ := h.mem hmem
    have hne : ¬ t.mMemPieces = p := by omega
    simp [TraceReader.createBaseUpdateOp, TraceReader.after, hne]
  | false => simp [TraceReader.createBaseUpdateOp, TraceReader.after, htype, hmem]

/-- The inputs of a piece of a record that is no store. -/
theorem populateInputs_plain (h : Loaded r t) (p regIdx startFpReg : Nat) :
    (t.after p regIdx startFpReg).populateInputs false =
      .ok (TraceReader.inputAt t.mInstr.mInRegs 0, TraceReader.inputAt t.mInstr.mInRegs 1,
        TraceReader.inputAt t.mInstr.mInRegs 2) := by
  have hstore : (t.after p regIdx startFpReg).mInstr.mType.isStore = false := h.type ▸ h.store
  unfold TraceReader.populateInputs
  simp only [Bool.false_eq_true, if_false, hstore]
  rfl

/-- The output of a plain piece: the register and the lane under the cursors. -/
theorem populateOutput_plain (h : Loaded r t) {p regIdx value : Nat} (startFpReg : Nat) {o : Output}
    (ho : r.orderedOuts[regIdx]? = some o)
    (hvalue : (r.orderedOuts.flatMap Output.lanes)[p]? = some value) (hnum : 1 ≤ r.outs.length) :
    (t.after p regIdx startFpReg).populateOutput false =
      .ok ({ valid := true, isInt := regIsInt o.reg.val, logReg := o.reg.val, value := value },
        nextFp o startFpReg) := by
  have hstore : (t.after p regIdx startFpReg).mInstr.mType.isStore = false := h.type ▸ h.store
  have hreg : t.mInstr.mOutRegs[regIdx]? = some o.reg.val := by rw [h.outRegs, List.getElem?_map, ho]; rfl
  have hval : t.mInstr.mOutRegsValues[p]? = some value := by rw [h.values, hvalue]
  have hcond : (!(t.after p regIdx startFpReg).mInstr.mType.isStore &&
      decide ((t.after p regIdx startFpReg).mInstr.mNumOutRegs ≥ 1)) = true := by
    have hnum' : t.mInstr.mNumOutRegs ≥ 1 := h.numOutRegs ▸ hnum
    simp only [hstore, Bool.not_false, Bool.true_and, decide_eq_true_eq]
    exact hnum'
  unfold TraceReader.populateOutput
  simp only [Bool.false_eq_true, if_false, hcond, if_true]
  simp only [TraceReader.after, hreg, hval, nextFp]

/-- The crack cursors move on. -/
theorem advanceCrack_after (h : Loaded r t) {p regIdx : Nat} (startFpReg : Nat) {o : Output}
    (ho : r.orderedOuts[regIdx]? = some o) (hp : p + 1 < 256) (hreg : regIdx + 1 < 256) :
    TraceReader.advanceCrack { t.after p regIdx startFpReg with
        startFpReg := nextFp o startFpReg, mProcessedPieces := p + 1 } =
      .ok (t.after (p + 1) (nextReg o regIdx startFpReg) (nextFp o startFpReg)) := by
  have hget : t.mInstr.mOutRegs[regIdx]? = some o.reg.val := by
    rw [h.outRegs, List.getElem?_map, ho]
    rfl
  have hlt : t.mInstr.mNumOutRegs > regIdx := by
    have hlen := (List.getElem?_eq_some_iff.mp ho).1
    rw [h.numOutRegs, ← r.length_orderedOuts]
    exact hlen
  unfold TraceReader.advanceCrack
  simp only [TraceReader.after, hlt, if_true, hget, Nat.mod_eq_of_lt hp, Nat.mod_eq_of_lt hreg]
  unfold nextReg
  cases hint : regIsInt o.reg.val with
  | true => simp
  | false =>
    rcases Nat.mod_two_eq_zero_or_one (nextFp o startFpReg) with heven | hodd
    · simp [heven]
    · simp [hodd]

/-- A plain piece carries the lane of its number. -/
theorem populate_plain (h : Loaded r t) {p regIdx startFpReg : Nat} (hp : p < r.plainPieces t)
    (hcursor : Cursor r.orderedOuts p regIdx startFpReg)
    (hlane : p < (r.orderedOuts.flatMap Output.pairs).length) :
    ∃ inst o, (t.after p regIdx startFpReg).populateNewInstr =
        .ok (inst, t.after (p + 1) (nextReg o regIdx startFpReg) (nextFp o startFpReg)) ∧
      inst.D.valid = true ∧
      (r.orderedOuts.flatMap Output.pairs)[p]? = some (inst.D.logReg, inst.D.value) ∧
      inst.isLastPiece = (p + 1 == t.mTotalPieces) ∧
      Cursor r.orderedOuts (p + 1) (nextReg o regIdx startFpReg) (nextFp o startFpReg) := by
  obtain ⟨o, value, ho, hpair, hnext⟩ := hcursor.step hlane
  have hcreate := h.createBaseUpdateOp_plain hp regIdx startFpReg
  have hfit := h.piecesFit (p := p) (by unfold Record.plainPieces at hp; omega) regIdx startFpReg
  have htotal := h.total_lt
  have hlt : p + 1 < 256 := by
    unfold Record.plainPieces at hp
    omega
  have hreg : regIdx < r.outs.length :=
    r.length_orderedOuts ▸ (List.getElem?_eq_some_iff.mp ho).1
  have houts := r.length_outs
  have hvalue : (r.orderedOuts.flatMap Output.lanes)[p]? = some value := by
    rw [← map_snd_pairs, List.getElem?_map, hpair]
    rfl
  have hout := h.populateOutput_plain startFpReg ho hvalue (by omega)
  have hcrack := h.advanceCrack_after startFpReg ho hlt (by omega)
  have hprocessed : ((t.after p regIdx startFpReg).mProcessedPieces + 1) % 256 = p + 1 :=
    Nat.mod_eq_of_lt hlt
  have htaken : TraceReader.takenFits (t.after p regIdx startFpReg).mInstr.mType
      (t.after p regIdx startFpReg).mInstr.mTaken = true := h.taken
  unfold TraceReader.populateNewInstr
  simp only [hfit, hcreate, Bool.not_true, Bool.false_eq_true, if_false, htaken,
    h.populateInputs_plain, hout, ok_bind, hprocessed, hcrack]
  refine ⟨_, o, rfl, rfl, hpair, rfl, hnext⟩

theorem lane_plain (h : Loaded r t) {p : Nat} (hp : p < r.plainPieces t) (hnum : 1 ≤ r.outs.length)
    (regIdx startFpReg : Nat) : (t.after p regIdx startFpReg).lane = some p := by
  have hstore : (t.after p regIdx startFpReg).mInstr.mType.isStore = false := h.type ▸ h.store
  have hnum' : (t.after p regIdx startFpReg).mInstr.mNumOutRegs ≥ 1 := h.numOutRegs ▸ hnum
  unfold TraceReader.lane
  simp only [h.createBaseUpdateOp_plain hp, Bool.false_eq_true, if_false, hstore, Bool.not_false,
    hnum', decide_true, Bool.and_self, if_true]
  rfl

/-- The last piece of a record with base update. -/
theorem createBaseUpdateOp_last (h : Loaded r t) {b : Output} (hb : r.baseUpdOut = some b)
    (regIdx startFpReg : Nat) :
    (t.after (r.plainPieces t) regIdx startFpReg).createBaseUpdateOp = true := by
  have hmem : r.type.isMem = true := by simp [InstClass.isMem, (h.baseUpd b hb).2]
  obtain ⟨hpos, hsum⟩ := h.mem hmem
  rw [hb] at hsum
  have hplain : r.plainPieces t = t.mMemPieces := by
    simp only [Record.plainPieces, hb, Option.isSome_some, Bool.toNat_true] at hsum ⊢
    omega
  have htotal : t.mMemPieces + 1 = t.mTotalPieces := hsum
  simp [TraceReader.createBaseUpdateOp, TraceReader.after, h.type, hmem, hplain, hpos, htotal]

/-- The base-update piece carries the last lane. -/
theorem populate_base (h : Loaded r t) {b : Output} (hb : r.baseUpdOut = some b)
    (regIdx startFpReg : Nat) :
    ∃ inst t', (t.after (r.plainPieces t) regIdx startFpReg).populateNewInstr = .ok (inst, t') ∧
      inst.D.valid = true ∧ inst.D.logReg = b.reg.val ∧ inst.D.value = b.low.val ∧
      inst.isLastPiece = true := by
  obtain ⟨hlt, hload⟩ := h.baseUpd b hb
  have hint : regIsInt b.reg.val = true := by simp [regIsInt, hlt]
  have hmem : r.type.isMem = true := by simp [InstClass.isMem, hload]
  obtain ⟨hpos, hsum⟩ := h.mem hmem
  have hone : r.plainPieces t + 1 = t.mTotalPieces := by
    simp only [Record.plainPieces, hb, Option.isSome_some, Bool.toNat_true] at hsum ⊢
    omega
  have htotal := h.total_lt
  have hcreate := h.createBaseUpdateOp_last hb regIdx startFpReg
  have hfit := h.piecesFit (p := r.plainPieces t) (by omega) regIdx startFpReg
  have htype : t.mInstr.mType = .load := by
    rw [h.type]
    simpa [InstClass.isLoad] using hload
  have htaken : TraceReader.takenFits .alu t.mInstr.mTaken = true := by
    have := h.taken
    rw [htype] at this
    exact this
  have hreg : t.mInstr.mBaseUpdReg = some b.reg.val := by rw [h.baseUpdReg, hb]; rfl
  have hordered : r.orderedOuts = r.plainOuts ++ [b] := by simp [Record.orderedOuts, hb]
  have hlastReg : t.mInstr.mOutRegs.getLast? = some b.reg.val := by
    rw [h.outRegs, hordered]
    simp
  have hlastVal : t.mInstr.mOutRegsValues.getLast? = some b.low.val := by
    rw [h.values, hordered]
    simp [Output.lanes, hint]
  have hin : (t.after (r.plainPieces t) regIdx startFpReg).populateInputs true =
      .ok (TraceReader.input b.reg.val, {}, {}) := by
    unfold TraceReader.populateInputs
    simp only [if_true, TraceReader.after, hreg]
    rw [if_pos (by simp [hint, Nat.le_of_lt hlt])]
  have hout : (t.after (r.plainPieces t) regIdx startFpReg).populateOutput true =
      .ok ({ valid := true, isInt := true, logReg := b.reg.val, value := b.low.val },
        startFpReg) := by
    unfold TraceReader.populateOutput
    simp only [if_true, TraceReader.after, hreg, hlastReg, hlastVal, hint]
    simp
  have hlen : t.mInstr.mNumOutRegs = t.mInstr.mOutRegs.length := by
    rw [h.numOutRegs, h.outRegs, List.length_map, r.length_orderedOuts]
  obtain ⟨inst, t', hpop, -, -, -, hD⟩ := TraceReader.populateNewInstr_ok hcreate hfit htaken hin
    hout (fun hlt => hlen ▸ hlt)
  have hbuilt : TraceReader.Built _ inst t' := (TraceReader.populateNewInstr_built _).of_ok hpop
  refine ⟨inst, t', hpop, by rw [hD], by rw [hD], by rw [hD], ?_⟩
  rw [hbuilt.isLastPiece, hbuilt.processed]
  change ((r.plainPieces t + 1) % 256 == t.mTotalPieces) = true
  rw [Nat.mod_eq_of_lt (by omega), hone]
  exact beq_self_eq_true _

/-- The lanes that the pieces carry from piece `p` on: the plain pieces the lanes
of their numbers, the base-update piece the last one. -/
def carried (r : Record) (t : TraceReader) (p : Nat) : List (Option Nat) :=
  (List.range' p (r.plainPieces t - p)).map some ++
    r.baseUpdOut.toList.map fun _ => some (t.mInstr.mOutRegsValues.length - 1)

/-- The destination of the piece is the lane it carries. -/
def Delivers (r : Record) (q : Piece) : Prop :=
  q.inst.D.valid = true ∧ ∃ k, q.lane = some k ∧
    (r.orderedOuts.flatMap Output.pairs)[k]? = some (q.inst.D.logReg, q.inst.D.value)

/-- The last lane of a record with base update. -/
theorem last_lane (h : Loaded r t) {b : Output} (hb : r.baseUpdOut = some b) :
    t.mInstr.mOutRegsValues.length - 1 = (r.plainOuts.flatMap Output.pairs).length ∧
      (r.orderedOuts.flatMap Output.pairs)[(r.plainOuts.flatMap Output.pairs).length]? =
        some (b.reg.val, b.low.val) := by
  obtain ⟨hlt, -⟩ := h.baseUpd b hb
  have hint : regIsInt b.reg.val = true := by simp [regIsInt, hlt]
  have hpairs : r.orderedOuts.flatMap Output.pairs =
      r.plainOuts.flatMap Output.pairs ++ [(b.reg.val, b.low.val)] := by
    simp [Record.orderedOuts, hb, Output.pairs, Output.lanes, hint]
  refine ⟨?_, by rw [hpairs]; simp⟩
  rw [h.values, ← map_snd_pairs, List.length_map, hpairs]
  simp

/-- **The pieces of a loaded record** carry its first lanes, one each, and with a
base update the last piece carries the last lane. -/
theorem getPieces_after (h : Loaded r t) (u : Uninit) (hnum : 1 ≤ r.outs.length)
    (hlanes : r.plainPieces t ≤ (r.plainOuts.flatMap Output.pairs).length)
    {n p regIdx startFpReg : Nat} (hn : t.mTotalPieces ≤ p + n) (hp : p < t.mTotalPieces)
    (hcursor : Cursor r.orderedOuts p regIdx startFpReg) :
    ∃ pieces, (t.after p regIdx startFpReg).getPieces u n = .ok pieces ∧
      pieces.map Piece.lane = carried r t p ∧ ∀ q ∈ pieces, Delivers r q := by
  induction n generalizing p regIdx startFpReg with
  | zero => omega
  | succ n ih =>
    obtain ⟨hget, hready⟩ := TraceReader.getInst_after u t p regIdx startFpReg hp
    have hplain : r.plainPieces t = t.mTotalPieces - r.baseUpdOut.isSome.toNat := rfl
    rcases Nat.lt_or_ge p (r.plainPieces t) with hlt | hge
    · have hlane : p < (r.orderedOuts.flatMap Output.pairs).length := by
        simp only [Record.orderedOuts, List.flatMap_append, List.length_append]
        omega
      obtain ⟨inst, o, hpop, hvalid, hpair, hlast, hnext⟩ := h.populate_plain hlt hcursor hlane
      have hcarried : carried r t p = some p :: carried r t (p + 1) := by
        unfold carried
        have hcount : r.plainPieces t - p = (r.plainPieces t - (p + 1)) + 1 := by omega
        rw [hcount, List.range'_succ]
        rfl
      have hdelivers : Delivers r { inst := inst, lane := some p } := ⟨hvalid, p, rfl, hpair⟩
      unfold TraceReader.getPieces
      rw [hget, hpop, ok_bind, ok_bind]
      simp only [hready, h.lane_plain hlt hnum]
      cases hl : inst.isLastPiece with
      | true =>
        have hend : p + 1 = t.mTotalPieces := by simpa [hlast] using hl
        have hnone : r.baseUpdOut = none := by
          cases hb : r.baseUpdOut with
          | none => rfl
          | some b => rw [hb] at hplain; simp at hplain; omega
        refine ⟨_, rfl, ?_, ?_⟩
        · rw [hcarried]
          have hdone : r.plainPieces t - (p + 1) = 0 := by omega
          simp [carried, hdone, hnone]
        · intro q hq
          obtain rfl := List.mem_singleton.mp hq
          exact hdelivers
      | false =>
        have hmore : p + 1 ≠ t.mTotalPieces := by
          rw [hlast] at hl
          simpa using hl
        obtain ⟨pieces, hpieces, hmap, hall⟩ := ih (p := p + 1) (by omega) (by omega) hnext
        refine ⟨{ inst := inst, lane := some p } :: pieces, ?_, ?_, ?_⟩
        · simp only [Bool.false_eq_true, if_false, hpieces, ok_bind]
        · rw [List.map_cons, hmap, hcarried]
        · intro q hq
          rcases List.mem_cons.mp hq with rfl | hq
          · exact hdelivers
          · exact hall q hq
    · obtain ⟨b, hb⟩ : ∃ b, r.baseUpdOut = some b := by
        cases hb : r.baseUpdOut with
        | none => rw [hb] at hplain; simp at hplain; omega
        | some b => exact ⟨b, rfl⟩
      obtain rfl : p = r.plainPieces t := by
        rw [hb] at hplain
        simp at hplain
        omega
      obtain ⟨inst, t', hpop, hvalid, hreg, hvalue, hlast⟩ := h.populate_base hb regIdx startFpReg
      obtain ⟨hidx, hpair⟩ := h.last_lane hb
      have hlane : (t.after (r.plainPieces t) regIdx startFpReg).lane =
          some (t.mInstr.mOutRegsValues.length - 1) := by
        rw [TraceReader.lane, if_pos (h.createBaseUpdateOp_last hb regIdx startFpReg)]
        rfl
      unfold TraceReader.getPieces
      rw [hget, hpop, ok_bind, ok_bind]
      simp only [hready, hlane, hlast, if_true]
      refine ⟨_, rfl, by simp [carried, hb], ?_⟩
      intro q hq
      obtain rfl := List.mem_singleton.mp hq
      exact ⟨hvalid, _, rfl, by rw [hidx, hpair, hreg, hvalue]⟩

end Loaded

/-! ## Which lanes are lost -/

/-- A piece is counted for every lane that must be delivered. -/
theorem count_needed (outs : List Output) :
    (outs.flatMap Output.needed).count true = outs.length + outs.countP Output.hasHigh := by
  induction outs with
  | nil => rfl
  | cons o outs ih =>
    rw [List.flatMap_cons, List.count_append, ih, List.length_cons, List.countP_cons]
    cases hint : regIsInt o.reg.val with
    | true =>
      simp only [Output.needed, Output.hasHigh, hint, if_true, List.count_singleton_self,
        Bool.not_true, Bool.false_and, Bool.false_eq_true, if_false]
      omega
    | false =>
      cases hhigh : (o.high != 0) with
      | true =>
        simp [Output.needed, Output.hasHigh, hint, hhigh]
        omega
      | false =>
        simp [Output.needed, Output.hasHigh, hint, hhigh]
        omega

/-- When every lane that must be delivered is among the first `n`, there are at
most `n`, and exactly `n` only if all of the first `n` must. -/
theorem count_le_of_before {flags : List Bool} {n : Nat}
    (h : ∀ k, flags[k]? = some true → k < n) :
    flags.count true ≤ n ∧ (flags.count true = n → ∀ k, k < n → flags[k]? = some true) := by
  have hdrop : (flags.drop n).count true = 0 := by
    rw [List.count_eq_zero]
    intro hmem
    obtain ⟨k, hk⟩ := List.mem_iff_getElem?.mp hmem
    rw [List.getElem?_drop] at hk
    have := h (n + k) hk
    omega
  have hcount : flags.count true = (flags.take n).count true := by
    conv_lhs => rw [← List.take_append_drop n flags, List.count_append, hdrop, Nat.add_zero]
  have hlen : (flags.take n).count true ≤ (flags.take n).length := List.count_le_length
  have htake : (flags.take n).length ≤ n := List.length_take_le n flags
  refine ⟨by omega, ?_⟩
  intro heq k hk
  have hall : ∀ b ∈ flags.take n, true = b := List.count_eq_length.mp (by omega)
  have hklt : k < (flags.take n).length := by omega
  have hget := hall _ (List.getElem_mem hklt)
  rw [← List.getElem?_take_of_lt hk, List.getElem?_eq_getElem hklt, ← hget]

/-- The condition on the outputs under which no lane is lost. -/
def FullHalves (outs : List Output) : Prop :=
  ∀ o ∈ outs.dropLast, regIsInt o.reg.val = true ∨ o.high ≠ 0

theorem needed_before_of_full {outs : List Output} (h : FullHalves outs) {k : Nat}
    (hk : (outs.flatMap Output.needed)[k]? = some true) :
    k < outs.length + outs.countP Output.hasHigh := by
  rcases List.eq_nil_or_concat outs with rfl | ⟨init, last, rfl⟩
  · simp at hk
  · rw [List.concat_eq_append] at h hk ⊢
    rw [FullHalves, List.dropLast_concat] at h
    have hinit : (init.flatMap Output.needed).length =
        (init.flatMap Output.needed).count true := by
      symm
      rw [List.count_eq_length]
      intro b hb
      obtain ⟨o, ho, hb⟩ := List.mem_flatMap.mp hb
      rcases h o ho with hint | hhigh
      · simpa [Output.needed, hint, eq_comm] using hb
      · unfold Output.needed at hb
        split at hb
        · simpa [eq_comm] using hb
        · have hne : (o.high != 0) = true := by simpa using hhigh
          simpa [hne, eq_comm] using hb
    rw [count_needed] at hinit
    rw [List.flatMap_append] at hk
    have hlt : k < (init.flatMap Output.needed).length + ([last].flatMap Output.needed).length := by
      rw [← List.length_append]
      exact (List.getElem?_eq_some_iff.mp hk).1
    rw [List.length_append, List.countP_append, List.length_singleton, List.countP_singleton]
    rw [hinit] at hlt
    cases hint : regIsInt last.reg.val with
    | true =>
      simp only [List.flatMap_singleton, Output.needed, hint, if_true, List.length_singleton] at hlt
      omega
    | false =>
      cases hhigh : (last.high != 0) with
      | true =>
        simp only [List.flatMap_singleton, Output.needed, hint, Bool.false_eq_true, if_false,
          List.length_cons, List.length_nil] at hlt
        simp only [Output.hasHigh, hint, hhigh, Bool.not_false, Bool.and_self, if_true]
        omega
      | false =>
        by_contra hge
        have hidx : k = init.length + init.countP Output.hasHigh + 1 := by
          simp only [List.flatMap_singleton, Output.needed, hint, Bool.false_eq_true, if_false,
            List.length_cons, List.length_nil] at hlt
          omega
        rw [List.getElem?_append_right (by omega)] at hk
        have hone : k - (init.flatMap Output.needed).length = 1 := by omega
        rw [hone] at hk
        simp [Output.needed, hint, hhigh] at hk

theorem full_of_needed_before {outs : List Output}
    (h : ∀ k, (outs.flatMap Output.needed)[k]? = some true →
      k < outs.length + outs.countP Output.hasHigh) : FullHalves outs := by
  intro o ho
  by_contra hbad
  obtain ⟨hint, hhigh⟩ : regIsInt o.reg.val = false ∧ o.high = 0 := by simpa using hbad
  obtain ⟨front, back, hsplit⟩ := List.append_of_mem ho
  obtain ⟨next, rest, hback⟩ : ∃ next rest, outs = front ++ o :: next :: rest := by
    have hne : outs ≠ [] := by
      rintro rfl
      simp at ho
    have hconcat := List.dropLast_append_getLast hne
    rw [hsplit, List.append_assoc, List.cons_append] at hconcat
    cases back with
    | nil => exact ⟨_, [], hconcat.symm⟩
    | cons next back => exact ⟨next, _, hconcat.symm⟩
  have hflags : outs.flatMap Output.needed =
      front.flatMap Output.needed ++ ([true, false] ++ (next :: rest).flatMap Output.needed) := by
    rw [hback]
    simp [Output.needed, hint, hhigh]
  have hnext : ∃ tail, (next :: rest).flatMap Output.needed = true :: tail := by
    rw [List.flatMap_cons]
    unfold Output.needed
    split <;> exact ⟨_, rfl⟩
  obtain ⟨tail, htail⟩ := hnext
  rw [htail] at hflags
  have hafter : (outs.flatMap Output.needed)[(front.flatMap Output.needed).length + 2]? =
      some true := by
    rw [hflags, List.getElem?_append_right (by omega), Nat.add_sub_cancel_left]
    rfl
  have hzero : (outs.flatMap Output.needed)[(front.flatMap Output.needed).length + 1]? =
      some false := by
    rw [hflags, List.getElem?_append_right (by omega), Nat.add_sub_cancel_left]
    rfl
  have hlt := h _ hafter
  have htrue := (count_le_of_before h).2 (count_needed outs)
    ((front.flatMap Output.needed).length + 1) (by omega)
  rw [hzero] at htrue
  simp at htrue

/-! ## The main result -/

theorem length_flags (outs : List Output) :
    (outs.flatMap Output.needed).length = (outs.flatMap Output.pairs).length := by
  induction outs with
  | nil => rfl
  | cons o outs ih =>
    rw [List.flatMap_cons, List.flatMap_cons, List.length_append, List.length_append, ih]
    congr 1
    unfold Output.needed Output.pairs Output.lanes
    split <;> rfl

theorem length_needed_le (outs : List Output) :
    outs.length + outs.countP Output.hasHigh ≤ (outs.flatMap Output.pairs).length := by
  rw [← count_needed, ← length_flags]
  exact List.count_le_length

/-- The pieces that carry lane `k`, when the lanes carried are distinct. -/
theorem filter_lane {pieces : List Piece} {k : Nat} (hnodup : (pieces.map Piece.lane).Nodup)
    (hmem : some k ∈ pieces.map Piece.lane) :
    ∃ q ∈ pieces, q.lane = some k ∧ (pieces.filter fun q => q.lane == some k) = [q] := by
  obtain ⟨q, hq, hlane⟩ := List.mem_map.mp hmem
  refine ⟨q, hq, hlane, ?_⟩
  obtain ⟨front, back, rfl⟩ := List.append_of_mem hq
  rw [List.map_append, List.map_cons, hlane] at hnodup
  have hdisjoint := List.nodup_append.mp hnodup
  have hfront : ∀ x ∈ front, (x.lane == some k) = false := by
    intro x hx
    rw [beq_eq_false_iff_ne]
    exact hdisjoint.2.2 _ (List.mem_map_of_mem hx) _ List.mem_cons_self
  have hback : ∀ x ∈ back, (x.lane == some k) = false := by
    intro x hx
    rw [beq_eq_false_iff_ne]
    intro heq
    exact (List.nodup_cons.mp hdisjoint.2.1).1 (heq ▸ List.mem_map_of_mem hx)
  rw [List.filter_append, List.filter_cons_of_pos (by simp [hlane]),
    List.filter_eq_nil_iff.mpr (by simpa using hfront),
    List.filter_eq_nil_iff.mpr (by simpa using hback), List.nil_append]

namespace Loaded

variable {r : Record} {t : TraceReader}

/-- A high half that is not zero is not in the base-update register. -/
theorem counts (h : Loaded r t) :
    r.outs.length = r.plainOuts.length + r.baseUpdOut.isSome.toNat ∧
      r.outs.countP Output.hasHigh = r.plainOuts.countP Output.hasHigh := by
  have hlen := r.length_orderedOuts
  have hcount := r.orderedOuts_perm.countP_eq Output.hasHigh
  cases hb : r.baseUpdOut with
  | none => simp_all [Record.orderedOuts]
  | some b =>
    obtain ⟨hlt, -⟩ := h.baseUpd b hb
    have hno : Output.hasHigh b = false := by simp [Output.hasHigh, regIsInt, hlt]
    simp [Record.orderedOuts, hb, hno] at hlen hcount
    exact ⟨by simpa using hlen.symm, hcount.symm⟩

theorem after_zero (h : Loaded r t) : t.after 0 0 0 = t := by
  obtain ⟨hprocessed, hreg, hval, hfp⟩ := h.start
  cases t
  simp only at hprocessed hreg hval hfp
  subst hprocessed hreg hval hfp
  rfl

/-- With outputs, the record is cracked into pieces that carry its first lanes. -/
theorem pieces (h : Loaded r t) (u : Uninit) (hnum : 1 ≤ r.outs.length) :
    ∃ pieces, t.getPieces u 255 = .ok pieces ∧ pieces.map Piece.lane = carried r t 0 ∧
      ∀ q ∈ pieces, Delivers r q := by
  obtain ⟨hlen, hcount⟩ := h.counts
  have htotal := h.total
  have hpos := h.total_pos
  have hlt := h.total_lt
  have hle := length_needed_le r.plainOuts
  have hlanes : r.plainPieces t ≤ (r.plainOuts.flatMap Output.pairs).length := by
    unfold Record.plainPieces
    rw [Nat.max_eq_right hnum] at htotal
    have := Nat.mod_le (r.outs.length + r.outs.countP Output.hasHigh) 256
    omega
  have hresult := h.getPieces_after u hnum hlanes (n := 255) (p := 0) (by omega) (by omega)
    (cursor_start r.orderedOuts)
  rwa [h.after_zero] at hresult

end Loaded

namespace Loaded

variable {r : Record} {t : TraceReader}

/-- The lanes carried are distinct; they are the first ones and the last one. -/
theorem carried_spec (h : Loaded r t)
    (hlanes : r.plainPieces t ≤ (r.plainOuts.flatMap Output.pairs).length) :
    (carried r t 0).Nodup ∧ ∀ k, some k ∈ carried r t 0 ↔
      k < r.plainPieces t ∨
        (r.baseUpdOut.isSome = true ∧ k = (r.plainOuts.flatMap Output.pairs).length) := by
  have hmem : ∀ k, some k ∈ (List.range' 0 (r.plainPieces t - 0)).map some ↔
      k < r.plainPieces t := by
    intro k
    simp [List.mem_range']
  have hnodup : ((List.range' 0 (r.plainPieces t - 0)).map some).Nodup :=
    List.Nodup.map (Option.some_injective _) List.nodup_range'
  unfold carried
  cases hb : r.baseUpdOut with
  | none => exact ⟨by simpa using hnodup, fun k => by simp [List.mem_range']⟩
  | some b =>
    obtain ⟨hidx, -⟩ := h.last_lane hb
    rw [hidx]
    constructor
    · refine List.nodup_append.mpr ⟨hnodup, by simp, ?_⟩
      intro x hx y hy
      obtain ⟨k, hk, rfl⟩ := List.mem_map.mp hx
      have hlt := (hmem k).mp hx
      have hy : y = some (r.plainOuts.flatMap Output.pairs).length := by simpa using hy
      rw [hy]
      simp only [ne_eq, Option.some.injEq]
      omega
    · intro k
      rw [List.mem_append, hmem]
      simp

/-- The lanes that must be delivered are those of the plain outputs and of the
base-update register. -/
theorem needed_iff (h : Loaded r t) (k : Nat) :
    r.needed[k]? = some true ↔ (r.plainOuts.flatMap Output.needed)[k]? = some true ∨
      (r.baseUpdOut.isSome = true ∧ k = (r.plainOuts.flatMap Output.pairs).length) := by
  unfold Record.needed Record.orderedOuts
  rw [List.flatMap_append, ← length_flags]
  cases hb : r.baseUpdOut with
  | none => simp
  | some b =>
    obtain ⟨hlt, -⟩ := h.baseUpd b hb
    have hint : regIsInt b.reg.val = true := by simp [regIsInt, hlt]
    have hlast : [b].flatMap Output.needed = [true] := by simp [Output.needed, hint]
    rw [Option.toList_some, hlast]
    generalize r.plainOuts.flatMap Output.needed = flags
    rcases Nat.lt_trichotomy k flags.length with hk | hk | hk
    · rw [List.getElem?_append_left hk]
      simp [Nat.ne_of_lt hk]
    · simp [hk]
    · have hnone : flags[k]? = none := List.getElem?_eq_none (Nat.le_of_lt hk)
      have hnone' : (flags ++ [true])[k]? = none :=
        List.getElem?_eq_none (by rw [List.length_append, List.length_singleton]; omega)
      simp [hnone, hnone', Nat.ne_of_gt hk]

/-- Nothing is lost exactly when the plain lanes that must be delivered are
carried by the plain pieces. -/
theorem losesNothing_iff_before (h : Loaded r t) (u : Uninit) (hnum : 1 ≤ r.outs.length)
    (hlanes : r.plainPieces t ≤ (r.plainOuts.flatMap Output.pairs).length)
    {t₀ : TraceReader} (hpieces : t₀.getPieces u 255 = t.getPieces u 255) :
    LosesNothing u r t₀ ↔
      ∀ k, (r.plainOuts.flatMap Output.needed)[k]? = some true → k < r.plainPieces t := by
  obtain ⟨pieces, hget, hmap, hall⟩ := h.pieces u hnum
  obtain ⟨hnodup, hcarried⟩ := h.carried_spec hlanes
  rw [← hmap] at hnodup hcarried
  constructor
  · rintro ⟨pieces', hget', -, hdelivered⟩ k hk
    obtain rfl : pieces = pieces' := by
      rw [hpieces, hget] at hget'
      exact Except.ok.inj hget'
    obtain ⟨q, hq, -⟩ := hdelivered k ((h.needed_iff k).mpr (Or.inl hk))
    have hmem : q ∈ pieces.filter fun q => q.lane == some k := by rw [hq]; simp
    obtain ⟨hmem, hlane⟩ := List.mem_filter.mp hmem
    have hlane : q.lane = some k := by simpa using hlane
    rcases (hcarried k).mp (hlane ▸ List.mem_map_of_mem hmem) with hlt | ⟨-, heq⟩
    · exact hlt
    · have hlt := (List.getElem?_eq_some_iff.mp hk).1
      rw [length_flags] at hlt
      omega
  · intro hbefore
    -- a lane that must be delivered has its piece
    have hpiece : ∀ k, r.needed[k]? = some true → ∃ q ∈ pieces,
        (pieces.filter fun q => q.lane == some k) = [q] ∧ q.inst.D.valid = true ∧
        (r.orderedOuts.flatMap Output.pairs)[k]? = some (q.inst.D.logReg, q.inst.D.value) := by
      intro k hk
      have hmem : some k ∈ pieces.map Piece.lane := by
        rw [hcarried]
        rcases (h.needed_iff k).mp hk with hplain | hbase
        · exact Or.inl (hbefore k hplain)
        · exact Or.inr hbase
      obtain ⟨q, hq, hlane, hfilter⟩ := filter_lane hnodup hmem
      obtain ⟨hvalid, k', hlane', hpair⟩ := hall q hq
      obtain rfl : k = k' := Option.some.inj (hlane.symm.trans hlane')
      exact ⟨q, hq, hfilter, hvalid, hpair⟩
    refine ⟨pieces, hpieces.trans hget, ?_, ?_⟩
    · intro o ho
      obtain ⟨front, back, hsplit⟩ := List.append_of_mem (r.orderedOuts_perm.mem_iff.mpr ho)
      have hflag : r.needed[(front.flatMap Output.pairs).length]? = some true := by
        rw [Record.needed, hsplit, List.flatMap_append, ← length_flags,
          List.getElem?_append_right (Nat.le_refl _), Nat.sub_self, List.flatMap_cons]
        unfold Output.needed
        split <;> rfl
      obtain ⟨q, hq, -, hvalid, hpair⟩ := hpiece _ hflag
      refine ⟨q, hq, hvalid, ?_⟩
      rw [hsplit, List.flatMap_append, List.getElem?_append_right (Nat.le_refl _), Nat.sub_self,
        List.flatMap_cons] at hpair
      have hfirst : (o.pairs ++ back.flatMap Output.pairs)[0]? = some (o.reg.val, o.low.val) := by
        unfold Output.pairs Output.lanes
        split <;> rfl
      rw [hfirst] at hpair
      exact (Prod.mk.inj (Option.some.inj hpair)).1.symm
    · intro k hk
      obtain ⟨q, -, hfilter, hvalid, hpair⟩ := hpiece k hk
      refine ⟨q, hfilter, hvalid, ?_⟩
      rw [← map_snd_pairs, List.getElem?_map, hpair]
      rfl

/-- A record without outputs is cracked into one piece. -/
theorem pieces_none (h : Loaded r t) (u : Uninit) (hnone : r.outs = []) :
    ∃ pieces, t.getPieces u 255 = .ok pieces := by
  have htotal : t.mTotalPieces = 1 := by
    rw [h.total, hnone]
    rfl
  have hbase : r.baseUpdOut = none := by
    cases hb : r.baseUpdOut with
    | none => rfl
    | some b =>
      have hlen := h.counts.1
      rw [hnone, hb] at hlen
      simp at hlen
  have hplain : 0 < r.plainPieces t := by simp [Record.plainPieces, hbase, htotal]
  have hstore : t.mInstr.mType.isStore = false := h.type ▸ h.store
  have hnum : t.mInstr.mNumOutRegs = 0 := by rw [h.numOutRegs, hnone]; rfl
  have hout : t.populateOutput false = .ok ({}, 0) := by
    unfold TraceReader.populateOutput
    simp [hnum]
  have hin := h.populateInputs_plain 0 0 0
  have hfit := h.piecesFit (p := 0) (by omega) 0 0
  have hcreate := h.createBaseUpdateOp_plain hplain 0 0
  rw [h.after_zero] at hin hfit hcreate
  obtain ⟨hget, -⟩ := TraceReader.getInst_after u t 0 0 0 (by omega)
  rw [h.after_zero] at hget
  have hprocessed : t.mProcessedPieces = 0 := h.start.1
  unfold TraceReader.getPieces
  rw [hget, TraceReader.populateNewInstr]
  simp only [hfit, hcreate, Bool.not_true, Bool.false_eq_true, if_false, h.taken, hin, hout, ok_bind]
  simp only [TraceReader.advanceCrack, hnum, Nat.not_lt_zero, gt_iff_lt, if_false, ok_bind,
    hprocessed, htotal]
  exact ⟨_, rfl⟩

/-- The first call reads the record, then builds the piece as any other. -/
theorem getPieces_of_read {t' : TraceReader} (h : Loaded r t') (u : Uninit)
    (hdone : t.mProcessedPieces = t.mTotalPieces) (hread : t.readInstr u = .ok (true, t'))
    (n : Nat) : t.getPieces u n = t'.getPieces u n := by
  have hne : t'.mProcessedPieces ≠ t'.mTotalPieces := by
    have := h.start.1
    have := h.total_pos
    omega
  exact TraceReader.getPieces_of_read u hdone hread hne n

/-- Loaded, a record loses nothing exactly when its pieces are counted without
overflow and only its last plain output may have a zero high half. -/
theorem losesNothing_iff_full (h : Loaded r t) (u : Uninit) {t₀ : TraceReader}
    (hpieces : t₀.getPieces u 255 = t.getPieces u 255) :
    LosesNothing u r t₀ ↔ r.outs.length + r.outs.countP Output.hasHigh < 256 ∧
      FullHalves r.plainOuts := by
  rcases Nat.eq_zero_or_pos r.outs.length with hzero | hnum
  · -- no outputs, nothing to lose
    have hnone : r.outs = [] := List.length_eq_zero_iff.mp hzero
    have hordered : r.orderedOuts = [] :=
      List.length_eq_zero_iff.mp (r.length_orderedOuts.trans hzero)
    have hplain : r.plainOuts = [] := (List.append_eq_nil_iff.mp hordered).1
    obtain ⟨pieces, hget⟩ := h.pieces_none u hnone
    refine iff_of_true ⟨pieces, hpieces.trans hget, ?_, ?_⟩ ⟨?_, ?_⟩
    · simp [hnone]
    · simp [Record.needed, hordered]
    · simp [hnone]
    · simp [FullHalves, hplain]
  · obtain ⟨hlen, hcount⟩ := h.counts
    have htotal := h.total
    have hpos := h.total_pos
    have hplain : r.plainPieces t = t.mTotalPieces - r.baseUpdOut.isSome.toNat := rfl
    have hbase : r.baseUpdOut.isSome.toNat ≤ 1 := Bool.toNat_le _
    have hle := length_needed_le r.plainOuts
    rw [Nat.max_eq_right hnum] at htotal
    have hmod := Nat.mod_le (r.outs.length + r.outs.countP Output.hasHigh) 256
    rw [h.losesNothing_iff_before u hnum (by omega) hpieces]
    constructor
    · intro hbefore
      have hcounted := (count_le_of_before hbefore).1
      rw [count_needed] at hcounted
      have hlt : r.outs.length + r.outs.countP Output.hasHigh < 256 := by
        have := Nat.mod_lt (r.outs.length + r.outs.countP Output.hasHigh) (by decide : 256 > 0)
        omega
      rw [Nat.mod_eq_of_lt hlt] at htotal
      refine ⟨hlt, full_of_needed_before fun k hk => ?_⟩
      have := hbefore k hk
      omega
    · rintro ⟨hlt, hfull⟩ k hk
      have hk := needed_before_of_full hfull hk
      rw [Nat.mod_eq_of_lt hlt] at htotal
      omega

end Loaded

/-- **Cracking loses no destination exactly when** the pieces of the record are
counted without overflow and every SIMD output but the last has a high half that
is not zero. -/
theorem losesNothing_iff (u : Uninit) (r : Record) (haccepted : r.Accepted u)
    (hstore : r.type.isStore = false) (t : TraceReader) (rest : List Byte)
    (ht : t.dpressedInput = onBytes (r.encode ++ rest))
    (hdone : t.mProcessedPieces = t.mTotalPieces) :
    LosesNothing u r t ↔
      r.outs.length + r.outs.countP Output.hasHigh < 256 ∧
        ∀ o ∈ r.plainOuts.dropLast, regIsInt o.reg.val = true ∨ o.high ≠ 0 := by
  have hclean : r.Clean := by simp [Record.Clean, hstore]
  obtain ⟨t', hread, -⟩ := haccepted.read hclean ht
  have hloaded := loaded_of_read hstore ht hread
  exact hloaded.losesNothing_iff_full u (hloaded.getPieces_of_read u hdone hread 255)

/-- A floating-point instruction that writes two registers. -/
def writesTwo (first second : Byte) : Record where
  pc := 4096
  typeByte := 6
  effAddr := 0
  memSize := 0
  baseUpd := 0
  hasRegOffset := 0
  taken := false
  target := 0
  inRegs := [40]
  outs := [⟨first, 3, 0⟩, ⟨second, 7, 0⟩]
  length_inRegs := by decide
  length_outs := by simp

theorem losesNothing_intThenSimd :
    LosesNothing ⟨0, 0, 0, 0⟩ (writesTwo 1 33)
      (TraceReader.new ⟨0, 0, 0, 0⟩ ((writesTwo 1 33).encode ++ [])) :=
  (losesNothing_iff ⟨0, 0, 0, 0⟩ (writesTwo 1 33) (Record.accepted_of_isOk (by decide +kernel))
    (by decide) _ [] rfl rfl).mpr (by decide)

/-- Two SIMD registers with zero high halves: both pieces go to the first. -/
theorem secondSimd_lost :
    (writesTwo 32 33).Accepted ⟨0, 0, 0, 0⟩ ∧ (writesTwo 32 33).type.isStore = false ∧
      ¬ LosesNothing ⟨0, 0, 0, 0⟩ (writesTwo 32 33)
        (TraceReader.new ⟨0, 0, 0, 0⟩ (writesTwo 32 33).encode) := by
  refine ⟨Record.accepted_of_isOk (by decide +kernel), by decide, ?_⟩
  rintro ⟨pieces, hpieces, hregs, -⟩
  obtain ⟨p, hp, -, hreg⟩ := hregs ⟨33, 7, 0⟩ (by decide)
  -- no piece of the run has destination 33
  have hnone : ∀ pieces, (TraceReader.new ⟨0, 0, 0, 0⟩ (writesTwo 32 33).encode).getPieces
      ⟨0, 0, 0, 0⟩ 255 = .ok pieces → ∀ p ∈ pieces, p.inst.D.logReg = 32 := by
    have hrun : ((TraceReader.new ⟨0, 0, 0, 0⟩ (writesTwo 32 33).encode).getPieces
        ⟨0, 0, 0, 0⟩ 255).toOption.all (fun pieces => pieces.all fun p => p.inst.D.logReg == 32)
        = true := by decide +kernel
    intro pieces hget p hp
    rw [hget] at hrun
    simpa using List.all_eq_true.mp hrun p hp
  have := hnone pieces hpieces p hp
  rw [hreg] at this
  exact absurd this (by decide)

end CbpSim.Trace
