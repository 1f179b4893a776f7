/-
  Trace/Decode.lean --- `readInstr` on an encoded record.

  The bytes in front of the reader are those of a record and an arbitrary rest.
  Phase by phase the reader takes exactly the bytes of one field, so what it makes
  of the record does not depend on the rest, nor on what it read before: it is
  `Record.digest`.

  Source: src/lib/trace_reader.h, `readInstr`.
-/
import CbpSim.Foundation.Run
import CbpSim.Trace.Format

set_option autoImplicit false

namespace CbpSim.Trace

open CbpSim.Foundation

/-- A stream that has not hit its end. -/
abbrev onBytes (bytes : List Byte) : InStream := { bytes := bytes, eof := false }

/-! ## Fields -/

theorem leBytes_one (b : Byte) : leBytes 1 b.val = [b] := by
  have hmod : b.val % 256 = b.val := Nat.mod_eq_of_lt b.isLt
  simp [leBytes, hmod]

theorem readInto_byte (b : Byte) (rest : List Byte) (old : Nat) :
    (onBytes (b :: rest)).readInto 1 old = (b.val, onBytes rest) := by
  have h := InStream.readInto_leBytes (w := 1) old rest (x := b.val) (by simp)
  rwa [leBytes_one] at h

theorem readInto_word (x : Word) (rest : List Byte) (old : Nat) :
    (onBytes (leBytes 8 x.val ++ rest)).readInto 8 old = (x.val, onBytes rest) :=
  InStream.readInto_leBytes old rest (lt_of_lt_of_eq x.isLt (by norm_num))

theorem readType_byte (m : Instr) (b : Byte) (rest : List Byte) :
    readType m (onBytes (b :: rest)) = ({ m with mType := .ofByte b.val }, onBytes rest) := by
  have hread : (onBytes ([b] ++ rest)).read 1 = ([b], onBytes rest) := InStream.read_append rfl
  rw [List.singleton_append] at hread
  rw [readType, hread]

theorem readRegs_bytes (junk : Nat → Nat) (bytes rest : List Byte) (i : Nat) :
    readRegs junk bytes.length i (onBytes (bytes ++ rest)) = (bytes.map Fin.val, onBytes rest) := by
  induction bytes generalizing i with
  | nil => rfl
  | cons b bytes ih =>
    rw [List.length_cons, readRegs, List.cons_append, readInto_byte]
    simp only [ih, List.map_cons]

theorem readMem_bytes {r : Record} {m : Instr} (htype : m.mType = r.type) (rest : List Byte) :
    readMem m (onBytes (r.memBytes ++ rest)) =
      ({ m with
          mEffAddr := if r.type.isMem then r.effAddr.val else m.mEffAddr
          mMemSize := if r.type.isMem then r.memSize.val else m.mMemSize
          mBaseUpd := if r.type.isMem then r.baseUpd.val else m.mBaseUpd
          mHasRegOffset := if r.type.isStore then r.hasRegOffset.val else m.mHasRegOffset },
        onBytes rest) := by
  unfold readMem Record.memBytes
  rw [← htype]
  cases hmem : m.mType.isMem with
  | false =>
    have hstore : m.mType.isStore = false := by
      cases hs : m.mType.isStore with
      | false => rfl
      | true => simp [InstClass.isMem, hs] at hmem
    simp [hstore]
  | true =>
    cases hstore : m.mType.isStore with
    | false => simp [readInto_word, readInto_byte, hstore]
    | true => simp [readInto_word, readInto_byte, hstore]

theorem readBranch_bytes {r : Record} {m : Instr} (htype : m.mType = r.type)
    (htaken : m.mTaken = false) (rest : List Byte) :
    readBranch m (onBytes (r.branchBytes ++ rest)) =
      if r.type.isUncondBr && !r.taken then .error .readUncondTaken
      else .ok ({ m with
          mTaken := r.jumps
          mNextPc := if r.jumps then r.target.val else m.mNextPc }, onBytes rest) := by
  unfold readBranch Record.branchBytes Record.jumps
  rw [← htype]
  cases hbr : m.mType.isBr with
  | false =>
    have hm : { m with mTaken := false } = m := by rw [← htaken]
    simp [InstClass.isUncondBr, hbr, hm]
  | true =>
    cases ht : r.taken with
    | false =>
      have hread := readInto_byte 0 rest m.mTaken.toNat
      cases hc : m.mType.isCondBr <;> simp_all [InstClass.isCondBr, InstClass.isUncondBr]
    | true =>
      have hread := readInto_byte 1 (leBytes 8 r.target.val ++ rest) m.mTaken.toNat
      simp [InstClass.isUncondBr, hread, readInto_word]

/-! ## Output values -/

/-- The loop over the output values, given the outputs instead of their bytes. -/
def takeOutputs (mType : InstClass) (baseUpd : Option Nat) :
    List Output → Nat → Values → Except Abort Values
  | [], _, v => .ok v
  | o :: outs, i, v =>
    if baseUpd = some o.reg.val then
      if v.baseUpdPosInOutRegs ≠ 255 then .error .readBaseUpdTwice
      else
        takeOutputs mType baseUpd outs (i + 1)
          { v with baseUpdPosInOutRegs := i, baseUpdVal := o.low.val }
    else if regIsInt o.reg.val then
      takeOutputs mType baseUpd outs (i + 1)
        { v with mOutRegsValues := v.mOutRegsValues ++ [o.low.val] }
    else if mType.isStore then .error .readStoreSimd
    else
      takeOutputs mType baseUpd outs (i + 1)
        { v with
          mOutRegsValues := v.mOutRegsValues ++ [o.low.val, o.high.val]
          mTotalPieces := if o.high.val ≠ 0 then (v.mTotalPieces + 1) % 256 else v.mTotalPieces }

/-- The loop takes the bytes of the outputs, provided that the base-update
register is an integer register. -/
theorem readValues_bytes {junk : Nat → Nat} {mType : InstClass} {baseUpd : Option Nat}
    {outs : List Output} (rest : List Byte)
    (hint : ∀ o ∈ outs, baseUpd = some o.reg.val → regIsInt o.reg.val = true)
    (i : Nat) (v : Values) (hinput : v.input = onBytes (outs.flatMap Output.bytes ++ rest)) :
    readValues junk mType baseUpd (outs.map fun o => o.reg.val) i v =
      takeOutputs mType baseUpd outs i { v with input := onBytes rest } := by
  induction outs generalizing i v with
  | nil =>
    have hv : v.input = onBytes rest := by simpa using hinput
    rw [List.map_nil, readValues, takeOutputs, ← hv]
  | cons o outs ih =>
    have hrest : ∀ o ∈ outs, baseUpd = some o.reg.val → regIsInt o.reg.val = true := fun o ho =>
      hint o (List.mem_cons_of_mem _ ho)
    rw [List.map_cons, readValues, takeOutputs, hinput, List.flatMap_cons]
    cases hreg : regIsInt o.reg.val with
    | true =>
      rw [Output.bytes, if_pos hreg, List.append_assoc, readInto_word]
      simp only [if_true]
      split
      · split
        · rfl
        · exact ih hrest _ _ rfl
      · exact ih hrest _ _ rfl
    | false =>
      have hbase : baseUpd ≠ some o.reg.val := fun h => by
        rw [hint o List.mem_cons_self h] at hreg
        exact Bool.noConfusion hreg
      rw [Output.bytes, if_neg (by simp [hreg]), List.append_assoc, List.append_assoc,
        readInto_word]
      simp only [hbase, Bool.false_eq_true, if_false, readInto_word]
      split
      · rfl
      · exact ih hrest _ _ rfl

/-- The loop leaves the input alone. -/
theorem takeOutputs_input {mType : InstClass} {baseUpd : Option Nat} {outs : List Output}
    {i : Nat} {v v' : Values} (s : InStream) (h : takeOutputs mType baseUpd outs i v = .ok v') :
    v'.input = v.input ∧
      takeOutputs mType baseUpd outs i { v with input := s } = .ok { v' with input := s } := by
  induction outs generalizing i v with
  | nil =>
    obtain rfl := Except.ok.inj h
    exact ⟨rfl, rfl⟩
  | cons o outs ih =>
    rw [takeOutputs] at h ⊢
    split at h
    · split at h
      · cases h
      · rename_i hbase hpos
        rw [if_pos hbase, if_neg hpos]
        exact ih h
    · rename_i hbase
      rw [if_neg hbase]
      split at h
      · rename_i hreg
        rw [if_pos hreg]
        exact ih h
      · rename_i hreg
        rw [if_neg hreg]
        split at h
        · cases h
        · rename_i hstore
          rw [if_neg hstore]
          exact ih h

/-- Is the output in the base-update register? -/
def holdsBaseUpd (baseUpd : Option Nat) (o : Output) : Bool := baseUpd == some o.reg.val

/-- How the loop over `outs`, from register number `i` on, met the base-update
register. -/
inductive Met (baseUpd : Option Nat) (outs : List Output) (i : Nat) (v v' : Values) : Prop where
  | never (position : v'.baseUpdPosInOutRegs = v.baseUpdPosInOutRegs)
      (value : v'.baseUpdVal = v.baseUpdVal)
      (absent : ∀ o ∈ outs, holdsBaseUpd baseUpd o = false)
  | once (k : Nat) (o : Output) (at_k : outs[k]? = some o)
      (first : outs.findIdx? (holdsBaseUpd baseUpd) = some k)
      (others : (outs.filter fun o => !holdsBaseUpd baseUpd o) = outs.eraseIdx k)
      (before : v.baseUpdPosInOutRegs = 255)
      (position : v'.baseUpdPosInOutRegs = i + k)
      (value : v'.baseUpdVal = o.low.val)

/-- The loop collects the lanes of the outputs other than the base-update
register. -/
theorem takeOutputs_values {mType : InstClass} {baseUpd : Option Nat} {outs : List Output}
    {i : Nat} {v v' : Values} (h : takeOutputs mType baseUpd outs i v = .ok v') :
    v'.mOutRegsValues = v.mOutRegsValues ++
      (outs.filter fun o => !holdsBaseUpd baseUpd o).flatMap Output.lanes := by
  induction outs generalizing i v with
  | nil =>
    obtain rfl := Except.ok.inj h
    simp
  | cons o outs ih =>
    rw [takeOutputs] at h
    split at h
    · rename_i hbase
      split at h
      · cases h
      · rw [ih h]
        simp [holdsBaseUpd, hbase]
    · rename_i hbase
      have hbase' : holdsBaseUpd baseUpd o = false := by simpa [holdsBaseUpd] using hbase
      rw [List.filter_cons_of_pos (by simp [hbase']), List.flatMap_cons, ← List.append_assoc]
      split at h
      · rename_i hreg
        rw [ih h, Output.lanes, if_pos hreg]
      · rename_i hreg
        split at h
        · cases h
        · rw [ih h, Output.lanes, if_neg hreg]

/-- Does the output have a high half that is not zero? -/
def Output.hasHigh (o : Output) : Bool := !regIsInt o.reg.val && o.high != 0

/-- The loop counts a piece more for every such high half. -/
theorem takeOutputs_total {mType : InstClass} {baseUpd : Option Nat} {outs : List Output}
    {i : Nat} {v v' : Values} (h : takeOutputs mType baseUpd outs i v = .ok v')
    (hlt : v.mTotalPieces < 256) :
    v'.mTotalPieces =
      (v.mTotalPieces + (outs.filter fun o => !holdsBaseUpd baseUpd o).countP Output.hasHigh)
        % 256 := by
  induction outs generalizing i v with
  | nil =>
    obtain rfl := Except.ok.inj h
    simp [Nat.mod_eq_of_lt hlt]
  | cons o outs ih =>
    rw [takeOutputs] at h
    split at h
    · rename_i hbase
      split at h
      · cases h
      · rw [ih h hlt]
        simp [holdsBaseUpd, hbase]
    · rename_i hbase
      have hbase' : holdsBaseUpd baseUpd o = false := by simpa [holdsBaseUpd] using hbase
      rw [List.filter_cons_of_pos (by simp [hbase']), List.countP_cons]
      split at h
      · rename_i hreg
        rw [ih h hlt]
        simp [Output.hasHigh, hreg]
      · rename_i hreg
        split at h
        · cases h
        · have hhigh : Output.hasHigh o = true ↔ o.high.val ≠ 0 := by
            have : o.high.val = 0 ↔ o.high = 0 := Fin.val_eq_zero_iff
            simp [Output.hasHigh, hreg, this]
          rw [ih h (by simp only; split <;> omega)]
          simp only [hhigh]
          split <;> omega

/-- It meets the base-update register once at most. -/
theorem takeOutputs_met {mType : InstClass} {baseUpd : Option Nat} {outs : List Output}
    {i : Nat} {v v' : Values} (hlen : i + outs.length ≤ 255)
    (h : takeOutputs mType baseUpd outs i v = .ok v') : Met baseUpd outs i v v' := by
  induction outs generalizing i v with
  | nil =>
    obtain rfl := Except.ok.inj h
    exact .never rfl rfl (by simp)
  | cons o outs ih =>
    rw [List.length_cons] at hlen
    rw [takeOutputs] at h
    split at h
    · rename_i hbase
      have hbase' : holdsBaseUpd baseUpd o = true := by simpa [holdsBaseUpd] using hbase
      split at h
      · cases h
      · rename_i hpos
        cases ih (by omega) h with
        | never position value absent =>
          refine .once 0 o rfl (by rw [List.findIdx?_cons, if_pos hbase']) ?_ (by omega)
            position value
          rw [List.filter_cons_of_neg (by simp [hbase']), List.eraseIdx_cons_zero,
            List.filter_eq_self]
          simpa using absent
        | once k o' at_k first others before position value =>
          -- a second match would have met the position 255
          have hi : i = 255 := before
          omega
    · rename_i hbase
      have hbase' : holdsBaseUpd baseUpd o = false := by simpa [holdsBaseUpd] using hbase
      have hcons : ∀ w : Values, takeOutputs mType baseUpd outs (i + 1) w = .ok v' →
          w.baseUpdPosInOutRegs = v.baseUpdPosInOutRegs → w.baseUpdVal = v.baseUpdVal →
          Met baseUpd (o :: outs) i v v' := by
        intro w hw hpos hval
        cases ih (by omega) hw with
        | never position value absent =>
          exact .never (position.trans hpos) (value.trans hval) (by simpa [hbase'] using absent)
        | once k o' at_k first others before position value =>
          refine .once (k + 1) o' at_k ?_ ?_ (hpos ▸ before) (by omega) value
          · rw [List.findIdx?_cons, if_neg (by simp [hbase']), first]
            rfl
          · rw [List.filter_cons_of_pos (by simp [hbase']), others, List.eraseIdx_cons_succ]
      split at h
      · exact hcons _ h rfl rfl
      · split at h
        · cases h
        · exact hcons _ h rfl rfl

/-! ## The base-update register -/

/-- What `capture_base_update_log_reg` does when its asserts hold. -/
structure Captured (m : Instr) (baseUpdatePresent : Bool) (m' : Instr) : Prop where
  /-- only the base-update register changes -/
  frame : m' = { m with mBaseUpdReg := m'.mBaseUpdReg }
  /-- the answer says whether there is one -/
  present : baseUpdatePresent = m'.mBaseUpdReg.isSome
  /-- only a memory instruction whose base-update byte is 1 has one -/
  mem : ∀ reg, m'.mBaseUpdReg = some reg → m.mType.isMem = true ∧ m.mBaseUpd = 1
  /-- a store has one output at most -/
  storeOutputs : m.mType.isStore = true → m.mOutRegs.length ≤ 1
  /-- for a store it is that output -/
  store : m.mType.isStore = true → ∀ reg, m'.mBaseUpdReg = some reg ↔ m.mOutRegs = [reg]
  /-- a load with one has several outputs -/
  loadOutputs : m.mType.isStore = false → m'.mBaseUpdReg ≠ none → 1 < m.mOutRegs.length
  /-- for a load it is the only integer register among both the inputs and the outputs -/
  load : m.mType.isStore = false → ∀ reg, m'.mBaseUpdReg = some reg →
    ∀ x, x < 32 ∧ x ∈ m.mInRegs ∧ x ∈ m.mOutRegs ↔ x = reg
  /-- a load without one has a single output or no base update -/
  loadNone : m.mType.isLoad = true → m'.mBaseUpdReg = none →
    m.mOutRegs.length ≤ 1 ∨ m.mBaseUpd ≠ 1

theorem mem_sortedInts {regs : List Nat} {x : Nat} :
    x ∈ Instr.sortedInts regs ↔ x < 32 ∧ x ∈ regs := by
  simp [Instr.sortedInts, and_comm]

theorem captured {m m' : Instr} {present : Bool} (hnone : m.mBaseUpdReg = none)
    (hlen : m.mNumOutRegs = m.mOutRegs.length)
    (h : m.captureBaseUpdateLogReg = .ok (present, m')) : Captured m present m' := by
  unfold Instr.captureBaseUpdateLogReg at h
  split at h
  · cases h
  split at h
  · rename_i hmem
    obtain ⟨rfl, rfl⟩ := Prod.mk.inj (Except.ok.inj h)
    have hnot : m.mType.isLoad = false ∧ m.mType.isStore = false := by
      simpa [InstClass.isMem] using hmem
    exact ⟨rfl, by rw [hnone]; rfl, by simp [hnone], by simp [hnot], by simp [hnot],
      by simp [hnone], by simp [hnone], by simp [hnot]⟩
  rename_i hmem
  have hmem : m.mType.isMem = true := by simpa using hmem
  split at h
  · -- a store
    rename_i hstore
    have hload : m.mType.isLoad = false := by
      have : m.mType = .store := by simpa [InstClass.isStore] using hstore
      rw [this]
      rfl
    split at h
    · cases h
    rename_i hone
    split at h
    · cases h
    rename_i hmatch
    rw [hlen] at hone hmatch
    split at h
    · rename_i reg rest hregs
      obtain ⟨rfl, rfl⟩ := Prod.mk.inj (Except.ok.inj h)
      have hrest : rest = [] := by
        rw [hregs, List.length_cons] at hone
        exact List.length_eq_zero_iff.mp (by omega)
      have hupd : m.mBaseUpd = 1 := by simpa [hregs, hrest] using hmatch
      refine ⟨rfl, rfl, ?_, fun _ => Nat.not_lt.mp hone, ?_, by simp [hstore], by simp [hstore],
        by simp⟩
      · exact fun _ _ => ⟨hmem, hupd⟩
      · intro _ x
        simp [hregs, hrest]
    · rename_i hregs
      obtain ⟨rfl, rfl⟩ := Prod.mk.inj (Except.ok.inj h)
      exact ⟨rfl, by rw [hnone]; rfl, by simp [hnone], by simp [hregs], by simp [hnone, hregs],
        by simp [hnone], by simp [hnone], by simp [hload]⟩
  · -- a load
    rename_i hstore
    have hstore : m.mType.isStore = false := by simpa using hstore
    split at h
    · cases h
    split at h
    · rename_i hone
      obtain ⟨rfl, rfl⟩ := Prod.mk.inj (Except.ok.inj h)
      exact ⟨rfl, by rw [hnone]; rfl, by simp [hnone], by simp [hstore], by simp [hstore],
        by simp [hnone], by simp [hnone], fun _ _ => Or.inl hone⟩
    rename_i hseveral
    simp only at h
    split at h
    · cases h
    rename_i hoverlap
    split at h
    · rename_i hupd
      split at h
      · rename_i reg rest hregs
        obtain ⟨rfl, rfl⟩ := Prod.mk.inj (Except.ok.inj h)
        have hrest : rest = [] := by
          rw [hregs, List.length_cons] at hoverlap
          exact List.length_eq_zero_iff.mp (by omega)
        refine ⟨rfl, rfl, fun _ _ => ⟨hmem, hupd⟩, by simp [hstore], by simp [hstore],
          fun _ _ => Nat.not_le.mp hseveral, ?_, by simp⟩
        rintro - x hx y
        obtain rfl := Option.some.inj hx
        have hmem : y ∈ (Instr.sortedInts m.mInRegs).bagInter (Instr.sortedInts m.mOutRegs) ↔ _ :=
          List.mem_bagInter
        rw [hregs, hrest, List.mem_singleton, mem_sortedInts, mem_sortedInts] at hmem
        rw [hmem]
        tauto
      · cases h
    · rename_i hupd
      obtain ⟨rfl, rfl⟩ := Prod.mk.inj (Except.ok.inj h)
      exact ⟨rfl, by rw [hnone]; rfl, by simp [hnone], by simp [hstore], by simp [hstore],
        by simp [hnone], by simp [hnone], fun _ _ => Or.inr hupd⟩

/-! ## Records -/

/-- `mInstr` before the outputs are captured; a record without memory access
leaves `mBaseUpd` as it was. -/
def Record.instr (r : Record) (mBaseUpd : Nat) : Instr where
  mPc := r.pc.val
  mType := r.type
  mTaken := r.jumps
  mNextPc := if r.jumps then r.target.val else (r.pc.val + 4) % 2 ^ 64
  mEffAddr := if r.type.isMem then r.effAddr.val else 0xdeadbeef
  mMemSize := if r.type.isMem then r.memSize.val else 0
  mBaseUpd := if r.type.isMem then r.baseUpd.val else mBaseUpd
  mHasRegOffset := if r.type.isStore then r.hasRegOffset.val else 0
  mNumInRegs := r.inRegs.length
  mInRegs := r.inRegs.map Fin.val
  mNumOutRegs := r.outs.length
  mOutRegs := r.outs.map fun o => o.reg.val
  mBaseUpdReg := none
  mOutRegsValues := []

/-- What the loop over the output values starts from. -/
def Record.values (r : Record) (s : InStream) : Values where
  input := s
  mOutRegsValues := []
  mTotalPieces := if r.outs.length > 0 then r.outs.length else 1
  baseUpdPosInOutRegs := 255
  baseUpdVal := 2 ^ 64 - 1

/-- What `readRecord` makes of a record. -/
def Record.digest (r : Record) (mBaseUpd : Nat) (s : InStream) :
    Except Abort (Bool × Instr × Values) :=
  if r.type = .undef then .error .readUndef
  else if r.type.isUncondBr && !r.taken then .error .readUncondTaken
  else do
    let (baseUpdatePresent, m) ← (r.instr mBaseUpd).captureBaseUpdateLogReg
    let v ← takeOutputs m.mType m.mBaseUpdReg r.outs 0 (r.values s)
    let m ← moveBaseUpd m v
    .ok (baseUpdatePresent, m, v)

/-- The instructions whose bytes the reader takes: a store writes no SIMD
register. -/
def Record.Clean (r : Record) : Prop := r.type.isStore = true → r.writesSimd = false

/-- The base-update register of a clean record is an integer register. -/
theorem Record.Clean.baseUpd_int {r : Record} (hclean : r.Clean) {mBaseUpd : Nat}
    {present : Bool} {m : Instr} (h : Captured (r.instr mBaseUpd) present m) :
    ∀ o ∈ r.outs, m.mBaseUpdReg = some o.reg.val → regIsInt o.reg.val = true := by
  intro o ho hreg
  cases hstore : r.type.isStore with
  | true =>
    have hsimd := hclean hstore
    rw [Record.writesSimd, List.any_eq_false] at hsimd
    simpa using hsimd o ho
  | false =>
    obtain ⟨hlt, -, -⟩ := (h.load hstore _ hreg o.reg.val).mpr rfl
    simp [regIsInt, hlt]

/-- `encode` after the program counter. -/
def Record.tail (r : Record) (s : List Byte) : List Byte :=
  r.typeByte :: (r.memBytes ++ (r.branchBytes ++
    (countByte _ r.length_inRegs :: (r.inRegs ++
      (countByte _ r.length_outs :: (r.outs.map Output.reg ++
        (r.outs.flatMap Output.bytes ++ s)))))))

theorem Record.encode_append (r : Record) (s : List Byte) :
    r.encode ++ s = leBytes 8 r.pc.val ++ r.tail s := by
  simp only [Record.encode, Record.tail, List.append_assoc, List.cons_append]

/-- Up to the output values the reader takes the bytes of one field after the
other. -/
theorem readRecord_fields {u : Uninit} (r : Record) (m : Instr) (s : List Byte) :
    readRecord u { m.reset with mPc := r.pc.val } (onBytes (r.tail s)) =
      if r.type = .undef then .error .readUndef
      else if r.type.isUncondBr && !r.taken then .error .readUncondTaken
      else (do
        let (present, m) ← (r.instr m.mBaseUpd).captureBaseUpdateLogReg
        let v ← readValues u.val m.mType m.mBaseUpdReg m.mOutRegs 0
          { r.values (onBytes (r.outs.flatMap Output.bytes ++ s)) with
            mTotalPieces := if m.mNumOutRegs > 0 then m.mNumOutRegs else 1 }
        let m ← moveBaseUpd m v
        .ok (present, m, v)) := by
  have htype : InstClass.ofByte r.typeByte.val = r.type := rfl
  unfold readRecord Record.tail
  simp only [readType_byte, htype]
  split
  · rfl
  · rw [readMem_bytes (r := r) rfl]
    simp only
    rw [readBranch_bytes (r := r) rfl rfl]
    split
    · rfl
    · simp only [ok_bind, readInto_byte, Record.countByte, readRegs_bytes]
      have houts := readRegs_bytes u.outReg (r.outs.map Output.reg) (r.outs.flatMap Output.bytes ++ s) 0
      rw [List.length_map, List.map_map] at houts
      simp only [houts]
      rfl

theorem readRecord_encode {u : Uninit} {r : Record} (hclean : r.Clean) (m : Instr)
    (s : List Byte) :
    readRecord u { m.reset with mPc := r.pc.val } (onBytes (r.tail s)) =
      r.digest m.mBaseUpd (onBytes s) := by
  rw [readRecord_fields, Record.digest]
  split
  · rfl
  split
  · rfl
  refine bind_congr_ok ?_
  rintro ⟨present, m'⟩ hcapture
  have hcaptured := captured rfl (by simp [Record.instr]) hcapture
  have hregs : m'.mOutRegs = r.outs.map fun o => o.reg.val := by
    rw [hcaptured.frame]
    rfl
  have hnum : m'.mNumOutRegs = r.outs.length := by
    rw [hcaptured.frame]
    rfl
  simp only [hregs, hnum]
  rw [readValues_bytes s (hclean.baseUpd_int hcaptured) 0 _ rfl]
  rfl

/-! ## What a record decodes to -/

theorem moveBaseUpd_congr {m m' : Instr} {v : Values} (mBaseUpd : Nat) (s : InStream)
    (h : moveBaseUpd m v = .ok m') :
    m'.mBaseUpd = m.mBaseUpd ∧
      moveBaseUpd { m with mBaseUpd := mBaseUpd } { v with input := s } =
        .ok { m' with mBaseUpd := mBaseUpd } := by
  unfold moveBaseUpd at h ⊢
  split at h
  · obtain rfl := Except.ok.inj h
    exact ⟨rfl, by simp [*]⟩
  · split at h
    · cases h
    · obtain rfl := Except.ok.inj h
      exact ⟨rfl, by simp [*]⟩

theorem capture_congr {r : Record} {mBaseUpd : Nat} (mBaseUpd' : Nat) {present : Bool} {m : Instr}
    (h : (r.instr mBaseUpd).captureBaseUpdateLogReg = .ok (present, m)) :
    (r.instr mBaseUpd').captureBaseUpdateLogReg = .ok (present,
      { m with mBaseUpd := if r.type.isMem then m.mBaseUpd else mBaseUpd' }) := by
  cases hmem : r.type.isMem with
  | true =>
    have hsame : r.instr mBaseUpd' = r.instr mBaseUpd := by simp [Record.instr, hmem]
    rw [hsame, h]
    rfl
  | false =>
    unfold Instr.captureBaseUpdateLogReg at h ⊢
    have htype : ∀ x, (r.instr x).mType = r.type := fun _ => rfl
    simp only [htype, hmem, Bool.not_false, if_true] at h ⊢
    split at h
    · cases h
    · rename_i hundef
      obtain ⟨rfl, rfl⟩ := Prod.mk.inj (Except.ok.inj h)
      rw [if_neg hundef]
      simp [Record.instr, hmem]

/-- A record that is digested passes the reader's asserts, and its digest is the
outputs taken after the base-update register. -/
theorem Record.digest_eq_ok {r : Record} {mBaseUpd : Nat} {s : InStream} {present : Bool}
    {m : Instr} {v : Values} (h : r.digest mBaseUpd s = .ok (present, m, v)) :
    r.type ≠ .undef ∧ (r.type.isUncondBr && !r.taken) = false ∧ ∃ m₁,
      (r.instr mBaseUpd).captureBaseUpdateLogReg = .ok (present, m₁) ∧
      takeOutputs m₁.mType m₁.mBaseUpdReg r.outs 0 (r.values s) = .ok v ∧
      moveBaseUpd m₁ v = .ok m := by
  unfold Record.digest at h
  obtain ⟨hundef, h⟩ := guard_eq_ok.mp h
  obtain ⟨hjump, h⟩ := guard_eq_ok.mp h
  obtain ⟨⟨b, m₁⟩, hcapture, h⟩ := bind_eq_ok.mp h
  obtain ⟨w, htake, h⟩ := bind_eq_ok.mp h
  obtain ⟨m₂, hmove, h⟩ := bind_eq_ok.mp h
  obtain ⟨rfl, rfl, rfl⟩ : b = present ∧ m₂ = m ∧ w = v := by simpa using h
  exact ⟨hundef, by simpa using hjump, m₁, hcapture, htake, hmove⟩

/-- The digest of a record that is read depends on what comes after it, and on
the `mBaseUpd` left by the record before, only as far as it copies them. -/
theorem Record.digest_congr {r : Record} {mBaseUpd : Nat} {s : InStream} (mBaseUpd' : Nat)
    (s' : InStream) {present : Bool} {m : Instr} {v : Values}
    (h : r.digest mBaseUpd s = .ok (present, m, v)) :
    r.digest mBaseUpd' s' = .ok (present,
      { m with mBaseUpd := if r.type.isMem then m.mBaseUpd else mBaseUpd' },
      { v with input := s' }) := by
  obtain ⟨hundef, hjump, m₁, hcapture, htake, hmove⟩ := digest_eq_ok h
  have htake' := (takeOutputs_input s' htake).2
  obtain ⟨hkeep, hmove'⟩ := moveBaseUpd_congr
    (if r.type.isMem then m₁.mBaseUpd else mBaseUpd') s' hmove
  rw [digest, if_neg hundef, if_neg (by simp [hjump]), capture_congr mBaseUpd' hcapture, ok_bind]
  change (takeOutputs m₁.mType m₁.mBaseUpdReg r.outs 0 { r.values s with input := s' } >>= _) = _
  rw [htake', ok_bind, hmove', ok_bind, hkeep]

/-- Without a base-update register the outputs keep their order. -/
theorem Record.baseUpdIdx_none {r : Record} {mBaseUpd : Nat} {present : Bool} {m : Instr}
    (h : Captured (r.instr mBaseUpd) present m) (hnone : m.mBaseUpdReg = none) :
    r.baseUpdIdx = none := by
  unfold Record.baseUpdIdx
  split
  · rename_i hupd
    obtain ⟨⟨hload, hone⟩, hlen⟩ : (r.type.isLoad = true ∧ r.baseUpd = 1) ∧ 1 < r.outs.length := by
      simpa using hupd
    have hmem : r.type.isMem = true := by simp [InstClass.isMem, hload]
    rcases h.loadNone hload hnone with hle | hne
    · have hle : r.outs.length ≤ 1 := by simpa [Record.instr] using hle
      omega
    · simp [Record.instr, hmem, hone] at hne
  · rfl

/-- The base-update register of a load is the one that is an input as well. -/
theorem Record.baseUpdIdx_some {r : Record} {mBaseUpd reg k : Nat} {present : Bool} {m : Instr}
    (h : Captured (r.instr mBaseUpd) present m) (hstore : r.type.isStore = false)
    (hreg : m.mBaseUpdReg = some reg)
    (hfirst : r.outs.findIdx? (holdsBaseUpd m.mBaseUpdReg) = some k) :
    r.baseUpdIdx = some k := by
  obtain ⟨hmem, hupd⟩ := h.mem reg hreg
  have hmem : r.type.isMem = true := hmem
  have hone : r.baseUpd = 1 := Fin.ext (by simpa [Record.instr, hmem] using hupd)
  have hload : r.type.isLoad = true := by simpa [InstClass.isMem, hstore] using hmem
  have hlen : 1 < r.outs.length := by
    simpa [Record.instr] using h.loadOutputs hstore (by simp [hreg])
  -- among the outputs, it is the register that is an input as well
  have hagree : ∀ o ∈ r.outs, holdsBaseUpd m.mBaseUpdReg o = r.isBaseUpd o := by
    intro o ho
    have hiff := h.load hstore reg hreg o.reg.val
    have hin : o.reg.val ∈ r.inRegs.map Fin.val ↔ o.reg ∈ r.inRegs := by
      rw [List.mem_map]
      constructor
      · rintro ⟨x, hx, hval⟩
        rwa [← Fin.ext hval]
      · exact fun hmem => ⟨o.reg, hmem, rfl⟩
    have hout : o.reg.val ∈ r.outs.map fun o => o.reg.val := List.mem_map_of_mem ho
    have hlt : o.reg < 32 ↔ o.reg.val < 32 := Iff.rfl
    rw [Bool.eq_iff_iff, holdsBaseUpd, hreg, Record.isBaseUpd, Bool.and_eq_true,
      decide_eq_true_iff, List.contains_iff_mem, hlt, ← hin]
    simp only [Record.instr] at hiff
    rw [beq_iff_eq, Option.some_inj, eq_comm, ← hiff]
    tauto
  obtain ⟨hlt, hat, hbefore⟩ := List.findIdx?_eq_some_iff_getElem.mp hfirst
  rw [Record.baseUpdIdx, if_pos (by simp [hload, hone, hlen])]
  refine List.findIdx?_eq_some_iff_getElem.mpr ⟨hlt, ?_, ?_⟩
  · rw [← hagree _ (List.getElem_mem hlt)]
    exact hat
  · intro j hj
    rw [← hagree _ (List.getElem_mem (hj.trans hlt))]
    exact hbefore j hj

/-- It goes to the end. -/
theorem Record.orderedOuts_some {r : Record} {mBaseUpd reg k : Nat} {present : Bool} {m : Instr}
    {o : Output} (h : Captured (r.instr mBaseUpd) present m) (hreg : m.mBaseUpdReg = some reg)
    (hfirst : r.outs.findIdx? (holdsBaseUpd m.mBaseUpdReg) = some k) (hk : r.outs[k]? = some o) :
    r.orderedOuts = r.outs.eraseIdx k ++ [o] := by
  cases hstore : r.type.isStore with
  | true =>
    -- the only output of a store stays where it is
    have hload : r.type.isLoad = false := by
      have : r.type = .store := by simpa [InstClass.isStore] using hstore
      rw [this]
      rfl
    have hlen : r.outs.length = 1 := by
      have := congrArg List.length ((h.store hstore reg).mp hreg)
      simpa [Record.instr] using this
    obtain ⟨o', ho'⟩ := List.length_eq_one_iff.mp hlen
    obtain rfl : k = 0 := by
      have := (List.getElem?_eq_some_iff.mp hk).1
      omega
    rw [ho'] at hk
    obtain rfl := Option.some.inj hk
    simp [Record.orderedOuts, Record.plainOuts, Record.baseUpdOut, Record.baseUpdIdx, hload, ho']
  | false =>
    have hidx := Record.baseUpdIdx_some h hstore hreg hfirst
    simp [Record.orderedOuts, Record.plainOuts, Record.baseUpdOut, hidx, hk]

/-- The outputs and the values as `moveBaseUpd` leaves them. -/
theorem moveBaseUpd_ok {r : Record} (hclean : r.Clean) {mBaseUpd : Nat} {s : InStream}
    {present : Bool} {m m' : Instr} {v : Values} (hcaptured : Captured (r.instr mBaseUpd) present m)
    (htake : takeOutputs m.mType m.mBaseUpdReg r.outs 0 (r.values s) = .ok v)
    (hmove : moveBaseUpd m v = .ok m') :
    m'.mOutRegs = (r.orderedOuts.map fun o => o.reg.val) ∧
      m'.mOutRegsValues = r.orderedOuts.flatMap Output.lanes ∧
      m' = { m with mOutRegs := m'.mOutRegs, mOutRegsValues := m'.mOutRegsValues } := by
  have hvalues := takeOutputs_values htake
  have hmet := takeOutputs_met (by have := r.length_outs; omega) htake
  have hregs : m.mOutRegs = r.outs.map fun o => o.reg.val := by
    rw [hcaptured.frame]
    rfl
  unfold moveBaseUpd at hmove
  split at hmove
  · rename_i hnone
    obtain rfl := Except.ok.inj hmove
    have houts : r.orderedOuts = r.outs := by
      have hidx := Record.baseUpdIdx_none hcaptured hnone
      simp [Record.orderedOuts, Record.plainOuts, Record.baseUpdOut, hidx]
    rw [houts]
    refine ⟨hregs, ?_, rfl⟩
    rw [hvalues, hnone]
    simp [Record.values, holdsBaseUpd]
  · rename_i reg hreg
    split at hmove
    · cases hmove
    rename_i hpos
    obtain rfl := Except.ok.inj hmove
    cases hmet with
    | never position value absent => exact absurd position hpos
    | once k o at_k first others before position value =>
      obtain ⟨hlt, hget⟩ := List.getElem?_eq_some_iff.mp at_k
      have hbase : m.mBaseUpdReg = some o.reg.val := by
        obtain ⟨_, hat, -⟩ := List.findIdx?_eq_some_iff_getElem.mp first
        rw [hget] at hat
        simpa [holdsBaseUpd] using hat
      have hint : regIsInt o.reg.val = true :=
        hclean.baseUpd_int hcaptured o (List.mem_of_getElem? at_k) hbase
      obtain rfl : o.reg.val = reg := Option.some.inj (hbase.symm.trans hreg)
      rw [Record.orderedOuts_some hcaptured hreg first at_k]
      refine ⟨?_, ?_, rfl⟩
      · simp only [hregs, position, Nat.zero_add, List.length_map]
        split
        · rw [List.map_append, List.eraseIdx_map]
          rfl
        · -- a single output stays where it is
          obtain ⟨o', ho'⟩ := List.length_eq_one_iff.mp (show r.outs.length = 1 by omega)
          obtain rfl : k = 0 := by omega
          simp only [ho', List.getElem_cons_zero] at hget
          rw [ho', hget]
          rfl
      · rw [hvalues, value, others, List.flatMap_append]
        simp [Record.values, Output.lanes, hint]

/-- A clean record that is read is held. -/
theorem Record.Clean.holds {r : Record} (hclean : r.Clean) {mBaseUpd : Nat} {s : InStream}
    {present : Bool} {m : Instr} {v : Values} (h : r.digest mBaseUpd s = .ok (present, m, v)) :
    Holds m r ∧ v.input = s ∧ present = m.mBaseUpdReg.isSome := by
  obtain ⟨-, -, m₁, hcapture, htake, hmove⟩ := Record.digest_eq_ok h
  have hcaptured := captured rfl (by simp [Record.instr]) hcapture
  obtain ⟨houts, hvals, hrest⟩ := moveBaseUpd_ok hclean hcaptured htake hmove
  refine ⟨?_, (takeOutputs_input s htake).1, ?_⟩
  · rw [hrest, hcaptured.frame]
    refine ⟨rfl, rfl, rfl, rfl, ?_, ?_, ?_, ?_, rfl, rfl, rfl, houts, hvals⟩ <;>
      intro hc <;> simp [Record.instr, hc]
  · rw [hcaptured.present, hrest]

/-! ## `readInstr` -/

/-- On the bytes of a clean record `readInstr` digests it, counts its pieces and
leaves what comes after it. -/
theorem readInstr_encode {u : Uninit} {r : Record} (hclean : r.Clean) {t : TraceReader}
    {s : List Byte} (ht : t.dpressedInput = onBytes (r.encode ++ s)) :
    t.readInstr u = (do
      let (baseUpdate, m, v) ← r.digest t.mInstr.mBaseUpd (onBytes s)
      let (mMemPieces, mTotalPieces, mSizeFactor) ← countPieces m baseUpdate v.mTotalPieces
      checkPieces m baseUpdate mMemPieces mTotalPieces
      .ok (true, {
        dpressedInput := v.input
        mInstr := m
        mTotalPieces := mTotalPieces
        mMemPieces := mMemPieces
        mProcessedPieces := 0
        mCrackRegIdx := 0
        mCrackValIdx := 0
        mSizeFactor := mSizeFactor
        nInstr := (t.nInstr + 1) % 2 ^ 64
        startFpReg := 0 })) := by
  rw [TraceReader.readInstr, ht, Record.encode_append]
  simp only [readInto_word]
  rw [if_neg (by simp), readRecord_encode hclean]

/-- What is known when a clean record is read: its digest, the counts of its pieces, and the
reader that is left. -/
theorem readInstr_eq_ok {u : Uninit} {r : Record} (hclean : r.Clean) {t t' : TraceReader}
    {s : List Byte} (ht : t.dpressedInput = onBytes (r.encode ++ s)) {more : Bool}
    (h : t.readInstr u = .ok (more, t')) :
    ∃ present m v mMemPieces mTotalPieces mSizeFactor,
      r.digest t.mInstr.mBaseUpd (onBytes s) = .ok (present, m, v) ∧
      countPieces m present v.mTotalPieces = .ok (mMemPieces, mTotalPieces, mSizeFactor) ∧
      checkPieces m present mMemPieces mTotalPieces = .ok () ∧
      more = true ∧ t' = {
        dpressedInput := v.input
        mInstr := m
        mTotalPieces := mTotalPieces
        mMemPieces := mMemPieces
        mProcessedPieces := 0
        mCrackRegIdx := 0
        mCrackValIdx := 0
        mSizeFactor := mSizeFactor
        nInstr := (t.nInstr + 1) % 2 ^ 64
        startFpReg := 0 } := by
  rw [readInstr_encode hclean ht] at h
  obtain ⟨⟨present, m, v⟩, hdigest, h⟩ := bind_eq_ok.mp h
  obtain ⟨⟨mem, total, size⟩, hcount, h⟩ := bind_eq_ok.mp h
  obtain ⟨⟨⟩, hcheck, h⟩ := bind_eq_ok.mp h
  obtain ⟨rfl, rfl⟩ := Prod.mk.inj (Except.ok.inj h)
  exact ⟨present, m, v, mem, total, size, hdigest, hcount, hcheck, rfl, rfl⟩

/-- What is known when any record is read: the parts of the reading, one after the other,
and the reader that is left. -/
theorem readInstr_parts {u : Uninit} {r : Record} {t t' : TraceReader} {s : List Byte}
    (ht : t.dpressedInput = onBytes (r.encode ++ s)) {more : Bool}
    (h : t.readInstr u = .ok (more, t')) :
    ∃ present captured v m mMemPieces mTotalPieces mSizeFactor,
      (r.instr t.mInstr.mBaseUpd).captureBaseUpdateLogReg = .ok (present, captured) ∧
      readValues u.val captured.mType captured.mBaseUpdReg captured.mOutRegs 0
        { r.values (onBytes (r.outs.flatMap Output.bytes ++ s)) with
          mTotalPieces := if captured.mNumOutRegs > 0 then captured.mNumOutRegs else 1 } =
          .ok v ∧
      moveBaseUpd captured v = .ok m ∧
      countPieces m present v.mTotalPieces = .ok (mMemPieces, mTotalPieces, mSizeFactor) ∧
      checkPieces m present mMemPieces mTotalPieces = .ok () ∧
      t' = {
        dpressedInput := v.input
        mInstr := m
        mTotalPieces := mTotalPieces
        mMemPieces := mMemPieces
        mProcessedPieces := 0
        mCrackRegIdx := 0
        mCrackValIdx := 0
        mSizeFactor := mSizeFactor
        nInstr := (t.nInstr + 1) % 2 ^ 64
        startFpReg := 0 } := by
  rw [TraceReader.readInstr, ht, Record.encode_append] at h
  simp only [readInto_word] at h
  rw [if_neg (by simp), readRecord_fields] at h
  obtain ⟨⟨present, m, v⟩, hrecord, h⟩ := bind_eq_ok.mp h
  obtain ⟨⟨mem, total, size⟩, hcount, h⟩ := bind_eq_ok.mp h
  obtain ⟨⟨⟩, hcheck, h⟩ := bind_eq_ok.mp h
  obtain ⟨-, rfl⟩ := Prod.mk.inj (Except.ok.inj h)
  obtain ⟨-, hrecord⟩ := guard_eq_ok.mp hrecord
  obtain ⟨-, hrecord⟩ := guard_eq_ok.mp hrecord
  obtain ⟨⟨b, captured⟩, hcapture, hrecord⟩ := bind_eq_ok.mp hrecord
  obtain ⟨w, hvalues, hrecord⟩ := bind_eq_ok.mp hrecord
  obtain ⟨m₂, hmove, hrecord⟩ := bind_eq_ok.mp hrecord
  obtain ⟨rfl, rfl, rfl⟩ : b = present ∧ m₂ = m ∧ w = v := by simpa using hrecord
  exact ⟨b, captured, w, m₂, mem, total, size, hcapture, hvalues, hmove, hcount, hcheck, rfl⟩

theorem takenFits_jumps {r : Record} (hjump : (r.type.isUncondBr && !r.taken) = false) :
    TraceReader.takenFits r.type r.jumps = true := by
  unfold TraceReader.takenFits Record.jumps
  cases hu : r.type.isUncondBr with
  | true =>
    have hbr : r.type.isBr = true := by
      simp only [InstClass.isUncondBr, Bool.and_eq_true] at hu
      exact hu.1
    simpa [hu, hbr] using hjump
  | false =>
    cases hc : r.type.isCondBr with
    | true => simp
    | false =>
      have hbr : r.type.isBr = false := by
        have hne : (r.type != .condBranch) = true := by simpa [InstClass.isCondBr] using hc
        simpa [InstClass.isUncondBr, hne] using hu
      simp [hbr]

/-- The record satisfies the asserts: a reader in front of its bytes does not
abort. -/
def Record.Accepted (u : Uninit) (r : Record) : Prop :=
  ∃ more t, (TraceReader.new u r.encode).readInstr u = .ok (more, t)

theorem Record.accepted_of_isOk {u : Uninit} {r : Record}
    (h : ((TraceReader.new u r.encode).readInstr u).isOk = true) : r.Accepted u := by
  unfold Record.Accepted
  cases hread : (TraceReader.new u r.encode).readInstr u with
  | error e =>
    rw [hread] at h
    cases h
  | ok answer => exact ⟨answer.1, answer.2, rfl⟩

/-- An accepted record is read wherever it stands. -/
theorem Record.Accepted.read {u : Uninit} {r : Record} (haccepted : r.Accepted u)
    (hclean : r.Clean) {t : TraceReader} {s : List Byte}
    (ht : t.dpressedInput = onBytes (r.encode ++ s)) :
    ∃ t', t.readInstr u = .ok (true, t') ∧ t'.dpressedInput = onBytes s ∧ Holds t'.mInstr r := by
  obtain ⟨more, t₀, hread⟩ := haccepted
  have hnew : (TraceReader.new u r.encode).dpressedInput = onBytes (r.encode ++ []) := by
    rw [List.append_nil]
    rfl
  obtain ⟨present, m, v, mem, total, size, hdigest, hcount, hcheck, -⟩ :=
    readInstr_eq_ok hclean hnew hread
  have hdigest' := Record.digest_congr t.mInstr.mBaseUpd (onBytes s) hdigest
  obtain ⟨hholds, hinput, -⟩ := hclean.holds hdigest'
  rw [readInstr_encode hclean ht, hdigest', ok_bind]
  change ∃ t', (countPieces m present v.mTotalPieces >>= _) = _ ∧ _
  rw [hcount, ok_bind]
  change ∃ t', (checkPieces m present mem total >>= _) = _ ∧ _
  rw [hcheck, ok_bind]
  exact ⟨_, rfl, hinput, hholds⟩

end CbpSim.Trace
