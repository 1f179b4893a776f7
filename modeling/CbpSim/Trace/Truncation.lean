/-
  Trace/Truncation.lean --- a trace that ends inside a record.

  Source: src/lib/trace_reader.h, `readInstr` and `get_inst`.

  Only the read of the program counter is followed by a test for the end of the file.
  A later read that fails leaves its variable as `reset` has it or as it was, so
  `readInstr` goes on with zero counts and made-up registers and values, and unless an
  assert notices, `get_inst` returns a piece of the incomplete record.
-/
import CbpSim.Trace.CutRecord

set_option autoImplicit false

namespace CbpSim.Trace

open CbpSim.Foundation

namespace Record

/-- The reader notices that the record is cut after `k` bytes: the program counter or the
class is missing, the taken flag of a jump, the number of outputs of a load, the number of
inputs of a store or, when it has a base update, the number of its outputs. -/
def CutNoticed (r : Record) (k : Nat) : Prop :=
  k ≤ 8 ∨ (r.type.isUncondBr = true ∧ k = 9) ∨ (r.type.isLoad = true ∧ k ≤ r.countOutAt) ∨
    (r.type.isStore = true ∧ (k ≤ r.countInAt ∨ (r.baseUpd = 1 ∧ k ≤ r.countOutAt)))

end Record

/-- The loop returns the pieces of the records and no further piece. -/
def ReturnsOnly (u : Uninit) (records : List Record) (bytes : List Byte) : Prop :=
  ∃ insts t, piecesOf u records = .ok insts ∧
    (TraceReader.new u bytes).getInsts u insts.length = .ok (insts, t) ∧
    ∀ inst t', t.getInst u ≠ .ok (some inst, t')

/-! ## Cuts that are noticed -/

/-- The steps that read the outputs. -/
theorem readOutputs_ok {u : Uninit} {m : Instr} {s : InStream} {x : Bool × Instr × Values}
    (h : readOutputs u m s = .ok x) :
    ∃ m₁ v, m.captureBaseUpdateLogReg = .ok (x.1, m₁) ∧
      readValues u.val m₁.mType m₁.mBaseUpdReg m₁.mOutRegs 0
        { input := s
          mOutRegsValues := []
          mTotalPieces := if m₁.mNumOutRegs > 0 then m₁.mNumOutRegs else 1
          baseUpdPosInOutRegs := 255
          baseUpdVal := 2 ^ 64 - 1 } = .ok v ∧
      moveBaseUpd m₁ v = .ok x.2.1 := by
  obtain ⟨⟨present, m₁⟩, hcapture, h⟩ := bind_eq_ok.mp h
  obtain ⟨v, hvalues, h⟩ := bind_eq_ok.mp h
  obtain ⟨m₂, hmove, h⟩ := bind_eq_ok.mp h
  obtain rfl := Except.ok.inj h
  exact ⟨m₁, v, hcapture, hvalues, hmove⟩

/-- Moving the base-update register keeps the class and the inputs. -/
theorem moveBaseUpd_inputs {m m' : Instr} {v : Values} (h : moveBaseUpd m v = .ok m') :
    m'.mType = m.mType ∧ m'.mInRegs = m.mInRegs := by
  unfold moveBaseUpd at h
  split at h
  · rw [← Except.ok.inj h]
    exact ⟨rfl, rfl⟩
  · obtain ⟨-, h⟩ := guard_eq_ok.mp h
    rw [← Except.ok.inj h]
    exact ⟨rfl, rfl⟩

/-- A load without outputs is noticed. -/
theorem readOutputs_noOutputs {u : Uninit} {m : Instr} {s : InStream} {x : Bool × Instr × Values}
    (hload : m.mType.isLoad = true) (hregs : m.mOutRegs = []) : readOutputs u m s ≠ .ok x := by
  intro h
  obtain ⟨m₁, -, hcapture, -⟩ := readOutputs_ok h
  exact capture_load_outputs hload hcapture hregs

/-- A store without inputs is noticed. -/
theorem firstPiece_noInputs {u : Uninit} {t t' : TraceReader} {m : Instr} {s : InStream}
    {inst : DbInst} (hstore : m.mType.isStore = true) (hregs : m.mInRegs = [])
    (hnone : m.mBaseUpdReg = none) (hlen : m.mNumOutRegs = m.mOutRegs.length) :
    (readOutputs u m s >>= firstPiece t) ≠ .ok (some inst, t') := by
  intro h
  obtain ⟨x, houtputs, hfirst⟩ := bind_eq_ok.mp h
  obtain ⟨m₁, v, hcapture, -, hmove⟩ := readOutputs_ok houtputs
  obtain ⟨htype, hin⟩ := moveBaseUpd_inputs hmove
  have hframe := (captured hnone hlen hcapture).frame
  unfold firstPiece at hfirst
  obtain ⟨y, -, hfirst⟩ := bind_eq_ok.mp hfirst
  obtain ⟨-, -, hfirst⟩ := bind_eq_ok.mp hfirst
  obtain ⟨z, hpopulate, -⟩ := bind_eq_ok.mp hfirst
  have hstore' : x.2.1.mType.isStore = true := by
    rw [htype, hframe]
    exact hstore
  have hregs' : x.2.1.mInRegs = [] := by
    rw [hin, hframe]
    exact hregs
  exact (store_inputs rfl hstore' hpopulate).1 hregs'

/-- **A cut that is noticed yields no piece.** -/
theorem getInst_noticed {u : Uninit} {r : Record} (hr : r.WellFormed) {t : TraceReader} {k : Nat}
    (ht : t.dpressedInput = onBytes (r.encode.take k))
    (hdone : t.mProcessedPieces = t.mTotalPieces) (hnoticed : r.CutNoticed k) (inst : DbInst)
    (t' : TraceReader) : t.getInst u ≠ .ok (some inst, t') := by
  have hpasses := hr.passes
  by_cases hk : k ≤ 8
  · exact getInst_short ht hdone hk inst t'
  have hnine : 9 ≤ k := by omega
  have hshape : (r.type.isUncondBr = true ∧ k = 9) ∨ (r.type.isLoad = true ∧ k ≤ r.countOutAt) ∨
      (r.type.isStore = true ∧ (k ≤ r.countInAt ∨ (r.baseUpd = 1 ∧ k ≤ r.countOutAt))) :=
    hnoticed.resolve_left hk
  have hout : k ≤ r.countOutAt := by
    unfold Record.countOutAt Record.countInAt at hshape ⊢
    omega
  rcases Nat.lt_or_ge r.countInAt k with hin | hin
  · have hjump : ¬ (r.type.isUncondBr = true ∧ k = 9) := by
      unfold Record.countInAt at hin
      omega
    obtain ⟨inRegs, s, hlen, hget⟩ := getInst_inputs (u := u) hpasses ht hdone hin hout
    rw [hget]
    intro h
    obtain ⟨x, hx, -⟩ := bind_eq_ok.mp h
    rcases hshape.resolve_left hjump with ⟨hload, -⟩ | ⟨hstore, hcut⟩
    · exact readOutputs_noOutputs (show r.type.isLoad = true from hload) rfl hx
    · have hone := (hcut.resolve_left (Nat.not_le.mpr hin)).1
      obtain ⟨m₁, v, hcapture, -⟩ := readOutputs_ok hx
      obtain ⟨-, hagree, -⟩ := capture_store_agrees hstore rfl hcapture
      have hmem : r.type.isMem = true := by simp [InstClass.isMem, hstore]
      have hupd : ((r.instr t.mInstr.mBaseUpd).withRegs inRegs []).mBaseUpd = 1 := by
        simp [Instr.withRegs, Record.instr, hmem, hone]
      exact hagree.mp hupd rfl
  · rcases getInst_fields (u := u) hpasses ht hdone hnine hin with ⟨-, -, e, hget⟩ | hgo
    · rw [hget]
      intro h
      cases h
    · obtain ⟨hflag, m, s, hheaded, hget⟩ := hgo
      rw [hget]
      rcases hshape with ⟨hu, heq⟩ | ⟨hload, -⟩ | ⟨hstore, -⟩
      · exact absurd heq (hflag hu)
      · intro h
        obtain ⟨x, hx, -⟩ := bind_eq_ok.mp h
        exact readOutputs_noOutputs (m := m.withRegs [] []) (hheaded.type ▸ hload) rfl hx
      · exact firstPiece_noInputs (m := m.withRegs [] []) (hheaded.type ▸ hstore) rfl
          hheaded.baseUpdReg rfl

/-! ## Cuts that are not noticed -/

theorem Record.WellFormed.length_outs_le {r : Record} (hr : r.WellFormed) :
    r.outs.length ≤ rfSize := by
  have hsub : (r.outs.map fun o => o.reg.val) ⊆ List.range rfSize := by
    intro x hx
    obtain ⟨o, ho, rfl⟩ := List.mem_map.mp hx
    exact List.mem_range.mpr (hr.registers o ho)
  have hlen := (hr.distinct.subperm hsub).length_le
  rwa [List.length_range, List.length_map] at hlen

/-- Other operands, in the same number of inputs, do for a store as well. -/
theorem StoreFits.withRegs {m : Instr} {present : Bool} (h : StoreFits m present)
    (hlen : m.mNumInRegs = m.mInRegs.length) {inRegs : List Nat} (outRegs : List Nat)
    (hin : inRegs.length = m.mInRegs.length) : StoreFits (m.withRegs inRegs outRegs) present := by
  have htrue : trueStrValRegs (m.withRegs inRegs outRegs) = trueStrValRegs m :=
    trueStrValRegs_congr (hin.trans hlen.symm) rfl
  have hregs : inRegs ≠ [] := by
    apply List.ne_nil_of_length_pos
    rw [hin]
    exact List.length_pos_iff.mpr h.inRegs
  exact {
    type := h.type
    taken := h.taken
    inRegs := hregs
    offset := fun hoffset => (h.offset hoffset).trans_eq (hlen.trans hin.symm)
    size := by
      rw [htrue]
      exact h.size
    total := by
      rw [htrue]
      exact h.total }

/-- A store of a record gets a piece whatever its registers are. -/
theorem madeUp_store (u : Uninit) (t : TraceReader) {r : Record} (hpasses : r.Passes)
    (hstore : r.type.isStore = true) (mBaseUpd : Nat) {inRegs outRegs : List Nat} (s : InStream)
    (hin : inRegs.length = r.inRegs.length) (hout : outRegs.length ≤ 1)
    (hbase : r.baseUpd.val = 1 ↔ outRegs ≠ []) :
    ∃ inst t', (readOutputs u ((r.instr mBaseUpd).withRegs inRegs outRegs) s >>= firstPiece t) =
      .ok (some inst, t') := by
  have hmem : r.type.isMem = true := by simp [InstClass.isMem, hstore]
  have hupd : ((r.instr mBaseUpd).withRegs inRegs outRegs).mBaseUpd = r.baseUpd.val := by
    simp [Instr.withRegs, Record.instr, hmem]
  have hlen : (r.instr mBaseUpd).mNumInRegs = (r.instr mBaseUpd).mInRegs.length := by
    simp [Record.instr]
  have hfits := (hpasses.store hstore mBaseUpd).withRegs hlen outRegs
    (hin.trans hlen)
  apply outputs_store u t s rfl rfl hout
  · rwa [hupd]
  · rwa [hupd]

/-- Another record gets a piece if its outputs pass `capture_base_update_log_reg`. -/
theorem madeUp_other (u : Uninit) (t : TraceReader) {r : Record} (hpasses : r.Passes)
    (hstore : r.type.isStore = false) (mBaseUpd : Nat) {inRegs outRegs : List Nat} (s : InStream)
    (hin : inRegs.length = r.inRegs.length) (hout : outRegs.length ≤ 127)
    (honce : ∀ reg < 32, outRegs.count reg ≤ 1)
    (hcapture : r.type.isLoad = true → ∃ present m,
      ((r.instr mBaseUpd).withRegs inRegs outRegs).captureBaseUpdateLogReg = .ok (present, m)) :
    ∃ inst t', (readOutputs u ((r.instr mBaseUpd).withRegs inRegs outRegs) s >>= firstPiece t) =
      .ok (some inst, t') := by
  have hmem : r.type.isMem = r.type.isLoad := by simp [InstClass.isMem, hstore]
  have hcapture' : ∃ present m,
      ((r.instr mBaseUpd).withRegs inRegs outRegs).captureBaseUpdateLogReg = .ok (present, m) := by
    cases hload : r.type.isLoad with
    | true => exact hcapture hload
    | false => exact ⟨false, _, capture_other hpasses.undef (hmem.trans hload)⟩
  obtain ⟨present, m, hcapture'⟩ := hcapture'
  apply outputs_other u t hcapture' rfl rfl hout honce hstore (takenFits_jumps hpasses.jump)
  · exact hin.trans_le (hpasses.inputs hstore)
  · intro hload
    exact if_neg (by simp [hmem.trans hload])

/-- **A cut that is not noticed yields a made-up piece** when the variables that the names
of the outputs are read into hold these names. -/
theorem getInst_madeUp {r : Record} (hr : r.WellFormed) {u : Uninit}
    (hu : Guesses u.outReg 0 (r.outs.map Output.reg)) {t : TraceReader} {k : Nat}
    (ht : t.dpressedInput = onBytes (r.encode.take k))
    (hdone : t.mProcessedPieces = t.mTotalPieces) (hnot : ¬ r.CutNoticed k) :
    ∃ inst t', t.getInst u = .ok (some inst, t') := by
  have hpasses := hr.passes
  obtain ⟨hk, hjump, hload, hstore⟩ : ¬ k ≤ 8 ∧ ¬ (r.type.isUncondBr = true ∧ k = 9) ∧
      ¬ (r.type.isLoad = true ∧ k ≤ r.countOutAt) ∧
      ¬ (r.type.isStore = true ∧ (k ≤ r.countInAt ∨ (r.baseUpd = 1 ∧ k ≤ r.countOutAt))) := by
    simpa only [Record.CutNoticed, not_or] using hnot
  have hnine : 9 ≤ k := by omega
  have hbetween : r.countInAt ≤ r.countOutAt := by
    unfold Record.countOutAt
    omega
  rcases Nat.lt_or_ge r.countInAt k with hin | hin
  · rcases Nat.lt_or_ge r.countOutAt k with hout | hout
    · -- the operands are those of the record
      obtain ⟨s, hget⟩ := getInst_outputs (u := u) hpasses ht hdone hout hu
      obtain ⟨present, m', hcapture⟩ := hpasses.capture t.mInstr.mBaseUpd
      rw [hget, ← r.instr_withRegs]
      cases hs : r.type.isStore with
      | true =>
        obtain ⟨hone, hagree, -⟩ := capture_store_agrees hs (by simp [Record.instr]) hcapture
        have hmem : r.type.isMem = true := by simp [InstClass.isMem, hs]
        apply madeUp_store u t hpasses hs _ s (List.length_map _) hone
        rw [← hagree]
        simp [Record.instr, hmem]
      | false =>
        apply madeUp_other u t hpasses hs _ s (List.length_map _)
        · rw [List.length_map]
          exact hr.length_outs_le.trans (by decide)
        · exact fun reg _ => List.nodup_iff_count_le_one.mp hr.distinct reg
        · intro _
          rw [r.instr_withRegs]
          exact ⟨present, m', hcapture⟩
    · obtain ⟨inRegs, s, hlen, hget⟩ := getInst_inputs (u := u) hpasses ht hdone hin hout
      rw [hget]
      cases hs : r.type.isStore with
      | true =>
        have hne : ¬ r.baseUpd.val = 1 := fun hone => hstore ⟨hs, Or.inr ⟨Fin.ext hone, hout⟩⟩
        apply madeUp_store u t hpasses hs _ s hlen
        · exact Nat.zero_le 1
        · simp [hne]
      | false =>
        apply madeUp_other u t hpasses hs _ s hlen
        · exact Nat.zero_le 127
        · exact fun _ _ => Nat.zero_le 1
        · exact fun hl => absurd ⟨hl, hout⟩ hload
  · rcases getInst_fields (u := u) hpasses ht hdone hnine hin with ⟨hunc, heq, -⟩ | hgo
    · exact absurd ⟨hunc, heq⟩ hjump
    · obtain ⟨-, m, s, hheaded, hget⟩ := hgo
      have hl : r.type.isLoad = false := by
        by_contra htrue
        exact hload ⟨by simpa using htrue, hin.trans hbetween⟩
      have hs : r.type.isStore = false := by
        by_contra htrue
        exact hstore ⟨by simpa using htrue, Or.inl hin⟩
      have hmem : r.type.isMem = false := by simp [InstClass.isMem, hl, hs]
      have hcapture := capture_other (m := m.withRegs [] []) (hheaded.type ▸ hpasses.undef)
        (hheaded.type ▸ hmem)
      rw [hget]
      apply outputs_other u t hcapture hheaded.baseUpdReg rfl (Nat.zero_le 127)
      · exact fun _ _ => Nat.zero_le 1
      · exact hheaded.type ▸ hs
      · exact hheaded.taken
      · exact Nat.zero_le 3
      · exact fun _ => hheaded.memSize hmem

/-! ## Traces that end inside a record -/

/-- **A trace cut inside a record yields no made-up piece exactly when** the cut is
noticed. -/
theorem returnsOnly_iff (records : List Record) (r : Record) (k : Nat)
    (hrecords : ∀ r ∈ records, r.WellFormed) (hr : r.WellFormed) :
    (∀ u, ReturnsOnly u records (encodeAll records ++ r.encode.take k)) ↔ r.CutNoticed k := by
  have hclean : ∀ r ∈ records, r.Clean := fun r hr => (hrecords r hr).clean
  -- the loop comes to the cut record
  have hreach : ∀ u, ∃ insts t, piecesOf u records = .ok insts ∧
      (TraceReader.new u (encodeAll records ++ r.encode.take k)).getInsts u insts.length =
        .ok (insts, t) ∧
      t.dpressedInput = onBytes (r.encode.take k) ∧ t.mProcessedPieces = t.mTotalPieces := by
    intro u
    obtain ⟨insts, hpieces⟩ := piecesOf_ok hclean (fun r hr => (hrecords r hr).pieces) u
    obtain ⟨t, hget, ht, hdone⟩ := getInsts_records hclean hpieces
      (t := TraceReader.new u (encodeAll records ++ r.encode.take k)) rfl rfl
    exact ⟨insts, t, hpieces, hget, ht, hdone⟩
  constructor
  · intro hall
    by_contra hnot
    obtain ⟨u, hu⟩ : ∃ u : Uninit, Guesses u.outReg 0 (r.outs.map Output.reg) :=
      ⟨⟨0, 0, fun i => ((r.outs.map Output.reg)[i]?.getD 0).val, 0⟩, guesses_getD _⟩
    obtain ⟨insts, t, hpieces, hget, ht, hdone⟩ := hreach u
    obtain ⟨insts', t', hpieces', hget', hnone⟩ := hall u
    obtain rfl : insts' = insts := Except.ok.inj (hpieces'.symm.trans hpieces)
    obtain rfl : t' = t := (Prod.mk.inj (Except.ok.inj (hget'.symm.trans hget))).2
    obtain ⟨inst, last, hmadeUp⟩ := getInst_madeUp hr hu ht hdone hnot
    exact hnone inst last hmadeUp
  · intro hnoticed u
    obtain ⟨insts, t, hpieces, hget, ht, hdone⟩ := hreach u
    exact ⟨insts, t, hpieces, hget, getInst_noticed hr ht hdone hnoticed⟩

/-- An addition: one input, one output. -/
def addsOne : Record where
  pc := 4096
  typeByte := 0
  effAddr := 0
  memSize := 0
  baseUpd := 0
  hasRegOffset := 0
  taken := false
  target := 0
  inRegs := [1]
  outs := [⟨2, 3, 0⟩]
  length_inRegs := Record.length_oneInput
  length_outs := by simp

/-- A store of 8 bytes: an address and a value. -/
def storesOne : Record where
  pc := 4100
  typeByte := 2
  effAddr := 8192
  memSize := 8
  baseUpd := 0
  hasRegOffset := 0
  taken := false
  target := 0
  inRegs := [1, 2]
  outs := []
  length_inRegs := Record.length_twoInputs
  length_outs := by simp

theorem addsOne_wellFormed : addsOne.WellFormed where
  clean := fun _ => rfl
  registers := by decide
  distinct := by decide
  pieces := ⟨⟨0, 0, 0, 0⟩, exists_of_isOk (by decide +kernel)⟩

theorem storesOne_wellFormed : storesOne.WellFormed where
  clean := fun _ => rfl
  registers := by decide
  distinct := by decide
  pieces := ⟨⟨0, 0, 0, 0⟩, exists_of_isOk (by decide +kernel)⟩

/-- An addition and the first twelve bytes of a store. -/
theorem returnsOnly_cutStore :
    ReturnsOnly ⟨0, 0, 0, 0⟩ [addsOne] (encodeAll [addsOne] ++ storesOne.encode.take 12) := by
  have hrecords : ∀ r ∈ [addsOne], r.WellFormed := by
    intro r hr
    rw [List.mem_singleton.mp hr]
    exact addsOne_wellFormed
  have hnoticed : storesOne.CutNoticed 12 :=
    Or.inr (Or.inr (Or.inr ⟨by decide, Or.inl (by decide)⟩))
  exact (returnsOnly_iff [addsOne] storesOne 12 hrecords storesOne_wellFormed).mpr hnoticed _

/-- Of an addition the program counter and the class are left: a piece without operands
is made up. -/
theorem cutAddition_madeUp :
    addsOne.WellFormed ∧ 9 < addsOne.encode.length ∧
      ¬ ReturnsOnly ⟨0, 0, 0, 0⟩ [] (encodeAll [] ++ addsOne.encode.take 9) := by
  refine ⟨addsOne_wellFormed, by decide, ?_⟩
  rintro ⟨insts, t, hpieces, hget, hnone⟩
  obtain rfl : [] = insts := Except.ok.inj hpieces
  obtain rfl := (Prod.mk.inj (Except.ok.inj hget)).2
  have hrun : ((TraceReader.new ⟨0, 0, 0, 0⟩ (encodeAll [] ++ addsOne.encode.take 9)).getInst
      ⟨0, 0, 0, 0⟩).toOption.any (fun x => x.1.isSome) = true := by decide +kernel
  cases hx : (TraceReader.new ⟨0, 0, 0, 0⟩ (encodeAll [] ++ addsOne.encode.take 9)).getInst
      ⟨0, 0, 0, 0⟩ with
  | error e =>
    rw [hx] at hrun
    cases hrun
  | ok x =>
    rw [hx] at hrun
    obtain ⟨inst, hinst⟩ := Option.isSome_iff_exists.mp hrun
    exact hnone inst x.2 (by rw [hx, ← hinst])

end CbpSim.Trace
