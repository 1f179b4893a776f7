/-
  Trace/RoundTrip.lean --- reading a trace undoes writing it.

  Source: src/lib/trace_reader.h, `readInstr`, and its "Trace Format" comment.

  `Decodes` says that successive calls of `readInstr` return the records one by
  one.  It holds of every list of accepted records in which no store writes a
  SIMD register, and of no other: the base-update branch of the loop over the
  output values takes 8 bytes, the format has 16 for a SIMD register.
-/
import CbpSim.Trace.Decode

set_option autoImplicit false

namespace CbpSim.Trace

open CbpSim.Foundation

/-- Successive calls of `readInstr` return the records, each call taking the
bytes of one, and then the end of the trace. -/
def Decodes (u : Uninit) : List Record → TraceReader → Prop
  | [], t => ∃ t', t.readInstr u = .ok (false, t')
  | r :: records, t =>
    ∃ t', t.readInstr u = .ok (true, t') ∧ t'.dpressedInput = onBytes (encodeAll records) ∧
      Holds t'.mInstr r ∧ Decodes u records t'

/-! ## Clean records -/

/-- Without a program counter `readInstr` reports the end of the trace. -/
theorem readInstr_short {u : Uninit} {t : TraceReader} {bytes : List Byte}
    (ht : t.dpressedInput = onBytes bytes) (hshort : bytes.length < 8) :
    ∃ t', t.readInstr u = .ok (false, t') := by
  have heof := InStream.readInto_short t.mInstr.reset.mPc hshort
  unfold TraceReader.readInstr
  rw [ht]
  simp only [heof, if_true]
  exact ⟨_, rfl⟩

theorem readInstr_end {u : Uninit} {t : TraceReader} (ht : t.dpressedInput = onBytes []) :
    ∃ t', t.readInstr u = .ok (false, t') := readInstr_short ht (by decide)

theorem decodes_of_clean {u : Uninit} {records : List Record}
    (haccepted : ∀ r ∈ records, r.Accepted u) (hclean : ∀ r ∈ records, r.Clean) {t : TraceReader}
    (ht : t.dpressedInput = onBytes (encodeAll records)) : Decodes u records t := by
  induction records generalizing t with
  | nil => exact readInstr_end ht
  | cons r records ih =>
    rw [encodeAll, List.flatMap_cons] at ht
    obtain ⟨t', hread, hinput, hholds⟩ :=
      (haccepted r List.mem_cons_self).read (hclean r List.mem_cons_self) ht
    refine ⟨t', hread, hinput, hholds, ?_⟩
    exact ih (fun r hr => haccepted r (List.mem_cons_of_mem _ hr))
      (fun r hr => hclean r (List.mem_cons_of_mem _ hr)) hinput

/-! ## Stores that write a SIMD register -/

/-- In front of such a store the reader leaves the high half behind. -/
theorem readInstr_simdStore {u : Uninit} {r : Record} (hstore : r.type.isStore = true)
    (hsimd : r.writesSimd = true) {t t' : TraceReader} {s : List Byte} {more : Bool}
    (ht : t.dpressedInput = onBytes (r.encode ++ s)) (h : t.readInstr u = .ok (more, t')) :
    t'.dpressedInput ≠ onBytes s := by
  obtain ⟨present, m₁, v, m, mem, total, size, hcapture, hvalues, -, -, -, rfl⟩ :=
    readInstr_parts ht h
  have hcaptured := captured rfl (by simp [Record.instr]) hcapture
  -- the store has exactly one output, its base update
  have hone : r.outs.length ≤ 1 := by simpa [Record.instr] using hcaptured.storeOutputs hstore
  obtain ⟨o, ho, hreg⟩ : ∃ o, r.outs = [o] ∧ regIsInt o.reg.val = false := by
    cases houts : r.outs with
    | nil => simp [Record.writesSimd, houts] at hsimd
    | cons o outs =>
      obtain rfl : outs = [] := by simpa [houts] using hone
      exact ⟨o, rfl, by simpa [Record.writesSimd, houts] using hsimd⟩
  have hbase : m₁.mBaseUpdReg = some o.reg.val :=
    (hcaptured.store hstore _).mpr (by simp [Record.instr, ho])
  have hregs : m₁.mOutRegs = [o.reg.val] := by
    rw [hcaptured.frame]
    simp [Record.instr, ho]
  have hbytes : r.outs.flatMap Output.bytes ++ s =
      leBytes 8 o.low.val ++ (leBytes 8 o.high.val ++ s) := by
    simp [ho, Output.bytes, hreg]
  rw [hregs, hbase, hbytes, readValues] at hvalues
  simp only [Record.values, readInto_word, if_true] at hvalues
  rw [if_neg (by simp), readValues] at hvalues
  rw [← Except.ok.inj hvalues]
  intro heq
  have hlen := congrArg (fun s => s.bytes.length) heq
  simp at hlen

/-- **Reading undoes writing exactly for the clean traces.**  For every list of
accepted records, successive calls of `readInstr` on their encoding return the
records one by one if and only if no store among them writes a SIMD register. -/
theorem decodes_iff_clean (u : Uninit) (records : List Record)
    (haccepted : ∀ r ∈ records, r.Accepted u) :
    Decodes u records (TraceReader.new u (encodeAll records)) ↔
      ∀ r ∈ records, ¬ (r.type.isStore = true ∧ r.writesSimd = true) := by
  have hclean : ∀ r : Record, ¬ (r.type.isStore = true ∧ r.writesSimd = true) ↔ r.Clean := by
    intro r
    simp [Record.Clean]
  constructor
  · intro hdecodes
    have hinput : (TraceReader.new u (encodeAll records)).dpressedInput =
      onBytes (encodeAll records) := rfl
    generalize TraceReader.new u (encodeAll records) = t at hdecodes hinput
    induction records generalizing t with
    | nil => simp
    | cons r records ih =>
      obtain ⟨t', hread, hrest, -, hdecodes⟩ := hdecodes
      rintro r' hr' ⟨hstore, hsimd⟩
      rcases List.mem_cons.mp hr' with rfl | hr'
      · exact readInstr_simdStore hstore hsimd hinput hread hrest
      · exact ih (fun r hr => haccepted r (List.mem_cons_of_mem _ hr)) t' hdecodes hrest r' hr'
          ⟨hstore, hsimd⟩
  · intro hall
    exact decodes_of_clean haccepted (fun r hr => (hclean r).mp (hall r hr)) rfl

/-- A store of 8 bytes that writes its address register back. -/
def baseUpdStore (out : Output) : Record where
  pc := 16
  typeByte := 2
  effAddr := 64
  memSize := 8
  baseUpd := 1
  hasRegOffset := 0
  taken := false
  target := 0
  inRegs := [1, 2]
  outs := [out]
  length_inRegs := Record.length_twoInputs
  length_outs := by simp

/-- Two stores that write back r1. -/
theorem decodes_intStores :
    Decodes ⟨0, 0, 0, 0⟩ [baseUpdStore ⟨1, 72, 0⟩, baseUpdStore ⟨1, 80, 0⟩]
      (TraceReader.new ⟨0, 0, 0, 0⟩
        (encodeAll [baseUpdStore ⟨1, 72, 0⟩, baseUpdStore ⟨1, 80, 0⟩])) := by
  refine (decodes_iff_clean _ _ ?_).mpr (by decide)
  intro r hr
  simp only [List.mem_cons, List.not_mem_nil, or_false] at hr
  rcases hr with rfl | rfl <;> exact Record.accepted_of_isOk (by decide +kernel)

/-- A store that writes back to r33 is accepted, but not read back. -/
theorem simdStore_not_decoded :
    (∀ r ∈ [baseUpdStore ⟨33, 72, 5⟩], r.Accepted ⟨0, 0, 0, 0⟩) ∧
      ¬ Decodes ⟨0, 0, 0, 0⟩ [baseUpdStore ⟨33, 72, 5⟩]
        (TraceReader.new ⟨0, 0, 0, 0⟩ (encodeAll [baseUpdStore ⟨33, 72, 5⟩])) := by
  constructor
  · intro r hr
    obtain rfl := List.mem_singleton.mp hr
    exact Record.accepted_of_isOk (by decide +kernel)
  · rintro ⟨t', hread, hrest, -⟩
    exact readInstr_simdStore (by decide) (by decide) rfl hread hrest

end CbpSim.Trace
