/-
  Trace/Records.lean --- the pieces of whole records.

  Source: src/lib/trace_reader.h, `get_inst`; src/lib/cbp.cc, the loop of `main`.

  The pieces of a record are what the loop gets from a file that holds it alone.
  Building a piece reads nothing of the stream, so the loop gets the same pieces when
  the record stands somewhere in a trace, and then is in front of the next record.
-/
import CbpSim.Trace.Decode
import CbpSim.Trace.Loop
import CbpSim.Trace.RoundTrip

set_option autoImplicit false

namespace CbpSim.Trace

open CbpSim.Foundation

/-- What `get_inst` returns, round after round, for the record alone. -/
def Record.pieces (u : Uninit) (r : Record) : Except Abort (List DbInst) := do
  let (insts, _) ← (TraceReader.new u r.encode).getInsts u 256
  .ok insts

namespace TraceReader

variable {u : Uninit} {t t' : TraceReader}

/-! ## A reader elsewhere in a trace -/

/-- The same instruction, read from another place of a trace. -/
def elsewhere (t : TraceReader) (s : InStream) (nInstr mBaseUpd : Nat) : TraceReader :=
  { t with dpressedInput := s, nInstr := nInstr, mInstr := { t.mInstr with mBaseUpd := mBaseUpd } }

theorem advanceCrack_elsewhere (s : InStream) (nInstr mBaseUpd : Nat)
    (h : t.advanceCrack = .ok t') :
    (t.elsewhere s nInstr mBaseUpd).advanceCrack = .ok (t'.elsewhere s nInstr mBaseUpd) := by
  unfold advanceCrack at h ⊢
  dsimp only at h ⊢
  split at h
  · rename_i hmore
    refine (if_pos hmore).trans ?_
    split at h
    · cases h
    · rename_i reg hreg
      have hreg' : (t.elsewhere s nInstr mBaseUpd).mInstr.mOutRegs[
          (t.elsewhere s nInstr mBaseUpd).mCrackRegIdx]? = some reg := hreg
      rw [hreg']
      dsimp only
      split at h
      · rename_i hint
        rw [if_pos hint, ← Except.ok.inj h]
        rfl
      · rename_i hint
        rw [if_neg hint]
        split at h
        · rename_i heven
          rw [← Except.ok.inj h]
          exact if_pos heven
        · rename_i hodd
          rw [← Except.ok.inj h]
          exact if_neg hodd
  · rename_i hdone
    rw [← Except.ok.inj h]
    exact if_neg hdone

/-- A piece does not depend on where the record is read. -/
theorem populateNewInstr_elsewhere (s : InStream) (nInstr mBaseUpd : Nat) {inst : DbInst}
    (h : t.populateNewInstr = .ok (inst, t')) :
    (t.elsewhere s nInstr mBaseUpd).populateNewInstr =
      .ok (inst, t'.elsewhere s nInstr mBaseUpd) := by
  unfold populateNewInstr at h
  obtain ⟨hfit, h⟩ := guard_eq_ok.mp h
  obtain ⟨htaken, h⟩ := guard_eq_ok.mp h
  obtain ⟨⟨A, B, C⟩, hinputs, h⟩ := bind_eq_ok.mp h
  obtain ⟨⟨D, startFpReg⟩, houtput, h⟩ := bind_eq_ok.mp h
  obtain ⟨t'', hcrack, h⟩ := bind_eq_ok.mp h
  obtain ⟨rfl, rfl⟩ := Prod.mk.inj (Except.ok.inj h)
  have hcrack' := advanceCrack_elsewhere s nInstr mBaseUpd hcrack
  have hinputs' : (t.elsewhere s nInstr mBaseUpd).populateInputs
      (t.elsewhere s nInstr mBaseUpd).createBaseUpdateOp = .ok (A, B, C) := hinputs
  have houtput' : (t.elsewhere s nInstr mBaseUpd).populateOutput
      (t.elsewhere s nInstr mBaseUpd).createBaseUpdateOp = .ok (D, startFpReg) := houtput
  rw [populateNewInstr]
  apply guard_eq_ok.mpr
  refine ⟨hfit, guard_eq_ok.mpr ⟨htaken, ?_⟩⟩
  rw [hinputs', ok_bind]
  dsimp only
  rw [houtput', ok_bind]
  exact bind_eq_ok.mpr ⟨_, hcrack', rfl⟩

/-! ## Rounds of the loop -/

theorem getInsts_append {first rest : List DbInst} {t'' : TraceReader}
    (hfirst : t.getInsts u first.length = .ok (first, t'))
    (hrest : t'.getInsts u rest.length = .ok (rest, t'')) :
    t.getInsts u (first ++ rest).length = .ok (first ++ rest, t'') := by
  induction first generalizing t with
  | nil =>
    obtain ⟨-, rfl⟩ := Prod.mk.inj (Except.ok.inj hfirst)
    exact hrest
  | cons inst first ih =>
    rw [List.length_cons, getInsts] at hfirst
    obtain ⟨⟨inst?, v⟩, hget, hfirst⟩ := bind_eq_ok.mp hfirst
    cases inst? with
    | none => cases hfirst
    | some inst' =>
      obtain ⟨⟨insts, w⟩, hinsts, hfirst⟩ := bind_eq_ok.mp hfirst
      obtain ⟨heq, rfl⟩ := Prod.mk.inj (Except.ok.inj hfirst)
      obtain ⟨rfl, rfl⟩ := List.cons.inj heq
      rw [List.cons_append, List.length_cons, getInsts, hget, ok_bind]
      dsimp only
      rw [ih hinsts, ok_bind]

/-- The loop ends at the null pointer. -/
theorem getInsts_end {insts : List DbInst} {last : TraceReader} {n : Nat}
    (h : t.getInsts u insts.length = .ok (insts, t')) (hend : t'.getInst u = .ok (none, last))
    (hn : insts.length < n) : t.getInsts u n = .ok (insts, last) := by
  obtain ⟨n, rfl⟩ := Nat.exists_eq_succ_of_ne_zero (Nat.ne_of_gt (Nat.zero_lt_of_lt hn))
  induction insts generalizing t n with
  | nil =>
    obtain ⟨-, rfl⟩ := Prod.mk.inj (Except.ok.inj h)
    rw [getInsts, hend, ok_bind]
  | cons inst insts ih =>
    rw [List.length_cons, getInsts] at h
    obtain ⟨⟨inst?, v⟩, hget, h⟩ := bind_eq_ok.mp h
    cases inst? with
    | none => cases h
    | some inst' =>
      obtain ⟨⟨insts', w⟩, hinsts, h⟩ := bind_eq_ok.mp h
      obtain ⟨heq, rfl⟩ := Prod.mk.inj (Except.ok.inj h)
      obtain ⟨rfl, rfl⟩ := List.cons.inj heq
      obtain ⟨n, rfl⟩ : ∃ m, n = m + 1 := ⟨n - 1, by simp at hn; omega⟩
      rw [getInsts, hget, ok_bind]
      dsimp only
      rw [ih hinsts n (by simpa using hn), ok_bind]

/-- The round that reads a record goes on as if it had been read before. -/
theorem getInsts_of_read (hdone : t.mProcessedPieces = t.mTotalPieces)
    (hread : t.readInstr u = .ok (true, t')) (hleft : t'.mProcessedPieces ≠ t'.mTotalPieces)
    {n : Nat} (hn : 0 < n) : t.getInsts u n = t'.getInsts u n := by
  have hget : t.getInst u = t'.getInst u := by
    unfold getInst
    rw [if_neg (by simp [hdone]), if_pos hleft, hread, ok_bind]
    rfl
  obtain ⟨n, rfl⟩ := Nat.exists_eq_succ_of_ne_zero (Nat.ne_of_gt hn)
  rw [getInsts, getInsts, hget]

/-- The rounds that build the pieces left of the instruction read nothing. -/
theorem getInsts_left {k j : Nat} {insts : List DbInst} {last : TraceReader}
    (hk : t.mProcessedPieces + k = t.mTotalPieces) (hlt : t.mTotalPieces < 256)
    (h : t.getInsts u (k + j) = .ok (insts, last)) :
    ∃ (first rest : List DbInst) (done : TraceReader), first.length = k ∧ insts = first ++ rest ∧
      done.mProcessedPieces = done.mTotalPieces ∧ done.dpressedInput = t.dpressedInput ∧
      done.getInsts u j = .ok (rest, last) ∧
      ∀ u' s nInstr mBaseUpd, (t.elsewhere s nInstr mBaseUpd).getInsts u' k =
        .ok (first, done.elsewhere s nInstr mBaseUpd) := by
  induction k generalizing t insts with
  | zero =>
    rw [Nat.zero_add] at h
    exact ⟨[], insts, t, rfl, rfl, hk, rfl, h, fun _ _ _ _ => rfl⟩
  | succ k ih =>
    have hleft : t.mProcessedPieces ≠ t.mTotalPieces := by omega
    rw [Nat.succ_add, getInsts] at h
    obtain ⟨⟨inst?, v⟩, hget, h⟩ := bind_eq_ok.mp h
    rw [getInst, if_pos hleft] at hget
    obtain ⟨⟨inst, w⟩, hpopulate, hget⟩ := bind_eq_ok.mp hget
    obtain ⟨rfl, rfl⟩ := Prod.mk.inj (Except.ok.inj hget)
    obtain ⟨⟨insts', last'⟩, hinsts, h⟩ := bind_eq_ok.mp h
    obtain ⟨rfl, rfl⟩ := Prod.mk.inj (Except.ok.inj h)
    have built : Built t inst w := (populateNewInstr_built t).of_ok hpopulate
    have hprocessed : w.mProcessedPieces = t.mProcessedPieces + 1 := by
      rw [built.processed, Nat.mod_eq_of_lt (by omega)]
    obtain ⟨first, rest, done, hlen, rfl, hdone, hinput, hrest, helsewhere⟩ :=
      ih (by rw [hprocessed, built.mTotalPieces]; omega) (built.mTotalPieces ▸ hlt) hinsts
    refine ⟨inst :: first, rest, done, congrArg Nat.succ hlen, rfl, hdone,
      hinput.trans built.dpressedInput, hrest, ?_⟩
    intro u' s nInstr mBaseUpd
    have hleft' : (t.elsewhere s nInstr mBaseUpd).mProcessedPieces ≠
        (t.elsewhere s nInstr mBaseUpd).mTotalPieces := hleft
    rw [getInsts, getInst, if_pos hleft', populateNewInstr_elsewhere s nInstr mBaseUpd hpopulate,
      ok_bind, ok_bind]
    dsimp only
    rw [helsewhere, ok_bind]

end TraceReader

/-! ## Whole records -/

/-- The loop over the output values counts in a byte. -/
theorem Record.digest_total_lt {r : Record} {mBaseUpd : Nat} {s : InStream} {present : Bool}
    {m : Instr} {v : Values} (h : r.digest mBaseUpd s = .ok (present, m, v)) :
    v.mTotalPieces < 256 := by
  obtain ⟨-, -, m₁, -, htake, -⟩ := digest_eq_ok h
  have hlen := r.length_outs
  have hstart : (r.values s).mTotalPieces < 256 := by
    simp only [Record.values]
    split <;> omega
  rw [takeOutputs_total htake hstart]
  exact Nat.mod_lt _ (by decide)

/-- A record that is read has at least one piece, and less than 256. -/
theorem countPieces_bounds {m : Instr} {baseUpdate : Bool} {counted : Nat} {x : Nat × Nat × Nat}
    (hcount : countPieces m baseUpdate counted = .ok x)
    (hcheck : checkPieces m baseUpdate x.1 x.2.1 = .ok ()) (hlt : counted < 256) :
    1 ≤ x.2.1 ∧ x.2.1 < 256 := by
  unfold checkPieces at hcheck
  obtain ⟨hne, -⟩ := guard_eq_ok.mp hcheck
  refine ⟨Nat.one_le_iff_ne_zero.mpr hne, ?_⟩
  unfold countPieces at hcount
  split at hcount
  · obtain ⟨-, hcount⟩ := guard_eq_ok.mp hcount
    rw [← Except.ok.inj hcount]
    exact Nat.mod_lt _ (by decide)
  · split at hcount
    · obtain ⟨-, hcount⟩ := guard_eq_ok.mp hcount
      rw [← Except.ok.inj hcount]
      exact hlt
    · obtain ⟨-, hcount⟩ := guard_eq_ok.mp hcount
      obtain ⟨-, hcount⟩ := guard_eq_ok.mp hcount
      rw [← Except.ok.inj hcount]
      exact hlt

/-- A clean record is read elsewhere as it is read alone. -/
theorem readInstr_elsewhere {u : Uninit} (u' : Uninit) {r : Record} (hclean : r.Clean) {t t₁ : TraceReader}
    {s : List Byte} (halone : (TraceReader.new u r.encode).readInstr u = .ok (true, t₁))
    (ht : t.dpressedInput = onBytes (r.encode ++ s)) :
    t₁.mProcessedPieces = 0 ∧ 1 ≤ t₁.mTotalPieces ∧ t₁.mTotalPieces < 256 ∧
      t₁.dpressedInput = onBytes [] ∧
      ∃ nInstr mBaseUpd, t.readInstr u' = .ok (true, t₁.elsewhere (onBytes s) nInstr mBaseUpd) := by
  have hnew : (TraceReader.new u r.encode).dpressedInput = onBytes (r.encode ++ []) := by
    rw [List.append_nil]
    rfl
  obtain ⟨present, m, v, mem, total, size, hdigest, hcount, hcheck, -, rfl⟩ :=
    readInstr_eq_ok hclean hnew halone
  have hdigest' := Record.digest_congr t.mInstr.mBaseUpd (onBytes s) hdigest
  obtain ⟨-, hinput, -⟩ := hclean.holds hdigest
  obtain ⟨hpos, hlt⟩ : 1 ≤ total ∧ total < 256 :=
    countPieces_bounds hcount hcheck (Record.digest_total_lt hdigest)
  refine ⟨rfl, hpos, hlt, hinput, (t.nInstr + 1) % 2 ^ 64,
    if r.type.isMem then m.mBaseUpd else t.mInstr.mBaseUpd, ?_⟩
  rw [readInstr_encode hclean ht, hdigest', ok_bind]
  change (countPieces m present v.mTotalPieces >>= _) = _
  rw [hcount, ok_bind]
  change (checkPieces m present mem total >>= _) = _
  rw [hcheck, ok_bind]
  rfl

/-- **The loop gets the pieces of a record wherever it stands**, and is then in front of
what comes after it. -/
theorem getInsts_record {u : Uninit} (u' : Uninit) {r : Record} (hclean : r.Clean) {insts : List DbInst}
    (hpieces : r.pieces u = .ok insts) {t : TraceReader} {s : List Byte}
    (ht : t.dpressedInput = onBytes (r.encode ++ s))
    (hdone : t.mProcessedPieces = t.mTotalPieces) :
    insts.length < 256 ∧ ∃ t', t.getInsts u' insts.length = .ok (insts, t') ∧
      t'.dpressedInput = onBytes s ∧ t'.mProcessedPieces = t'.mTotalPieces := by
  obtain ⟨⟨insts', last⟩, hinsts, hpieces⟩ := bind_eq_ok.mp hpieces
  obtain rfl : insts' = insts := Except.ok.inj hpieces
  -- alone, the record is read
  obtain ⟨t₁, halone⟩ : ∃ t₁, (TraceReader.new u r.encode).readInstr u = .ok (true, t₁) := by
    rw [TraceReader.getInsts] at hinsts
    obtain ⟨⟨inst?, v⟩, hget, -⟩ := bind_eq_ok.mp hinsts
    unfold TraceReader.getInst at hget
    rw [if_neg (by simp [TraceReader.new])] at hget
    obtain ⟨⟨more, t₁⟩, hread, -⟩ := bind_eq_ok.mp hget
    obtain ⟨t', hread', -⟩ := Record.Accepted.read ⟨more, t₁, hread⟩ hclean
      (s := []) (t := TraceReader.new u r.encode) (by rw [List.append_nil]; rfl)
    exact ⟨t', hread'⟩
  obtain ⟨hstart, hpos, hlt, hend, nInstr, mBaseUpd, hread⟩ :=
    readInstr_elsewhere u' hclean halone ht
  have hleft : t₁.mProcessedPieces ≠ t₁.mTotalPieces := by omega
  rw [TraceReader.getInsts_of_read rfl halone hleft (by decide)] at hinsts
  have hsplit : 256 = t₁.mTotalPieces + (256 - t₁.mTotalPieces) := by omega
  rw [hsplit] at hinsts
  obtain ⟨first, rest, done, hlen, rfl, hdone', hinput, hrest, helsewhere⟩ :=
    TraceReader.getInsts_left (by omega) hlt hinsts
  -- and after its pieces comes the end of the file
  obtain rfl : rest = [] := by
    obtain ⟨t', hread'⟩ := readInstr_end (u := u) (hinput.trans hend)
    obtain ⟨n, hn⟩ : ∃ n, 256 - t₁.mTotalPieces = n + 1 := ⟨255 - t₁.mTotalPieces, by omega⟩
    rw [hn, TraceReader.getInsts, TraceReader.getInst, if_neg (by simp [hdone']), hread'] at hrest
    exact (Prod.mk.inj (Except.ok.inj hrest)).1.symm
  rw [List.append_nil]
  refine ⟨hlen.trans_lt hlt, done.elsewhere (onBytes s) nInstr mBaseUpd, ?_, rfl, hdone'⟩
  rw [TraceReader.getInsts_of_read hdone hread hleft (by omega), hlen]
  exact helsewhere _ _ _ _

/-- The pieces do not depend on what variables hold that are not initialised. -/
theorem Record.Clean.pieces_eq {u : Uninit} {r : Record} (hclean : r.Clean) {insts : List DbInst}
    (hpieces : r.pieces u = .ok insts) (u' : Uninit) : r.pieces u' = .ok insts := by
  obtain ⟨hlt, t', hget, hinput, hdone⟩ := getInsts_record u' hclean hpieces (s := [])
    (t := TraceReader.new u' r.encode) (by rw [List.append_nil]; rfl) rfl
  obtain ⟨last, hread⟩ := readInstr_end (u := u') hinput
  have hend : t'.getInst u' = .ok (none, last) := by
    rw [TraceReader.getInst, if_neg (by simp [hdone]), hread]
    rfl
  rw [Record.pieces, TraceReader.getInsts_end hget hend hlt, ok_bind]

/-- The pieces of the records, one record after the other. -/
def piecesOf (u : Uninit) (records : List Record) : Except Abort (List DbInst) := do
  let parts ← records.mapM (Record.pieces u)
  .ok parts.flatten

theorem piecesOf_cons (u : Uninit) (r : Record) (records : List Record) :
    piecesOf u (r :: records) = (do
      let insts ← r.pieces u
      let rest ← piecesOf u records
      .ok (insts ++ rest)) := by
  unfold piecesOf
  rw [List.mapM_cons]
  cases r.pieces u with
  | error e => rfl
  | ok insts =>
    cases records.mapM (Record.pieces u) with
    | error e => rfl
    | ok parts => rfl

theorem piecesOf_ok {records : List Record} (hclean : ∀ r ∈ records, r.Clean)
    (hpieces : ∀ r ∈ records, ∃ u insts, r.pieces u = .ok insts) (u : Uninit) :
    ∃ insts, piecesOf u records = .ok insts := by
  induction records with
  | nil => exact ⟨[], rfl⟩
  | cons r records ih =>
    obtain ⟨v, first, hfirst⟩ := hpieces r List.mem_cons_self
    obtain ⟨rest, hrest⟩ := ih (fun r hr => hclean r (List.mem_cons_of_mem _ hr))
      (fun r hr => hpieces r (List.mem_cons_of_mem _ hr))
    rw [piecesOf_cons, (hclean r List.mem_cons_self).pieces_eq hfirst u, ok_bind, hrest, ok_bind]
    exact ⟨_, rfl⟩

/-- **The loop gets the pieces of the records of a trace**, one record after the other,
and is then in front of what comes after them. -/
theorem getInsts_records {u : Uninit} {records : List Record}
    (hclean : ∀ r ∈ records, r.Clean) {insts : List DbInst}
    (hpieces : piecesOf u records = .ok insts) {t : TraceReader} {s : List Byte}
    (ht : t.dpressedInput = onBytes (encodeAll records ++ s))
    (hdone : t.mProcessedPieces = t.mTotalPieces) :
    ∃ t', t.getInsts u insts.length = .ok (insts, t') ∧ t'.dpressedInput = onBytes s ∧
      t'.mProcessedPieces = t'.mTotalPieces := by
  induction records generalizing insts t with
  | nil =>
    obtain rfl : [] = insts := Except.ok.inj hpieces
    exact ⟨t, rfl, ht, hdone⟩
  | cons r records ih =>
    rw [piecesOf_cons] at hpieces
    obtain ⟨first, hfirst, hpieces⟩ := bind_eq_ok.mp hpieces
    obtain ⟨rest, hrest, hpieces⟩ := bind_eq_ok.mp hpieces
    obtain rfl := Except.ok.inj hpieces
    rw [encodeAll, List.flatMap_cons, List.append_assoc] at ht
    obtain ⟨-, t', hget, ht', hdone'⟩ :=
      getInsts_record u (hclean r List.mem_cons_self) hfirst ht hdone
    obtain ⟨t'', hget', ht'', hdone''⟩ :=
      ih (fun r hr => hclean r (List.mem_cons_of_mem _ hr)) hrest ht' hdone'
    exact ⟨t'', TraceReader.getInsts_append hget hget', ht'', hdone''⟩

end CbpSim.Trace
