/-
  Core/Main.lean --- the whole program.

  Source: src/lib/cbp.cc, `main`; src/lib/uarchsim.cc, `uarchsim_t::output`.

  The program parses its arguments, reads the trace one piece after the other, each
  before the simulator is stepped with the piece in front of it, and prints a report.
  Of the report the counters are modelled; the lines that repeat the parameters and the
  ratios, which are floating-point numbers, are left out.  So are the files that the
  report is printed to.
-/
import CbpSim.Common.CommandLine
import CbpSim.Core.CacheTraffic
import CbpSim.Core.EpochClasses
import CbpSim.Core.Report
import CbpSim.Trace.PieceCounts

set_option autoImplicit false

namespace CbpSim.Core

open CbpSim.Foundation CbpSim.Memory CbpSim.Trace

variable {P H : Type}

/-! ## The report -/

/-- `cache_t::stats`. -/
structure CacheStats where
  accesses : Nat
  misses : Nat
  pfAccesses : Nat
  pfMisses : Nat
  deriving DecidableEq, Repr

/-- The counters of a cache. -/
def cacheStats (c : Cache) : CacheStats where
  accesses := c.accesses
  misses := c.misses
  pfAccesses := c.pfAccesses
  pfMisses := c.pfMisses

/-- `StridePrefetcher::print_stats`. -/
structure PrefetcherStats where
  trainings : Nat
  generated : Nat
  issued : Nat
  duplicatePfFiltered : Nat
  droppedUntimelyPf : Nat
  putBack : Nat
  strideZero : Nat
  deriving DecidableEq, Repr

/-- The counters of the prefetcher. -/
def prefetcherStats (p : StridePrefetcher) : PrefetcherStats where
  trainings := p.statTrainings
  generated := p.statGenerated
  issued := p.statIssued
  duplicatePfFiltered := p.statDuplicatePfFiltered
  droppedUntimelyPf := p.statDroppedUntimelyPf
  putBack := p.statPutBack
  strideZero := p.statStrideZero

/-- What `uarchsim_t::output` prints. -/
structure Report where
  numLoad : Nat
  numLoadSqmiss : Nat
  statPfsIssuedToMem : Nat
  /-- with `FETCH_MODEL_ICACHE` -/
  IC : Option CacheStats
  L1 : CacheStats
  L2 : CacheStats
  L3 : CacheStats
  prefetcher : PrefetcherStats
  numInst : Nat
  cycle : Nat
  cyclesOnWrongPath : Nat
  branches : List BpRow
  periodic : PeriodicInfo
  deriving DecidableEq, Repr

namespace Uarchsim

/-- `uarchsim_t::output`. -/
def report (s : Uarchsim P) (c : Settings) : Except Abort Report := do
  let s ← s.output
  let periodic ←
    s.BP.outputPeriodicInfo c.printPerEpochStats s.numInstsPerEpoch s.numCyclesPerEpoch
  return {
    numLoad := s.numLoad
    numLoadSqmiss := s.numLoadSqmiss
    statPfsIssuedToMem := s.statPfsIssuedToMem
    IC := if c.fetchModelIcache then some (cacheStats s.res.IC) else none
    L1 := cacheStats s.res.L1
    L2 := cacheStats s.res.L2
    L3 := cacheStats s.res.L3
    prefetcher := prefetcherStats s.res.prefetcher
    numInst := s.numInst
    cycle := s.cycle
    cyclesOnWrongPath := s.cyclesOnWrongPath
    branches := s.BP.output
    periodic := periodic }

/-! ## The loop -/

/-- The loop of `main`, up to `n` calls of `get_inst`; `none` while it goes on. -/
def mainLoop (u : Uninit) (cfg : Config) (hk : Hooks P H) :
    Nat → TraceReader → Uarchsim P → Except (Stop H) (Option (Uarchsim P))
  | 0, _, _ => .ok none
  | n + 1, reader, sim => do
    let (inst, reader) ← lift (reader.getInst u)
    match inst with
    | none => .ok (some sim)
    | some inst => do
      let sim ← sim.step cfg hk inst
      mainLoop u cfg hk n reader sim

end Uarchsim

/-- `log_files`: whether `init` has opened the four files.  `files` is global, so that its
pointers are null before that. -/
structure LogFiles where
  opened : Bool := false

/-- Why the program ends without a report. -/
inductive Exit (H : Type) where
  /-- a text of `parseargs`, and a regular end -/
  | usage (text : String)
  /-- a text of `parseargs`, and then `fclose` of a null pointer -/
  | nullFile (text : String)
  | stop (reason : Stop H)
  /-- the loop goes on -/
  | running
  deriving DecidableEq, Repr

/-- `exit(0)` behind a text: it destroys `files`, and `~log_files` closes the four files. -/
def LogFiles.exit (files : LogFiles) (text : String) : Exit H :=
  if files.opened then .usage text else .nullFile text

/-- The simulator, constructed and stepped with what the reader gets. -/
def runTrace (u : Uninit) (w : Unset) (cfg : Config) (hk : Hooks P H) (p : P) (rounds : Nat)
    (reader : TraceReader) : Except (Stop H) (Option (Uarchsim P)) := do
  let sim ← lift (Uarchsim.new w cfg p)
  Uarchsim.mainLoop u cfg hk rounds reader sim

/-- `main`, with the predictors of `hooks` and the files of `contents`, decompressed.
`files.init` comes behind `parseargs`; the files that it opens can be created. -/
def main (v : Undefined) (u : Uninit) (w : Unset) (hooks : Config → Hooks P H) (p : P)
    (contents : String → List Byte) (rounds : Nat) (argv0 : String) (args : List String) :
    Except (Exit H) Report := do
  let (c, i) ← (parseargs v argv0 args).mapError (LogFiles.exit {})
  let reader := TraceReader.new u (contents ((argv0 :: args).getD i ""))
  let sim ← (runTrace u w c.toConfig (hooks c.toConfig) p rounds reader).mapError .stop
  match sim with
  | none => .error .running
  | some sim => (lift (sim.report c)).mapError .stop

/-! ## Reading and stepping -/

section Loop

variable {u : Uninit} {cfg : Config} {hk : Hooks P H} {t t' last : TraceReader}
  {insts : List DbInst}

open Uarchsim

/-- **Reading in turn with the simulator is reading first.** -/
theorem mainLoop_reads (hget : t.getInsts u insts.length = .ok (insts, t')) (n : Nat)
    (s : Uarchsim P) :
    mainLoop u cfg hk (insts.length + n) t s = (do
      let s ← insts.foldlM (step cfg hk) s
      mainLoop u cfg hk n t' s) := by
  induction insts generalizing t s with
  | nil =>
    obtain ⟨-, rfl⟩ := Prod.mk.inj (Except.ok.inj hget)
    rw [List.length_nil, Nat.zero_add]
    rfl
  | cons inst insts ih =>
    rw [List.length_cons, TraceReader.getInsts] at hget
    obtain ⟨⟨inst?, v⟩, hfirst, hget⟩ := bind_eq_ok.mp hget
    cases inst? with
    | none => cases hget
    | some inst' =>
      obtain ⟨⟨insts', w⟩, hinsts, hget⟩ := bind_eq_ok.mp hget
      obtain ⟨heq, rfl⟩ := Prod.mk.inj (Except.ok.inj hget)
      obtain ⟨rfl, rfl⟩ := List.cons.inj heq
      rw [List.length_cons, Nat.succ_add, mainLoop, hfirst, List.foldlM_cons]
      change (s.step cfg hk inst' >>= fun sim => mainLoop u cfg hk (insts'.length + n) v sim) = _
      cases s.step cfg hk inst' with
      | error e => rfl
      | ok sim => exact ih hinsts sim

/-- The loop ends at the null pointer. -/
theorem mainLoop_ends (hget : t.getInsts u insts.length = .ok (insts, t'))
    (hend : t'.getInst u = .ok (none, last)) {n : Nat} (hn : insts.length < n)
    (s : Uarchsim P) :
    mainLoop u cfg hk n t s = (insts.foldlM (step cfg hk) s).map some := by
  obtain ⟨k, rfl⟩ := Nat.exists_eq_add_of_lt hn
  rw [Nat.add_assoc, mainLoop_reads hget]
  have hnone : ∀ s : Uarchsim P, mainLoop u cfg hk (k + 1) t' s = .ok (some s) := by
    intro s
    rw [mainLoop, hend]
    rfl
  simp only [hnone]
  rfl

end Loop

/-! ## The instructions of a file -/

section Instructions

variable {u : Uninit} {t t' : TraceReader} {insts : List DbInst}

end Instructions

/-! ## The program -/

section Program

variable {v : Undefined} {u : Uninit} {w : Unset} {hooks : Config → Hooks P H} {p : P}
  {contents : String → List Byte} {rounds : Nat} {argv0 : String} {args : List String}
  {c : Settings} {i : Nat} {path : String} {records : List Record} {insts : List DbInst}

open Uarchsim

/-- A file of whole records is read to its end. -/
theorem runTrace_records {cfg : Config} {hk : Hooks P H} (hclean : ∀ r ∈ records, r.Clean)
    (hpieces : piecesOf u records = .ok insts) (hrounds : insts.length < rounds) :
    runTrace u w cfg hk p rounds (TraceReader.new u (encodeAll records)) =
      (simulate w cfg hk p insts).map some := by
  have hnew : (TraceReader.new u (encodeAll records)).dpressedInput =
      onBytes (encodeAll records ++ []) := by
    rw [List.append_nil]
    rfl
  obtain ⟨t', hget, hinput, hdone⟩ := getInsts_records hclean hpieces hnew rfl
  obtain ⟨last, hread⟩ := readInstr_end (u := u) hinput
  have hend : t'.getInst u = .ok (none, last) := by
    rw [TraceReader.getInst, if_neg (not_not.mpr hdone), hread]
    rfl
  unfold runTrace simulate
  cases lift (H := H) (Uarchsim.new w cfg p) with
  | error e => rfl
  | ok s => exact mainLoop_ends hget hend hrounds s

/-- The program behind its arguments. -/
theorem main_runs (hargs : parseargs v argv0 args = .ok (c, i))
    (hpath : (argv0 :: args)[i]? = some path) :
    main v u w hooks p contents rounds argv0 args = (do
      let sim ← (runTrace u w c.toConfig (hooks c.toConfig) p rounds
        (TraceReader.new u (contents path))).mapError .stop
      match sim with
      | none => .error .running
      | some sim => (lift (sim.report c)).mapError .stop) := by
  have hgot : (argv0 :: args).getD i "" = path := by
    rw [List.getD_eq_getElem?_getD, hpath]
    rfl
  unfold main
  rw [hargs]
  simp only [Except.mapError, ok_bind, hgot]

/-- **The program simulates the records of the file** that its arguments give, and reports
the simulation, or stops where it stops. -/
theorem main_of_records (hargs : parseargs v argv0 args = .ok (c, i))
    (hpath : (argv0 :: args)[i]? = some path) (hfile : contents path = encodeAll records)
    (hclean : ∀ r ∈ records, r.Clean) (hpieces : piecesOf u records = .ok insts)
    (hrounds : insts.length < rounds) :
    main v u w hooks p contents rounds argv0 args =
      (do
        let s ← simulate w c.toConfig (hooks c.toConfig) p insts
        lift (s.report c)).mapError .stop := by
  rw [main_runs hargs hpath, hfile, runTrace_records hclean hpieces hrounds]
  cases simulate w c.toConfig (hooks c.toConfig) p insts with
  | error e => rfl
  | ok s => rfl

/-- A file of an addition and a store, whatever its name is. -/
def addAndStore (_path : String) : List Byte := encodeAll [addsOne, storesOne]

theorem addAndStore_clean : ∀ r ∈ [addsOne, storesOne], r.Clean :=
  List.forall_mem_cons.mpr ⟨fun _ => rfl, List.forall_mem_singleton.mpr fun _ => rfl⟩

/-- A command line for a window of 64 pieces. -/
def smallWindow : List String := ["-w", "64", "t.gz"]

/-- Nothing is undefined in it. -/
def noneUndefined : Undefined := ⟨fun _ => 0, fun _ => 0, fun _ => 0, fun _ => 0⟩

theorem parseargs_smallWindow :
    parseargs noneUndefined "sim" smallWindow = .ok ({ windowSize := 64 }, 3) := by
  decide +kernel

theorem main_of_records_addAndStore :
    ∃ insts, piecesOf ⟨0, 0, 0, 0⟩ [addsOne, storesOne] = .ok insts ∧
      main noneUndefined ⟨0, 0, 0, 0⟩ ⟨fun _ => ⟨0, 0, 0⟩, 0⟩ (fun _ => idlePredictors) ()
          addAndStore 8 "sim" smallWindow =
        (do
          let s ← simulate ⟨fun _ => ⟨0, 0, 0⟩, 0⟩ { windowSize := 64 } idlePredictors () insts
          lift (s.report { windowSize := 64 })).mapError .stop := by
  obtain ⟨insts, hpieces, hlength⟩ := exists_of_observe (show (piecesOf ⟨0, 0, 0, 0⟩
    [addsOne, storesOne]).toOption.map List.length = some 2 by decide +kernel)
  exact ⟨insts, hpieces, main_of_records parseargs_smallWindow rfl rfl addAndStore_clean hpieces
    (by omega)⟩

/-! ## What is reported -/

/-- A count as it is printed, which was added up in an `int`. -/
def printed (n : Nat) : Int := Int.bmod n (2 ^ 32)

end Program

end CbpSim.Core
