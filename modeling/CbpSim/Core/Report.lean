/-
  Core/Report.lean --- the branch measurements that are printed at the end.

  Source: src/lib/bp.cc, `bp_t::output` and `bp_t::output_periodic_info`.

  The totals of a report come from two kinds of sums over the same epochs.  A
  `std::accumulate` that begins with the literal 0 adds up in an `int`; a section of
  `output_periodic_info` adds up in a `uint64_t`, from the last epoch backwards,
  until it has more instructions than its target.  The ratios that stand beside the
  counts are floating-point numbers and left out, and with them the number of
  instructions that `output` is called with.
-/
import CbpSim.Core.Epochs
import CbpSim.Foundation.Accumulate

set_option autoImplicit false

namespace CbpSim.Core

open CbpSim.Foundation

/-! ## `bp_t::output` -/

/-- `const uint64_t .. = std::accumulate(v.begin(), v.end(), 0)`. -/
def accumulate (v : List Nat) : Nat := (signedSum (2 ^ 64) (2 ^ 32) v % 2 ^ 64).toNat

/-- What `%10ld` prints of a `uint64_t`. -/
def ld (x : Nat) : Int := Int.bmod x (2 ^ 64)

/-- A line of counts: `NumBr` and `MispBr` as they are printed. -/
structure BpRow where
  str : String
  n : Int
  m : Int
  deriving DecidableEq, Repr

/-- `BP_OUTPUT`. -/
def bpOutput (str : String) (n m : Nat) : BpRow := { str := str, n := ld n, m := ld m }

namespace Bp

/-- The vector of one of the counters. -/
def perEpoch (b : Bp) (f : EpochMeasures → Nat) : List Nat := b.measPerEpoch.map f

/-- `bp_t::output`. -/
def output (b : Bp) : List BpRow :=
  let measConddirN := accumulate (b.perEpoch (·.conddirN))
  let measConddirM := accumulate (b.perEpoch (·.conddirM))
  let measJumpdirN := accumulate (b.perEpoch (·.jumpdirN))
  let measJumpindN := accumulate (b.perEpoch (·.jumpindN))
  let measJumpindM := accumulate (b.perEpoch (·.jumpindM))
  let measJumpretN := accumulate (b.perEpoch (·.jumpretN))
  let measJumpretM := accumulate (b.perEpoch (·.jumpretM))
  let measNotctrlN := accumulate (b.perEpoch (·.notctrlN))
  let measNotctrlM := accumulate (b.perEpoch (·.notctrlM))
  [bpOutput "CondDirect       " measConddirN measConddirM,
    bpOutput "JumpDirect       " measJumpdirN 0,
    bpOutput "JumpIndirect     " measJumpindN measJumpindM,
    bpOutput "JumpReturn       " measJumpretN measJumpretM,
    bpOutput "Not control      " measNotctrlN measNotctrlM]

end Bp

/-! ## `bp_t::output_periodic_info` -/

/-- The running sums of a section.  `summed` is no variable of the source: the epochs
that have been added. -/
structure Section where
  myInstrCount : Nat := 0
  myCycleCount : Nat := 0
  myBrCount : Nat := 0
  myBrMispredCount : Nat := 0
  myWpcCount : Nat := 0
  summed : List Nat := []
  deriving DecidableEq, Repr

/-- The five `+=` of an epoch. -/
def Section.add (my : Section) (epochIndex insts cycles : Nat) (m : EpochMeasures) : Section where
  myInstrCount := (my.myInstrCount + insts) % 2 ^ 64
  myCycleCount := (my.myCycleCount + cycles) % 2 ^ 64
  myBrCount := (my.myBrCount + m.conddirN) % 2 ^ 64
  myBrMispredCount := (my.myBrMispredCount + m.conddirM) % 2 ^ 64
  myWpcCount := (my.myWpcCount + m.cyclesOnWrongPath) % 2 ^ 64
  summed := epochIndex :: my.summed

/-- `v.at(epoch_index)`. -/
def atEpoch {α : Type} (v : List α) (epochIndex : Nat) : Except Abort α :=
  match v[epochIndex]? with
  | some x => .ok x
  | none => .error .periodicEpoch

/-- The epochs from `int epoch_index = num_insts_per_epoch.size() - 1` down to 0. -/
def epochsReached (size : Nat) : Nat := (Int.bmod (size - 1) (2 ^ 32) + 1).toNat

/-- A report of the periodic information. -/
structure PeriodicInfo where
  last10M : Section
  last25M : Section
  half : Section
  full : Section
  perEpoch : List Section
  deriving DecidableEq, Repr

namespace Bp

/-- The counters of one epoch, added to `my`. -/
def addEpoch (b : Bp) (insts cycles : List Nat) (my : Section) (epochIndex : Nat) :
    Except Abort Section := do
  let n ← atEpoch insts epochIndex
  let c ← atEpoch cycles epochIndex
  let m ← atEpoch b.measPerEpoch epochIndex
  return my.add epochIndex n c m

/-- The loop of a section, with the epochs below the given one before it. -/
def sumEpochs (b : Bp) (insts cycles : List Nat) (targetInstrCount : Nat) :
    Nat → Section → Except Abort Section
  | 0, my => .ok my
  | epochIndex + 1, my => do
    let my ← b.addEpoch insts cycles my epochIndex
    if my.myInstrCount > targetInstrCount then
      return my
    b.sumEpochs insts cycles targetInstrCount epochIndex my

/-- A section of `output_periodic_info`. -/
def sectionOf (b : Bp) (insts cycles : List Nat) (targetInstrCount : Nat) :
    Except Abort Section :=
  b.sumEpochs insts cycles targetInstrCount (epochsReached insts.length) {}

/-- `bp_t::output_periodic_info`. -/
def outputPeriodicInfo (b : Bp) (printPerEpochStats : Bool) (insts cycles : List Nat) :
    Except Abort PeriodicInfo := do
  if insts.length ≠ cycles.length then
    throw .periodicSizes
  let last10M ← b.sectionOf insts cycles 10000000
  let last25M ← b.sectionOf insts cycles 25000000
  let totalInstr := accumulate insts
  let half ← b.sectionOf insts cycles (totalInstr / 2)
  let full ← b.sectionOf insts cycles totalInstr
  let perEpoch ← (if printPerEpochStats then List.range insts.length else []).mapM
    (b.addEpoch insts cycles {})
  return { last10M, last25M, half, full, perEpoch }

end Bp

/-! ## What a section adds up -/

/-- The sum of the epochs from `k` up to `top`. -/
def segment (v : List Nat) (k top : Nat) : Nat := ((v.take top).drop k).sum

theorem segment_self (v : List Nat) (top : Nat) : segment v top top = 0 := by
  have hnil : (v.take top).drop top = [] := List.drop_eq_nil_of_le (List.length_take_le top v)
  rw [segment, hnil]
  rfl

theorem segment_length (v : List Nat) (k : Nat) : segment v k v.length = (v.drop k).sum := by
  rw [segment, List.take_length]

theorem segment_succ {v : List Nat} {k top x : Nat} (hx : v[k]? = some x) (hk : k < top) :
    segment v k top = segment v (k + 1) top + x := by
  obtain ⟨hlt, rfl⟩ := List.getElem?_eq_some_iff.mp hx
  have hlt' : k < (v.take top).length := by
    rw [List.length_take]
    omega
  rw [segment, List.drop_eq_getElem_cons hlt', List.sum_cons, List.getElem_take, Nat.add_comm]
  rfl

/-- The vectors of a report have an entry for each epoch. -/
structure Parallel (b : Bp) (insts cycles : List Nat) : Prop where
  cycles : cycles.length = insts.length
  meas : b.measPerEpoch.length = insts.length

/-- The section that has added up the epochs from `k` up to `top`. -/
def Bp.stretch (b : Bp) (insts cycles : List Nat) (k top : Nat) : Section where
  myInstrCount := segment insts k top % 2 ^ 64
  myCycleCount := segment cycles k top % 2 ^ 64
  myBrCount := segment (b.perEpoch (·.conddirN)) k top % 2 ^ 64
  myBrMispredCount := segment (b.perEpoch (·.conddirM)) k top % 2 ^ 64
  myWpcCount := segment (b.perEpoch (·.cyclesOnWrongPath)) k top % 2 ^ 64
  summed := List.range' k (top - k)

theorem Bp.stretch_self (b : Bp) (insts cycles : List Nat) (top : Nat) :
    b.stretch insts cycles top top = {} := by
  simp [stretch, segment_self]

theorem atEpoch_eq {α : Type} {v : List α} {i : Nat} (h : i < v.length) :
    atEpoch v i = .ok v[i] := by
  rw [atEpoch, List.getElem?_eq_getElem h]

section Sums

variable {b : Bp} {insts cycles : List Nat}

open Bp

/-- Every vector has the epoch that is added. -/
theorem Parallel.addEpoch (h : Parallel b insts cycles) (my : Section) {k : Nat}
    (hk : k < insts.length) :
    ∃ n c m, insts[k]? = some n ∧ cycles[k]? = some c ∧ b.measPerEpoch[k]? = some m ∧
      b.addEpoch insts cycles my k = .ok (my.add k n c m) := by
  have hcycles : k < cycles.length := by rw [h.cycles]; exact hk
  have hmeas : k < b.measPerEpoch.length := by rw [h.meas]; exact hk
  refine ⟨insts[k], cycles[k], b.measPerEpoch[k], List.getElem?_eq_getElem hk,
    List.getElem?_eq_getElem hcycles, List.getElem?_eq_getElem hmeas, ?_⟩
  rw [Bp.addEpoch, atEpoch_eq hk, atEpoch_eq hcycles, atEpoch_eq hmeas]
  rfl

theorem Parallel.addEpoch_stretch (h : Parallel b insts cycles) {k top : Nat} (hk : k < top)
    (htop : top ≤ insts.length) :
    b.addEpoch insts cycles (b.stretch insts cycles (k + 1) top) k =
      .ok (b.stretch insts cycles k top) := by
  obtain ⟨n, c, m, hn, hc, hm, hadd⟩ := h.addEpoch (b.stretch insts cycles (k + 1) top)
    (lt_of_lt_of_le hk htop)
  have counter (f : EpochMeasures → Nat) : (b.perEpoch f)[k]? = some (f m) := by
    rw [Bp.perEpoch, List.getElem?_map, hm]
    rfl
  rw [hadd, Section.add]
  simp only [Bp.stretch, Nat.mod_add_mod, segment_succ hn hk, segment_succ hc hk,
    segment_succ (counter (·.conddirN)) hk, segment_succ (counter (·.conddirM)) hk,
    segment_succ (counter (·.cyclesOnWrongPath)) hk]
  congr
  rw [← List.range'_succ]
  congr 1
  omega

/-- A run of the simulator leaves parallel vectors to its report. -/
theorem output_parallel {P H : Type} {u : Unset} {cfg : Config} {hk : Hooks P H} {p : P}
    {trace : List DbInst} (hperfect : cfg.perfectBranchPred = false) {s s' : Uarchsim P}
    (hrun : Uarchsim.simulate u cfg hk p trace = .ok s) (hout : s.output = .ok s') :
    Parallel s'.BP s'.numInstsPerEpoch s'.numCyclesPerEpoch := by
  obtain ⟨s₀, hnew, log, hran, rfl⟩ := Uarchsim.simulate_eq_ok.mp hrun
  have h := (Accounts.new hnew).ran hperfect hran
  obtain ⟨hlt, rfl⟩ := Uarchsim.endCurrentBeginNewEpoch_eq_ok hout
  simp only [if_true, List.append_nil]
  exact {
    cycles := by rw [length_updateBack, h.length, h.perEpoch, List.length_map]
    meas := by rw [← h.measured.length_eq, h.perEpoch, List.length_map] }

/-- A section has added up the epochs from some `k` on: it goes on while it has not
more instructions than its target, and ends with the first epoch or with more. -/
theorem Parallel.sumEpochs_stretch (h : Parallel b insts cycles) (target : Nat) {n top : Nat}
    (hn : n ≤ top) (htop : top ≤ insts.length) :
    ∃ k ≤ n,
      b.sumEpochs insts cycles target n (b.stretch insts cycles n top) =
        .ok (b.stretch insts cycles k top) ∧
      (0 < k → k < n ∧ target < segment insts k top % 2 ^ 64) ∧
      ∀ j, k < j → j < n → segment insts j top % 2 ^ 64 ≤ target := by
  induction n with
  | zero =>
    refine ⟨0, le_rfl, rfl, fun hlt => absurd hlt (lt_irrefl 0), ?_⟩
    intro j _ hj
    omega
  | succ n ih =>
    rw [sumEpochs, h.addEpoch_stretch (by omega) htop, ok_bind]
    split
    · rename_i hmore
      refine ⟨n, by omega, rfl, fun _ => ⟨by omega, hmore⟩, ?_⟩
      intro j _ _
      omega
    · rename_i hnotMore
      obtain ⟨k, hk, hsum, hends, hgoes⟩ := ih (by omega)
      refine ⟨k, by omega, hsum, ?_, ?_⟩
      · intro hpos
        exact ⟨Nat.lt_succ_of_lt (hends hpos).1, (hends hpos).2⟩
      · intro j hkj hjn
        rcases Nat.lt_succ_iff_lt_or_eq.mp hjn with hlt | rfl
        · exact hgoes j hkj hlt
        · exact Nat.le_of_not_lt hnotMore

/-! ## The epochs that are reached -/

/-- `epoch_index` counts all the epochs where it holds their number, and some of them
in any case. -/
theorem epochsReached_le (size : Nat) : epochsReached size ≤ size := by
  rcases Nat.eq_zero_or_pos size with rfl | hpos
  · decide
  · have hmod : (size - 1 : Int) % 2 ^ 32 ≤ size - 1 := by omega
    have hbmod : Int.bmod (size - 1) (2 ^ 32) ≤ (size - 1) % 2 ^ 32 := by
      rw [Int.bmod_eq_emod]
      split
      · simp
      · simp
    rw [epochsReached]
    omega

theorem epochsReached_eq_iff (size : Nat) : epochsReached size = size ↔ size ≤ 2 ^ 31 := by
  constructor
  · intro heq
    have hlt := Int.bmod_lt (x := size - 1) (m := 2 ^ 32) (by decide)
    rw [epochsReached] at heq
    omega
  · intro hle
    rw [epochsReached, Int.bmod_eq_of_le (by omega) (by omega)]
    omega

theorem Parallel.sectionOf (h : Parallel b insts cycles) (target : Nat) :
    ∃ k ≤ epochsReached insts.length,
      b.sectionOf insts cycles target =
        .ok (b.stretch insts cycles k (epochsReached insts.length)) ∧
      (0 < k → k < epochsReached insts.length ∧
        target < segment insts k (epochsReached insts.length) % 2 ^ 64) ∧
      ∀ j, k < j → j < epochsReached insts.length →
        segment insts j (epochsReached insts.length) % 2 ^ 64 ≤ target := by
  have hsums := h.sumEpochs_stretch target le_rfl (epochsReached_le insts.length)
  rw [stretch_self] at hsums
  exact hsums

theorem exists_mapM {ε α β : Type} {f : α → Except ε β} {xs : List α}
    (h : ∀ x ∈ xs, ∃ y, f x = .ok y) : ∃ ys, xs.mapM f = .ok ys := by
  induction xs with
  | nil => exact ⟨[], rfl⟩
  | cons x xs ih =>
    obtain ⟨y, hy⟩ := h x List.mem_cons_self
    obtain ⟨ys, hys⟩ := ih fun x' hx' => h x' (List.mem_cons_of_mem x hx')
    refine ⟨y :: ys, ?_⟩
    rw [List.mapM_cons, hy, ok_bind, hys]
    rfl

/-- A report of parallel vectors is printed, with a section for each target. -/
theorem Parallel.outputPeriodicInfo (h : Parallel b insts cycles) (printPerEpochStats : Bool) :
    ∃ r, b.outputPeriodicInfo printPerEpochStats insts cycles = .ok r ∧
      b.sectionOf insts cycles 10000000 = .ok r.last10M ∧
      b.sectionOf insts cycles 25000000 = .ok r.last25M ∧
      b.sectionOf insts cycles (accumulate insts / 2) = .ok r.half ∧
      b.sectionOf insts cycles (accumulate insts) = .ok r.full := by
  obtain ⟨k₁, -, h₁, -⟩ := h.sectionOf 10000000
  obtain ⟨k₂, -, h₂, -⟩ := h.sectionOf 25000000
  obtain ⟨k₃, -, h₃, -⟩ := h.sectionOf (accumulate insts / 2)
  obtain ⟨k₄, -, h₄, -⟩ := h.sectionOf (accumulate insts)
  obtain ⟨rows, hrows⟩ : ∃ rows, (if printPerEpochStats then List.range insts.length
      else []).mapM (b.addEpoch insts cycles {}) = .ok rows := by
    apply exists_mapM
    intro k hk
    have hk : k < insts.length := by
      split at hk
      · exact List.mem_range.mp hk
      · cases hk
    obtain ⟨n, c, m, -, -, -, hadd⟩ := h.addEpoch {} hk
    exact ⟨_, hadd⟩
  rw [Bp.outputPeriodicInfo, if_neg (not_not.mpr h.cycles.symm)]
  simp only [ok_bind, h₁, h₂, h₃, h₄, hrows]
  exact ⟨⟨_, _, _, _, rows⟩, rfl, rfl, rfl, rfl, rfl⟩

end Sums

/-! ## The totals -/

/-- The vectors that `output` totals. -/
def Bp.totalled (b : Bp) : List (List Nat) :=
  [(·.conddirN), (·.conddirM), (·.jumpdirN), (·.jumpindN), (·.jumpindM), (·.jumpretN),
    (·.jumpretM), (·.notctrlN), (·.notctrlM)].map fun f : EpochMeasures → Nat => b.perEpoch f

/-- The lines of `output` with the sums of the epochs. -/
def Bp.trueOutput (b : Bp) : List BpRow :=
  let total (f : EpochMeasures → Nat) : Int := ((b.perEpoch f).sum : Nat)
  [{ str := "CondDirect       ", n := total (·.conddirN), m := total (·.conddirM) },
    { str := "JumpDirect       ", n := total (·.jumpdirN), m := 0 },
    { str := "JumpIndirect     ", n := total (·.jumpindN), m := total (·.jumpindM) },
    { str := "JumpReturn       ", n := total (·.jumpretN), m := total (·.jumpretM) },
    { str := "Not control      ", n := total (·.notctrlN), m := total (·.notctrlM) }]

/-- The totals of a report are the sums of the epochs, in `output` and in the section of
the full simulation. -/
structure TotalsExact (b : Bp) (insts : List Nat) (r : PeriodicInfo) : Prop where
  printed : b.output = b.trueOutput
  totalInstr : accumulate insts = insts.sum
  instr : r.full.myInstrCount = accumulate insts
  branches : b.output.head?.map (fun row => (row.n, row.m)) =
    some (ld r.full.myBrCount, ld r.full.myBrMispredCount)

/-- The totals fit an `int`; that of the instructions may as well be the word of a
negative one.  Behind the epochs that `epoch_index` counts there is nothing to add. -/
structure TotalsFit (b : Bp) (insts : List Nat) : Prop where
  totals : ∀ v ∈ b.totalled, v.sum < 2 ^ 31
  totalInstr : insts.sum < 2 ^ 31 ∨ 2 ^ 64 - 2 ^ 31 ≤ insts.sum
  reached : ∀ v ∈ [insts, b.perEpoch (·.conddirN), b.perEpoch (·.conddirM)],
    (v.drop (epochsReached insts.length)).sum = 0

theorem accumulate_eq_iff {v : List Nat} (hv : v.sum < 2 ^ 64) :
    accumulate v = v.sum ↔ v.sum < 2 ^ 31 ∨ 2 ^ 64 - 2 ^ 31 ≤ v.sum := by
  have hword := signedSum_emod_eq_iff (h := 2 ^ 31) (Nat.two_pow_pos 31)
    (Nat.pow_dvd_pow 2 (show 32 ≤ 64 by decide)) hv
  rw [Nat.cast_pow, Nat.cast_ofNat] at hword
  exact hword

/-- A total is printed as the `int` it was added up in. -/
theorem ld_accumulate (v : List Nat) : ld (accumulate v) = Int.bmod v.sum (2 ^ 32) := by
  have hword := bmod_signedSum_emod (Nat.two_pow_pos 32)
    (Nat.pow_dvd_pow 2 (show 32 ≤ 64 by decide)) (Nat.two_pow_pos 64) v
  rw [Nat.cast_pow, Nat.cast_ofNat] at hword
  exact hword

theorem ld_accumulate_eq_iff (v : List Nat) : ld (accumulate v) = v.sum ↔ v.sum < 2 ^ 31 := by
  rw [ld_accumulate]
  constructor
  · intro heq
    have hhigh := Int.bmod_lt (x := v.sum) (m := 2 ^ 32) (by decide)
    omega
  · intro hlt
    exact Int.bmod_eq_of_le (by omega) (by omega)

theorem ld_of_lt {x : Nat} (hx : x < 2 ^ 63) : ld x = x :=
  Int.bmod_eq_of_le (by omega) (by omega)

theorem output_eq_trueOutput_iff (b : Bp) :
    b.output = b.trueOutput ↔ ∀ v ∈ b.totalled, v.sum < 2 ^ 31 := by
  have hzero : ld 0 = 0 := ld_of_lt (Nat.two_pow_pos 63)
  simp [Bp.output, Bp.trueOutput, Bp.totalled, bpOutput, ld_accumulate_eq_iff, hzero, and_assoc,
    -Nat.cast_list_sum]

section Totals

variable {b : Bp} {insts cycles : List Nat}

theorem segment_zero (v : List Nat) (top : Nat) : segment v 0 top = (v.take top).sum := by
  rw [segment, List.drop_zero]

theorem sum_take_add_sum_drop (v : List Nat) (top : Nat) :
    (v.take top).sum + (v.drop top).sum = v.sum := by
  rw [← List.sum_append, List.take_append_drop]

/-- With the true total for its target the section of the full simulation ends with the
first epoch. -/
theorem Parallel.full (h : Parallel b insts cycles)
    (hexact : accumulate insts = insts.sum) :
    b.sectionOf insts cycles (accumulate insts) =
      .ok (b.stretch insts cycles 0 (epochsReached insts.length)) := by
  obtain ⟨k, -, hsection, hends, -⟩ := h.sectionOf (accumulate insts)
  rcases Nat.eq_zero_or_pos k with rfl | hpos
  · exact hsection
  · obtain ⟨-, hmore⟩ := hends hpos
    have hdrop : segment insts k (epochsReached insts.length) ≤ insts.sum := by
      have htake := sum_take_add_sum_drop (insts.take (epochsReached insts.length)) k
      have htop := sum_take_add_sum_drop insts (epochsReached insts.length)
      rw [segment]
      omega
    have hword := Nat.mod_le (segment insts k (epochsReached insts.length)) (2 ^ 64)
    omega

/-- A section of all the epochs that are reached has the sum of a vector just when the
vector has nothing behind them. -/
theorem segment_mod_eq_iff {v : List Nat} (hv : v.sum < 2 ^ 64) (top : Nat) :
    segment v 0 top % 2 ^ 64 = v.sum ↔ (v.drop top).sum = 0 := by
  have hsplit := sum_take_add_sum_drop v top
  rw [segment_zero, Nat.mod_eq_of_lt (by omega)]
  omega

theorem ld_segment_eq_iff {v : List Nat} (hv : v.sum < 2 ^ 31) (top : Nat) :
    (v.sum : Int) = ld (segment v 0 top % 2 ^ 64) ↔ (v.drop top).sum = 0 := by
  have hsplit := sum_take_add_sum_drop v top
  rw [segment_zero, Nat.mod_eq_of_lt (by omega), ld_of_lt (by omega)]
  omega

/-- **The totals are exact while they fit an `int`.**  The lines of `output` have the
sums of the epochs, and agree with the section of the full simulation, just when each
of them is below `2 ^ 31`. -/
theorem totalsExact_iff (b : Bp) (printPerEpochStats : Bool) (insts cycles : List Nat)
    (h : Parallel b insts cycles) (hinsts : insts.sum < 2 ^ 64) :
    (∃ r, b.outputPeriodicInfo printPerEpochStats insts cycles = .ok r ∧
      TotalsExact b insts r) ↔ TotalsFit b insts := by
  obtain ⟨r, hreport, -, -, -, hfull⟩ := h.outputPeriodicInfo printPerEpochStats
  have hN : b.perEpoch (·.conddirN) ∈ b.totalled := by simp [Bp.totalled]
  have hM : b.perEpoch (·.conddirM) ∈ b.totalled := by simp [Bp.totalled]
  have hinstr := segment_mod_eq_iff hinsts (epochsReached insts.length)
  have hhead : b.output = b.trueOutput → b.output.head?.map (fun row => (row.n, row.m)) =
      some (((b.perEpoch (·.conddirN)).sum : Int), ((b.perEpoch (·.conddirM)).sum : Int)) := by
    intro heq
    rw [heq]
    rfl
  have full (hexact : accumulate insts = insts.sum) :
      r.full = b.stretch insts cycles 0 (epochsReached insts.length) := by
    rw [h.full hexact] at hfull
    exact (Except.ok.inj hfull).symm
  constructor
  · rintro ⟨r', hr', hexact⟩
    obtain rfl : r = r' := Except.ok.inj (hreport.symm.trans hr')
    have hfits := (output_eq_trueOutput_iff b).mp hexact.printed
    have hbranches := hexact.branches
    have hinstr' := hexact.instr
    rw [full hexact.totalInstr] at hbranches hinstr'
    rw [hhead hexact.printed, Option.some.injEq, Prod.mk.injEq] at hbranches
    refine ⟨hfits, (accumulate_eq_iff hinsts).mp hexact.totalInstr, ?_⟩
    intro v hv
    simp only [List.mem_cons, List.not_mem_nil, or_false] at hv
    rcases hv with rfl | rfl | rfl
    · exact hinstr.mp (hinstr'.trans hexact.totalInstr)
    · exact (ld_segment_eq_iff (hfits _ hN) _).mp hbranches.1
    · exact (ld_segment_eq_iff (hfits _ hM) _).mp hbranches.2
  · intro hfit
    have hexact := (accumulate_eq_iff hinsts).mpr hfit.totalInstr
    have hprinted := (output_eq_trueOutput_iff b).mpr hfit.totals
    refine ⟨r, hreport, hprinted, hexact, ?_, ?_⟩
    · rw [full hexact, hexact]
      exact hinstr.mpr (hfit.reached _ (by simp))
    · rw [full hexact, hhead hprinted, Option.some.injEq, Prod.mk.injEq]
      constructor
      · exact (ld_segment_eq_iff (hfit.totals _ hN) _).mpr (hfit.reached _ (by simp))
      · exact (ld_segment_eq_iff (hfit.totals _ hM) _).mpr (hfit.reached _ (by simp))

/-- A single epoch of `n` conditional branches. -/
def branchesOnly (n : Nat) : Bp where
  mispredCorrectionSeed := 0
  measPerEpoch := [{ conddirN := n }]

theorem totalsExact_iff_branchesOnly :
    Parallel (branchesOnly (2 ^ 31 - 1)) [2 ^ 31 - 1] [2 ^ 28] ∧
      ((∃ r, (branchesOnly (2 ^ 31 - 1)).outputPeriodicInfo false [2 ^ 31 - 1] [2 ^ 28] = .ok r ∧
        TotalsExact (branchesOnly (2 ^ 31 - 1)) [2 ^ 31 - 1] r) ↔
          TotalsFit (branchesOnly (2 ^ 31 - 1)) [2 ^ 31 - 1]) :=
  ⟨⟨rfl, rfl⟩, totalsExact_iff _ _ _ _ ⟨rfl, rfl⟩ (by decide)⟩

/-- With one branch more the report shows a negative number of branches, and 2 ^ 64 - 2 ^ 31
for the number of instructions. -/
theorem branchesOnly_overflow :
    Parallel (branchesOnly (2 ^ 31)) [2 ^ 31] [2 ^ 28] ∧
      (branchesOnly (2 ^ 31)).output.head? =
        some { str := "CondDirect       ", n := -2 ^ 31, m := 0 } ∧
      accumulate [2 ^ 31] = 2 ^ 64 - 2 ^ 31 ∧
      ¬ ∃ r, (branchesOnly (2 ^ 31)).outputPeriodicInfo false [2 ^ 31] [2 ^ 28] = .ok r ∧
        TotalsExact (branchesOnly (2 ^ 31)) [2 ^ 31] r := by
  have htotal : accumulate [2 ^ 31] = 2 ^ 64 - 2 ^ 31 := by decide +kernel
  refine ⟨⟨rfl, rfl⟩, by decide +kernel, htotal, ?_⟩
  rintro ⟨r, -, hexact⟩
  have hsum := hexact.totalInstr
  rw [htotal] at hsum
  simp at hsum

end Totals

end CbpSim.Core
