/-
  Predictor/Ittage.lean --- the indirect-branch predictor.

  Source: src/lib/ittage.h.

  `folded_history`, `ctrupdate` and `F` are those of TAGE-SC-L: the ring of history
  bits and the banks have the same sizes.  Every bank has the same `logg` and the
  same `TB`.  What `reinit` does not write has any value in a new object.  An
  `int` that overflows is taken to wrap around.  `GHIST`, `pred_target` and
  `target_inter` are never read and left out.
-/
import CbpSim.Foundation.Bytes
import CbpSim.Predictor.Tage

set_option autoImplicit false

namespace CbpSim.Predictor

namespace Ipredictor

/-! ## Parameters -/

/-- `NHIST`. -/
def nHist : Nat := 8

/-- `TBITS`. -/
def tBits : Nat := 11

/-- `NNN`. -/
def nnn : Int := 1

/-- `UWIDTH`. -/
def uWidth : Nat := 2

/-- `m`: the history lengths of the banks, geometric from `MINHIST` to `MAXHIST`. -/
def lengths : List Nat := [0, 2, 7, 13, 24, 46, 86, 160, 300]

/-- From the second bank on the lengths are `MINHIST * (MAXHIST / MINHIST) ^ (i / NHIST)`,
rounded. -/
theorem lengths_rounded : ∀ p ∈ lengths.zipIdx, 2 ≤ p.2 →
    (2 * p.1 - 1) ^ 8 ≤ (2 * 2) ^ 8 * 150 ^ p.2 ∧
      (2 * 2) ^ 8 * 150 ^ p.2 < (2 * p.1 + 1) ^ 8 := by
  decide

/-- `m[i]`. -/
def m (i : Nat) : Nat := lengths.getD i 0

/-- `ientry`: an entry of the tables. -/
structure Entry where
  target : Nat := 0xdeadbeef
  ctr : Int := 0
  tag : Nat := 0
  u : Int := 0
  deriving DecidableEq, Repr

/-- The members that `reinit` does not write. -/
structure Unset where
  ghist : Nat → Fin 256
  gi : Nat → Nat
  gtag : Nat → Nat
  altTarget : Nat
  tageTarget : Nat
  longestMatchPred : Nat
  hitBank : Int
  altBank : Int

end Ipredictor

/-- `IPREDICTOR`. -/
structure Ipredictor where
  useAltOnNa : Int
  tick : Int
  ghist : Nat → Nat
  ptghist : Int
  phist : Nat
  chI : Nat → FoldedHistory
  chT0 : Nat → FoldedHistory
  chT1 : Nat → FoldedHistory
  itable : Nat → Nat → Ipredictor.Entry
  gi : Nat → Nat
  gtag : Nat → Nat
  altTarget : Nat
  tageTarget : Nat
  longestMatchPred : Nat
  hitBank : Int
  altBank : Int
  seed : BitVec 32

namespace Ipredictor

/-- `reinit`.  The loop that is meant to clear `ghist` writes `ghist[0]` in each round. -/
def reinit (u : Unset) : Ipredictor where
  useAltOnNa := 0
  tick := 0
  ghist := Function.update (fun i => (u.ghist i).val) 0 0
  ptghist := 0
  phist := 0
  chI := fun i => .init (m i) logG
  chT0 := fun i => .init (m i) tBits
  chT1 := fun i => .init (m i) (tBits - 1)
  itable := fun _ _ => {}
  gi := u.gi
  gtag := u.gtag
  altTarget := u.altTarget
  tageTarget := u.tageTarget
  longestMatchPred := u.longestMatchPred
  hitBank := u.hitBank
  altBank := u.altBank
  seed := 0

/-! ## The prediction -/

/-- `gindex`. -/
def gindex (pc bank phist : Nat) (chI : Nat → FoldedHistory) : Nat :=
  let pc := pc % 2 ^ 32
  let size := if m bank > phistWidth then phistWidth else m bank
  let shift := ((logG : Int) - bank).natAbs + 1
  (pc ^^^ (pc >>> shift) ^^^ (chI bank).comp ^^^ mixPath phist size bank) &&& (2 ^ logG - 1)

/-- `gtag`. -/
def gtagOf (pc bank : Nat) (chT0 chT1 : Nat → FoldedHistory) : Nat :=
  let pc := pc % 2 ^ 32
  (pc ^^^ (chT0 bank).comp ^^^ ((chT1 bank).comp <<< 1) % 2 ^ 32) &&& (2 ^ tBits - 1)

/-- `itable[bank][GI[bank]]`. -/
def entry (p : Ipredictor) (bank : Nat) : Entry := p.itable bank (p.gi bank)

/-- `itable[bank][GI[bank]] = e`. -/
def setEntry (p : Ipredictor) (bank : Nat) (e : Entry) : Ipredictor :=
  { p with itable := Function.update p.itable bank (Function.update (p.itable bank) (p.gi bank) e) }

/-- The last bank below `last` that has the tag of the branch. -/
def longestHit (p : Ipredictor) (last : Nat) : Option Nat :=
  (List.range last).reverse.find? fun i => (p.entry i).tag == p.gtag i

/-- A bank number, -1 without a bank. -/
def bankNumber (bank : Option Nat) : Int := (bank.map fun i => (i : Int)).getD (-1)

/-- `GetPrediction`. -/
def getPrediction (p : Ipredictor) (pc : Nat) : Nat × Ipredictor :=
  let p := { p with
    gi := fun i => gindex pc i p.phist p.chI
    gtag := fun i => gtagOf pc i p.chT0 p.chT1 }
  let hit := p.longestHit (nHist + 1)
  let hitConf := (hit.map fun i => (p.entry i).ctr).getD (-4)
  let longestMatchPred := (hit.map fun i => (p.entry i).target).getD 0
  let alt := p.longestHit (hit.getD 0)
  let altConf := (alt.map fun i => (p.entry i).ctr).getD (-4)
  let altTarget := (alt.map fun i => (p.entry i).target).getD 0
  let hitBank := bankNumber hit
  let altBank := bankNumber alt
  let tageTarget :=
    if hitBank > 0 then
      if !(p.useAltOnNa ≥ 0) || hitConf > 0 || hitConf ≥ altConf then longestMatchPred
      else altTarget
    else 0
  let tageTarget := if altBank < 0 then longestMatchPred else tageTarget
  (tageTarget, { p with
    hitBank := hitBank
    altBank := altBank
    longestMatchPred := longestMatchPred
    altTarget := altTarget
    tageTarget := tageTarget })

/-! ## The histories -/

/-- One round of the loop over `t` in `HistoryUpdate`; the first bank keeps its
registers. -/
def push (p : Ipredictor) (dir : Bool) (pathBit : Nat) : Ipredictor :=
  let ptghist := p.ptghist - 1
  let ghist := Function.update p.ghist (histSlot ptghist) dir.toNat
  let fold (ch : Nat → FoldedHistory) (i : Nat) : FoldedHistory :=
    if 1 ≤ i ∧ i ≤ nHist then (ch i).update ghist ptghist else ch i
  { p with
    ptghist := ptghist
    ghist := ghist
    phist := (p.phist <<< 1) % 2 ^ 64 ^^^ pathBit
    chI := fold p.chI
    chT0 := fold p.chT0
    chT1 := fold p.chT1 }

/-- The loop over `t`. -/
def pushAll : Nat → Nat → Nat → Ipredictor → Ipredictor
  | 0, _, _, p => p
  | n + 1, t, path, p => pushAll n (t >>> 1) (path >>> 1) (p.push (t &&& 1 == 1) (path &&& 127))

/-- `HistoryUpdate`. -/
def historyUpdate (p : Ipredictor) (pc target : Nat) : Ipredictor :=
  let t := ((pc >>> 2) ^^^ (pc >>> 6)) % 2 ^ 32
  let path := ((target >>> 2) ^^^ (target >>> 6)) % 2 ^ 32
  let p := pushAll 3 t path p
  { p with phist := p.phist &&& (2 ^ phistWidth - 1) }

/-- `TrackOtherInst`. -/
def trackOtherInst (p : Ipredictor) (pc branchTarget : Nat) : Ipredictor :=
  p.historyUpdate pc branchTarget

/-! ## The training -/

/-- `MYRANDOM`: the next `Seed`, which is the number. -/
def myrandom (p : Ipredictor) : BitVec 32 :=
  let seed := (p.seed + 1) ^^^ BitVec.ofNat 32 p.phist
  let seed := seed.sshiftRight 21 + seed <<< 11
  let seed := seed ^^^ BitVec.ofInt 32 p.ptghist
  seed.sshiftRight 10 + seed <<< 22

/-- The loop that allocates entries from bank `i` on: the predictor, `Penalty` and `NA`. -/
def allocate (branchTarget : Nat) :
    Nat → Nat → Int → Ipredictor → Int × Int → Ipredictor × Int × Int
  | 0, _, _, p, counts => (p, counts)
  | fuel + 1, i, t, p, (penalty, na) =>
    if i > nHist then (p, penalty, na)
    else if (p.entry i).u = 0 then
      let p := p.setEntry i
        { p.entry i with tag := p.gtag i, target := branchTarget, ctr := 0 }
      if t ≤ 0 then (p, penalty, na + 1)
      else allocate branchTarget fuel (i + 2) (t - 1) p (penalty, na + 1)
    else allocate branchTarget fuel (i + 1) t p (penalty + 1, na)

/-- Is the longest match newly allocated, so that it is compared with the alternate one? -/
def pseudoNewAlloc (p : Ipredictor) : Bool :=
  p.hitBank > 0 && p.altBank ≥ 0 && (p.entry p.hitBank.toNat).ctr ≤ 0

/-- The selection between longest and alternate match, at the start of `UpdatePredictor`:
`ALLOC` and `use_alt_on_na`. -/
def select (p : Ipredictor) (branchTarget : Nat) : Bool × Ipredictor :=
  let alloc := p.tageTarget != branchTarget && p.hitBank < nHist
  if p.pseudoNewAlloc then
    (alloc && p.longestMatchPred != branchTarget,
      if p.longestMatchPred != p.altTarget &&
          (p.longestMatchPred == branchTarget || p.altTarget == branchTarget) then
        { p with useAltOnNa := ctrupdate p.useAltOnNa (p.altTarget == branchTarget) altWidth }
      else p)
  else (alloc, p)

/-- `if (ALLOC)`. -/
def allocateEntries (p : Ipredictor) (branchTarget : Nat) : Ipredictor :=
  let seed := p.myrandom
  let a : Int := if seed.toNat &&& 127 < 32 then 2 else 1
  let p := { p with seed := seed }
  let (p, penalty, na) :=
    allocate branchTarget (nHist + 1) (p.hitBank + a).toNat nnn p (0, 0)
  let tick := p.tick + (penalty - 2 * na)
  let tick := if tick < 0 then 0 else tick
  if tick ≥ bornTick then
    { p with
      itable := fun i j => { p.itable i j with u := (p.itable i j).u / 2 }
      tick := 0 }
  else { p with tick := tick }

/-- `update predictions`, for a longest match in bank `hit`. -/
def updatePredictions (p : Ipredictor) (hit branchTarget : Nat) : Ipredictor :=
  let p :=
    if (p.entry hit).ctr ≤ 0 && p.longestMatchPred != branchTarget &&
        p.altTarget == branchTarget && p.altBank ≥ 0 then
      let alt := p.altBank.toNat
      p.setEntry alt { p.entry alt with ctr := ctrupdate (p.entry alt).ctr true cWidth }
    else p
  let right := p.longestMatchPred == branchTarget
  let p := p.setEntry hit
    { p.entry hit with ctr := ctrupdate (p.entry hit).ctr right cWidth }
  if !right && (p.entry hit).ctr < 0 then
    p.setEntry hit { p.entry hit with target := branchTarget }
  else p

/-- `UpdatePredictor`. -/
def updatePredictor (p : Ipredictor) (pc branchTarget : Nat) : Ipredictor :=
  let (alloc, p) := p.select branchTarget
  let p := if alloc then p.allocateEntries branchTarget else p
  let hit := p.hitBank.toNat
  let p := if p.hitBank ≥ 0 then p.updatePredictions hit branchTarget else p
  let p :=
    if p.longestMatchPred != p.altTarget && p.longestMatchPred == branchTarget &&
        (p.entry hit).u < 2 ^ uWidth - 1 then
      p.setEntry hit { p.entry hit with u := (p.entry hit).u + 1 }
    else p
  p.historyUpdate pc branchTarget

/-! ## Calls -/

/-- A call of the predictor object. -/
inductive Call where
  | trackOtherInst (pc branchTarget : Nat)
  | getPrediction (pc : Nat)
  | updatePredictor (pc branchTarget : Nat)
  deriving DecidableEq, Repr

/-- One call. -/
def step (p : Ipredictor) : Call → Ipredictor
  | .trackOtherInst pc branchTarget => p.trackOtherInst pc branchTarget
  | .getPrediction pc => (p.getPrediction pc).2
  | .updatePredictor pc branchTarget => p.updatePredictor pc branchTarget

/-- The predictor after some calls. -/
def run (u : Unset) (calls : List Call) : Ipredictor := calls.foldl step (reinit u)

end Ipredictor

end CbpSim.Predictor
