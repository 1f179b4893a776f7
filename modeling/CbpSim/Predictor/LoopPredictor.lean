/-
  Predictor/LoopPredictor.lean --- counters, random numbers, the loop predictor.

  Source: src/cbp2016_tage_sc_l.h, `ctrupdate`, `MYRANDOM`, `getloop` and
  `loopupdate`.

  The loop table is part of the histories, so both functions take it as they find
  it there.  What `getloop` leaves in the members of the predictor is a value of
  its own, `LoopLookup`.
-/
import CbpSim.Predictor.History

set_option autoImplicit false

namespace CbpSim.Predictor

/-! ## Saturating counters -/

/-- `ctrupdate`: an up-down saturating counter of `nbits` bits. -/
def ctrupdate (ctr : Int) (taken : Bool) (nbits : Nat) : Int :=
  if taken then
    if ctr < 2 ^ (nbits - 1) - 1 then ctr + 1 else ctr
  else
    if ctr > -2 ^ (nbits - 1) then ctr - 1 else ctr

/-- A counter of `nbits` bits stays one. -/
theorem ctrupdate_range {ctr : Int} {nbits : Nat} (taken : Bool)
    (hlow : -2 ^ (nbits - 1) ≤ ctr) (hhigh : ctr ≤ 2 ^ (nbits - 1) - 1) :
    -2 ^ (nbits - 1) ≤ ctrupdate ctr taken nbits ∧
      ctrupdate ctr taken nbits ≤ 2 ^ (nbits - 1) - 1 := by
  unfold ctrupdate
  split <;> split <;> constructor <;> omega

/-! ## Random numbers -/

/-- `MYRANDOM`: the number and the next `Seed`. -/
def myrandom (phist : Nat) (ptghist : Int) (seed : Nat) : Nat × Nat :=
  let seed := (seed + 1) % 2 ^ 64 ^^^ phist
  let seed := (seed >>> 21 + seed <<< 11) % 2 ^ 64
  let seed := seed ^^^ (ptghist % 2 ^ 64).toNat
  let seed := (seed >>> 10 + seed <<< 22) % 2 ^ 64
  (seed % 2 ^ 32, seed)

/-! ## The loop predictor -/

/-- `LOGL`. -/
def logL : Nat := 5

/-- `LOOPTAG`. -/
def loopTag : Nat := 10

/-- `WIDTHNBITERLOOP`. -/
def widthNbIterLoop : Nat := 10

/-- `CONFLOOP`. -/
def confLoop : Nat := 15

/-- The members that `getloop` writes; `LHIT` is `none` on a miss. -/
structure LoopLookup where
  predloop : Bool := false
  lib : Nat := 0
  li : Nat := 0
  lHit : Option Nat := some 0
  lTag : Nat := 0
  lValid : Bool := false
  deriving DecidableEq, Repr

/-- The index of a way: `(LI ^ ((LIB >> i) << 2)) + i`. -/
def LoopLookup.index (l : LoopLookup) (way : Nat) : Nat :=
  (l.li ^^^ ((l.lib >>> way) <<< 2)) + way

/-- `lindex`. -/
def lindex (pc : Nat) : Nat := ((pc ^^^ (pc >>> 2)) &&& (2 ^ (logL - 2) - 1)) <<< 2

/-- `getloop`. -/
def getloop (pc : Nat) (ltable : Nat → LEntry) : LoopLookup :=
  let lTag := (pc >>> (logL - 2)) &&& (2 ^ (2 * loopTag) - 1)
  let lTag := lTag ^^^ (lTag >>> loopTag)
  let l : LoopLookup :=
    { lHit := none
      li := lindex pc
      lib := (pc >>> (logL - 2)) &&& (2 ^ (logL - 2) - 1)
      lTag := lTag &&& (2 ^ loopTag - 1) }
  match (List.range 4).find? fun way => (ltable (l.index way)).tag == l.lTag with
  | some way =>
    let e := ltable (l.index way)
    { l with
      lHit := some way
      lValid := e.confid == confLoop || e.confid * e.nbIter > 128
      predloop := if e.currentIter + 1 == e.nbIter then !e.dir else e.dir }
  | none => l

namespace LEntry

/-- "Free the entry". -/
def free (e : LEntry) : LEntry := { e with nbIter := 0, age := 0, confid := 0, currentIter := 0 }

/-- Count an occurrence of the branch in direction `taken`. -/
def count (e : LEntry) (taken : Bool) : LEntry :=
  let e := { e with currentIter := (e.currentIter + 1) % 2 ^ 16 &&& (2 ^ widthNbIterLoop - 1) }
  let e := if e.currentIter > e.nbIter then { e with confid := 0, nbIter := 0 } else e
  if taken == e.dir then e
  else
    let e :=
      if e.currentIter == e.nbIter then
        let e := if e.confid < confLoop then { e with confid := e.confid + 1 } else e
        -- no prediction when the loop count is 1 or 2
        if e.nbIter < 3 then { e with dir := taken, nbIter := 0, age := 0, confid := 0 } else e
      else if e.nbIter == 0 then { e with confid := 0, nbIter := e.currentIter }
      else { e with nbIter := 0, confid := 0 }
    { e with currentIter := 0 }

end LEntry

/-- `loopupdate`: the table and the next `Seed`. -/
def loopupdate (l : LoopLookup) (tagePred : Bool) (phist : Nat) (ptghist : Int)
    (taken alloc : Bool) (ltable : Nat → LEntry) (seed : Nat) : (Nat → LEntry) × Nat :=
  match l.lHit with
  | some way =>
    let e := ltable (l.index way)
    if l.lValid && taken != l.predloop then (Function.update ltable (l.index way) e.free, seed)
    else
      let (older, seed) :=
        if !l.lValid then (false, seed)
        else if l.predloop != tagePred then (true, seed)
        else
          let (random, seed) := myrandom phist ptghist seed
          (random &&& 7 == 0, seed)
      let e := if older && e.age < confLoop then { e with age := e.age + 1 } else e
      (Function.update ltable (l.index way) (e.count taken), seed)
  | none =>
    if !alloc then (ltable, seed)
    else
      let (random, seed) := myrandom phist ptghist seed
      let (again, seed) := myrandom phist ptghist seed
      if again &&& 3 != 0 then (ltable, seed)
      else
        -- every branch of the loop over the ways ends in a break
        let index := l.index (random &&& 3)
        let e := ltable index
        if e.age == 0 then
          (Function.update ltable index
            { dir := !taken, tag := l.lTag, nbIter := 0, age := 7, confid := 0, currentIter := 0 },
            seed)
        else (Function.update ltable index { e with age := e.age - 1 }, seed)

end CbpSim.Predictor
