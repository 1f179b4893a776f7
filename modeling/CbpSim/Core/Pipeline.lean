/-
  Core/Pipeline.lean --- evaluating a cycle.

  Source: src/lib/uarchsim.cc, `locate_entry_in_window`, `eval_decode`, `eval_aq`,
  `eval_exec`, `eval_retire` and the two loops of `step` that call them.
-/
import CbpSim.Core.State

set_option autoImplicit false

namespace CbpSim.Core

open CbpSim.Foundation

variable {P H : Type}

namespace Pipeline

/-- `locate_entry_in_window`.  The window is in the order of `seq_no`, so the
binary search finds the first entry that is not before it. -/
def locateEntryInWindow (p : Pipeline P) (seqNo piece : Nat) : Except Abort WindowEntry :=
  match p.window.find? fun w => decide (seqNo ≤ w.seqNo) with
  | some w => if w.seqNo = seqNo ∧ w.piece = piece then .ok w else .error .locateEntry
  | none => .error .locateEntry

/-- A notification was delivered. -/
def deliver (p : Pipeline P) (hooks : P) (stage : Stage) (w : WindowEntry) (cycle : Nat) :
    Pipeline P :=
  { p with
    hooks := hooks
    events := p.events ++
      [{ stage := stage, seqNo := w.seqNo, piece := w.piece, pc := w.pc, cycle := cycle }] }

/-- The notification of an entry of `DQ`. -/
def notifyDecode (hk : Hooks P H) (cycle : Nat) (q : QueueEntry) (p : Pipeline P) :
    Except (Stop H) (Pipeline P) := do
  let w ← lift (p.locateEntryInWindow q.seqNo q.piece)
  if q.cycle ≠ w.decodeCycle then .error (.abort .evalDecodeCycle)
  else
    let hooks ← call (hk.notifyInstrDecode p.hooks w.seqNo w.piece w.pc w.execInfo.decInfo cycle)
    .ok (p.deliver hooks .decode w cycle)

/-- The notification of an entry of `AQ`. -/
def notifyAgen (hk : Hooks P H) (cycle : Nat) (q : QueueEntry) (p : Pipeline P) :
    Except (Stop H) (Pipeline P) := do
  let w ← lift (p.locateEntryInWindow q.seqNo q.piece)
  if !w.execInfo.decInfo.insnClass.isMem then .error (.abort .evalAqMem)
  else if ¬ cycle > w.decodeCycle then .error (.abort .evalAqDecode)
  else if ¬ cycle ≤ w.execCycle then .error (.abort .evalAqExec)
  else
    match w.execInfo.memVa, w.execInfo.memSz with
    | some memVa, some memSz => do
      let hooks ← call (hk.notifyAgenComplete p.hooks w.seqNo w.piece w.pc w.execInfo.decInfo memVa
        memSz cycle)
      .ok (p.deliver hooks .agen w cycle)
    | _, _ => .error (.abort .evalAqMem)

/-- The notification of an entry of `EQ`. -/
def notifyExecute (hk : Hooks P H) (cycle : Nat) (q : QueueEntry) (p : Pipeline P) :
    Except (Stop H) (Pipeline P) := do
  let w ← lift (p.locateEntryInWindow q.seqNo q.piece)
  if w.execCycle ≠ q.cycle then .error (.abort .evalExecCycle)
  else
    let hooks ← call (hk.notifyInstrExecuteResolve p.hooks w.seqNo w.piece w.pc w.predTaken
      w.execInfo cycle)
    .ok (p.deliver hooks .execute w cycle)

/-- The loop of `eval_decode`: it stops at the first entry that is not due. -/
def evalDecodeLoop (hk : Hooks P H) (cycle : Nat) :
    List QueueEntry → Pipeline P → Except (Stop H) (List QueueEntry × Pipeline P)
  | [], p => .ok ([], p)
  | q :: queue, p =>
    if q.cycle < cycle then .error (.abort .evalDecodeLate)
    else if cycle = q.cycle then do
      let p ← notifyDecode hk cycle q p
      evalDecodeLoop hk cycle queue p
    else .ok (q :: queue, p)

/-- `eval_decode`. -/
def evalDecode (hk : Hooks P H) (cycle : Nat) (p : Pipeline P) :
    Except (Stop H) (Pipeline P) := do
  let (queue, p) ← evalDecodeLoop hk cycle p.DQ p
  .ok { p with DQ := queue }

/-- The loop of `eval_aq` and of `eval_exec`: it erases the entries that are due. -/
def evalQueue (notify : QueueEntry → Pipeline P → Except (Stop H) (Pipeline P)) (late : Abort)
    (cycle : Nat) :
    List QueueEntry → Pipeline P → Except (Stop H) (List QueueEntry × Pipeline P)
  | [], p => .ok ([], p)
  | q :: queue, p =>
    if q.cycle < cycle then .error (.abort late)
    else if cycle = q.cycle then do
      let p ← notify q p
      evalQueue notify late cycle queue p
    else do
      let (rest, p) ← evalQueue notify late cycle queue p
      .ok (q :: rest, p)

/-- `eval_aq`. -/
def evalAq (hk : Hooks P H) (cycle : Nat) (p : Pipeline P) : Except (Stop H) (Pipeline P) := do
  let (queue, p) ← evalQueue (notifyAgen hk cycle) .evalAqLate cycle p.AQ p
  .ok { p with AQ := queue }

/-- `eval_exec`. -/
def evalExec (hk : Hooks P H) (cycle : Nat) (p : Pipeline P) : Except (Stop H) (Pipeline P) := do
  let (queue, p) ← evalQueue (notifyExecute hk cycle) .evalExecLate cycle p.EQ p
  .ok { p with EQ := queue }

/-- The commit of the instruction at the front of the window. -/
def notifyCommit (cfg : Config) (hk : Hooks P H) (cycle : Nat) (w : WindowEntry)
    (p : Pipeline P) : Except (Stop H) (Pipeline P) := do
  let hooks ← call (hk.notifyInstrCommit p.hooks w.seqNo w.piece w.pc w.predTaken w.execInfo cycle)
  let hooks ←
    (if cfg.vpEnable && !cfg.vpPerfect then
      call (hk.updatePredictor hooks w.seqNo w.addr w.value w.latency)
    else .ok hooks)
  .ok (p.deliver hooks .commit w cycle)

/-- The loop of `eval_retire`. -/
def evalRetireLoop (cfg : Config) (hk : Hooks P H) (cycle : Nat) :
    List WindowEntry → Pipeline P → Except (Stop H) (List WindowEntry × Pipeline P)
  | [], p => .ok ([], p)
  | w :: window, p =>
    if cycle ≥ w.retireCycle then do
      let p ← notifyCommit cfg hk cycle w p
      evalRetireLoop cfg hk cycle window p
    else .ok (w :: window, p)

/-- `eval_retire`. -/
def evalRetire (cfg : Config) (hk : Hooks P H) (cycle : Nat) (p : Pipeline P) :
    Except (Stop H) (Pipeline P) := do
  let (window, p) ← evalRetireLoop cfg hk cycle p.window p
  .ok { p with window := window }

/-- The four stages of one cycle. -/
def evalCycle (cfg : Config) (hk : Hooks P H) (cycle : Nat) (p : Pipeline P) :
    Except (Stop H) (Pipeline P) := do
  let p ← evalDecode hk cycle p
  let p ← evalAq hk cycle p
  let p ← evalExec hk cycle p
  let p ← evalRetire cfg hk cycle p
  .ok { p with evaluated := cycle + 1 }

/-- `n` cycles, from `cycle` on. -/
def evalCycles (cfg : Config) (hk : Hooks P H) :
    Nat → Nat → Pipeline P → Except (Stop H) (Pipeline P)
  | 0, _, p => .ok p
  | n + 1, cycle, p => do
    let p ← evalCycle cfg hk cycle p
    evalCycles cfg hk n (cycle + 1) p

/-- The loops of `step`: both ends are evaluated, unless they are one cycle. -/
def catchUp (cfg : Config) (hk : Hooks P H) (first last : Nat) (p : Pipeline P) :
    Except (Stop H) (Pipeline P) :=
  if first = last then .ok p else evalCycles cfg hk (last + 1 - first) first p

end Pipeline

end CbpSim.Core
