/-
  Predictor/LoadTracking.lean --- the registers in flight.

  Source: src/cond_branch_predictor_interface.cc, `registers_in_flight`.

  A session remembers, besides the state of the interface, the loads that have
  been decoded and not committed, oldest first.  One boolean per register cannot
  count them: `registers_in_flight` tells their destinations as long as no load
  commits while a younger one with its destination is in flight, and no longer.
-/
import CbpSim.Predictor.Interface

set_option autoImplicit false

namespace CbpSim.Predictor

open CbpSim.Foundation

/-- A load in flight. -/
structure InFlight where
  seqNo : Nat
  piece : Nat
  dst : Nat
  deriving DecidableEq, Repr

/-- The interface, and the decoded, uncommitted loads in program order. -/
structure Session where
  predictor : CondBranchPredictor
  loads : List InFlight

/-- A call of the simulator. -/
inductive HookCall where
  | predict (seqNo piece pc : Nat)
  | specUpdate (pc : Nat) (instClass : InstClass) (resolveDir predDir : Bool) (nextPc : Nat)
  | decode (seqNo piece : Nat) (info : DecodeInfo)
  | execute (seqNo piece pc : Nat) (predDir : Bool) (info : ExecuteInfo)
  | commit (seqNo piece : Nat) (info : ExecuteInfo)
  deriving DecidableEq, Repr

namespace Session

def start : Session where
  predictor := .init
  loads := []

/-- The loads that a decode adds. -/
def decoded (seqNo piece : Nat) (info : DecodeInfo) : List InFlight :=
  if info.insnClass.isLoad then (info.dstRegInfo.map fun dst => ⟨seqNo, piece, dst⟩).toList else []

/-- The loads left after a commit: loads commit in program order. -/
def committed (loads : List InFlight) (seqNo piece : Nat) (info : DecodeInfo) :
    Except Refusal (List InFlight) :=
  if !info.insnClass.isLoad then .ok loads
  else
    match loads with
    | [] => .error .order
    | load :: rest =>
      if info.dstRegInfo = some load.dst ∧ load.seqNo = seqNo ∧ load.piece = piece then .ok rest
      else .error .order

/-- One call. -/
def step (cfg : Config) (s : Session) : HookCall → Except Refusal Session
  | .predict seqNo piece pc => do
    let (_, p) ← (s.predictor.getCondDirPrediction seqNo piece pc).mapError .abort
    .ok { s with predictor := p }
  | .specUpdate pc instClass resolveDir predDir nextPc => do
    let p ← (s.predictor.specUpdate pc instClass resolveDir predDir nextPc).mapError .abort
    .ok { s with predictor := p }
  | .decode seqNo piece info => do
    let p ← (s.predictor.notifyInstrDecode seqNo piece info).mapError .abort
    .ok { predictor := p, loads := s.loads ++ decoded seqNo piece info }
  | .execute seqNo piece pc predDir info => do
    let p ← (s.predictor.notifyInstrExecuteResolve cfg seqNo piece pc predDir info).mapError .abort
    .ok { s with predictor := p }
  | .commit seqNo piece info => do
    let loads ← committed s.loads seqNo piece info.decInfo
    let p ← (s.predictor.notifyInstrCommit info).mapError .abort
    .ok { predictor := p, loads := loads }

/-- Some load in flight writes the register. -/
def Awaits (s : Session) (reg : Nat) : Prop := ∃ load ∈ s.loads, load.dst = reg

instance (s : Session) (reg : Nat) : Decidable (s.Awaits reg) :=
  inferInstanceAs (Decidable (∃ load ∈ s.loads, load.dst = reg))

/-- `registers_in_flight` and the flag passed to the predictor tell what is in
flight. -/
structure Tracks (cfg : Config) (s : Session) : Prop where
  registers : ∀ reg, s.predictor.registersInFlight reg = some true ↔ s.Awaits reg
  flag : cfg.loadDependentBranches = true → ∀ sources, sources ≠ [] → sources ≠ [rfFlags] →
    (s.predictor.isLdDependent cfg sources = true ↔ ∃ src ∈ sources, s.Awaits src)

/-- No load commits while another one in flight has its destination. -/
def CommitsAlone (s : Session) : HookCall → Prop
  | .commit seqNo piece info => info.decInfo.insnClass.isLoad = true → ∀ dst rest,
      info.decInfo.dstRegInfo = some dst → s.loads = ⟨seqNo, piece, dst⟩ :: rest →
        ∀ other ∈ rest, other.dst ≠ dst
  | _ => True

end Session

/-! ## What a hook does to the registers -/

theorem touchRegisters_eq_true {registers : Nat → Option Bool} {sources : List Nat} {reg : Nat} :
    touchRegisters registers sources reg = some true ↔ registers reg = some true := by
  unfold touchRegisters
  split
  · cases registers reg <;> simp
  · rfl

theorem anyInFlight_iff {registers : Nat → Option Bool} {sources : List Nat} :
    anyInFlight registers sources = true ↔ ∃ src ∈ sources, registers src = some true := by
  unfold anyInFlight
  rw [List.any_eq_true]
  constructor
  · rintro ⟨src, hmem, hget⟩
    refine ⟨src, hmem, ?_⟩
    cases hreg : registers src with
    | none => simp [hreg] at hget
    | some b => simpa [hreg] using hget
  · rintro ⟨src, hmem, hget⟩
    exact ⟨src, hmem, by simp [hget]⟩

namespace CondBranchPredictor

variable {p p' : CondBranchPredictor}

theorem getCondDirPrediction_registers {seqNo piece pc : Nat} {prediction : Bool}
    (h : p.getCondDirPrediction seqNo piece pc = .ok (prediction, p')) :
    p'.registersInFlight = p.registersInFlight := by
  unfold getCondDirPrediction at h
  obtain ⟨⟨info, tage⟩, -, h⟩ := bind_eq_ok.mp h
  obtain ⟨⟨prediction', impl⟩, -, h⟩ := bind_eq_ok.mp h
  obtain ⟨-, rfl⟩ := Prod.mk.inj (Except.ok.inj h)
  rfl

theorem specUpdate_registers {pc nextPc : Nat} {instClass : InstClass} {resolveDir predDir : Bool}
    (h : p.specUpdate pc instClass resolveDir predDir nextPc = .ok p') :
    p'.registersInFlight = p.registersInFlight := by
  unfold specUpdate at h
  split at h
  · cases h
  · split at h <;> (obtain rfl := Except.ok.inj h; rfl)

theorem decode_registers {seqNo piece : Nat} {info : DecodeInfo}
    (h : p.notifyInstrDecode seqNo piece info = .ok p') (reg : Nat) :
    p'.registersInFlight reg = some true ↔ p.registersInFlight reg = some true ∨
      ∃ load ∈ Session.decoded seqNo piece info, load.dst = reg := by
  unfold notifyInstrDecode at h
  split at h
  · rename_i hload
    cases hdst : info.dstRegInfo with
    | none => simp [hdst] at h
    | some dst =>
      simp only [hdst] at h
      obtain rfl := Except.ok.inj h
      simp only [Session.decoded, hload, hdst, if_true, Option.map_some, Option.toList_some,
        List.mem_singleton, exists_eq_left]
      rcases eq_or_ne reg dst with rfl | hne
      · simp
      · simp [Function.update_of_ne hne, hne.symm]
  · rename_i hload
    have hsame : p' = p := by
      split at h
      · obtain ⟨key, -, h⟩ := bind_eq_ok.mp h
        exact (Except.ok.inj h).symm
      · exact (Except.ok.inj h).symm
    simp [hsame, Session.decoded, hload]

theorem execute_registers {cfg : Config} {seqNo piece pc : Nat} {predDir : Bool}
    {info : ExecuteInfo}
    (h : p.notifyInstrExecuteResolve cfg seqNo piece pc predDir info = .ok p') (reg : Nat) :
    p'.registersInFlight reg = some true ↔ p.registersInFlight reg = some true := by
  unfold notifyInstrExecuteResolve at h
  obtain ⟨key, -, h⟩ := bind_eq_ok.mp h
  split at h
  · rw [Except.ok.inj h]
  · split at h
    · split at h
      · cases h
      · obtain ⟨tage, -, h⟩ := bind_eq_ok.mp h
        obtain ⟨impl, -, h⟩ := bind_eq_ok.mp h
        obtain rfl := Except.ok.inj h
        dsimp only
        split
        · rfl
        · exact touchRegisters_eq_true
    · split at h
      · rw [Except.ok.inj h]
      · cases h

/-- A load that commits takes its register out; nothing else does. -/
theorem commit_registers {info : ExecuteInfo} (h : p.notifyInstrCommit info = .ok p') (reg : Nat) :
    p'.registersInFlight reg = some true ↔ p.registersInFlight reg = some true ∧
      ¬ (info.decInfo.insnClass.isLoad = true ∧ info.decInfo.dstRegInfo = some reg) := by
  unfold notifyInstrCommit at h
  split at h
  · rename_i hload
    cases hdst : info.decInfo.dstRegInfo with
    | none => simp [hdst] at h
    | some dst =>
      simp only [hdst] at h
      obtain rfl := Except.ok.inj h
      rcases eq_or_ne reg dst with rfl | hne
      · simp [hload]
      · simp [Function.update_of_ne hne, hne.symm]
  · rename_i hload
    rw [← Except.ok.inj h]
    simp [hload]

end CondBranchPredictor

namespace Session

variable {cfg : Config} {s s' : Session}

/-- The registers tell the loads in flight, and so does the flag. -/
theorem tracks_of_registers
    (h : ∀ reg, s.predictor.registersInFlight reg = some true ↔ s.Awaits reg) :
    s.Tracks cfg := by
  refine ⟨h, ?_⟩
  intro hon sources hsome hflags
  have honly : onlyFlags sources = false := by
    simp only [onlyFlags, Bool.or_eq_false_iff]
    exact ⟨by simpa using hsome, by simpa using hflags⟩
  unfold CondBranchPredictor.isLdDependent
  rw [hon, honly]
  simp only [Bool.not_false, Bool.and_self, Bool.true_and]
  rw [anyInFlight_iff]
  constructor
  · rintro ⟨src, hmem, hreg⟩
    exact ⟨src, hmem, (h src).mp hreg⟩
  · rintro ⟨src, hmem, hload⟩
    exact ⟨src, hmem, (h src).mpr hload⟩

theorem tracks_start : start.Tracks cfg := by
  apply tracks_of_registers
  intro reg
  simp [start, CondBranchPredictor.init, Awaits]

theorem awaits_append {s : Session} {loads : List InFlight} {reg : Nat} :
    Awaits { s with loads := s.loads ++ loads } reg ↔
      s.Awaits reg ∨ ∃ load ∈ loads, load.dst = reg := by
  simp only [Awaits, List.mem_append]
  constructor
  · rintro ⟨load, hold | hnew, hdst⟩
    · exact Or.inl ⟨load, hold, hdst⟩
    · exact Or.inr ⟨load, hnew, hdst⟩
  · rintro (⟨load, hmem, hdst⟩ | ⟨load, hmem, hdst⟩)
    · exact ⟨load, Or.inl hmem, hdst⟩
    · exact ⟨load, Or.inr hmem, hdst⟩

/-- What is left after the commit of a load. -/
theorem committed_load {loads rest : List InFlight} {seqNo piece : Nat} {info : DecodeInfo}
    (hload : info.insnClass.isLoad = true) (h : committed loads seqNo piece info = .ok rest) :
    ∃ dst, info.dstRegInfo = some dst ∧ loads = ⟨seqNo, piece, dst⟩ :: rest := by
  unfold committed at h
  rw [if_neg (by simp [hload])] at h
  cases loads with
  | nil => cases h
  | cons load tail =>
    simp only at h
    split at h
    · rename_i hmatch
      obtain ⟨hdst, rfl, rfl⟩ := hmatch
      obtain rfl := Except.ok.inj h
      exact ⟨load.dst, hdst, rfl⟩
    · cases h

/-- A commit keeps the tracking exactly when the load commits alone. -/
theorem tracks_commit_iff {seqNo piece : Nat} {info : ExecuteInfo} (h : s.Tracks cfg)
    (hstep : s.step cfg (.commit seqNo piece info) = .ok s') :
    s'.Tracks cfg ↔ s.CommitsAlone (.commit seqNo piece info) := by
  obtain ⟨rest, hcommitted, hstep⟩ := bind_eq_ok.mp hstep
  obtain ⟨p, hcommit, hstep⟩ := bind_eq_ok.mp hstep
  obtain rfl := Except.ok.inj hstep
  have hregs := CondBranchPredictor.commit_registers (mapError_eq_ok.mp hcommit)
  cases hload : info.decInfo.insnClass.isLoad with
  | false =>
    obtain rfl : rest = s.loads := by simpa [committed, hload, eq_comm] using hcommitted
    refine iff_of_true (tracks_of_registers fun reg => ?_) (by simp [CommitsAlone, hload])
    rw [hregs, h.registers]
    simp [hload, Awaits]
  | true =>
    obtain ⟨dst, hdst, hloads⟩ := committed_load hload hcommitted
    constructor
    · -- the tracking names no register of a load that is gone
      intro htracks _ dst' rest' hdst' hloads' other hother heq
      obtain rfl := Option.some.inj (hdst.symm.trans hdst')
      obtain rfl := (List.cons.inj (hloads.symm.trans hloads')).2
      have hin := (htracks.registers dst).mpr ⟨other, hother, heq⟩
      exact ((hregs dst).mp hin).2 ⟨hload, hdst⟩
    · intro halone
      apply tracks_of_registers
      intro reg
      rw [hregs, h.registers, hload, hdst]
      have hnone := halone hload dst rest hdst hloads
      simp only [Awaits, hloads, List.mem_cons, exists_eq_or_imp, Option.some.injEq, true_and]
      constructor
      · rintro ⟨hreg | hreg, hne⟩
        · exact absurd hreg hne
        · exact hreg
      · rintro ⟨other, hother, rfl⟩
        exact ⟨Or.inr ⟨other, hother, rfl⟩, fun heq => hnone other hother heq.symm⟩

/-- Every other call keeps the tracking. -/
theorem tracks_step {call : HookCall} (h : s.Tracks cfg) (halone : s.CommitsAlone call)
    (hstep : s.step cfg call = .ok s') : s'.Tracks cfg := by
  cases call with
  | predict seqNo piece pc =>
    obtain ⟨⟨prediction, p⟩, hhook, hstep⟩ := bind_eq_ok.mp hstep
    obtain rfl := Except.ok.inj hstep
    have hregs := CondBranchPredictor.getCondDirPrediction_registers (mapError_eq_ok.mp hhook)
    apply tracks_of_registers
    intro reg
    rw [hregs]
    exact h.registers reg
  | specUpdate pc instClass resolveDir predDir nextPc =>
    obtain ⟨p, hhook, hstep⟩ := bind_eq_ok.mp hstep
    obtain rfl := Except.ok.inj hstep
    have hregs := CondBranchPredictor.specUpdate_registers (mapError_eq_ok.mp hhook)
    apply tracks_of_registers
    intro reg
    rw [hregs]
    exact h.registers reg
  | decode seqNo piece info =>
    obtain ⟨p, hhook, hstep⟩ := bind_eq_ok.mp hstep
    obtain rfl := Except.ok.inj hstep
    have hregs := CondBranchPredictor.decode_registers (mapError_eq_ok.mp hhook)
    apply tracks_of_registers
    intro reg
    rw [hregs, h.registers]
    exact (awaits_append (s := s)).symm
  | execute seqNo piece pc predDir info =>
    obtain ⟨p, hhook, hstep⟩ := bind_eq_ok.mp hstep
    obtain rfl := Except.ok.inj hstep
    have hregs := CondBranchPredictor.execute_registers (mapError_eq_ok.mp hhook)
    apply tracks_of_registers
    intro reg
    rw [hregs]
    exact h.registers reg
  | commit seqNo piece info => exact (tracks_commit_iff h hstep).mpr halone

/-- **The registers in flight are tracked throughout a run exactly when** no load
commits while another load in flight has its destination. -/
theorem tracks_throughout_iff (cfg : Config) (calls : List HookCall) :
    Throughout (step cfg) start calls (Tracks cfg) ↔
      EveryStep (step cfg) start calls CommitsAlone := by
  constructor
  · intro h front call back u heq hrun
    have hu : u.Tracks cfg := h front (call :: back) u heq hrun
    cases call with
    | commit seqNo piece info =>
      cases hstep : u.step cfg (.commit seqNo piece info) with
      | ok v => exact (tracks_commit_iff hu hstep).mp ((heq ▸ h).of_step hrun hstep)
      | error refusal =>
        -- a commit in order is never refused
        intro hload dst rest hdst hloads
        have hcommitted : committed u.loads seqNo piece info.decInfo = .ok rest := by
          simp [committed, hload, hloads, hdst]
        have hhook : ∃ p, u.predictor.notifyInstrCommit info = .ok p := by
          simp [CondBranchPredictor.notifyInstrCommit, hload, hdst]
        obtain ⟨p, hhook⟩ := hhook
        rw [step, hcommitted, hhook] at hstep
        cases hstep
    | predict seqNo piece pc => trivial
    | specUpdate pc instClass resolveDir predDir nextPc => trivial
    | decode seqNo piece info => trivial
    | execute seqNo piece pc predDir info => trivial
  · intro h
    exact throughout_of_every h tracks_start fun u call v hu halone hstep =>
      tracks_step hu halone hstep

/-- A load that writes register 5. -/
def loadTo5 : DecodeInfo where
  insnClass := .load
  srcRegInfo := [1]
  dstRegInfo := some 5

/-- What a load is executed and committed with. -/
def committedLoad : ExecuteInfo where
  decInfo := loadTo5
  taken := none
  nextPc := 4
  takenTarget := none
  memVa := some 64
  memSz := some 8
  dstRegValue := some 0

/-- Two loads of register 5 are decoded and the first commits: the second is in
flight, its register is not. -/
theorem second_load_lost :
    ¬ Throughout (step {}) start
      [.decode 1 0 loadTo5, .decode 2 0 loadTo5, .commit 1 0 committedLoad] (Tracks {}) := by
  intro h
  have hregisters : ∀ t, Run (step {}) start
      [.decode 1 0 loadTo5, .decode 2 0 loadTo5, .commit 1 0 committedLoad] t →
        t.predictor.registersInFlight 5 = none ∧ t.loads = [⟨2, 0, 5⟩] := by
    intro t hrun
    obtain rfl := Except.ok.inj hrun
    exact ⟨rfl, rfl⟩
  obtain ⟨t, hrun⟩ : ∃ t, Run (step {}) start
      [.decode 1 0 loadTo5, .decode 2 0 loadTo5, .commit 1 0 committedLoad] t := ⟨_, rfl⟩
  obtain ⟨hreg, hloads⟩ := hregisters t hrun
  have hin := ((h _ [] t (List.append_nil _).symm hrun).registers 5).mpr (by simp [Awaits, hloads])
  rw [hreg] at hin
  cases hin

end Session

end CbpSim.Predictor
