/-
  Predictor/IttageState.lean --- what ITTAGE holds after any calls.

  Source: src/lib/ittage.h, `GetPrediction` and `UpdatePredictor`.

  `UpdatePredictor` works on the banks and places that the last `GetPrediction` left
  in `HitBank`, `AltBank` and `GI`, which `reinit` does not write.  Behind a
  prediction every access is within the tables, the counters stay within their bits,
  and the only targets in the tables are those that the predictor was trained with.
-/
import CbpSim.Predictor.Ittage
import CbpSim.Predictor.Ranges

set_option autoImplicit false

namespace CbpSim.Predictor

namespace Ipredictor

/-! ## The invariant -/

/-- An entry that `UpdatePredictor` can have written, with a target that is `known`. -/
structure Entry.Sound (known : Nat → Prop) (e : Entry) : Prop where
  ctr : InBits cWidth e.ctr
  u : 0 ≤ e.u ∧ e.u ≤ 2 ^ uWidth - 1
  tag : e.tag < 2 ^ tBits
  target : known e.target

/-- The tables and the counters between two calls. -/
structure Sound (known : Nat → Prop) (p : Ipredictor) : Prop where
  useAltOnNa : InBits altWidth p.useAltOnNa
  tick : 0 ≤ p.tick ∧ p.tick < bornTick
  phist : p.phist < 2 ^ phistWidth
  entry : ∀ bank i, (p.itable bank i).Sound known
  outside : ∀ bank i, ¬ (bank ≤ nHist ∧ i < 2 ^ logG) → p.itable bank i = {}

/-- What a prediction leaves for the training: places within the tables, and without a hit
no reason to count an entry as useful. -/
structure Looked (p : Ipredictor) : Prop where
  gi : ∀ bank, p.gi bank < 2 ^ logG
  gtag : ∀ bank, p.gtag bank < 2 ^ tBits
  hitBank : -1 ≤ p.hitBank ∧ p.hitBank ≤ nHist
  altBank : -1 ≤ p.altBank ∧ (0 ≤ p.altBank → p.altBank < p.hitBank)
  noHit : p.hitBank < 0 → p.longestMatchPred = p.altTarget

variable {known : Nat → Prop} {p : Ipredictor}

theorem Sound.mono (h : Sound known p) {known' : Nat → Prop} (hle : ∀ t, known t → known' t) :
    Sound known' p :=
  { h with
    entry := fun bank i =>
      let e := h.entry bank i
      ⟨e.ctr, e.u, e.tag, hle _ e.target⟩ }

/-- The new predictor. -/
theorem reinit_sound (u : Unset) (hdefault : known 0xdeadbeef) : Sound known (reinit u) where
  useAltOnNa := inBits_zero altWidth
  tick := ⟨le_rfl, show (0 : Int) < bornTick by decide⟩
  phist := Nat.two_pow_pos phistWidth
  entry _ _ := ⟨inBits_zero cWidth, ⟨le_rfl, show (0 : Int) ≤ 2 ^ uWidth - 1 by decide⟩,
    Nat.two_pow_pos tBits, hdefault⟩
  outside _ _ _ := rfl

/-! ## The prediction -/

/-- The hit is in a bank below `last`. -/
theorem longestHit_lt {last bank : Nat} (h : p.longestHit last = some bank) : bank < last := by
  have hmem := List.mem_of_find?_eq_some h
  simpa using hmem

/-- The places of `pc` in the tables. -/
def looking (p : Ipredictor) (pc : Nat) : Ipredictor :=
  { p with
    gi := fun i => gindex pc i p.phist p.chI
    gtag := fun i => gtagOf pc i p.chT0 p.chT1 }

/-- The target in a bank, 0 without a bank. -/
def targetIn (p : Ipredictor) (bank : Option Nat) : Nat :=
  (bank.map fun i => (p.entry i).target).getD 0

/-- A prediction looks for two banks, and predicts one of their targets or nothing. -/
theorem getPrediction_eq (p : Ipredictor) (pc : Nat) :
    ∃ hit alt, (p.looking pc).longestHit (nHist + 1) = hit ∧
      (p.looking pc).longestHit (hit.getD 0) = alt ∧
      (p.getPrediction pc).2 = { p.looking pc with
        hitBank := bankNumber hit
        altBank := bankNumber alt
        longestMatchPred := (p.looking pc).targetIn hit
        altTarget := (p.looking pc).targetIn alt
        tageTarget := (p.getPrediction pc).1 } ∧
      ((p.getPrediction pc).1 = (p.looking pc).targetIn hit ∨
        (p.getPrediction pc).1 = (p.looking pc).targetIn alt ∨ (p.getPrediction pc).1 = 0) := by
  refine ⟨_, _, rfl, rfl, rfl, ?_⟩
  unfold getPrediction
  dsimp only
  split
  · exact Or.inl rfl
  · split
    · split
      · exact Or.inl rfl
      · exact Or.inr (Or.inl rfl)
    · exact Or.inr (Or.inr rfl)

theorem Sound.targetIn (h : Sound known p) (bank : Option Nat) :
    known (p.targetIn bank) ∨ p.targetIn bank = 0 := by
  cases bank with
  | none => exact Or.inr rfl
  | some bank => exact Or.inl (h.entry _ _).target

/-- A prediction is a known target, or 0. -/
theorem Sound.getPrediction (h : Sound known p) (pc : Nat) :
    Sound known (p.getPrediction pc).2 ∧ Looked (p.getPrediction pc).2 ∧
      (known (p.getPrediction pc).1 ∨ (p.getPrediction pc).1 = 0) := by
  obtain ⟨hit, alt, hhit, halt, hafter, htarget⟩ := getPrediction_eq p pc
  have hlooking : Sound known (p.looking pc) := { h with }
  have hbank : ∀ bank : Option Nat, -1 ≤ bankNumber bank := by
    intro bank
    cases bank with
    | none => exact le_rfl
    | some bank => exact (show (-1 : Int) ≤ 0 by decide).trans (Int.natCast_nonneg bank)
  refine ⟨?_, ?_, ?_⟩
  · rw [hafter]
    exact { hlooking with }
  · rw [hafter]
    exact {
      gi := fun bank => and_mask_lt _ logG
      gtag := fun bank => and_mask_lt _ tBits
      hitBank := by
        refine ⟨hbank hit, ?_⟩
        cases hit with
        | none => exact (show (-1 : Int) ≤ 0 by decide).trans (Int.natCast_nonneg nHist)
        | some bank => exact Int.ofNat_le.mpr (Nat.le_of_lt_succ (longestHit_lt hhit))
      altBank := by
        refine ⟨hbank alt, ?_⟩
        cases alt with
        | none => exact fun h => absurd h (show ¬ (0 : Int) ≤ -1 by decide)
        | some bank =>
          intro _
          have hlt := longestHit_lt halt
          cases hit with
          | none => exact absurd hlt (Nat.not_lt_zero _)
          | some hit => exact Int.ofNat_lt.mpr hlt
      noHit := by
        intro hnone
        cases hit with
        | none =>
          -- without a hit there is no bank below it
          obtain rfl : none = alt := halt
          rfl
        | some hit => exact absurd hnone (not_lt.mpr (Int.natCast_nonneg hit)) }
  · rcases htarget with htarget | htarget | htarget
    · rw [htarget]
      exact hlooking.targetIn hit
    · rw [htarget]
      exact hlooking.targetIn alt
    · exact Or.inr htarget

/-! ## The histories -/

/-- A history update leaves the tables and the prediction. -/
theorem pushAll_eq (n t path : Nat) (p : Ipredictor) :
    ∃ ptghist ghist phist chI chT0 chT1, pushAll n t path p = { p with
      ptghist := ptghist, ghist := ghist, phist := phist, chI := chI, chT0 := chT0
      chT1 := chT1 } := by
  induction n generalizing t path p with
  | zero => exact ⟨_, _, _, _, _, _, rfl⟩
  | succ n ih =>
    obtain ⟨_, _, _, _, _, _, h⟩ := ih (t >>> 1) (path >>> 1) (p.push (t &&& 1 == 1) (path &&& 127))
    exact ⟨_, _, _, _, _, _, h⟩

theorem Sound.historyUpdate (h : Sound known p) (pc target : Nat) :
    Sound known (p.historyUpdate pc target) := by
  unfold Ipredictor.historyUpdate
  dsimp only
  obtain ⟨_, _, _, _, _, _, heq⟩ := pushAll_eq 3 (((pc >>> 2) ^^^ (pc >>> 6)) % 2 ^ 32)
    (((target >>> 2) ^^^ (target >>> 6)) % 2 ^ 32) p
  rw [heq]
  exact { h with phist := and_mask_lt _ phistWidth }

theorem Looked.historyUpdate (h : Looked p) (pc target : Nat) :
    Looked (p.historyUpdate pc target) := by
  unfold Ipredictor.historyUpdate
  dsimp only
  obtain ⟨_, _, _, _, _, _, heq⟩ := pushAll_eq 3 (((pc >>> 2) ^^^ (pc >>> 6)) % 2 ^ 32)
    (((target >>> 2) ^^^ (target >>> 6)) % 2 ^ 32) p
  rw [heq]
  exact { h with }

/-! ## The training -/

/-- What the training of a prediction keeps. -/
def Trained (known : Nat → Prop) (p : Ipredictor) : Prop := Sound known p ∧ Looked p

/-- A sound entry is written in a bank, in the place of the last prediction. -/
theorem Trained.setEntry (h : Trained known p) {bank : Nat} (hbank : bank ≤ nHist) {e : Entry}
    (he : e.Sound known) : Trained known (p.setEntry bank e) := by
  obtain ⟨hs, hl⟩ := h
  have hentry : ∀ b i, ((p.setEntry bank e).itable b i).Sound known := by
    intro b i
    unfold Ipredictor.setEntry
    dsimp only
    rcases eq_or_ne b bank with rfl | hb
    · rw [Function.update_self]
      rcases eq_or_ne i (p.gi b) with rfl | hi
      · rwa [Function.update_self]
      · rw [Function.update_of_ne hi]
        exact hs.entry b i
    · rw [Function.update_of_ne hb]
      exact hs.entry b i
  refine ⟨{ hs with entry := hentry, outside := ?_ }, { hl with }⟩
  intro b i hout
  unfold Ipredictor.setEntry
  dsimp only
  rcases eq_or_ne b bank with rfl | hb
  · rw [Function.update_self, Function.update_of_ne]
    · exact hs.outside b i hout
    · rintro rfl
      exact hout ⟨hbank, hl.gi b⟩
  · rw [Function.update_of_ne hb]
    exact hs.outside b i hout

theorem Trained.select (h : Trained known p) (branchTarget : Nat) :
    Trained known (p.select branchTarget).2 := by
  unfold Ipredictor.select
  dsimp only
  split_ifs
  · exact ⟨{ h.1 with useAltOnNa := h.1.useAltOnNa.ctrupdate _ }, { h.2 with }⟩
  · exact h
  · exact h

/-- The loop of the allocation writes in banks up to the last one. -/
theorem Trained.allocate {branchTarget : Nat} (htarget : known branchTarget) (fuel i : Nat)
    (t : Int) (h : Trained known p) (counts : Int × Int) :
    Trained known (Ipredictor.allocate branchTarget fuel i t p counts).1 := by
  induction fuel generalizing i t p counts with
  | zero => exact h
  | succ fuel ih =>
    obtain ⟨penalty, na⟩ := counts
    unfold Ipredictor.allocate
    split
    · exact h
    · rename_i hbank
      have hset := h.setEntry (not_lt.mp hbank)
        (e := { p.entry i with tag := p.gtag i, target := branchTarget, ctr := 0 })
        ⟨inBits_zero cWidth, (h.1.entry i (p.gi i)).u, h.2.gtag i, htarget⟩
      split
      · dsimp only
        split
        · exact hset
        · exact ih _ _ hset _
      · exact ih _ _ h _

/-- Usefulness is halved at once, or nothing is aged. -/
theorem Trained.allocateEntries (h : Trained known p) {branchTarget : Nat}
    (htarget : known branchTarget) : Trained known (p.allocateEntries branchTarget) := by
  unfold Ipredictor.allocateEntries
  generalize p.myrandom = seed
  dsimp only
  generalize (if seed.toNat &&& 127 < 32 then 2 else 1 : Int) = a
  have hseed : Trained known { p with seed := seed } := ⟨{ h.1 with }, { h.2 with }⟩
  have hallocate := hseed.allocate htarget (nHist + 1) (p.hitBank + a).toNat nnn (0, 0)
  generalize Ipredictor.allocate branchTarget (nHist + 1) (p.hitBank + a).toNat nnn
    { p with seed := seed } (0, 0) = r at hallocate
  obtain ⟨q, penalty, na⟩ := r
  obtain ⟨hs, hl⟩ := hallocate
  dsimp only at hs hl ⊢
  generalize (q.tick + (penalty - 2 * na)) = tick
  have hpos : 0 ≤ if tick < 0 then 0 else tick := by
    split
    · exact le_rfl
    · exact not_lt.mp ‹_›
  generalize (if tick < 0 then 0 else tick : Int) = tick at hpos
  split
  · refine ⟨{ hs with
      tick := ⟨le_rfl, show (0 : Int) < bornTick by decide⟩
      entry := ?_
      outside := ?_ }, { hl with }⟩
    · intro bank i
      obtain ⟨hctr, ⟨hlo, hhi⟩, htag, hknown⟩ := hs.entry bank i
      refine ⟨hctr, ?_, htag, hknown⟩
      dsimp only
      omega
    · intro bank i hout
      dsimp only
      rw [hs.outside bank i hout]
      rfl
  · rename_i hyoung
    exact ⟨{ hs with tick := ⟨hpos, not_le.mp hyoung⟩ }, { hl with }⟩

/-- The update of the two matching entries. -/
theorem Trained.updatePredictions (h : Trained known p) {hit : Nat} (hbank : hit ≤ nHist)
    (halt : p.altBank.toNat ≤ nHist) {branchTarget : Nat} (htarget : known branchTarget) :
    Trained known (p.updatePredictions hit branchTarget) := by
  have counted : ∀ {q : Ipredictor} {bank : Nat} (taken : Bool), Trained known q →
      bank ≤ nHist → Trained known (q.setEntry bank
        { q.entry bank with ctr := ctrupdate (q.entry bank).ctr taken cWidth }) := by
    intro q bank taken hq hbank
    have e := hq.1.entry bank (q.gi bank)
    exact hq.setEntry hbank ⟨e.ctr.ctrupdate taken, e.u, e.tag, e.target⟩
  have hitUpdated : ∀ q : Ipredictor, Trained known q →
      Trained known
        (let right := q.longestMatchPred == branchTarget
        let q := q.setEntry hit
          { q.entry hit with ctr := ctrupdate (q.entry hit).ctr right cWidth }
        if !right && (q.entry hit).ctr < 0 then
          q.setEntry hit { q.entry hit with target := branchTarget }
        else q) := by
    intro q hq
    have hcounted := counted (q.longestMatchPred == branchTarget) hq hbank
    dsimp only
    split
    · have e := hcounted.1.entry hit (q.gi hit)
      exact hcounted.setEntry hbank ⟨e.ctr, e.u, e.tag, htarget⟩
    · exact hcounted
  unfold Ipredictor.updatePredictions
  dsimp only
  split
  · exact hitUpdated _ (counted true h halt)
  · exact hitUpdated p h

/-- The training with a target makes the target known, and nothing else. -/
theorem Trained.updatePredictor (h : Trained known p) (pc : Nat) {branchTarget : Nat}
    (htarget : known branchTarget) : Trained known (p.updatePredictor pc branchTarget) := by
  have hbank : ∀ {q : Ipredictor}, Looked q → q.hitBank.toNat ≤ nHist ∧ q.altBank.toNat ≤ nHist := by
    intro q hq
    have hhit := hq.hitBank
    have halt := hq.altBank
    omega
  unfold Ipredictor.updatePredictor
  have hselect := h.select branchTarget
  generalize p.select branchTarget = r at hselect
  obtain ⟨alloc, p₁⟩ := r
  dsimp only at hselect ⊢
  have hallocate : Trained known (if alloc then p₁.allocateEntries branchTarget else p₁) := by
    split
    · exact hselect.allocateEntries htarget
    · exact hselect
  generalize (if alloc then p₁.allocateEntries branchTarget else p₁) = p₂ at hallocate
  obtain ⟨hhit, halt⟩ := hbank hallocate.2
  have hpredictions : Trained known (if p₂.hitBank ≥ 0 then
      p₂.updatePredictions p₂.hitBank.toNat branchTarget else p₂) := by
    split
    · exact hallocate.updatePredictions hhit halt htarget
    · exact hallocate
  generalize (if p₂.hitBank ≥ 0 then
    p₂.updatePredictions p₂.hitBank.toNat branchTarget else p₂) = p₃ at hpredictions
  have huseful : Trained known (if p₃.longestMatchPred != p₃.altTarget &&
      p₃.longestMatchPred == branchTarget &&
      (p₃.entry p₂.hitBank.toNat).u < 2 ^ uWidth - 1 then
        p₃.setEntry p₂.hitBank.toNat
          { p₃.entry p₂.hitBank.toNat with u := (p₃.entry p₂.hitBank.toNat).u + 1 }
      else p₃) := by
    split
    · rename_i hcounts
      simp only [Bool.and_eq_true, decide_eq_true_eq] at hcounts
      have e := hpredictions.1.entry p₂.hitBank.toNat (p₃.gi p₂.hitBank.toNat)
      refine hpredictions.setEntry hhit ⟨e.ctr, ?_, e.tag, e.target⟩
      obtain ⟨hlo, -⟩ := e.u
      have hhi := hcounts.2
      unfold entry at hhi ⊢
      dsimp only
      omega
    · exact hpredictions
  exact ⟨huseful.1.historyUpdate pc branchTarget, huseful.2.historyUpdate pc branchTarget⟩

/-! ## Calls -/

/-- Every training comes behind a prediction; `looked` says whether there was one. -/
def Ordered : Bool → List Call → Prop
  | _, [] => True
  | _, .getPrediction _ :: calls => Ordered true calls
  | looked, .updatePredictor _ _ :: calls => looked = true ∧ Ordered looked calls
  | looked, .trackOtherInst _ _ :: calls => Ordered looked calls

instance decidableOrdered : (looked : Bool) → (calls : List Call) → Decidable (Ordered looked calls)
  | _, [] => isTrue trivial
  | _, .getPrediction _ :: calls => decidableOrdered true calls
  | looked, .updatePredictor _ _ :: calls =>
    haveI := decidableOrdered looked calls
    inferInstanceAs (Decidable (_ ∧ _))
  | looked, .trackOtherInst _ _ :: calls => decidableOrdered looked calls

/-- The target that a call trains the predictor with. -/
def Call.target : Call → Option Nat
  | .updatePredictor _ branchTarget => some branchTarget
  | _ => none

/-- The targets that the calls train the predictor with. -/
def trained (calls : List Call) : List Nat := calls.filterMap Call.target

/-- From a sound predictor the calls leave a sound one. -/
theorem Sound.calls {looked : Bool} {calls : List Call} (ordered : Ordered looked calls)
    (hs : Sound known p) (hl : looked = true → Looked p)
    (htrained : ∀ t ∈ trained calls, known t) : Sound known (calls.foldl step p) := by
  induction calls generalizing looked p with
  | nil => exact hs
  | cons c calls ih =>
    rw [List.foldl_cons]
    cases c with
    | trackOtherInst pc target =>
      exact ih ordered (hs.historyUpdate pc target) (fun h => (hl h).historyUpdate pc target)
        htrained
    | getPrediction pc =>
      obtain ⟨hs', hl', -⟩ := hs.getPrediction pc
      exact ih ordered hs' (fun _ => hl') htrained
    | updatePredictor pc target =>
      obtain ⟨hlooked, ordered⟩ := ordered
      obtain ⟨htarget, htrained⟩ := List.forall_mem_cons.mp htrained
      obtain ⟨hs', hl'⟩ := Trained.updatePredictor ⟨hs, hl hlooked⟩ pc htarget
      exact ih ordered hs' (fun _ => hl') htrained

/-- **The state of ITTAGE.**  After any calls of a new predictor in which every training
comes behind a prediction, the counters are within their bits, the ticks below the
threshold, the tags within theirs, nothing was written outside the tables, and a
prediction is the default, 0, or a target the predictor was trained with. -/
theorem run_sound (u : Unset) (calls : List Call) (ordered : Ordered false calls) (pc : Nat) :
    Sound (fun t => t = 0xdeadbeef ∨ t ∈ trained calls) (run u calls) ∧
      Looked ((run u calls).getPrediction pc).2 ∧
      (((run u calls).getPrediction pc).1 ∈ [0, 0xdeadbeef] ++ trained calls) := by
  have hs : Sound (fun t => t = 0xdeadbeef ∨ t ∈ trained calls) (run u calls) :=
    (reinit_sound u (Or.inl rfl)).calls ordered (fun h => absurd h Bool.false_ne_true)
      fun t ht => Or.inr ht
  obtain ⟨-, hl, hknown⟩ := hs.getPrediction pc
  refine ⟨hs, hl, ?_⟩
  simp only [List.cons_append, List.nil_append, List.mem_cons]
  rcases hknown with (h | h) | h
  · exact Or.inr (Or.inl h)
  · exact Or.inr (Or.inr h)
  · exact Or.inl h

/-- The members of an object in memory that was zero. -/
def zeroed : Unset where
  ghist := fun _ => 0
  gi := fun _ => 0
  gtag := fun _ => 0
  altTarget := 0
  tageTarget := 0
  longestMatchPred := 0
  hitBank := 0
  altBank := 0

/-- An indirect jump behind a direct one, and the jump once more. -/
def jumpTwice : List Call :=
  [.trackOtherInst 60 64, .getPrediction 64, .updatePredictor 64 4096, .getPrediction 64]

theorem run_sound_jumpTwice :
    Sound (fun t => t = 0xdeadbeef ∨ t ∈ trained jumpTwice) (run zeroed jumpTwice) ∧
      Looked ((run zeroed jumpTwice).getPrediction 64).2 ∧
      ((run zeroed jumpTwice).getPrediction 64).1 ∈ [0, 0xdeadbeef] ++ trained jumpTwice :=
  run_sound zeroed jumpTwice (by decide) 64

end Ipredictor

end CbpSim.Predictor
