/-
  Predictor/Ageing.lean --- the usefulness counters and their ageing.

  Source: src/cbp2016_tage_sc_l.h, `gentry`, the ageing and the increment of `u` in
  `update`; the option `-u` of src/lib/cbp.cc.

  A counter below one is raised by one, and by `U_incrment` for a branch that depends on
  a load, without another look at its eight bits.  Halving brings a counter to zero if
  it is not negative, and never otherwise.
-/
import CbpSim.Predictor.Allocation

set_option autoImplicit false

namespace CbpSim.Predictor

open CbpSim.Foundation

/-! ## Signed bytes -/

theorem toInt8_le (x : Int) : toInt8 x ≤ 127 := by
  unfold toInt8
  omega

/-! ## Ageing -/

namespace Tables

@[simp] theorem gtable_ageUseful (t : Tables) (bank i : Nat) :
    (ageUseful t).gtable bank i = (t.gtable bank i).age := by
  unfold ageUseful gtable
  split
  · rfl
  · rfl

/-- Ageing halves a counter, again and again. -/
theorem u_ageUseful_iterate (t : Tables) (n bank i : Nat) :
    ((ageUseful^[n] t).gtable bank i).u = (t.gtable bank i).u / 2 ^ n := by
  induction n with
  | zero => simp
  | succ n ih =>
    rw [Function.iterate_succ_apply', gtable_ageUseful, GEntry.age, ih, Int.ediv_ediv_of_nonneg,
      pow_succ]
    positivity

end Tables

/-- No counter is negative, and the ageing alone would bring all of them to zero. -/
def Ageable (t : Tables) : Prop :=
  (∀ bank i, 0 ≤ (t.gtable bank i).u) ∧
    ∃ n, ∀ bank i, ((ageUseful^[n] t).gtable bank i).u = 0

/-- Every counter is a signed byte that is not negative. -/
def UsefulRange (t : Tables) : Prop :=
  ∀ bank i, 0 ≤ (t.gtable bank i).u ∧ (t.gtable bank i).u ≤ 127

/-- Seven halvings are enough. -/
theorem UsefulRange.ageable {t : Tables} (h : UsefulRange t) : Ageable t := by
  refine ⟨fun bank i => (h bank i).1, 7, fun bank i => ?_⟩
  obtain ⟨hlow, hhigh⟩ := h bank i
  rw [t.u_ageUseful_iterate]
  omega

/-- A negative counter is not brought to zero. -/
theorem not_ageable_of_neg {t : Tables} {bank i : Nat} (h : (t.gtable bank i).u < 0) :
    ¬ Ageable t := fun hageable => absurd (hageable.1 bank i) (Int.not_le.mpr h)

theorem u_ageUseful_neg {t : Tables} {bank i : Nat} (h : (t.gtable bank i).u < 0) (n : Nat) :
    ((ageUseful^[n] t).gtable bank i).u < 0 := by
  rw [t.u_ageUseful_iterate]
  exact Int.ediv_neg_of_neg_of_pos h (by positivity)

/-! ## What an update makes of a counter -/

/-- The raised counter. -/
def raiseUseful (cfg : Config) (isLdDependent : Bool) (u : Int) : Int :=
  if isLdDependent then toInt8 (toInt8 (u + 1) + cfg.uIncrment) else toInt8 (u + 1)

/-- A counter stays, or it is below one and raised. -/
theorem updateUseful_u (T : Tables) (l : Lookup) (resolveDir : Bool) (bank i : Nat) :
    (∀ cfg isLdDependent, ((updateUseful cfg T l resolveDir isLdDependent).gtable bank i).u =
      (T.gtable bank i).u) ∨
    (T.gtable bank i).u < 1 ∧
      ∀ cfg isLdDependent, ((updateUseful cfg T l resolveDir isLdDependent).gtable bank i).u =
        raiseUseful cfg isLdDependent (T.gtable bank i).u := by
  unfold updateUseful
  dsimp only
  cases hcond : (l.longestMatchPred != l.altTaken && l.longestMatchPred == resolveDir &&
      decide ((hitEntry T l).u < 1)) with
  | false => exact Or.inl fun _ _ => rfl
  | true =>
    by_cases hentry : l.IsEntry l.hitBank bank i
    · obtain ⟨hsame, rfl⟩ := hentry
      have hlow : (T.gtable bank (l.gi l.hitBank)).u < 1 := by
        rw [T.gtable_congr hsame]
        simp only [Bool.and_eq_true, decide_eq_true_eq] at hcond
        exact hcond.2
      refine Or.inr ⟨hlow, fun cfg isLdDependent => ?_⟩
      rw [if_pos rfl, Tables.gtable_congr _ hsame, Tables.gtable_setGtable_self,
        T.gtable_congr hsame]
      rfl
    · refine Or.inl fun cfg isLdDependent => ?_
      rw [if_pos rfl, T.gtable_setGtable_of_ne _ fun hsame heq => hentry ⟨hsame, heq⟩]

/-- The prediction counters are trained with the `u` counter as it is, or reset. -/
theorem updateCounters_u (t : Tables) (l : Lookup) (resolveDir : Bool) (bank i : Nat) :
    ((updateCounters t l resolveDir).gtable bank i).u = (t.gtable bank i).u ∨
      ((updateCounters t l resolveDir).gtable bank i).u = 0 := by
  rw [t.updateCounters_parts]
  split
  · exact Or.inl rfl
  · have halt := (updateAlternate_frame t l resolveDir bank i).2.1
    generalize t.updateAlternate l resolveDir = t₁ at *
    rw [← halt]
    have hlongest : ((t₁.updateLongest l resolveDir).gtable bank i).u = (t₁.gtable bank i).u ∨
        ((t₁.updateLongest l resolveDir).gtable bank i).u = 0 := by
      unfold Tables.updateLongest
      by_cases hentry : l.IsEntry l.hitBank bank i
      · obtain ⟨hsame, rfl⟩ := hentry
        rw [Tables.gtable_congr _ hsame, Tables.gtable_setGtable_self, t₁.gtable_congr hsame]
        dsimp only
        split
        · exact Or.inr rfl
        · exact Or.inl rfl
      · rw [t₁.gtable_setGtable_of_ne _ fun hsame heq => hentry ⟨hsame, heq⟩]
        exact Or.inl rfl
    generalize t₁.updateLongest l resolveDir = t₂ at *
    unfold Tables.clearUseful
    split
    · by_cases hentry : l.IsEntry l.hitBank bank i
      · obtain ⟨hsame, rfl⟩ := hentry
        rw [Tables.gtable_congr _ hsame, Tables.gtable_setGtable_self]
        exact Or.inr rfl
      · rw [t₂.gtable_setGtable_of_ne _ fun hsame heq => hentry ⟨hsame, heq⟩]
        exact hlongest
    · exact hlongest

/-! ## Runs -/

theorem raiseUseful_zero (cfg : Config) : raiseUseful cfg true 0 = toInt8 (1 + cfg.uIncrment) :=
  rfl

/-- The allocation and the ageing keep the range. -/
theorem UsefulRange.allocate {t : Tables} (h : UsefulRange t) {l : Lookup} (hl : l.Matched)
    (hhit : l.hitBank ≤ nHist) (resolveDir : Bool) (seed phist : Nat) (ptghist : Int) :
    UsefulRange (allocate t seed phist ptghist l resolveDir).1 := by
  obtain ⟨visited, allocated, a, hloop, -, htick⟩ :=
    allocate_confined hl hhit resolveDir t seed phist ptghist
  intro bank i
  obtain ⟨hlow, hhigh⟩ := h bank i
  rw [← hloop.entries.u_eq hl] at hlow hhigh
  rw [htick]
  rcases a.tables.updateTick_cases a.penalty a.na with ⟨-, -, hage⟩ | hsame
  · rw [hage]
    unfold GEntry.age
    dsimp only
    omega
  · rw [hsame]
    exact ⟨hlow, hhigh⟩

/-- Training keeps the range if the sum of one and the increment is in it. -/
theorem UsefulRange.train {cfg : Config} (hraise : 0 ≤ toInt8 (1 + cfg.uIncrment)) {t : Tables}
    (h : UsefulRange t) {l : Lookup} (hl : l.Matched) (hhit : l.hitBank ≤ nHist) (seed : Nat)
    (active : CbpHist) (pc : Nat) (resolveDir predTaken : Bool) (hist : CbpHist)
    (isLdDependent : Bool) :
    UsefulRange
      (train cfg t seed active pc resolveDir predTaken hist l isLdDependent).1 := by
  obtain ⟨t₀, t₁, htagged, ht₁, htrain⟩ :=
    train_tagged cfg t seed active pc resolveDir predTaken hist l isLdDependent
  have h₀ : UsefulRange t₀ := by
    intro bank i
    rw [(Tables.gtable_of_tagged htagged).1]
    exact h bank i
  have h₁ : UsefulRange t₁ := by
    rcases ht₁ with rfl | ⟨seed', rfl⟩
    · exact h₀
    · exact h₀.allocate hl hhit resolveDir seed' active.phist active.ptghist
  have h₂ : UsefulRange (updateCounters t₁ l resolveDir) := by
    intro bank i
    rcases updateCounters_u t₁ l resolveDir bank i with heq | heq
    · rw [heq]
      exact h₁ bank i
    · rw [heq]
      omega
  rw [htrain]
  intro bank i
  have hrange := h₂ bank i
  rcases updateUseful_u (updateCounters t₁ l resolveDir) l resolveDir bank i with
    hsame | ⟨hlow, hraised⟩
  · rw [hsame]
    exact hrange
  · have hzero : ((updateCounters t₁ l resolveDir).gtable bank i).u = 0 := by omega
    rw [hraised, hzero]
    cases isLdDependent with
    | true =>
      rw [raiseUseful_zero]
      exact ⟨hraise, toInt8_le _⟩
    | false =>
      have hone : raiseUseful cfg false 0 = 1 := rfl
      omega

theorem UsefulRange.init : UsefulRange .init := by
  intro bank i
  have hzero : (Tables.init.gtable bank i).u = 0 := by
    unfold Tables.gtable
    split
    · rfl
    · rfl
  omega

namespace TageScL

/-- One call keeps the range. -/
theorem usefulRange_step {cfg : Config} (hraise : 0 ≤ toInt8 (1 + cfg.uIncrment)) {p p' : TageScL}
    {call : TageCall} (h : UsefulRange p.tables) (hstep : p.step cfg call = .ok p') :
    UsefulRange p'.tables := by
  cases call with
  | predict seqNo piece pc =>
    obtain ⟨⟨info, p''⟩, hpredict, hstep⟩ := bind_eq_ok.mp hstep
    obtain rfl := Except.ok.inj hstep
    rw [(predict_eq_ok hpredict).2.1]
    exact h
  | historyUpdate c predTaken =>
    obtain rfl := Except.ok.inj hstep
    rw [historyUpdate_tables]
    exact h
  | trackOtherInst c predTaken =>
    obtain rfl := Except.ok.inj hstep
    rw [trackOtherInst, historyUpdate_tables]
    exact h
  | update seqNo piece pc resolveDir predDir nextPc isLdDependent =>
    have hupdate : p.update cfg seqNo piece pc resolveDir predDir nextPc isLdDependent = .ok p' :=
      hstep
    obtain ⟨hist, -, seed, active, htables⟩ := update_tables hupdate
    dsimp only at htables
    rw [htables]
    exact h.train hraise (predictUsingGivenHist_matched p.tables pc hist)
      (predictUsingGivenHist_inBounds p.tables pc hist).hitBank seed active pc resolveDir _ hist
      isLdDependent

end TageScL

/-! ## The last step of a training -/

/-- A call that tells of no dependence on a load. -/
def TageCall.independent : TageCall → Bool
  | .update _ _ _ _ _ _ isLdDependent => !isLdDependent
  | _ => true

namespace TageScL

/-- The increment and the load dependence matter at the end of an update only. -/
theorem update_useful {p p' : TageScL} {cfg : Config} {seqNo piece pc nextPc : Nat}
    {resolveDir predDir isLdDependent : Bool}
    (h : p.update cfg seqNo piece pc resolveDir predDir nextPc isLdDependent = .ok p') :
    ∃ T l, ∀ cfg isLdDependent, ∃ p',
      p.update cfg seqNo piece pc resolveDir predDir nextPc isLdDependent = .ok p' ∧
        p'.tables = updateUseful cfg T l resolveDir isLdDependent := by
  obtain ⟨key, hkey, h⟩ := bind_eq_ok.mp h
  unfold update
  rw [hkey]
  cases hhist : p.predTimeHistories key with
  | none => simp [hhist] at h
  | some hist => exact ⟨_, _, fun cfg isLdDependent => ⟨_, by rw [ok_bind, hhist], rfl⟩⟩

/-- Without such a dependence the increment is not read. -/
theorem step_of_independent (cfg : Config) (p : TageScL) {call : TageCall}
    (h : call.independent = true) : p.step cfg call = p.step {} call := by
  cases call with
  | predict seqNo piece pc => rfl
  | historyUpdate c predTaken => rfl
  | trackOtherInst c predTaken => rfl
  | update seqNo piece pc resolveDir predDir nextPc isLdDependent =>
    cases isLdDependent with
    | true => cases h
    | false => rfl

/-! ## One branch -/

/-- The branch at 64, predicted and updated. -/
def resolveOnce (taken : Bool) : List TageCall :=
  [.predict 1 0 64, .update 1 0 64 taken false 32 false]

/-- Its directions until the longest match is right, and the alternate one wrong. -/
def raisingCalls : List TageCall :=
  [true, false, true, false, false, true].flatMap resolveOnce ++ [.predict 1 0 64]

/-- A counter of zero is raised, by any increment. -/
theorem run_raised (cfg : Config) :
    ∃ p, Run (step cfg) init (raisingCalls ++ [.update 1 0 64 true false 32 true]) p ∧
      ∃ bank i, (p.tables.gtable bank i).u = toInt8 (1 + cfg.uIncrment) := by
  -- the same update, once for an independent branch and once with increment one
  obtain ⟨p₂, hok⟩ := exists_of_isOk (show (do
    let p ← raisingCalls.foldlM (step {}) init
    let p₁ ← p.update {} 1 0 64 true false 32 false
    let p₂ ← p.update { uIncrment := 1 } 1 0 64 true false 32 true
    if ¬ ((p₁.tables.gtable 36 18432).u = 1 ∧ (p₂.tables.gtable 36 18432).u = 2) then
      Except.error Abort.tageHistoryMissing
    else .ok p₂).isOk = true by decide +kernel)
  obtain ⟨p, hp, hok⟩ := bind_eq_ok.mp hok
  obtain ⟨p₁, hp₁, hok⟩ := bind_eq_ok.mp hok
  obtain ⟨p₂', hp₂, hok⟩ := bind_eq_ok.mp hok
  obtain ⟨hu, -⟩ := guard_eq_ok.mp hok
  obtain ⟨hone, htwo⟩ := not_not.mp hu
  obtain ⟨T, l, huseful⟩ := update_useful hp₁
  have hend : ∀ cfg' isLdDependent p', p.update cfg' 1 0 64 true false 32 isLdDependent = .ok p' →
      p'.tables = updateUseful cfg' T l true isLdDependent := by
    intro cfg' isLdDependent p' hp'
    obtain ⟨p'', hp'', htables⟩ := huseful cfg' isLdDependent
    obtain rfl := Except.ok.inj (hp''.symm.trans hp')
    exact htables
  rw [hend _ _ _ hp₁] at hone
  rw [hend _ _ _ hp₂] at htwo
  obtain ⟨p', hp', htables⟩ := huseful cfg true
  have hbefore : Run (step cfg) init raisingCalls p := by
    have hall : ∀ call ∈ raisingCalls, call.independent = true := by decide
    have hrun : Run (step {}) init raisingCalls p := hp
    exact hrun.congr fun call hcall p => p.step_of_independent cfg (hall call hcall)
  refine ⟨p', run_concat.mpr ⟨p, hbefore, hp'⟩, 36, 18432, ?_⟩
  rw [htables]
  rcases updateUseful_u T l true 36 18432 with hsame | ⟨-, hraised⟩
  · rw [hsame] at hone htwo
    omega
  · rw [hraised] at hone ⊢
    unfold raiseUseful at hone ⊢
    rw [if_neg (by decide)] at hone
    rw [if_pos rfl, hone]

/-! ## The counters -/

/-- **Usefulness counters stay ageable if one and the increment do not overflow.**  In
every run every counter is at least zero, and the ageing brings it to zero, exactly
when one plus the increment is not negative in eight bits. -/
theorem ageable_iff (cfg : Config) :
    (∀ calls p, Run (step cfg) init calls p → Ageable p.tables) ↔
      0 ≤ toInt8 (1 + cfg.uIncrment) := by
  constructor
  · intro h
    obtain ⟨p, hrun, bank, i, hu⟩ := run_raised cfg
    by_contra hneg
    have hnegative : (p.tables.gtable bank i).u < 0 := by omega
    exact not_ageable_of_neg hnegative (h _ p hrun)
  · intro hraise calls p hrun
    have hrange : UsefulRange p.tables := by
      refine hrun.induct (P := fun p => UsefulRange p.tables) UsefulRange.init ?_
      intro p call p' _ h hstep
      exact usefulRange_step hraise h hstep
    exact hrange.ageable

/-- With the increment 127 a counter becomes -128, which no ageing brings to zero. -/
theorem not_ageable_of_increment :
    ∃ cfg : Config, cfg.uIncrment = 127 ∧ ∃ calls p, Run (step cfg) init calls p ∧
      (∃ bank i, (p.tables.gtable bank i).u = -128 ∧
        ∀ n, ((ageUseful^[n] p.tables).gtable bank i).u < 0) ∧
      ¬ Ageable p.tables := by
  obtain ⟨p, hrun, bank, i, hu⟩ := run_raised { uIncrment := 127 }
  have hneg : (p.tables.gtable bank i).u < 0 := by
    rw [hu]
    decide
  exact ⟨_, rfl, _, p, hrun, ⟨bank, i, hu, u_ageUseful_neg hneg⟩, not_ageable_of_neg hneg⟩

end TageScL

end CbpSim.Predictor
