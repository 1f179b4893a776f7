/-
  Lanes/Probe.lean --- probing a lane.

  Source: src/lib/resource_schedule.cc, `try_schedule`; src/lib/uarchsim.cc,
  `get_load_exec_cycle`, which calls it.

  A probe takes no slot, but it grows the ring as a call would.  From then on the
  lane masks its cycles with another depth: two cycles that shared a slot have
  slots of their own, or the ring grows later at another base.  A probe has no
  effect exactly when it finds its cycle in the ring as it is.
-/
import CbpSim.Lanes.Search

set_option autoImplicit false

namespace CbpSim.Lanes

open CbpSim.Foundation

namespace ResourceSchedule

/-- What the `schedule` calls of a sequence of calls return. -/
def answers (r : ResourceSchedule) : List LaneCall → Except Abort (List Nat)
  | [] => .ok []
  | .schedule start maxDelta :: calls => do
    let (r, answer) ← r.schedule start maxDelta
    let rest ← r.answers calls
    .ok (answer :: rest)
  | .advanceBaseCycle newBase :: calls => do
    let r ← r.advanceBaseCycle newBase
    r.answers calls

/-- The probe of `cycle` has no effect: it returns what `schedule` returns right
after it, and the calls after it return what they return without it. -/
def ProbeHarmless (r : ResourceSchedule) (cycle : Nat) : Prop :=
  ∃ r' found, r.trySchedule cycle = .ok (r', found) ∧
    (∃ r'', r'.schedule cycle maxCycle = .ok (r'', found)) ∧
    ∀ calls, r'.answers calls = r.answers calls

/-- A cycle from `cycle` on has a slot left in the ring as it is. -/
def FreeInWindow (r : ResourceSchedule) (cycle : Nat) : Prop :=
  ∃ free, cycle ≤ free ∧ free < r.baseCycle + r.depth ∧ free ≤ maxCycle ∧ r.count free < r.width

/-! ## A probe inside the window -/

theorem reach_of_lt {r : ResourceSchedule} {cycle : Nat} (hbase : r.baseCycle ≤ cycle)
    (hlive : cycle < r.baseCycle + r.depth) : r.reach cycle = r := by
  rw [reach, if_neg (by omega)]

/-- The search stays in the window when a cycle of it is free. -/
theorem finds_in_window {r : ResourceSchedule} {start free : Nat} (hstart : r.baseCycle ≤ start)
    (hle : start ≤ free) (hlive : free < r.baseCycle + r.depth) (hfree : r.count free < r.width) :
    ∃ cycle ≤ free, Finds r start r cycle := by
  induction hn : free - start generalizing start with
  | zero =>
    obtain rfl : start = free := by omega
    have hreach := reach_of_lt hstart hlive
    have hhere : Finds r start (r.reach start) start := .here (by rwa [hreach])
    rw [hreach] at hhere
    exact ⟨start, le_rfl, hhere⟩
  | succ n ih =>
    have hreach := reach_of_lt hstart (show start < r.baseCycle + r.depth by omega)
    by_cases hcount : r.count start < r.width
    · have hhere : Finds r start (r.reach start) start := .here (by rwa [hreach])
      rw [hreach] at hhere
      exact ⟨start, hle, hhere⟩
    · obtain ⟨cycle, hcycle, hfinds⟩ := @ih (start + 1) (by omega) (by omega) (by omega)
      refine ⟨cycle, hcycle, .next (by rwa [hreach]) (by rwa [hreach])⟩

theorem FreeInWindow.harmless {r : ResourceSchedule} {cycle : Nat} (h : r.FreeInWindow cycle)
    (hcycle : r.baseCycle ≤ cycle) : r.ProbeHarmless cycle := by
  obtain ⟨free, hle, hlive, hmax, hfree⟩ := h
  obtain ⟨found, hfound, hfinds⟩ := finds_in_window hcycle hle hlive hfree
  have hprobes : found < cycle + (maxCycle - cycle + 1) := by omega
  refine ⟨r, found, ?_, ⟨r.take found, ?_⟩, fun _ => rfl⟩
  · rw [trySchedule, if_neg (by omega)]
    exact congrArg Except.ok (hfinds.tryScheduleLoop_eq hprobes)
  · rw [schedule, if_neg (by omega)]
    exact congrArg Except.ok (hfinds.scheduleLoop_eq (hfound.trans hmax) hprobes)

/-! ## A probe past the window -/

/-- A probe that finds no free cycle in the window makes the ring grow, or runs out
of probes. -/
theorem tryScheduleLoop_grows {r : ResourceSchedule} (hr : r.Whole) (probes : Nat) {cycle : Nat}
    (hcycle : r.baseCycle ≤ cycle)
    (hfull : ∀ c, cycle ≤ c → c < cycle + probes → c < r.baseCycle + r.depth →
      ¬ r.count c < r.width) :
    (∃ s found, tryScheduleLoop probes r cycle = (s, found) ∧ r.depth < s.depth ∧ s.Whole ∧
        s.baseCycle = r.baseCycle ∧ s.width = r.width) ∨
      tryScheduleLoop probes r cycle = (r, cycle + probes) := by
  induction probes generalizing cycle with
  | zero => exact Or.inr rfl
  | succ probes ih =>
    by_cases hlive : cycle < r.baseCycle + r.depth
    · have hnot := hfull cycle le_rfl (by omega) hlive
      rw [tryScheduleLoop, reach_of_lt hcycle hlive, if_neg hnot]
      have hrest := @ih (cycle + 1) (by omega) fun c hc hc' => hfull c (by omega) (by omega)
      rwa [show cycle + 1 + probes = cycle + (probes + 1) by omega] at hrest
    · -- the ring grows to reach `cycle`
      have hlt := r.lt_reach hcycle
      have hloop := (hr.reach cycle).tryScheduleLoop probes (cycle + 1)
      left
      by_cases hfree : (r.reach cycle).count cycle < (r.reach cycle).width
      · refine ⟨r.reach cycle, cycle, ?_, by omega, hr.reach cycle, by simp, by simp⟩
        rw [tryScheduleLoop, if_pos hfree]
      · obtain ⟨hwhole, hwidth, hbase, hdepth⟩ := hloop
        have heq : tryScheduleLoop (probes + 1) r cycle =
            tryScheduleLoop probes (r.reach cycle) (cycle + 1) := by
          rw [tryScheduleLoop, if_neg hfree]
        rw [heq]
        exact ⟨_, _, rfl, by omega, hwhole, by rw [hbase, reach_baseCycle],
          by rw [hwidth, reach_width]⟩

/-- A lane without slots never finds one. -/
theorem tryScheduleLoop_noSlots (probes : Nat) {r : ResourceSchedule} (h : r.width = 0)
    (cycle : Nat) : (tryScheduleLoop probes r cycle).2 = cycle + probes := by
  induction probes generalizing r cycle with
  | zero => rfl
  | succ probes ih =>
    rw [tryScheduleLoop, reach_width, h, if_neg (Nat.not_lt_zero _),
      ih (by rw [reach_width, h]) (cycle + 1)]
    omega

/-- A call answers no cycle past its limit but `MAX_CYCLE`. -/
theorem scheduleLoop_le {limit : Nat} (hlimit : limit ≤ maxCycle) (probes : Nat)
    (r : ResourceSchedule) {start : Nat} (hstart : start ≤ limit) :
    (scheduleLoop limit probes r start).2 ≤ maxCycle := by
  induction probes generalizing r start with
  | zero => exact le_rfl
  | succ probes ih =>
    simp only [scheduleLoop]
    split
    · exact hstart.trans hlimit
    · split
      · exact le_rfl
      · exact ih _ (by omega)

/-! ## Telling two depths apart -/

/-- Two depths differ in a bit of their masks; the larger one has the highest such
bit. -/
theorem exists_mask_bit {d e : Nat} (h : d < e) :
    ∃ j, d.testBit j = false ∧ e.testBit j = true ∧ ∀ i, j < i → d.testBit i = e.testBit i := by
  have hne : d ^^^ e ≠ 0 := by
    intro hzero
    rw [Nat.xor_eq_zero_iff] at hzero
    omega
  obtain ⟨j, hj, hhigher⟩ := Nat.exists_most_significant_bit hne
  have hsame : ∀ i, j < i → d.testBit i = e.testBit i := by
    intro i hi
    have hbit := hhigher i hi
    rw [Nat.testBit_xor] at hbit
    simpa using hbit
  rw [Nat.testBit_xor] at hj
  cases hd : d.testBit j with
  | false =>
    rw [hd] at hj
    exact ⟨j, hd, by simpa using hj, hsame⟩
  | true =>
    rw [hd] at hj
    have hlt : e < d := Nat.lt_of_testBit j (by simpa using hj) hd fun i hi => (hsame i hi).symm
    omega

/-- A whole number of increments has the low bits in its mask. -/
theorem testBit_mask_low {depth i : Nat} (hdvd : schedDepthIncrement ∣ depth) (hpos : 0 < depth)
    (hi : i < 8) : (depth - 1).testBit i = true := by
  obtain ⟨q, rfl⟩ := hdvd
  obtain ⟨q, rfl⟩ : ∃ n, q = n + 1 := by
    refine ⟨q - 1, ?_⟩
    have : q ≠ 0 := by rintro rfl; simp at hpos
    omega
  have hsplit : schedDepthIncrement * (q + 1) - 1 = 2 ^ 8 * q + (2 ^ 8 - 1) := by
    unfold schedDepthIncrement
    omega
  rw [hsplit, Nat.testBit_two_pow_mul_add q (by norm_num) i, if_pos hi,
    Nat.testBit_two_pow_sub_one]
  exact decide_eq_true hi

/-- The two cycles around bit `j`. -/
theorem testBit_pair (m j : Nat) :
    (2 ^ j * (2 * m)).testBit j = false ∧ (2 ^ j * (2 * m + 1)).testBit j = true ∧
      ∀ i, i ≠ j → (2 ^ j * (2 * m + 1)).testBit i = (2 ^ j * (2 * m)).testBit i := by
  refine ⟨?_, testBit_odd j m (Nat.two_pow_pos j), ?_⟩
  · rw [Nat.testBit_two_pow_mul]
    simp
  · intro i hi
    rw [Nat.testBit_two_pow_mul, Nat.testBit_two_pow_mul]
    by_cases hle : j ≤ i
    · obtain ⟨n, hn⟩ : ∃ n, i - j = n + 1 := ⟨i - j - 1, by omega⟩
      rw [hn, Nat.testBit_succ, Nat.testBit_succ]
      congr 2
      omega
    · simp [hle]

/-- A multiple of a power of two is in the slot `0` of every smaller ring. -/
theorem modS_two_pow_mul {k depth : Nat} (a : Nat) (hpos : 0 < depth) (hle : depth ≤ 2 ^ k) :
    modS (2 ^ k * a) depth = 0 := by
  apply Nat.eq_of_testBit_eq
  intro i
  rw [testBit_modS, Nat.testBit_two_pow_mul, Nat.zero_testBit]
  by_cases hki : k ≤ i
  · have hlt : depth - 1 < 2 ^ i :=
      lt_of_lt_of_le (by omega) (Nat.pow_le_pow_right (by norm_num) hki)
    rw [Nat.testBit_lt_two_pow hlt, Bool.and_false]
  · simp [hki]

/-- Two cycles that share a slot in a ring of `d` entries, which may have to grow to
reach the second, and have slots of their own in a ring of `e`. -/
structure Separate (d e cycle later : Nat) : Prop where
  lt : cycle < later
  near : later - cycle < e
  ne_max : later ≠ maxCycle
  apart : modS later e ≠ modS cycle e
  share : later - cycle < d ∧ modS later d = modS cycle d ∨
    d ≤ later - cycle ∧ modS later (roundDepth (later - cycle + 1)) = modS cycle d

/-- Two depths are told apart by two cycles, as late as one likes. -/
theorem exists_separate {d e : Nat} (hdvd : schedDepthIncrement ∣ d) (hpos : 0 < d) (h : d < e)
    (base : Nat) : ∃ cycle later, base ≤ cycle ∧ Separate d e cycle later := by
  obtain ⟨j, hdj, hej, hsame⟩ := exists_mask_bit (show d - 1 < e - 1 by omega)
  have hj : 8 ≤ j := by
    by_contra hlow
    rw [testBit_mask_low hdvd hpos (by omega)] at hdj
    cases hdj
  have hpow : 2 ^ (j + 1) = 2 ^ j * 2 := Nat.pow_succ 2 j
  have heven : 2 ∣ 2 ^ j := dvd_pow_self 2 (by omega)
  have hbase := Nat.lt_mul_div_succ base (Nat.two_pow_pos (j + 1))
  set m := base / 2 ^ (j + 1) + 1 with hm
  have hlow : 2 ^ (j + 1) * m = 2 ^ j * (2 * m) := by rw [hpow]; ring
  have hhigh : 2 ^ j * (2 * m + 1) = 2 ^ j * (2 * m) + 2 ^ j := by ring
  have hnext : 2 ^ (j + 1) * (m + 1) = 2 ^ j * (2 * m + 1) + 2 ^ j := by rw [hpow]; ring
  obtain ⟨hbit, hbit', hother⟩ := testBit_pair m j
  have hej' : 2 ^ j ≤ e - 1 := Nat.ge_two_pow_of_testBit hej
  rw [hlow] at hbase
  have hodd : ∀ a, 2 ^ j * a ≠ maxCycle := by
    intro a heq
    have hdvd := heven.mul_right a
    rw [heq] at hdvd
    exact absurd hdvd (by decide)
  by_cases hcase : 2 ^ (j + 1) ≤ d - 1
  · -- no growth: the two cycles differ in bit `j` only
    refine ⟨2 ^ j * (2 * m), 2 ^ j * (2 * m + 1), hbase.le, ?_⟩
    have hdist : 2 ^ j * (2 * m + 1) - 2 ^ j * (2 * m) = 2 ^ j := by
      rw [hhigh, Nat.add_sub_cancel_left]
    have hpos' := Nat.two_pow_pos j
    exact {
      lt := by rw [hhigh]; exact Nat.lt_add_of_pos_right hpos'
      near := by rw [hdist]; omega
      ne_max := hodd _
      apart := by
        intro heq
        have hbits := congrArg (fun x => x.testBit j) heq
        simp only [testBit_modS, hej, hbit, hbit'] at hbits
        cases hbits
      share := by
        refine Or.inl ⟨by rw [hdist]; omega, Nat.eq_of_testBit_eq fun i => ?_⟩
        rw [testBit_modS, testBit_modS]
        by_cases hij : i = j
        · rw [hij, hdj, Bool.and_false, Bool.and_false]
        · rw [hother i hij] }
  · -- the smaller ring grows, and both cycles are in its slot `0`
    have hd : d ≤ 2 ^ j := by
      have hlt : d - 1 < 2 ^ j := by
        apply Nat.lt_pow_two_of_testBit
        intro i hi
        by_cases hij : i = j
        · rw [hij, hdj]
        · apply Nat.testBit_lt_two_pow
          exact lt_of_lt_of_le (by omega)
            (Nat.pow_le_pow_right (by norm_num) (show j + 1 ≤ i by omega))
      omega
    have hround : roundDepth (2 ^ j + 1) ≤ 2 ^ (j + 1) :=
      roundDepth_le (Nat.pow_dvd_pow 2 (show 8 ≤ j + 1 by omega)) (by omega)
    have hround' := le_roundDepth (2 ^ j + 1)
    have hdist : 2 ^ (j + 1) * (m + 1) - 2 ^ j * (2 * m + 1) = 2 ^ j := by
      rw [hnext, Nat.add_sub_cancel_left]
    refine ⟨2 ^ j * (2 * m + 1), 2 ^ (j + 1) * (m + 1),
      hbase.le.trans (hhigh ▸ Nat.le_add_right _ _), ?_⟩
    have hpos' := Nat.two_pow_pos j
    exact {
      lt := by rw [hnext]; exact Nat.lt_add_of_pos_right hpos'
      near := by rw [hdist]; omega
      ne_max := by rw [hpow, Nat.mul_assoc]; exact hodd _
      apart := by
        intro heq
        have hbits := congrArg (fun x => x.testBit j) heq
        have hzero := (testBit_pair (m + 1) j).1
        rw [show 2 ^ j * (2 * (m + 1)) = 2 ^ (j + 1) * (m + 1) by rw [hpow]; ring] at hzero
        simp only [testBit_modS, hej, hzero, hbit'] at hbits
        cases hbits
      share := by
        refine Or.inr ⟨by rw [hdist]; exact hd, ?_⟩
        rw [hdist, modS_two_pow_mul (m + 1) (by omega) hround, modS_two_pow_mul _ hpos hd] }

/-! ## A run that tells two depths apart -/

theorem clear_of_zero (depth : Nat) (n : Nat) {cycle i : Nat} {sched : Nat → Nat}
    (h : sched i = 0) : clear depth n cycle sched i = 0 := by
  induction n generalizing cycle sched with
  | zero => exact h
  | succ n ih =>
    apply ih
    by_cases hi : i = modS cycle depth
    · rw [hi, Function.update_self]
    · rw [Function.update_of_ne hi, h]

/-- The slots of the cycles passed are empty. -/
theorem clear_passed (depth n : Nat) {cycle c : Nat} {sched : Nat → Nat} (hc : cycle ≤ c)
    (hc' : c < cycle + n) : clear depth n cycle sched (modS c depth) = 0 := by
  induction n generalizing cycle sched with
  | zero => omega
  | succ n ih =>
    by_cases heq : c = cycle
    · subst heq
      exact clear_of_zero depth n (Function.update_self _ _ _)
    · exact ih (by omega) (by omega)

/-- A mask sees a cycle modulo every power of two that the ring fits in. -/
theorem modS_congr {x y depth k : Nat} (hle : depth ≤ 2 ^ k) (h : x % 2 ^ k = y % 2 ^ k) :
    modS x depth = modS y depth := by
  apply Nat.eq_of_testBit_eq
  intro i
  rw [testBit_modS, testBit_modS]
  by_cases hi : i < k
  · have hbit := congrArg (fun z => z.testBit i) h
    simp only [Nat.testBit_mod_two_pow, hi, decide_true, Bool.true_and] at hbit
    rw [hbit]
  · have hlt : depth - 1 < 2 ^ i := by
      have hpow : 2 ^ k ≤ 2 ^ i := Nat.pow_le_pow_right (by norm_num) (by omega)
      have := Nat.two_pow_pos k
      omega
    rw [Nat.testBit_lt_two_pow hlt, Bool.and_false, Bool.and_false]

/-- Far enough ahead the lane is empty. -/
theorem advance_empties {r : ResourceSchedule} {newBase k : Nat} (hk : r.depth ≤ 2 ^ k)
    (hfar : r.baseCycle + 2 ^ k ≤ newBase) :
    ∃ r', r.advanceBaseCycle newBase = .ok r' ∧ r'.baseCycle = newBase ∧ r'.depth = r.depth ∧
      r'.width = r.width ∧ ∀ cycle ≥ newBase, r'.count cycle = 0 := by
  refine ⟨{ r with
    sched := clear r.depth (newBase - r.baseCycle) r.baseCycle r.sched
    baseCycle := newBase }, ?_, rfl, rfl, rfl, ?_⟩
  · rw [advanceBaseCycle, if_neg (by have := Nat.two_pow_pos k; omega)]
  · intro cycle hcycle
    -- the last cycle passed with the slot of `cycle`
    have hmod := Nat.mod_lt (cycle - newBase) (Nat.two_pow_pos k)
    have hslot : modS cycle r.depth =
        modS (newBase - 2 ^ k + (cycle - newBase) % 2 ^ k) r.depth := by
      apply modS_congr hk
      rw [Nat.add_mod_mod, ← Nat.add_mod_right (newBase - 2 ^ k + (cycle - newBase))]
      congr 1
      omega
    rw [count, hslot]
    exact clear_passed r.depth _ (by omega) (by omega)

/-- The lane after `n` grants of a cycle. -/
def fill (r : ResourceSchedule) (cycle n : Nat) : ResourceSchedule :=
  { r with sched := Function.update r.sched (modS cycle r.depth) (r.count cycle + n) }

theorem fill_zero (r : ResourceSchedule) (cycle : Nat) : r.fill cycle 0 = r := by
  simp [fill, count]

theorem count_fill (r : ResourceSchedule) (cycle n : Nat) :
    (r.fill cycle n).count cycle = r.count cycle + n := by
  simp [fill, count]

theorem take_fill (r : ResourceSchedule) (cycle n : Nat) :
    (r.fill cycle n).take cycle = r.fill cycle (n + 1) := by
  simp [take, fill, count, Nat.add_assoc]

/-- A free cycle of the window is granted. -/
theorem schedule_of_free {r : ResourceSchedule} {cycle : Nat} (hbase : r.baseCycle ≤ cycle)
    (hlive : cycle < r.baseCycle + r.depth) (hfree : r.count cycle < r.width) :
    r.schedule cycle maxCycle = .ok (r.take cycle, cycle) := by
  have hreach := reach_of_lt hbase hlive
  rw [schedule, if_neg (by omega)]
  simp only [scheduleLoop, hreach, if_pos hfree]

/-- A full cycle is not granted. -/
theorem schedule_of_full {r r' : ResourceSchedule} {cycle answer : Nat}
    (hfull : ¬ (r.reach cycle).count cycle < r.width) (hne : cycle ≠ maxCycle)
    (hok : r.schedule cycle maxCycle = .ok (r', answer)) : answer ≠ cycle := by
  rw [schedule] at hok
  split at hok
  · cases hok
  · have hloop := Except.ok.inj hok
    rw [show limitCycle cycle maxCycle = maxCycle from if_pos rfl] at hloop
    simp only [scheduleLoop, reach_width, if_neg hfull] at hloop
    split at hloop
    · obtain ⟨-, rfl⟩ := Prod.mk.inj hloop
      exact hne.symm
    · have hle := le_scheduleLoop le_rfl (maxCycle - cycle) (r.reach cycle) (cycle + 1)
        (by omega)
      rw [hloop] at hle
      dsimp only at hle
      omega

/-- The answers to as many calls for one cycle as it has slots. -/
theorem answers_fill {r : ResourceSchedule} {cycle : Nat} (hbase : r.baseCycle ≤ cycle)
    (hlive : cycle < r.baseCycle + r.depth) (n m : Nat)
    (hfit : r.count cycle + m + n ≤ r.width) (calls : List LaneCall) :
    (r.fill cycle m).answers (List.replicate n (.schedule cycle maxCycle) ++ calls) =
      ((r.fill cycle (m + n)).answers calls).map (List.replicate n cycle ++ ·) := by
  induction n generalizing m with
  | zero =>
    simp only [List.replicate_zero, List.nil_append, Nat.add_zero]
    cases (r.fill cycle m).answers calls with
    | error e => rfl
    | ok rest => rfl
  | succ n ih =>
    have hfree : (r.fill cycle m).count cycle < (r.fill cycle m).width := by
      rw [count_fill]
      show _ < r.width
      omega
    rw [List.replicate_succ, List.cons_append, answers,
      schedule_of_free (r := r.fill cycle m) hbase hlive hfree, ok_bind, take_fill]
    dsimp only
    rw [ih (m + 1) (by omega), show m + 1 + n = m + (n + 1) by omega]
    cases (r.fill cycle (m + (n + 1))).answers calls with
    | error e => rfl
    | ok rest => rfl

/-- Move the base to `cycle`, fill it, and ask for `later`. -/
def separating (width cycle later : Nat) : List LaneCall :=
  .advanceBaseCycle cycle ::
    (List.replicate width (.schedule cycle maxCycle) ++ [.schedule later maxCycle])

/-- The answers to `separating` end with the answer for `later` on a full `cycle`. -/
theorem answers_separating {r : ResourceSchedule} {cycle k : Nat} (later : Nat)
    (hpos : 0 < r.depth) (hk : r.depth ≤ 2 ^ k) (hfar : r.baseCycle + 2 ^ k ≤ cycle) :
    ∃ r' : ResourceSchedule, r'.baseCycle = cycle ∧ r'.depth = r.depth ∧ r'.width = r.width ∧
      (∀ c ≥ cycle, r'.count c = 0) ∧
      r.answers (separating r.width cycle later) =
        (((r'.fill cycle r.width).schedule later maxCycle).map (·.2)).map
          fun answer => List.replicate r.width cycle ++ [answer] := by
  obtain ⟨r', hok, hbase, hdepth, hwidth, hempty⟩ := advance_empties hk hfar
  refine ⟨r', hbase, hdepth, hwidth, hempty, ?_⟩
  rw [separating, answers, hok, ok_bind]
  have hfill := answers_fill hbase.le (show cycle < r'.baseCycle + r'.depth by omega) r.width 0
    (by rw [hempty cycle le_rfl, hwidth]; omega) [.schedule later maxCycle]
  rw [fill_zero, Nat.zero_add] at hfill
  rw [hfill, answers]
  cases (r'.fill cycle r.width).schedule later maxCycle with
  | error e => rfl
  | ok p => rfl

/-- Two lanes of different depths at one base answer some calls differently. -/
theorem answers_differ {r s : ResourceSchedule} (hr : r.Whole) (hwidth : 0 < r.width)
    (hdepth : r.depth < s.depth) (hbase : s.baseCycle = r.baseCycle) (hsame : s.width = r.width) :
    ∃ calls, s.answers calls ≠ r.answers calls := by
  have hpos := hr.pos
  obtain ⟨k, hk⟩ : ∃ k, s.depth ≤ 2 ^ k := ⟨s.depth, Nat.lt_two_pow_self.le⟩
  obtain ⟨cycle, later, hfar, hsep⟩ :=
    exists_separate hr.dvd hr.pos hdepth (r.baseCycle + 2 ^ k)
  have hlt := hsep.lt
  have hnear := hsep.near
  obtain ⟨r', hrbase, hrdepth, hrwidth, hrempty, hranswers⟩ :=
    answers_separating later hr.pos (hdepth.le.trans hk) hfar
  obtain ⟨s', hsbase, hsdepth, hswidth, hsempty, hsanswers⟩ :=
    answers_separating later (show 0 < s.depth by omega) hk (hbase ▸ hfar)
  refine ⟨separating r.width cycle later, ?_⟩
  intro heq
  rw [hsame] at hsanswers
  rw [hranswers, hsanswers] at heq
  -- in the deeper ring `later` has a slot of its own
  have hfree : (s'.fill cycle r.width).schedule later maxCycle =
      .ok ((s'.fill cycle r.width).take later, later) := by
    refine schedule_of_free (r := s'.fill cycle r.width) (by show s'.baseCycle ≤ later; omega)
      (by show later < s'.baseCycle + s'.depth; omega) ?_
    have hcount : (s'.fill cycle r.width).count later = s'.count later := by
      refine Function.update_of_ne ?_ _ _
      show modS later s'.depth ≠ modS cycle s'.depth
      rw [hsdepth]
      exact hsep.apart
    rw [hcount, hsempty later hlt.le]
    show 0 < s'.width
    omega
  -- in the shallower one it finds the slot of `cycle`, full
  have hfull : ¬ ((r'.fill cycle r.width).reach later).count later <
      (r'.fill cycle r.width).width := by
    have hslot : ((r'.fill cycle r.width).reach later).count later =
        (r'.fill cycle r.width).count cycle := by
      rcases hsep.share with ⟨hlive, hshare⟩ | ⟨hgrow, hshare⟩
      · rw [reach_of_lt (by show r'.baseCycle ≤ later; omega)
          (by show later < r'.baseCycle + r'.depth; omega)]
        show (r'.fill cycle r.width).sched (modS later r'.depth) =
          (r'.fill cycle r.width).sched (modS cycle r'.depth)
        rw [hrdepth, hshare]
      · have hgrows : later - r'.baseCycle + 1 > r'.depth := by omega
        have hreach : (r'.fill cycle r.width).reach later =
            (r'.fill cycle r.width).resize (later - r'.baseCycle + 1) := if_pos hgrows
        rw [hreach]
        show (if modS later (roundDepth (later - r'.baseCycle + 1)) < r'.depth then
          (r'.fill cycle r.width).sched
            (modS later (roundDepth (later - r'.baseCycle + 1))) else 0) = _
        rw [hrbase, hshare, hrdepth, if_pos (modS_lt hr.pos)]
        show _ = (r'.fill cycle r.width).sched (modS cycle r'.depth)
        rw [hrdepth]
    rw [hslot, count_fill, hrempty cycle le_rfl]
    show ¬ 0 + r.width < r'.width
    omega
  rw [hfree] at heq
  cases hlast : (r'.fill cycle r.width).schedule later maxCycle with
  | error e =>
    rw [hlast] at heq
    cases heq
  | ok p =>
    have hne : p.2 ≠ later := schedule_of_full hfull hsep.ne_max hlast
    rw [hlast] at heq
    have hlists := Except.ok.inj heq
    exact hne (List.singleton_inj.mp (List.append_cancel_left hlists)).symm

/-- A probe that has no effect finds its cycle in the ring as it is. -/
theorem ProbeHarmless.freeInWindow {r : ResourceSchedule} (hr : r.Whole) {cycle : Nat}
    (hcycle : r.baseCycle ≤ cycle) (hmax : cycle ≤ maxCycle) (h : r.ProbeHarmless cycle) :
    r.FreeInWindow cycle := by
  obtain ⟨r', found, htry, ⟨r'', hschedule⟩, hanswers⟩ := h
  rw [trySchedule, if_neg (by omega)] at htry
  have hloop := Except.ok.inj htry
  have hle : found ≤ maxCycle := by
    rw [schedule] at hschedule
    split at hschedule
    · cases hschedule
    · have hfound := scheduleLoop_le (show limitCycle cycle maxCycle ≤ maxCycle from le_rfl)
        (limitCycle cycle maxCycle - cycle + 1) r' hmax
      rwa [Except.ok.inj hschedule] at hfound
  by_contra hnone
  have hfull : ∀ c, cycle ≤ c → c < cycle + (maxCycle - cycle + 1) → c < r.baseCycle + r.depth →
      ¬ r.count c < r.width :=
    fun c hc hc' hlive hfree => hnone ⟨c, hc, hlive, by omega, hfree⟩
  rcases tryScheduleLoop_grows hr _ hcycle hfull with
    ⟨s, found', hgrown, hdepth, hwhole, hbase, hwidth⟩ | hout
  · obtain ⟨rfl, rfl⟩ := Prod.mk.inj (hloop.symm.trans hgrown)
    rcases Nat.eq_zero_or_pos r.width with hzero | hpos
    · have hpast := tryScheduleLoop_noSlots (maxCycle - cycle + 1) hzero cycle
      rw [hloop] at hpast
      dsimp only at hpast
      omega
    · obtain ⟨calls, hdiffer⟩ := answers_differ hr hpos hdepth hbase hwidth
      exact hdiffer (hanswers calls)
  · obtain ⟨-, rfl⟩ := Prod.mk.inj (hloop.symm.trans hout)
    omega

end ResourceSchedule

/-- **A probe has no effect exactly when the ring need not grow for it.**  In every
state that uses of a lane reach, probing a cycle returns what `schedule` returns right
after it and leaves all later answers as they are if and only if a cycle from it on
has a slot left in the window of the ring. -/
theorem probeHarmless_iff {width : Nat} {uses : List LaneUse} {r : ResourceSchedule}
    (hrun : Run ResourceSchedule.use (.new width) uses r) {cycle : Nat}
    (hcycle : r.baseCycle ≤ cycle) (hmax : cycle ≤ maxCycle) :
    r.ProbeHarmless cycle ↔ r.FreeInWindow cycle :=
  ⟨fun h => h.freeInWindow (ResourceSchedule.whole_of_run hrun).1 hcycle hmax,
    fun h => h.harmless hcycle⟩

/-- The probe of cycle 10 on a lane just constructed. -/
theorem probeHarmless_iff_fresh : (ResourceSchedule.new 1).ProbeHarmless 10 :=
  (probeHarmless_iff (run_nil.mpr rfl) (by decide) (by decide)).mpr
    ⟨10, le_rfl, by decide, by decide, by decide⟩

/-- The base moves to 256, and 256 and 512 are asked for. -/
def probedCalls : List LaneCall :=
  [.advanceBaseCycle 256, .schedule 256 maxCycle, .schedule 512 maxCycle]

/-- On a fresh lane of one slot the probe of cycle 256 makes the ring grow to 512
entries, and the cycle 512 is granted after it but not without it. -/
theorem probe_changes_answers :
    (ResourceSchedule.new 1).answers probedCalls = .ok [256, 513] ∧
      (((ResourceSchedule.new 1).trySchedule 256).bind fun p => p.1.answers probedCalls) =
        .ok [256, 512] ∧
      ¬ (ResourceSchedule.new 1).ProbeHarmless 256 := by
  have hwithout : (ResourceSchedule.new 1).answers probedCalls = .ok [256, 513] := by
    decide +kernel
  have hwith : (((ResourceSchedule.new 1).trySchedule 256).bind fun p => p.1.answers probedCalls) =
      .ok [256, 512] := by
    decide +kernel
  refine ⟨hwithout, hwith, ?_⟩
  rintro ⟨r', found, htry, -, hanswers⟩
  rw [htry] at hwith
  have hsame := hanswers probedCalls
  rw [hwithout] at hsame
  have hlists := Except.ok.inj (hsame.symm.trans hwith)
  exact absurd hlists (by decide)

end CbpSim.Lanes
