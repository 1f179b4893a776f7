/-
  Predictor/ConstantLoops.lean --- what the loop predictor learns.

  Source: src/cbp2016_tage_sc_l.h, `getloop`, `loopupdate` and the class `lentry`.

  A loop of `N` iterations resolves `N - 1` times in one direction and then once in the
  other.  An entry that is given to its branch counts one traversal to learn `N`, and from
  then on counts up to `N` again and again.
-/
import Mathlib.Data.List.Infix
import CbpSim.Predictor.LoopPredictor

set_option autoImplicit false

namespace CbpSim.Predictor

/-! ## The entry of a branch -/

/-- The place of a way in the set of a branch. -/
def loopPlace (pc way : Nat) : Nat :=
  (lindex pc ^^^ (((pc >>> (logL - 2)) &&& (2 ^ (logL - 2) - 1)) >>> way <<< 2)) + way

/-- The tag of a branch. -/
def loopTagOf (pc : Nat) : Nat :=
  let lTag := (pc >>> (logL - 2)) &&& (2 ^ (2 * loopTag) - 1)
  (lTag ^^^ (lTag >>> loopTag)) &&& (2 ^ loopTag - 1)

/-- `LHIT`: the first way with the tag. -/
def loopHit (pc : Nat) (ltable : Nat → LEntry) : Option Nat :=
  (List.range 4).find? fun way => (ltable (loopPlace pc way)).tag == loopTagOf pc

namespace LEntry

/-- `LVALID` of a hit. -/
def valid (e : LEntry) : Bool := e.confid == confLoop || e.confid * e.nbIter > 128

/-- The direction that a hit returns. -/
def predloop (e : LEntry) : Bool := if e.currentIter + 1 == e.nbIter then !e.dir else e.dir

/-- The entry that `loopupdate` writes for a branch that is not in the table. -/
def allocated (tag : Nat) (dir : Bool) : LEntry :=
  { dir := dir, tag := tag, nbIter := 0, age := 7, confid := 0, currentIter := 0 }

/-- `age++` -/
def older (e : LEntry) (aged : Bool) : LEntry :=
  if aged && e.age < confLoop then { e with age := e.age + 1 } else e

end LEntry

/-- The ways have places of their own. -/
theorem loopPlace_inj {pc way way' : Nat} (hway : way < 4) (hway' : way' < 4)
    (h : loopPlace pc way = loopPlace pc way') : way = way' := by
  unfold loopPlace lindex at h
  rw [← Nat.shiftLeft_xor_distrib, ← Nat.shiftLeft_xor_distrib, Nat.shiftLeft_eq,
    Nat.shiftLeft_eq] at h
  omega

/-- What `getloop` leaves behind. -/
theorem getloop_eq (pc : Nat) (ltable : Nat → LEntry) :
    getloop pc ltable =
      { lHit := loopHit pc ltable
        li := lindex pc
        lib := (pc >>> (logL - 2)) &&& (2 ^ (logL - 2) - 1)
        lTag := loopTagOf pc
        lValid := (loopHit pc ltable).any fun way => (ltable (loopPlace pc way)).valid
        predloop := (loopHit pc ltable).any fun way => (ltable (loopPlace pc way)).predloop } := by
  unfold getloop
  dsimp only
  split
  · rename_i way hway
    rw [show loopHit pc ltable = some way from hway]
    rfl
  · rename_i hnone
    rw [show loopHit pc ltable = none from hnone]
    rfl

/-! ## Occurrences of the branch -/

/-- An occurrence: its direction, and what else `loopupdate` reads. -/
structure Occurrence where
  taken : Bool
  tagePred : Bool
  phist : Nat
  ptghist : Int
  alloc : Bool
  seed : Nat
  deriving DecidableEq, Repr

/-- `getloop`, then `loopupdate` with the resolved direction. -/
def feed (pc : Nat) (ltable : Nat → LEntry) (o : Occurrence) : Nat → LEntry :=
  (loopupdate (getloop pc ltable) o.tagePred o.phist o.ptghist o.taken o.alloc ltable o.seed).1

/-- What other branches do leaves the entry as it is, and `getloop` finding it. -/
structure Untouched (pc way : Nat) (ltable ltable' : Nat → LEntry) : Prop where
  entry : ltable' (loopPlace pc way) = ltable (loopPlace pc way)
  found : loopHit pc ltable' = some way

/-- The occurrences of the branch, other branches in between. -/
inductive Fed (pc way : Nat) (ltable : Nat → LEntry) : List Occurrence → (Nat → LEntry) → Prop
  | start : Fed pc way ltable [] ltable
  | others {occurrences : List Occurrence} {ltable' ltable'' : Nat → LEntry} :
      Fed pc way ltable occurrences ltable' → Untouched pc way ltable' ltable'' →
        Fed pc way ltable occurrences ltable''
  | occurrence {occurrences : List Occurrence} {ltable' : Nat → LEntry} (o : Occurrence) :
      Fed pc way ltable occurrences ltable' →
        Fed pc way ltable (occurrences ++ [o]) (feed pc ltable' o)

/-- A wrong direction frees the entry; any other is counted. -/
theorem feed_hit {pc way : Nat} {ltable : Nat → LEntry} (hhit : loopHit pc ltable = some way)
    (o : Occurrence) :
    let e := ltable (loopPlace pc way)
    ∃ aged, feed pc ltable o = Function.update ltable (loopPlace pc way)
      (if e.valid && o.taken != e.predloop then e.free else (e.older aged).count o.taken) := by
  dsimp only
  unfold feed loopupdate
  rw [getloop_eq, hhit]
  simp only [Option.any_some]
  split
  · exact ⟨false, rfl⟩
  · exact ⟨_, rfl⟩

theorem older_frame (e : LEntry) (aged : Bool) :
    ∃ age, e.age ≤ age ∧ e.older aged = { e with age := age } := by
  unfold LEntry.older
  split
  · exact ⟨e.age + 1, Nat.le_succ _, rfl⟩
  · exact ⟨e.age, le_rfl, rfl⟩

theorem tag_count (e : LEntry) (taken : Bool) : (e.count taken).tag = e.tag := by
  unfold LEntry.count
  dsimp only
  split_ifs
  all_goals rfl

/-- Feeding the entry keeps its tag, so that it is found again. -/
theorem loopHit_feed {pc way : Nat} {ltable : Nat → LEntry} (hhit : loopHit pc ltable = some way)
    (o : Occurrence) : loopHit pc (feed pc ltable o) = some way := by
  obtain ⟨aged, hfeed⟩ := feed_hit hhit o
  have htag : ∀ place, (feed pc ltable o place).tag = (ltable place).tag := by
    intro place
    rw [hfeed]
    by_cases hplace : place = loopPlace pc way
    · rw [hplace, Function.update_self]
      split
      · rfl
      · obtain ⟨age, -, holder⟩ := older_frame (ltable (loopPlace pc way)) aged
        rw [tag_count, holder]
    · rw [Function.update_of_ne hplace]
  rw [← hhit]
  unfold loopHit
  simp only [htag]

theorem Fed.found {pc way : Nat} {ltable ltable' : Nat → LEntry} {occurrences : List Occurrence}
    (h : Fed pc way ltable occurrences ltable') (hhit : loopHit pc ltable = some way) :
    loopHit pc ltable' = some way := by
  induction h with
  | start => exact hhit
  | others _ huntouched _ => exact huntouched.found
  | occurrence o _ ih => exact loopHit_feed ih o

/-! ## The loop -/

/-- One traversal of `N` iterations. -/
def traversal (N : Nat) (body : Bool) : List Bool := List.replicate (N - 1) body ++ [!body]

/-- Some traversals, one after the other. -/
def traversals (N : Nat) (body : Bool) (n : Nat) : List Bool :=
  (List.replicate n (traversal N body)).flatten

/-- The direction at position `i`: the last of every `N` leaves the body. -/
def directionAt (N : Nat) (body : Bool) (i : Nat) : Bool :=
  if (i + 1) % N = 0 then !body else body

theorem traversal_eq {N : Nat} (hN : 0 < N) (body : Bool) (k : Nat) :
    traversal N body = (List.range N).map fun i => directionAt N body (N * k + i) := by
  obtain ⟨M, rfl⟩ := Nat.exists_eq_succ_of_ne_zero (Nat.ne_of_gt hN)
  rw [List.range_succ, List.map_append, List.map_singleton, traversal]
  congr 1
  · refine (List.eq_replicate_iff.mpr ⟨by simp, ?_⟩).symm
    intro dir hdir
    obtain ⟨i, hi, rfl⟩ := List.mem_map.mp hdir
    have hi : i < M := List.mem_range.mp hi
    unfold directionAt
    rw [if_neg]
    rw [Nat.add_assoc, Nat.mul_add_mod, Nat.mod_eq_of_lt (by omega)]
    exact Nat.succ_ne_zero i
  · unfold directionAt
    rw [if_pos (by rw [Nat.add_assoc, Nat.mul_add_mod, Nat.mod_self])]

theorem traversals_eq {N : Nat} (hN : 0 < N) (body : Bool) (n : Nat) :
    traversals N body n = (List.range (N * n)).map (directionAt N body) := by
  induction n with
  | zero => rfl
  | succ n ih =>
    rw [traversals, List.replicate_succ', List.flatten_append, ← traversals, ih, Nat.mul_succ,
      List.range_add, List.map_append, List.map_map]
    congr 1
    rw [List.flatten_singleton, traversal_eq hN body n]
    rfl

theorem direction_of_front {N n : Nat} (hN : 0 < N) {body dir : Bool} {dirs : List Bool}
    (h : dirs ++ [dir] <+: traversals N body n) : dir = directionAt N body dirs.length := by
  obtain ⟨rest, heq⟩ := h
  have hlast : ((List.range (N * n)).map (directionAt N body))[dirs.length]? = some dir := by
    rw [← traversals_eq hN, ← heq, List.append_assoc, List.getElem?_append_right le_rfl,
      Nat.sub_self]
    rfl
  rw [List.getElem?_map] at hlast
  obtain ⟨i, hi, rfl⟩ := Option.map_eq_some_iff.mp hlast
  obtain ⟨hlt, rfl⟩ := List.getElem?_eq_some_iff.mp hi
  rw [List.getElem_range]

/-! ## What is learned -/

/-- The next position is in the same traversal, or the first of another. -/
theorem next_position {N : Nat} (hN : 0 < N) (n : Nat) :
    (n + 1) % N ≠ 0 ∧ n % N + 1 < N ∧ (n + 1) % N = n % N + 1 ∧ (n + 1) / N = n / N ∨
      (n + 1) % N = 0 ∧ n % N + 1 = N ∧ (n + 1) / N = n / N + 1 := by
  have hlt : n % N < N := Nat.mod_lt n hN
  have hmod : (n + 1) % N = (n % N + 1) % N := (Nat.mod_add_mod n N 1).symm
  rcases Nat.lt_or_eq_of_le (show n % N + 1 ≤ N from hlt) with hsame | hlast
  · rw [Nat.mod_eq_of_lt hsame] at hmod
    have hne : (n + 1) % N ≠ 0 := by omega
    exact Or.inl ⟨hne, hsame, hmod, Nat.succ_div_of_mod_ne_zero hne⟩
  · have hzero : (n + 1) % N = 0 := by
      rw [hmod, hlast, Nat.mod_self]
    exact Or.inr ⟨hzero, hlast, Nat.succ_div_of_mod_eq_zero hzero⟩

namespace LEntry

variable {e : LEntry} {taken : Bool}

/-- `CurrentIter++`, kept within ten bits. -/
theorem next_currentIter (h : e.currentIter + 1 ≤ 1023) :
    (e.currentIter + 1) % 2 ^ 16 &&& (2 ^ widthNbIterLoop - 1) = e.currentIter + 1 := by
  rw [Nat.mod_eq_of_lt (by omega), Nat.and_two_pow_sub_one_eq_mod]
  exact Nat.mod_eq_of_lt (h.trans_lt (by decide))

/-- Within the body the entry counts. -/
theorem count_body (h : e.currentIter + 1 ≤ 1023) (hdir : taken = e.dir)
    (hfits : e.currentIter + 1 ≤ e.nbIter ∨ e.confid = 0 ∧ e.nbIter = 0) :
    e.count taken = { e with currentIter := e.currentIter + 1 } := by
  unfold count
  rw [next_currentIter h]
  rcases hfits with hfits | ⟨hconfid, hnbIter⟩
  · simp [hdir, Nat.not_lt.mpr hfits]
  · simp [hdir, hconfid, hnbIter]

/-- At the end of the first traversal it takes the number of iterations. -/
theorem count_learn (h : e.currentIter + 1 ≤ 1023) (hdir : taken ≠ e.dir) (hnbIter : e.nbIter = 0) :
    e.count taken = { e with currentIter := 0, confid := 0, nbIter := e.currentIter + 1 } := by
  unfold count
  rw [next_currentIter h]
  simp [hdir, hnbIter]

/-- At the end of a traversal of the same length it gains confidence. -/
theorem count_confirm (h : e.currentIter + 1 ≤ 1023) (hdir : taken ≠ e.dir)
    (hlow : 3 ≤ e.nbIter) (hlast : e.currentIter + 1 = e.nbIter) :
    e.count taken =
      { e with currentIter := 0, confid := if e.confid < 15 then e.confid + 1 else e.confid } := by
  unfold count
  rw [next_currentIter h]
  simp only [hlast, gt_iff_lt, lt_irrefl, if_false, beq_iff_eq, if_true, hdir, confLoop]
  split
  · simp [Nat.not_lt.mpr hlow]
  · simp [Nat.not_lt.mpr hlow]

end LEntry

/-- The entry after `n` occurrences of a loop of `N` iterations. -/
structure Learned (tag N : Nat) (body : Bool) (n : Nat) (e : LEntry) : Prop where
  tag : e.tag = tag
  dir : e.dir = body
  age : 7 ≤ e.age
  currentIter : e.currentIter = n % N
  nbIter : e.nbIter = if n < N then 0 else N
  confid : e.confid = min (n / N - 1) 15

namespace Learned

variable {tag N n : Nat} {body : Bool} {e : LEntry}

theorem allocated (tag N : Nat) (body : Bool) (hN : 0 < N) :
    Learned tag N body 0 (.allocated tag body) where
  tag := rfl
  dir := rfl
  age := le_rfl
  currentIter := (Nat.zero_mod N).symm
  nbIter := (if_pos hN).symm
  confid := by rw [Nat.zero_div]; rfl

/-- A valid entry knows the number of iterations. -/
theorem predloop_of_valid (h : Learned tag N body n e) (hN : 0 < N) (hvalid : e.valid = true) :
    e.predloop = directionAt N body n := by
  have hlearned : N ≤ n := by
    by_contra hfirst
    have hnbIter := h.nbIter
    have hconfid := h.confid
    rw [if_pos (Nat.not_le.mp hfirst)] at hnbIter
    rw [Nat.div_eq_of_lt (Nat.not_le.mp hfirst)] at hconfid
    rw [LEntry.valid, hconfid, hnbIter] at hvalid
    exact absurd hvalid (by decide)
  unfold LEntry.predloop directionAt
  rw [h.nbIter, if_neg (Nat.not_lt.mpr hlearned), h.currentIter, h.dir]
  rcases next_position hN n with ⟨hne, hsame, -, -⟩ | ⟨hzero, hlast, -⟩
  · rw [if_neg (by simpa using Nat.ne_of_lt hsame), if_neg hne]
  · rw [if_pos (by simpa using hlast), if_pos hzero]

/-- **One occurrence.** -/
theorem count (h : Learned tag N body n e) (hlow : 3 ≤ N) (hhigh : N ≤ 1023) :
    Learned tag N body (n + 1) (e.count (directionAt N body n)) := by
  obtain ⟨htag, hdir, hage, hcurrentIter, hnbIter, hconfid⟩ := h
  have hN : 0 < N := by omega
  have hfits : e.currentIter + 1 ≤ 1023 := by
    have hlt : n % N < N := Nat.mod_lt n hN
    omega
  rcases next_position hN n with ⟨hne, hsame, hmod, hdiv⟩ | ⟨hzero, hlast, hdiv⟩
  · -- within the body
    have hbody : directionAt N body n = e.dir := by rw [directionAt, if_neg hne, hdir]
    have hstill : n + 1 < N ↔ n < N := by
      rw [← Nat.div_eq_zero_iff_lt hN, ← Nat.div_eq_zero_iff_lt hN, hdiv]
    have hcount : e.count (directionAt N body n) = { e with currentIter := e.currentIter + 1 } := by
      apply LEntry.count_body hfits hbody
      by_cases hfirst : n < N
      · rw [if_pos hfirst] at hnbIter
        rw [Nat.div_eq_of_lt hfirst] at hconfid
        exact Or.inr ⟨hconfid, hnbIter⟩
      · rw [if_neg hfirst] at hnbIter
        exact Or.inl (by omega)
    rw [hcount]
    constructor
    · exact htag
    · exact hdir
    · exact hage
    · rw [hmod, ← hcurrentIter]
    · simp only [hnbIter, hstill]
    · rw [hdiv]
      exact hconfid
  · have hexit : directionAt N body n ≠ e.dir := by
      rw [directionAt, if_pos hzero, hdir]
      simp
    have hdone : ¬ n + 1 < N := by
      rw [← Nat.div_eq_zero_iff_lt hN, hdiv]
      exact Nat.succ_ne_zero _
    by_cases hfirst : n < N
    · -- the end of the first traversal
      rw [if_pos hfirst] at hnbIter
      rw [LEntry.count_learn hfits hexit hnbIter]
      constructor
      · exact htag
      · exact hdir
      · exact hage
      · exact hzero.symm
      · rw [if_neg hdone, hcurrentIter, hlast]
      · rw [hdiv, Nat.div_eq_of_lt hfirst]
        rfl
    · -- the end of a later one
      rw [if_neg hfirst] at hnbIter
      have hpos : 0 < n / N := Nat.div_pos (Nat.not_lt.mp hfirst) hN
      rw [LEntry.count_confirm hfits hexit (by omega) (by omega)]
      constructor
      · exact htag
      · exact hdir
      · exact hage
      · exact hzero.symm
      · rw [if_neg hdone, hnbIter]
      · dsimp only
        rw [hdiv]
        split
        · omega
        · omega

theorem older (h : Learned tag N body n e) (aged : Bool) :
    Learned tag N body n (e.older aged) := by
  obtain ⟨age, hage, holder⟩ := older_frame e aged
  rw [holder]
  exact ⟨h.tag, h.dir, h.age.trans hage, h.currentIter, h.nbIter, h.confid⟩

end Learned

/-- The entry after every occurrence. -/
theorem Fed.learned {pc way : Nat} {ltable ltable' : Nat → LEntry} {occurrences : List Occurrence}
    (h : Fed pc way ltable occurrences ltable') {N n : Nat} {body : Bool}
    (hhit : loopHit pc ltable = some way)
    (hentry : ltable (loopPlace pc way) = .allocated (loopTagOf pc) body) (hlow : 3 ≤ N)
    (hhigh : N ≤ 1023)
    (hloop : occurrences.map Occurrence.taken <+: traversals N body n) :
    Learned (loopTagOf pc) N body occurrences.length (ltable' (loopPlace pc way)) := by
  have hN : 0 < N := by omega
  induction h with
  | start =>
    rw [hentry]
    exact .allocated _ N body hN
  | others _ huntouched ih =>
    rw [huntouched.entry]
    exact ih hloop
  | @occurrence occurrences ltable' o hfed ih =>
    rw [List.map_append, List.map_singleton] at hloop
    have hbefore := ih ((List.prefix_append _ _).trans hloop)
    -- the direction is that of the loop
    have htaken : o.taken = directionAt N body occurrences.length := by
      rw [direction_of_front hN hloop, List.length_map]
    obtain ⟨aged, hfeed⟩ := feed_hit (hfed.found hhit) o
    rw [hfeed, Function.update_self, List.length_append, List.length_singleton]
    have hright : ((ltable' (loopPlace pc way)).valid &&
        o.taken != (ltable' (loopPlace pc way)).predloop) = false := by
      cases hvalid : (ltable' (loopPlace pc way)).valid with
      | false => rfl
      | true =>
        rw [hbefore.predloop_of_valid hN hvalid, htaken]
        simp
    rw [hright, if_neg (by decide), htaken]
    exact (hbefore.older aged).count hlow hhigh

/-! ## The allocation -/

/-- After a miss, a write of the tag is a hit. -/
theorem loopHit_update {pc way : Nat} {ltable : Nat → LEntry} (hmiss : loopHit pc ltable = none)
    (hway : way < 4) (e : LEntry) (he : e.tag = loopTagOf pc) :
    loopHit pc (Function.update ltable (loopPlace pc way) e) = some way := by
  unfold loopHit at hmiss ⊢
  have hothers := List.find?_eq_none.mp hmiss
  refine List.find?_range_eq_some.mpr ⟨?_, List.mem_range.mpr hway, fun way' hbefore => ?_⟩
  · rw [Function.update_self, he, beq_self_eq_true]
  · have hway' : way' < 4 := hbefore.trans hway
    have hplace : loopPlace pc way' ≠ loopPlace pc way := fun heq =>
      Nat.ne_of_lt hbefore (loopPlace_inj hway' hway heq)
    rw [Function.update_of_ne hplace]
    simpa using hothers way' (List.mem_range.mpr hway')

/-- A miss leaves the table, makes an entry younger, or gives it to the branch, with the
other direction as its body; then `getloop` finds it. -/
theorem loopupdate_allocates {pc : Nat} {ltable : Nat → LEntry} (hmiss : loopHit pc ltable = none)
    (tagePred : Bool) (phist : Nat) (ptghist : Int) (taken alloc : Bool) (seed : Nat) :
    let ltable' := (loopupdate (getloop pc ltable) tagePred phist ptghist taken alloc ltable seed).1
    ltable' = ltable ∨
      (∃ way, ltable' = Function.update ltable (loopPlace pc way)
        { ltable (loopPlace pc way) with age := (ltable (loopPlace pc way)).age - 1 }) ∨
      ∃ way, loopHit pc ltable' = some way ∧
        ltable' = Function.update ltable (loopPlace pc way) (.allocated (loopTagOf pc) (!taken)) := by
  dsimp only
  have hplace : ∀ way, (getloop pc ltable).index way = loopPlace pc way := by
    intro way
    rw [getloop_eq]
    rfl
  have htag : (getloop pc ltable).lTag = loopTagOf pc := by rw [getloop_eq]
  have hnone : (getloop pc ltable).lHit = none := by rw [getloop_eq, hmiss]
  unfold loopupdate
  rw [hnone]
  simp only [hplace, htag]
  cases alloc with
  | false => exact Or.inl rfl
  | true =>
    rw [if_neg (by decide)]
    generalize myrandom phist ptghist seed = draw
    split
    · exact Or.inl rfl
    · right
      split
      · right
        refine ⟨draw.1 &&& 3, ?_, rfl⟩
        exact loopHit_update hmiss (Nat.and_lt_two_pow _ (by decide : 3 < 2 ^ 2)) _ rfl
      · exact Or.inl ⟨_, rfl⟩

/-- **The loop predictor learns constant loops.** -/
theorem learns_constantLoop {pc way N n : Nat} {body : Bool} {ltable ltable' : Nat → LEntry}
    {occurrences : List Occurrence} (hlow : 3 ≤ N) (hhigh : N ≤ 1023)
    (hhit : loopHit pc ltable = some way)
    (hentry : ltable (loopPlace pc way) = .allocated (loopTagOf pc) body)
    (hfed : Fed pc way ltable occurrences ltable')
    (hloop : occurrences.map Occurrence.taken <+: traversals N body n) :
    let e := ltable' (loopPlace pc way)
    (∀ k, occurrences.length = N * (k + 1) →
      e.nbIter = N ∧ e.currentIter = 0 ∧ e.confid = min k 15) ∧
    (e.tag = loopTagOf pc ∧ e.dir = body ∧ 7 ≤ e.age ∧
      (N ≤ occurrences.length → e.nbIter = N)) ∧
    ∀ m dir, occurrences.map Occurrence.taken ++ [dir] <+: traversals N body m →
      (getloop pc ltable').lValid = true → (getloop pc ltable').predloop = dir := by
  have hN : 0 < N := by omega
  have h := hfed.learned hhit hentry hlow hhigh hloop
  dsimp only
  refine ⟨fun k hk => ?_, ⟨h.tag, h.dir, h.age, fun hfirst => ?_⟩,
    fun m dir hnext hvalid => ?_⟩
  · have hnbIter := h.nbIter
    have hcurrentIter := h.currentIter
    have hconfid := h.confid
    rw [hk, if_neg (by rw [Nat.mul_succ]; omega)] at hnbIter
    rw [hk, Nat.mul_mod_right] at hcurrentIter
    rw [hk, Nat.mul_div_cancel_left _ hN, Nat.add_sub_cancel] at hconfid
    exact ⟨hnbIter, hcurrentIter, hconfid⟩
  · rw [h.nbIter, if_neg (Nat.not_lt.mpr hfirst)]
  · rw [direction_of_front hN hnext, List.length_map]
    rw [getloop_eq, hfed.found hhit] at hvalid ⊢
    exact h.predloop_of_valid hN hvalid

/-- Without other branches the occurrences follow each other. -/
theorem Fed.foldl (pc way : Nat) (ltable : Nat → LEntry) (occurrences : List Occurrence) :
    Fed pc way ltable occurrences (occurrences.foldl (feed pc) ltable) := by
  induction occurrences using List.reverseRecOn with
  | nil => exact .start
  | append_singleton occurrences o ih =>
    rw [List.foldl_append]
    exact .occurrence o ih

/-- Sixteen traversals of three iterations from an allocation on: the next one is predicted
with the highest confidence. -/
theorem learns_constantLoop_sixteen :
    ∃ ltable ltable' occurrences,
      ltable = (loopupdate (getloop 64 fun _ => {}) false 1 0 true true (fun _ => {}) 0).1 ∧
      Fed 64 0 ltable occurrences ltable' ∧
      occurrences.map Occurrence.taken = traversals 3 false 16 ∧
      (ltable' (loopPlace 64 0)).nbIter = 3 ∧ (ltable' (loopPlace 64 0)).confid = 15 ∧
      (getloop 64 ltable').lValid = true ∧ (getloop 64 ltable').predloop = false := by
  obtain ⟨ltable, hallocated⟩ : ∃ ltable, ltable =
    (loopupdate (getloop 64 fun _ => {}) false 1 0 true true (fun _ => {}) 0).1 := ⟨_, rfl⟩
  have hhit : loopHit 64 ltable = some 0 := by
    rw [hallocated]
    decide +kernel
  have hentry : ltable (loopPlace 64 0) = .allocated (loopTagOf 64) false := by
    rw [hallocated]
    decide +kernel
  let occurrences : List Occurrence := (traversals 3 false 16).map fun taken =>
    { taken := taken, tagePred := false, phist := 0, ptghist := 0, alloc := false, seed := 0 }
  have htaken : occurrences.map Occurrence.taken = traversals 3 false 16 := by decide
  have hloop : occurrences.map Occurrence.taken <+: traversals 3 false 16 :=
    htaken ▸ List.prefix_refl (traversals 3 false 16)
  have hfed := Fed.foldl 64 0 ltable occurrences
  obtain ⟨hlearned, -, hpredicts⟩ :=
    learns_constantLoop (by decide) (by decide) hhit hentry hfed hloop
  obtain ⟨hnbIter, -, hconfid⟩ := hlearned 15 rfl
  have hvalid : (getloop 64 (occurrences.foldl (feed 64) ltable)).lValid = true := by
    rw [getloop_eq, hfed.found hhit]
    dsimp only [Option.any_some]
    rw [LEntry.valid, hconfid]
    rfl
  refine ⟨ltable, _, occurrences, hallocated, hfed, htaken, hnbIter, hconfid, hvalid, ?_⟩
  exact hpredicts 17 false (by rw [htaken]; decide) hvalid

end CbpSim.Predictor
