/-
  Foundation/Scan.lean --- decimal numbers as the C library scans them.

  A number is white space, a sign and digits, and ends at the first character that is
  none.  A format of several conversions with commas between them takes one number
  after the other.  A number that was written is the number that is scanned.
-/
import Mathlib.Tactic

set_option autoImplicit false

namespace CbpSim.Foundation

/-! ## Scanning -/

/-- `isspace`. -/
def isSpace (c : Char) : Bool := c.toNat == 32 || (decide (9 ≤ c.toNat) && decide (c.toNat ≤ 13))

/-- Whether there is a minus sign, and what follows the sign. -/
def takeSign : List Char → Bool × List Char
  | '-' :: s => (true, s)
  | '+' :: s => (false, s)
  | s => (false, s)

/-- A number and what follows it, or `none` where there are no digits. -/
def scanNumber (s : List Char) : Option (Int × List Char) :=
  let (negative, s) := takeSign (s.dropWhile isSpace)
  let digits := s.takeWhile Char.isDigit
  if digits = [] then none
  else
    let n : Int := Nat.ofDigitChars 10 digits 0
    some (if negative then -n else n, s.dropWhile Char.isDigit)

/-- The numbers of `sscanf`, where every conversion of the format is made. -/
def scanNumbers : Nat → List Char → Option (List Int)
  | 0, _ => some []
  | 1, s => (scanNumber s).map fun x => [x.1]
  | n + 2, s =>
    match scanNumber s with
    | some (x, c :: s) => if c = ',' then (scanNumbers (n + 1) s).map (x :: ·) else none
    | _ => none

/-! ## Writing -/

/-- A number as it is written. -/
def decimal : Int → List Char
  | .ofNat n => Nat.toDigits 10 n
  | .negSucc n => '-' :: Nat.toDigits 10 (n + 1)

/-- Numbers with commas between them. -/
def decimals : List Int → List Char
  | [] => []
  | [x] => decimal x
  | x :: y :: l => decimal x ++ ',' :: decimals (y :: l)

/-! ## What was written is scanned -/

/-- No digit is in front. -/
def Ended (s : List Char) : Prop := ∀ c ∈ s.head?, c.isDigit = false

theorem isSpace_of_isDigit {c : Char} (h : c.isDigit = true) : isSpace c = false := by
  have hrange : 48 ≤ c.toNat ∧ c.toNat ≤ 57 := Char.isDigit_iff_toNat.mp h
  simp only [isSpace, Bool.or_eq_false_iff, beq_eq_false_iff_ne, Bool.and_eq_false_imp,
    decide_eq_true_eq, decide_eq_false_iff_not]
  omega

theorem toDigits_isDigit (n : Nat) : ∀ c ∈ Nat.toDigits 10 n, c.isDigit = true :=
  fun _ hc => Nat.isDigit_of_mem_toDigits (by decide) (by decide) hc

theorem takeWhile_digits (n : Nat) {s : List Char} (hs : Ended s) :
    (Nat.toDigits 10 n ++ s).takeWhile Char.isDigit = Nat.toDigits 10 n ∧
      (Nat.toDigits 10 n ++ s).dropWhile Char.isDigit = s := by
  have hdigits := toDigits_isDigit n
  rw [List.takeWhile_append_of_pos hdigits, List.dropWhile_append_of_pos hdigits]
  cases s with
  | nil => simp
  | cons c s =>
    have hc : c.isDigit = false := hs c rfl
    simp [hc]

theorem scanNumber_digits (negative : Bool) (n : Nat) {s t : List Char} (hs : Ended s)
    (hsign : takeSign (t.dropWhile isSpace) = (negative, Nat.toDigits 10 n ++ s)) :
    scanNumber t = some (if negative then -(n : Int) else n, s) := by
  obtain ⟨htake, hdrop⟩ := takeWhile_digits n hs
  have hne : Nat.toDigits 10 n ≠ [] := Nat.toDigits_ne_nil
  unfold scanNumber
  rw [hsign]
  dsimp only
  rw [htake, hdrop, if_neg hne, Nat.ofDigitChars_ten_toDigits]

/-- **The number that was written is scanned**, and what follows it is left. -/
theorem scanNumber_decimal (x : Int) {s : List Char} (hs : Ended s) :
    scanNumber (decimal x ++ s) = some (x, s) := by
  cases x with
  | ofNat n =>
    -- the first digit is neither white space nor a sign
    obtain ⟨c, l, hl⟩ := List.exists_cons_of_ne_nil (Nat.toDigits_ne_nil (n := n) (b := 10))
    have hc : c.isDigit = true := toDigits_isDigit n c (hl ▸ List.mem_cons_self)
    refine (scanNumber_digits false n hs ?_).trans rfl
    rw [decimal, hl, List.cons_append, List.dropWhile_cons_of_neg (by simp [isSpace_of_isDigit hc])]
    unfold takeSign
    split
    · rename_i hminus
      rw [(List.cons.inj hminus).1] at hc
      exact absurd hc (by decide)
    · rename_i hplus
      rw [(List.cons.inj hplus).1] at hc
      exact absurd hc (by decide)
    · rfl
  | negSucc n =>
    refine (scanNumber_digits true (n + 1) hs ?_).trans rfl
    rw [decimal, List.cons_append, List.dropWhile_cons_of_neg (by decide)]
    rfl

/-- **The numbers that were written are scanned.** -/
theorem scanNumbers_decimals (x : Int) (l : List Int) :
    scanNumbers (l.length + 1) (decimals (x :: l)) = some (x :: l) := by
  induction l generalizing x with
  | nil =>
    have hone := scanNumber_decimal x (s := []) (by simp [Ended])
    rw [List.append_nil] at hone
    rw [List.length_nil, scanNumbers, decimals, hone]
    rfl
  | cons y l ih =>
    have hone := scanNumber_decimal x (s := ',' :: decimals (y :: l))
      (by simp [Ended])
    rw [List.length_cons, scanNumbers, decimals, hone]
    dsimp only
    rw [if_pos rfl, ih y]
    rfl

end CbpSim.Foundation
