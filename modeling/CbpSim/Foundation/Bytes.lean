/-
  Foundation/Bytes.lean --- little-endian numbers and an input stream of bytes.

  `leBytes w x` are the `w` bytes of `x`, least significant first, and `ofLe` reads
  them back.  An `InStream` is what is left of an input together with its end
  flag; a read that asks for more than is left delivers what there is, sets the
  flag, and every later read delivers nothing.
-/
import Mathlib.Data.List.Basic
import Mathlib.Tactic

set_option autoImplicit false

namespace CbpSim.Foundation

abbrev Byte := Fin 256

instance neZeroByte : NeZero (256 : Nat) := ⟨by decide⟩

/-! ## Numbers -/

/-- The `w` low bytes of `x`, least significant first. -/
def leBytes : Nat → Nat → List Byte
  | 0, _ => []
  | w + 1, x => ⟨x % 256, Nat.mod_lt x (by decide)⟩ :: leBytes w (x / 256)

/-- The number written by a list of bytes, least significant first. -/
def ofLe : List Byte → Nat
  | [] => 0
  | b :: bytes => b.val + 256 * ofLe bytes

@[simp] theorem length_leBytes (w x : Nat) : (leBytes w x).length = w := by
  induction w generalizing x with
  | zero => rfl
  | succ w ih => rw [leBytes, List.length_cons, ih]

/-- A number is read back as far as it fits. -/
theorem ofLe_leBytes_mod (w x : Nat) : ofLe (leBytes w x) = x % 256 ^ w := by
  induction w generalizing x with
  | zero => simp [leBytes, ofLe, Nat.mod_one]
  | succ w ih => rw [leBytes, ofLe, ih, pow_succ', Nat.mod_mul]

theorem ofLe_leBytes {w x : Nat} (h : x < 256 ^ w) : ofLe (leBytes w x) = x := by
  rw [ofLe_leBytes_mod, Nat.mod_eq_of_lt h]

/-! ## Streams -/

/-- What is left of an input, and whether its end was hit. -/
structure InStream where
  bytes : List Byte
  eof : Bool
  deriving DecidableEq, Repr

namespace InStream

/-- Read up to `n` bytes. -/
def read (s : InStream) (n : Nat) : List Byte × InStream :=
  if s.eof then ([], s)
  else if n ≤ s.bytes.length then (s.bytes.take n, { s with bytes := s.bytes.drop n })
  else (s.bytes, { bytes := [], eof := true })

/-- Read into a variable of `w` bytes that holds `old`: the bytes that are not
delivered keep their value. -/
def readInto (s : InStream) (w old : Nat) : Nat × InStream :=
  let (got, s) := s.read w
  (ofLe (got ++ (leBytes w old).drop got.length), s)

theorem read_append {bytes rest : List Byte} {n : Nat} (h : bytes.length = n) :
    read { bytes := bytes ++ rest, eof := false } n = (bytes, { bytes := rest, eof := false }) := by
  subst h
  simp [read]

/-- A written number is read back, whatever the variable held. -/
theorem readInto_leBytes {w x : Nat} (old : Nat) (rest : List Byte) (h : x < 256 ^ w) :
    readInto { bytes := leBytes w x ++ rest, eof := false } w old =
      (x, { bytes := rest, eof := false }) := by
  have hdrop : (leBytes w old).drop w = [] := by
    rw [List.drop_eq_nil_iff, length_leBytes]
  rw [readInto, read_append (length_leBytes w x)]
  simp only [length_leBytes, hdrop, List.append_nil, ofLe_leBytes h]

/-- A read that wants more than there is hits the end. -/
theorem readInto_short {w : Nat} (old : Nat) {bytes : List Byte} (hshort : bytes.length < w) :
    (readInto { bytes := bytes, eof := false } w old).2 = { bytes := [], eof := true } := by
  simp only [readInto, read]
  rw [if_neg (by decide), if_neg (Nat.not_le.mpr hshort)]

/-! ### What is left -/

/-- At its end a stream has no bytes left. -/
def Sound (s : InStream) : Prop := s.eof = true → s.bytes = []

variable {s : InStream}

theorem Sound.read (h : s.Sound) (n : Nat) : (s.read n).2.Sound := by
  unfold InStream.read
  split
  · exact h
  · rename_i heof
    split
    · exact fun heof' => absurd heof' heof
    · exact fun _ => rfl

theorem Sound.readInto (h : s.Sound) (w old : Nat) : (s.readInto w old).2.Sound := h.read w

/-- A read takes its width, or what there is. -/
theorem Sound.length_readInto (h : s.Sound) (w old : Nat) :
    (s.readInto w old).2.bytes.length = s.bytes.length - w := by
  dsimp only [InStream.readInto, InStream.read]
  split
  · rename_i heof
    simp [h heof]
  · split
    · exact List.length_drop
    · rename_i hshort
      simp only [List.length_nil]
      omega

/-- Without bytes a variable keeps its value, as far as it fits. -/
theorem readInto_dry (w old : Nat) (hdry : s.bytes = []) : (s.readInto w old).1 = old % 256 ^ w := by
  have hgot : (s.read w).1 = [] := by
    unfold InStream.read
    simp only [hdry]
    split
    · rfl
    · split
      · exact List.take_nil
      · rfl
  dsimp only [InStream.readInto]
  rw [hgot]
  exact ofLe_leBytes_mod w old

end InStream
end CbpSim.Foundation
