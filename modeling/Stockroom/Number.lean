import Stockroom.Number.Nearest

/-!
# Numbers in data

A number in a row is an integer, or a fractional number held as the binary64 value its text is read
as. The two kinds never agree, whatever their values: `1` and `1.0` are different data. Zero written
with a minus sign is kept apart so that it can be written again, but agrees with zero.

For sorting the kinds mix. Two integers of 64 bits with sign are compared exactly; any other pair is
compared as binary64 numbers, which a large integer reaches only after rounding.
-/

namespace Stockroom

inductive Number where
  | integer (n : Int)
  /-- A number written with a fraction or an exponent. -/
  | fractional (q : Rat)
  /-- The fractional zero with a minus sign. -/
  | negativeZero
deriving DecidableEq

namespace Number

/-- The binary64 value a number is compared by when exact comparison is not available. -/
def approximate : Number → Rat
  | .integer n => nearest n
  | .fractional q => q
  | .negativeZero => 0

/-- Equality of numbers as data. -/
def agrees : Number → Number → Bool
  | .integer m, .integer n => m = n
  | .integer _, _ => false
  | _, .integer _ => false
  | a, b => a.approximate = b.approximate

instance : BEq Number := ⟨agrees⟩

/-- Integers of 64 bits with sign. -/
def InSignedRange (n : Int) : Prop := -0x8000000000000000 ≤ n ∧ n < 0x8000000000000000

instance (n : Int) : Decidable (InSignedRange n) := inferInstanceAs (Decidable (_ ∧ _))

/-- The order of numbers when rows are sorted. -/
def order : Number → Number → Ordering
  | .integer m, .integer n =>
    if InSignedRange m ∧ InSignedRange n then compareOfLessAndEq m n
    else compareOfLessAndEq (nearest m) (nearest n)
  | a, b => compareOfLessAndEq a.approximate b.approximate

theorem agrees_refl (a : Number) : a.agrees a = true := by
  cases a <;> simp [agrees]

@[simp] theorem integer_agrees_iff {m n : Int} :
    (integer m).agrees (integer n) = true ↔ m = n := by
  simp [agrees]

end Number

end Stockroom
