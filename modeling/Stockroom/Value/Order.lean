import Stockroom.Value

/-!
# The order of values

Rows are sorted by the value of one attribute: null before booleans before numbers before texts
before everything else. Booleans, numbers and texts are ordered among themselves; lists and records
all tie.
-/

namespace Stockroom.Value

/-- The place of a value's shape in the order of shapes. -/
def rank : Value → Nat
  | .null => 0
  | .bool _ => 1
  | .number _ => 2
  | .text _ => 3
  | .list _ | .record _ => 4

/-- The order of values when rows are sorted. -/
def order : Value → Value → Ordering
  | .bool a, .bool b => compareOfLessAndEq a.toNat b.toNat
  | .number a, .number b => a.order b
  | .text a, .text b => compareOfLessAndEq a b
  | a, b => compareOfLessAndEq a.rank b.rank

end Stockroom.Value
