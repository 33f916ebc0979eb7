/-!
# The nearest binary64 number

Every finite binary64 number is `m · 2 ^ u` with `m < 2 ^ 53` and `u ≥ -1074`. `nearest q` is the one
closest to the rational `q`, of two equally close ones the one with an even `m`. The exponent has no
upper end here: a result of magnitude `2 ^ 1024` or more has no finite form (`isFinite`).
-/

namespace Stockroom.Number

/-- The integer nearest to `num / den`, a tie going to the even neighbour. -/
def halfEven (num den : Nat) : Nat :=
  let down := num / den
  let rest := num % den
  if 2 * rest < den ∨ (2 * rest = den ∧ down % 2 = 0) then down else down + 1

/-- The exponent `e` with `2 ^ e ≤ num / den < 2 ^ (e + 1)`, for positive `num` and `den`. -/
def binaryExponent (num den : Nat) : Int :=
  let e : Int := (Nat.log2 num : Int) - Nat.log2 den
  if den <<< e.toNat ≤ num <<< (-e).toNat then e else e - 1

/-- The multiple of `2 ^ unit` nearest to `num / den`. -/
def nearestMultiple (num den : Nat) (unit : Int) : Rat :=
  mkRat (halfEven (num <<< (-unit).toNat) (den <<< unit.toNat) <<< unit.toNat : Nat)
    (1 <<< (-unit).toNat)

/-- The binary64 number nearest to a rational. -/
def nearest (q : Rat) : Rat :=
  if q.num = 0 then 0
  else
    let num := q.num.natAbs
    let unit := max (binaryExponent num q.den - 52) (-1074)
    let magnitude := nearestMultiple num q.den unit
    if q.num < 0 then -magnitude else magnitude

/-- Whether the nearest binary64 number is within the finite range. -/
def isFinite (q : Rat) : Bool := q.num.natAbs < q.den <<< 1024

end Stockroom.Number
