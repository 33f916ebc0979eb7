import Stockroom.Number.Nearest

/-!
# Decimals as binary64 numbers

A decimal `digits · 10 ^ power` becomes a binary64 number in steps, each rounded to nearest: first its
digits, then their product with the power of ten, or their quotient by it. The powers of ten are
binary64 numbers themselves, `10 ^ 308` the last of them, so that a decimal with more places than that
is divided more than once.

Digits and powers are exact up to `2 ^ 53` and `10 ^ 22`, and then only one step rounds: the result is
the number nearest to the decimal. Beyond that it may be a neighbour of it.
-/

namespace Stockroom.Number

/-- The greatest exponent of a power of ten within the finite range. -/
def lastPower : Nat := 308

def powerOfTen (k : Nat) : Rat := nearest (Nat.pow 10 k : Nat)

/-- Divides a binary64 number by `10 ^ places`. -/
def scaleDown (q : Rat) (places : Nat) : Rat :=
  if q.num = 0 then 0
  else if places ≤ lastPower then nearest (Rat.div q (powerOfTen places))
  else scaleDown (nearest (Rat.div q (powerOfTen lastPower))) (places - lastPower)
termination_by places
decreasing_by simp only [lastPower] at *; omega

/-- Multiplies a binary64 number by `10 ^ places`, as far as the finite range goes. -/
def scaleUp? (q : Rat) (places : Nat) : Option Rat :=
  if q.num = 0 then some 0
  else if lastPower < places then none
  else
    let scaled := nearest (Rat.mul q (powerOfTen places))
    if isFinite scaled then some scaled else none

/-- The binary64 number of `digits · 10 ^ power`, nothing if it leaves the finite range. -/
def ofDecimal? (digits : Nat) : (power : Int) → Option Rat
  | .ofNat places => scaleUp? (nearest digits) places
  | .negSucc n => some (scaleDown (nearest digits) (n + 1))

end Stockroom.Number
