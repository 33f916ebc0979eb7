/-!
# Identities

An identity is a 128-bit number, and identities are ordered by it. Written with a fixed number of
digits the order of the texts is the order of the numbers, which is also the order of the sixteen
bytes.
-/

namespace Stockroom

/-- A 128-bit identity. -/
@[ext]
structure Ident where
  number : Nat
  number_lt : number < 1 <<< 128
deriving DecidableEq

namespace Ident

instance : LT Ident := ⟨fun a b => a.number < b.number⟩

instance (a b : Ident) : Decidable (a < b) :=
  inferInstanceAs (Decidable (a.number < b.number))

theorem lt_irrefl (a : Ident) : ¬ a < a := Nat.lt_irrefl a.number

theorem lt_trans {a b c : Ident} (hab : a < b) (hbc : b < c) : a < c := Nat.lt_trans hab hbc

theorem lt_asymm {a b : Ident} (h : a < b) : ¬ b < a := Nat.lt_asymm h

theorem ne_of_lt {a b : Ident} (h : a < b) : a ≠ b := fun e => lt_irrefl b (e ▸ h)

/-- Identities are totally ordered. -/
theorem lt_of_not_lt_of_ne {a b : Ident} (h : ¬ a < b) (hne : a ≠ b) : b < a :=
  Nat.lt_of_le_of_ne (Nat.le_of_not_lt h) fun e => hne (Ident.ext e.symm)

/-- The version digit: the thirteenth hexadecimal digit. -/
def version (i : Ident) : Nat := (i.number >>> 76) % 16

/-- The identity numbered `n` among those minted in one place: version 7 with the standard
variant, the other 122 bits holding `n`, so later identities sort after earlier ones. -/
def sequential (n : Nat) : Ident where
  number := ((n >>> 74) % 0x1000000000000) <<< 80 + 7 <<< 76 + ((n >>> 62) % 0x1000) <<< 64
    + 2 <<< 62 + n % 0x4000000000000000
  number_lt := by omega

end Ident

end Stockroom
