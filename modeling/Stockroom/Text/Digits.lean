/-!
# Digits

Numbers as digits in a base up to sixteen, most significant first. Letters are written in lower case
and read in either. The text of a number cut to a width reads back as that number
(`read?_padded`).
-/

namespace Stockroom.Digits

/-- The value of a digit below the base. -/
def value? (base : Nat) (c : Char) : Option Nat :=
  let v :=
    if '0' ≤ c ∧ c ≤ '9' then some (c.toNat - '0'.toNat)
    else if 'a' ≤ c ∧ c ≤ 'f' then some (c.toNat - 'a'.toNat + 10)
    else if 'A' ≤ c ∧ c ≤ 'F' then some (c.toNat - 'A'.toNat + 10)
    else none
  v.filter (· < base)

/-- The number a list of digits spells, read onto the digits already seen. -/
def read? (base : Nat) : Nat → List Char → Option Nat
  | n, [] => some n
  | n, c :: cs => (value? base c).bind fun d => read? base (base * n + d) cs

/-- The last `width` digits of a number. -/
def padded (base : Nat) : (width : Nat) → Nat → List Char
  | 0, _ => []
  | width + 1, n => padded base width (n / base) ++ [Nat.digitChar (n % base)]

theorem length_padded (base width n : Nat) : (padded base width n).length = width := by
  induction width generalizing n with
  | zero => rfl
  | succ width ih => simp [padded, ih]

/-- A digit that was written has its value. -/
theorem value?_digitChar {d : Nat} (hd : d < 16) : value? 16 (Nat.digitChar d) = some d := by
  have : ∀ d : Fin 16, value? 16 (Nat.digitChar d) = some d.val := by decide
  exact this ⟨d, hd⟩

theorem read?_append (base n : Nat) (cs ds : List Char) :
    read? base n (cs ++ ds) = (read? base n cs).bind fun m => read? base m ds := by
  induction cs generalizing n with
  | nil => rfl
  | cons c cs ih =>
    simp only [List.cons_append, read?]
    cases value? base c with
    | none => rfl
    | some d => exact ih _

theorem read?_padded (width : Nat) {n : Nat} (hn : n < 1 <<< (4 * width)) :
    read? 16 0 (padded 16 width n) = some n := by
  induction width generalizing n with
  | zero =>
    obtain rfl : n = 0 := by simpa using hn
    rfl
  | succ width ih =>
    have hq : n / 16 < 1 <<< (4 * width) := by
      rw [Nat.shiftLeft_eq, Nat.mul_add, Nat.pow_add] at hn
      rw [Nat.shiftLeft_eq]
      omega
    rw [padded, read?_append, ih hq, Option.bind_some, read?,
      value?_digitChar (Nat.mod_lt _ (by omega)), Option.bind_some, read?, Nat.div_add_mod]

end Stockroom.Digits
