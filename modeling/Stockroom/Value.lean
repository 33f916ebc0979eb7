import Stockroom.Number

/-!
# Data values

Rows and query values are data: null, booleans, numbers, texts, lists and records. A record lists its
fields in ascending order of name, each name once, so that two records with the same fields are the
same value; `Value.ofFields` brings any list of fields into that form.

Values have two equalities. `a = b` says that they are written alike. `a == b` says that they agree as
data, and differs only in that zero agrees with the zero written with a minus sign.
-/

namespace Stockroom

inductive Value where
  | null
  | bool (b : Bool)
  | number (n : Number)
  | text (s : String)
  | list (items : List Value)
  | record (fields : List (String × Value))

namespace Value

/-! ## Equality -/

mutual

def decideEq : (a b : Value) → Decidable (a = b)
  | .null, .null => isTrue rfl
  | .bool a, .bool b => decidable_of_iff (a = b) (by simp)
  | .number a, .number b => decidable_of_iff (a = b) (by simp)
  | .text a, .text b => decidable_of_iff (a = b) (by simp)
  | .list xs, .list ys =>
    match decideEqList xs ys with
    | isTrue h => isTrue (by rw [h])
    | isFalse h => isFalse (by simpa using h)
  | .record xs, .record ys =>
    match decideEqFields xs ys with
    | isTrue h => isTrue (by rw [h])
    | isFalse h => isFalse (by simpa using h)
  | .null, .bool _ | .null, .number _ | .null, .text _ | .null, .list _ | .null, .record _
  | .bool _, .null | .bool _, .number _ | .bool _, .text _ | .bool _, .list _ | .bool _, .record _
  | .number _, .null | .number _, .bool _ | .number _, .text _ | .number _, .list _
  | .number _, .record _
  | .text _, .null | .text _, .bool _ | .text _, .number _ | .text _, .list _ | .text _, .record _
  | .list _, .null | .list _, .bool _ | .list _, .number _ | .list _, .text _ | .list _, .record _
  | .record _, .null | .record _, .bool _ | .record _, .number _ | .record _, .text _
  | .record _, .list _ => isFalse (by simp)

def decideEqList : (xs ys : List Value) → Decidable (xs = ys)
  | [], [] => isTrue rfl
  | [], _ :: _ => isFalse (by simp)
  | _ :: _, [] => isFalse (by simp)
  | x :: xs, y :: ys =>
    match decideEq x y, decideEqList xs ys with
    | isTrue h, isTrue hs => isTrue (by rw [h, hs])
    | isFalse h, _ => isFalse (by simp [h])
    | _, isFalse hs => isFalse (by simp [hs])

def decideEqFields : (xs ys : List (String × Value)) → Decidable (xs = ys)
  | [], [] => isTrue rfl
  | [], _ :: _ => isFalse (by simp)
  | _ :: _, [] => isFalse (by simp)
  | (k, x) :: xs, (l, y) :: ys =>
    match instDecidableEqString k l, decideEq x y, decideEqFields xs ys with
    | isTrue hk, isTrue h, isTrue hs => isTrue (by rw [hk, h, hs])
    | isFalse hk, _, _ => isFalse (by simp [hk])
    | _, isFalse h, _ => isFalse (by simp [h])
    | _, _, isFalse hs => isFalse (by simp [hs])

end

instance : DecidableEq Value := decideEq

mutual

/-- Equality of values as data: number by number as `Number.agrees` says. -/
def agrees : Value → Value → Bool
  | .null, .null => true
  | .bool a, .bool b => a = b
  | .number a, .number b => a.agrees b
  | .text a, .text b => a = b
  | .list xs, .list ys => agreesList xs ys
  | .record xs, .record ys => agreesFields xs ys
  | _, _ => false

def agreesList : List Value → List Value → Bool
  | [], [] => true
  | x :: xs, y :: ys => agrees x y && agreesList xs ys
  | _, _ => false

def agreesFields : List (String × Value) → List (String × Value) → Bool
  | [], [] => true
  | (k, x) :: xs, (l, y) :: ys => (k = l : Bool) && agrees x y && agreesFields xs ys
  | _, _ => false

end

instance : BEq Value := ⟨agrees⟩

theorem beq_def (a b : Value) : (a == b) = a.agrees b := rfl

mutual

theorem agrees_refl : (a : Value) → a.agrees a = true
  | .null | .bool _ | .text _ => by simp [agrees]
  | .number n => by simpa [agrees] using n.agrees_refl
  | .list xs => by simpa [agrees] using agreesList_refl xs
  | .record xs => by simpa [agrees] using agreesFields_refl xs

theorem agreesList_refl : (xs : List Value) → agreesList xs xs = true
  | [] => rfl
  | x :: xs => by simp [agreesList, agrees_refl x, agreesList_refl xs]

theorem agreesFields_refl : (xs : List (String × Value)) → agreesFields xs xs = true
  | [] => rfl
  | (_, x) :: xs => by simp [agreesFields, agrees_refl x, agreesFields_refl xs]

end

instance : ReflBEq Value := ⟨fun {a} => agrees_refl a⟩

/-- A text agrees with no value but itself. -/
@[simp] theorem text_beq_iff {s : String} {v : Value} : (Value.text s == v) = true ↔ v = .text s := by
  cases v <;> simp [beq_def, agrees, eq_comm]

theorem beq_text_iff {s : String} {v : Value} : (v == .text s) = true ↔ v = .text s := by
  cases v <;> simp [beq_def, agrees]

/-! ## Records -/

/-- Places a field in order of name, replacing one of the same name. -/
def placeField (name : String) (v : Value) : List (String × Value) → List (String × Value)
  | [] => [(name, v)]
  | (other, w) :: fields =>
    if name < other then (name, v) :: (other, w) :: fields
    else if name = other then (name, v) :: fields
    else (other, w) :: placeField name v fields

/-- The record with the given fields, a later field of one name replacing an earlier one. -/
def ofFields (fields : List (String × Value)) : Value :=
  .record (fields.foldl (fun fs f => placeField f.1 f.2 fs) [])

/-- The value of the named field; only records have fields. -/
def field? (name : String) : Value → Option Value
  | .record fields => (fields.find? fun f => f.1 = name).map (·.2)
  | _ => none

end Value

end Stockroom
