import Stockroom.Number.Decimal
import Stockroom.Text.Digits
import Stockroom.Value

/-!
# The text of a value

Values are written and read as JSON. An integer literal from `-2 ^ 63` to `2 ^ 64 - 1` is an integer;
every other literal is a fractional number, the minus zero without fraction included. Of its digits
those count that fit in 64 bits; `Number.ofDecimal?` says which binary64 number they become. A
fractional number is written with all the digits of its exact decimal expansion. Reading returns
nothing for a text that is not exactly one value.
-/

namespace Stockroom.Value

/-! ## Writing -/

/-- A character inside a JSON string. -/
def escape (c : Char) : List Char :=
  if c = '"' then ['\\', '"']
  else if c = '\\' then ['\\', '\\']
  else if c.toNat < 0x20 then
    '\\' :: 'u' :: Digits.padded 16 4 c.toNat
  else [c]

def quote (s : String) : String := String.ofList ('"' :: s.toList.flatMap escape ++ ['"'])

/-- The exact decimal expansion of a rational whose denominator is a power of two. -/
def expand (q : Rat) : String :=
  let places := Nat.log2 q.den
  let scaled := q.num.natAbs * Nat.pow 5 places
  let fraction := toString (scaled % Nat.pow 10 places)
  (if q.num < 0 then "-" else "") ++ toString (scaled / Nat.pow 10 places) ++ "."
    ++ String.ofList (List.replicate (places - fraction.length) '0') ++ fraction

def renderNumber : Number → String
  | .integer n => toString n
  | .fractional q => expand q
  | .negativeZero => "-0.0"

mutual

/-- The JSON text of a value. -/
def render : Value → String
  | .null => "null"
  | .bool b => if b then "true" else "false"
  | .number n => renderNumber n
  | .text s => quote s
  | .list xs => "[" ++ ",".intercalate (renderItems xs) ++ "]"
  | .record fs => "\x7b" ++ ",".intercalate (renderFields fs) ++ "\x7d"

def renderItems : List Value → List String
  | [] => []
  | x :: xs => render x :: renderItems xs

def renderFields : List (String × Value) → List String
  | [] => []
  | (k, x) :: xs => (quote k ++ ":" ++ render x) :: renderFields xs

end

/-! ## Reading -/

def isSpace (c : Char) : Bool := c = ' ' || c = '\t' || c = '\n' || c = '\r'

def skipSpace (cs : List Char) : List Char := cs.dropWhile isSpace

/-- The number spelled by decimal digits. -/
def ofDecimal (ds : List Char) : Nat :=
  ds.foldl (fun n c => 10 * n + (c.toNat - '0'.toNat)) 0

/-- The longest run of digits and what follows it. -/
def splitDigits (cs : List Char) : List Char × List Char := cs.span Char.isDigit

/-- The integer digits of a number: a zero stands alone. -/
def readWhole? (cs : List Char) : Option (List Char × List Char) :=
  match splitDigits cs with
  | ([], _) => none
  | ('0' :: _ :: _, _) => none
  | (ds, rest) => some (ds, rest)

/-- The digits behind the point, none if there is no point. -/
def readPlaces? : List Char → Option (List Char × List Char)
  | '.' :: cs =>
    match splitDigits cs with
    | ([], _) => none
    | (ds, rest) => some (ds, rest)
  | cs => some ([], cs)

/-- The power of ten behind `e`, if there is one. -/
def readExponent? : List Char → Option (Option Int × List Char)
  | c :: cs =>
    if c = 'e' ∨ c = 'E' then
      let (negative, cs) := match cs with
        | '-' :: cs => (true, cs)
        | '+' :: cs => (false, cs)
        | cs => (false, cs)
      match splitDigits cs with
      | ([], _) => none
      | (ds, rest) =>
        let n : Int := ofDecimal ds
        some (some (if negative then -n else n), rest)
    else some (none, c :: cs)
  | [] => some (none, [])

/-- Reads digits behind those of `n` while the number fits in 64 bits; the number and how many digits
are left. -/
def readDigits : (n : Nat) → List Char → Nat × Nat
  | n, [] => (n, 0)
  | n, c :: cs =>
    let longer := 10 * n + (c.toNat - '0'.toNat)
    if longer < UInt64.size then readDigits longer cs else (n, cs.length + 1)

/-- The fractional number of a literal: digits before and behind the point, and the power of ten. -/
def fractional? (negative : Bool) (whole places : List Char) (power : Int) : Option Number :=
  let (digits, skipped) := readDigits 0 whole
  let (digits, left) := readDigits digits places
  (Number.ofDecimal? digits (power + skipped - (places.length - left : Nat))).map fun q =>
    if q.num = 0 && negative then .negativeZero else .fractional (if negative then -q else q)

def readNumber? (cs : List Char) : Option (Number × List Char) := do
  let (negative, cs) := match cs with
    | '-' :: cs => (true, cs)
    | cs => (false, cs)
  let (whole, cs) ← readWhole? cs
  let (places, afterPlaces) ← readPlaces? cs
  let (power?, rest) ← readExponent? afterPlaces
  let n := ofDecimal whole
  let isIntegral := places.isEmpty && power?.isNone
  let largest := if negative then 1 <<< 63 else UInt64.size - 1
  if isIntegral && !(negative && n == 0) && n ≤ largest
  then some (.integer (if negative then -(n : Int) else n), rest)
  else (fractional? negative whole places (power?.getD 0)).map fun n => (n, rest)

/-- The number spelled by four hexadecimal digits, and what follows them. -/
def readUnit? : List Char → Option (Nat × List Char)
  | a :: b :: c :: d :: rest => (Digits.read? 16 0 [a, b, c, d]).map fun n => (n, rest)
  | _ => none

/-- The character of an escape behind `\u`, a high surrogate taking its low partner with it. -/
def readUnicode? (cs : List Char) : Option (Char × List Char) := do
  let (high, rest) ← readUnit? cs
  if high < 0xD800 ∨ 0xDFFF < high then some (Char.ofNat high, rest)
  else if high ≤ 0xDBFF then
    match rest with
    | '\\' :: 'u' :: rest =>
      let (low, rest) ← readUnit? rest
      if 0xDC00 ≤ low ∧ low ≤ 0xDFFF then
        some (Char.ofNat (0x10000 + (high - 0xD800) * 0x400 + (low - 0xDC00)), rest)
      else none
    | _ => none
  else none

/-- A character behind a backslash, and what follows it. -/
def readEscape? : List Char → Option (Char × List Char)
  | '"' :: cs => some ('"', cs)
  | '\\' :: cs => some ('\\', cs)
  | '/' :: cs => some ('/', cs)
  | 'b' :: cs => some ('\x08', cs)
  | 'f' :: cs => some ('\x0c', cs)
  | 'n' :: cs => some ('\n', cs)
  | 'r' :: cs => some ('\r', cs)
  | 't' :: cs => some ('\t', cs)
  | 'u' :: cs => readUnicode? cs
  | _ => none

/-- The rest of a string behind its opening quote; `done` holds its characters in reverse. -/
def readString? : (fuel : Nat) → (done : List Char) → List Char → Option (String × List Char)
  | 0, _, _ => none
  | _ + 1, _, [] => none
  | fuel + 1, done, c :: cs =>
    if c = '"' then some (String.ofList done.reverse, cs)
    else if c = '\\' then (readEscape? cs).bind fun (c, rest) => readString? fuel (c :: done) rest
    else if c.toNat < 0x20 then none
    else readString? fuel (c :: done) cs

def readKeyword? (word : List Char) (v : Value) (cs : List Char) : Option (Value × List Char) :=
  if word.isPrefixOf cs then some (v, cs.drop word.length) else none

mutual

def readValue? : (fuel : Nat) → List Char → Option (Value × List Char)
  | 0, _ => none
  | fuel + 1, cs =>
    match skipSpace cs with
    | 'n' :: cs => readKeyword? ['u', 'l', 'l'] .null cs
    | 't' :: cs => readKeyword? ['r', 'u', 'e'] (.bool true) cs
    | 'f' :: cs => readKeyword? ['a', 'l', 's', 'e'] (.bool false) cs
    | '"' :: cs => (readString? (cs.length + 1) [] cs).map fun (s, rest) => (.text s, rest)
    | '[' :: cs =>
      match skipSpace cs with
      | ']' :: rest => some (.list [], rest)
      | cs => (readItems? fuel cs).map fun (xs, rest) => (.list xs, rest)
    | '\x7b' :: cs =>
      match skipSpace cs with
      | '\x7d' :: rest => some (.record [], rest)
      | cs => (readFields? fuel cs).map fun (fs, rest) => (ofFields fs, rest)
    | cs => (readNumber? cs).map fun (n, rest) => (.number n, rest)

def readItems? : (fuel : Nat) → List Char → Option (List Value × List Char)
  | 0, _ => none
  | fuel + 1, cs =>
    match readValue? fuel cs with
    | none => none
    | some (x, cs) =>
      match skipSpace cs with
      | ',' :: cs => (readItems? fuel cs).map fun (xs, rest) => (x :: xs, rest)
      | ']' :: rest => some ([x], rest)
      | _ => none

def readFields? : (fuel : Nat) → List Char → Option (List (String × Value) × List Char)
  | 0, _ => none
  | fuel + 1, cs =>
    match skipSpace cs with
    | '"' :: cs =>
      match readString? (cs.length + 1) [] cs with
      | none => none
      | some (k, cs) =>
        match skipSpace cs with
        | ':' :: cs =>
          match readValue? fuel cs with
          | none => none
          | some (x, cs) =>
            match skipSpace cs with
            | ',' :: cs => (readFields? fuel cs).map fun (fs, rest) => ((k, x) :: fs, rest)
            | '\x7d' :: rest => some ([(k, x)], rest)
            | _ => none
        | _ => none
    | _ => none

end

/-- The value a JSON text denotes. -/
def parse? (s : String) : Option Value :=
  match readValue? (s.toList.length + 1) s.toList with
  | some (v, rest) => if (skipSpace rest).isEmpty then some v else none
  | none => none

end Stockroom.Value
