import Stockroom.Ident
import Stockroom.Text.Digits

/-!
# The text of an identity

An identity is written as thirty-two lower-case hexadecimal digits in groups of 8, 4, 4, 4 and 12
with a hyphen between the groups. Four spellings are read, digits in either case: the digits alone,
the hyphenated form, the hyphenated form in braces, and the hyphenated form behind `urn:uuid:` (also
in either case). Nothing is trimmed.
-/

namespace Stockroom.Ident

/-! ## Groups -/

/-- The lengths of the digit groups. -/
def groupLengths : List Nat := [8, 4, 4, 4, 12]

/-- Joins groups of the given lengths with hyphens. -/
def hyphenate : List Nat → List Char → List Char
  | [], _ => []
  | [n], cs => cs.take n
  | n :: ns, cs => cs.take n ++ '-' :: hyphenate ns (cs.drop n)

/-- Removes the hyphens between groups of exactly the given lengths. -/
def unhyphenate? : List Nat → List Char → Option (List Char)
  | [], _ => none
  | [n], cs => if cs.length = n then some cs else none
  | n :: ns, cs =>
    match cs.drop n with
    | '-' :: rest => (unhyphenate? ns rest).map (cs.take n ++ ·)
    | _ => none

/-! ## Writing and reading -/

def toChars (i : Ident) : List Char := hyphenate groupLengths (Digits.padded 16 32 i.number)

/-- The lower-case hyphenated text. -/
def text (i : Ident) : String := String.ofList i.toChars

instance : ToString Ident := ⟨text⟩

/-- Thirty-two digits and nothing else. -/
def ofDigits? (cs : List Char) : Option Ident :=
  if cs.length = 32 then
    (Digits.read? 16 0 cs).bind fun n => if h : n < 1 <<< 128 then some ⟨n, h⟩ else none
  else none

def ofHyphenated? (cs : List Char) : Option Ident :=
  (unhyphenate? groupLengths cs).bind ofDigits?

/-- The text between a brace pair. -/
def unbrace? : List Char → Option (List Char)
  | '\x7b' :: cs => if cs.getLast? = some '\x7d' then some cs.dropLast else none
  | _ => none

/-- What follows `urn:uuid:`. -/
def afterUrn? (cs : List Char) : Option (List Char) :=
  if (cs.take 9).map Char.toLower = ['u', 'r', 'n', ':', 'u', 'u', 'i', 'd', ':'] then
    some (cs.drop 9)
  else none

def ofChars? (cs : List Char) : Option Ident :=
  ofDigits? cs <|> ofHyphenated? cs <|> (unbrace? cs).bind ofHyphenated?
    <|> (afterUrn? cs).bind ofHyphenated?

/-- The identity a text spells in any of the four forms. -/
def parse? (s : String) : Option Ident := ofChars? s.toList

end Stockroom.Ident
