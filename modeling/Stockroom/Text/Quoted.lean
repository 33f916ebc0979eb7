import Stockroom.Text.Unprintable

/-!
# Quoted text

A text is quoted so that every character of it can be seen: between double quotes, a quote and a
backslash behind a backslash, the usual letters for NUL, tab, line feed and carriage return, and the
code point in braces for every other character that cannot be printed.
-/

namespace Stockroom.Text

/-- A character inside quoted text. -/
def escape (c : Char) : List Char :=
  if c = '"' ∨ c = '\\' then ['\\', c]
  else if c = '\x00' then ['\\', '0']
  else if c = '\t' then ['\\', 't']
  else if c = '\n' then ['\\', 'n']
  else if c = '\r' then ['\\', 'r']
  else if isUnprintable c then '\\' :: 'u' :: '\x7b' :: Nat.toDigits 16 c.toNat ++ ['\x7d']
  else [c]

def quoted (s : String) : String := String.ofList ('"' :: s.toList.flatMap escape ++ ['"'])

end Stockroom.Text
