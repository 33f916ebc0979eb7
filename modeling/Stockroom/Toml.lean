import Stockroom.Text.Digits

/-!
# Flat TOML documents

The part of TOML that holds flat settings: one key and one boolean or integer a line, with blank lines
and comments between them. A document that uses anything else of TOML, or is not TOML at all, is
refused, and so is one that gives a key twice.
-/

namespace Stockroom.Toml

inductive Scalar where
  | boolean (b : Bool)
  | integer (n : Int)
deriving DecidableEq

/-! ## Scalars -/

/-- A number whose digits may be separated by single underscores, read onto the digits already seen. -/
def readGrouped? (base : Nat) : Nat → List Char → Option Nat
  | _, [] => none
  | n, [c] => (Digits.value? base c).map (base * n + ·)
  | n, c :: '_' :: cs => (Digits.value? base c).bind fun d => readGrouped? base (base * n + d) cs
  | n, c :: cs => (Digits.value? base c).bind fun d => readGrouped? base (base * n + d) cs

/-- A decimal number; only zero itself starts with a zero. -/
def decimal? : List Char → Option Nat
  | '0' :: _ :: _ => none
  | cs => readGrouped? 10 0 cs

/-- An integer in any of its spellings, of any size. -/
def number? : List Char → Option Int
  | '0' :: 'x' :: cs => (readGrouped? 16 0 cs).map Int.ofNat
  | '0' :: 'o' :: cs => (readGrouped? 8 0 cs).map Int.ofNat
  | '0' :: 'b' :: cs => (readGrouped? 2 0 cs).map Int.ofNat
  | '+' :: cs => (decimal? cs).map Int.ofNat
  | '-' :: cs => (decimal? cs).map fun n => -Int.ofNat n
  | cs => (decimal? cs).map Int.ofNat

/-- The scalar a word spells. Integers have 64 bits. -/
def scalar? (word : List Char) : Option Scalar :=
  if word = "true".toList then some (.boolean true)
  else if word = "false".toList then some (.boolean false)
  else
    match number? word with
    | some n => if -0x8000000000000000 ≤ n ∧ n < 0x8000000000000000 then some (.integer n) else none
    | none => none

/-! ## Keys -/

/-- A character that stands for itself in a comment or a string: no control character but the tab. -/
def isPlain (c : Char) : Bool := c = '\t' || (' ' ≤ c && c ≠ '\x7f')

/-- A character written by its code point. -/
def ofCodePoint? (digits : List Char) : Option Char :=
  match Digits.read? 16 0 digits with
  | some n => if n.isValidChar then some (Char.ofNat n) else none
  | none => none

/-- A character written by one letter behind a backslash. -/
def ofLetter? : Char → Option Char
  | 'b' => some '\x08'
  | 't' => some '\t'
  | 'n' => some '\n'
  | 'f' => some '\x0c'
  | 'r' => some '\r'
  | '"' => some '"'
  | '\\' => some '\\'
  | _ => none

/-- The rest of a string behind its opening double quote, and what follows the closing one. -/
def readQuoted? : List Char → Option (List Char × List Char)
  | '"' :: cs => some ([], cs)
  | '\\' :: 'u' :: a :: b :: c :: d :: cs => do
    let x ← ofCodePoint? [a, b, c, d]
    let (s, rest) ← readQuoted? cs
    some (x :: s, rest)
  | '\\' :: 'U' :: a :: b :: c :: d :: e :: f :: g :: h :: cs => do
    let x ← ofCodePoint? [a, b, c, d, e, f, g, h]
    let (s, rest) ← readQuoted? cs
    some (x :: s, rest)
  | '\\' :: l :: cs => do
    let x ← ofLetter? l
    let (s, rest) ← readQuoted? cs
    some (x :: s, rest)
  | c :: cs =>
    if isPlain c && c ≠ '\\' then (readQuoted? cs).map fun (s, rest) => (c :: s, rest) else none
  | [] => none

/-- The rest of a string behind its opening single quote; nothing is escaped in it. -/
def readVerbatim? (cs : List Char) : Option (List Char × List Char) :=
  match cs.span (· ≠ '\x27') with
  | (s, _ :: rest) => if s.all isPlain then some (s, rest) else none
  | (_, []) => none

def isBare (c : Char) : Bool := c.isAlphanum || c = '_' || c = '-'

/-- A key in any of its spellings, and what follows it. -/
def readKey? : List Char → Option (List Char × List Char)
  | '"' :: cs => readQuoted? cs
  | '\x27' :: cs => readVerbatim? cs
  | cs =>
    match cs.span isBare with
    | ([], _) => none
    | (key, rest) => some (key, rest)

/-! ## Lines -/

def isSpace (c : Char) : Bool := c = ' ' || c = '\t'

def skipSpace (cs : List Char) : List Char := cs.dropWhile isSpace

/-- Whether nothing but a comment is left of a line. -/
def isEnd (cs : List Char) : Bool :=
  match skipSpace cs with
  | [] => true
  | '#' :: cs => cs.all isPlain
  | _ => false

/-- A line that sets a key. -/
def readEntry? (cs : List Char) : Option (String × Scalar) := do
  let (key, cs) ← readKey? cs
  match skipSpace cs with
  | '=' :: cs =>
    let (word, rest) := (skipSpace cs).span fun c => !isSpace c && c ≠ '#'
    let x ← scalar? word
    if isEnd rest then some (String.ofList key, x) else none
  | _ => none

/-- The entries of a list of lines. -/
def readLines? : List (List Char) → Option (List (String × Scalar))
  | [] => some []
  | l :: ls =>
    if isEnd l then readLines? ls
    else do
      let e ← readEntry? (skipSpace l)
      let es ← readLines? ls
      some (e :: es)

/-- The lines of a text, each ended by a line feed, with or without a carriage return before it. -/
def lines : List Char → List (List Char)
  | [] => [[]]
  | '\r' :: '\n' :: cs => [] :: lines cs
  | '\n' :: cs => [] :: lines cs
  | c :: cs =>
    match lines cs with
    | [] => [[c]]
    | l :: ls => (c :: l) :: ls

/-- A text without the byte order mark it may start with. -/
def unmark : List Char → List Char
  | '\ufeff' :: cs => cs
  | cs => cs

/-- The entries of a document in order. -/
def parse? (s : String) : Option (List (String × Scalar)) :=
  match readLines? (lines (unmark s.toList)) with
  | some es => if (es.map Prod.fst).Nodup then some es else none
  | none => none

end Stockroom.Toml
