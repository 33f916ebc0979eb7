import Stockroom.Fault
import Stockroom.Link

/-!
# Criteria

Criteria are criterion joined to criterion by one and the same joiner. They are given as a list of
tokens in the order of writing and read from left to right; the first token that cannot continue the
chain decides the fault, and only then what is missing at the end.
-/

namespace Stockroom

inductive Operator where
  /-- The field holds one of the values. -/
  | isIn
  /-- The field holds the first value. -/
  | equals
deriving DecidableEq

/-- Where a criterion takes its values from. -/
inductive Source where
  | literal (values : List Value)
  /-- The values an extractor reads out of what an earlier entry loaded. -/
  | previous (entry : Nat) (extractor : Extractor)
deriving BEq

structure Criterion where
  field : String
  operator : Operator
  source : Source
deriving BEq

namespace Criterion

def isIn (field : String) (values : List Value) : Criterion := ⟨field, .isIn, .literal values⟩

def equals (field : String) (v : Value) : Criterion := ⟨field, .equals, .literal [v]⟩

def previous (field : String) (entry : Nat) (x : Extractor) : Criterion :=
  ⟨field, .isIn, .previous entry x⟩

/-- The entry the criterion reads from, if it is chained. -/
def entry? (c : Criterion) : Option Nat :=
  match c.source with
  | .literal _ => none
  | .previous entry _ => some entry

end Criterion

inductive Joiner where
  | and
  | or
deriving DecidableEq

def Joiner.name : Joiner → String
  | .and => "And"
  | .or => "Or"

inductive Token where
  | criterion (c : Criterion)
  | joiner (j : Joiner)

/-- A chain of criteria; a chain of one has no joiner. -/
structure Criteria where
  chain : List Criterion
  joiner : Option Joiner
deriving BEq

namespace Criteria

/-- Reads tokens onto a chain; `wanting` says that a criterion has to come next. -/
def read (chain : List Criterion) (joiner : Option Joiner) (wanting : Bool) :
    List Token → Except PlanFault Criteria
  | [] =>
    if chain.isEmpty then .error .emptyCriteria
    else if wanting then .error .unterminated
    else .ok ⟨chain, joiner⟩
  | .criterion c :: ts =>
    if wanting then read (chain ++ [c]) joiner false ts else .error .missingJoiner
  | .joiner j :: ts =>
    if wanting then .error (if chain.isEmpty then .leadingJoiner else .doubledJoiner)
    else if joiner.any (· ≠ j) then .error .mixedJoiners
    else read chain (some j) true ts

/-- The criteria a list of tokens spells. -/
def ofTokens (ts : List Token) : Except PlanFault Criteria := read [] none true ts

/-- The tokens that spell the criteria. -/
def toTokens (c : Criteria) : List Token :=
  match c.joiner with
  | some j => (c.chain.map Token.criterion).intersperse (.joiner j)
  | none => c.chain.map Token.criterion

/-- The entries the chain reads from, in order. -/
def sources (c : Criteria) : List Nat := c.chain.filterMap Criterion.entry?

end Criteria

end Stockroom
