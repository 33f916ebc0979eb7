import Stockroom.Plan
import Stockroom.Sorting

/-!
# Queries

A query is an entry of a plan with its values filled in, ready to be put to a store. Its terms are
tested on a row field by field; a row that is no record has no fields and satisfies no term.
-/

namespace Stockroom

structure Query.Term where
  field : String
  operator : Operator
  values : List Value
  /-- The values were read out of what an earlier entry loaded. -/
  chained : Bool
deriving BEq

structure Query where
  kind : Kind
  terms : List Query.Term
  joiner : Option Joiner
  lock : LockMode
  sortKey : Option SortKey
  limit : Option Nat
  offset : Option Nat
deriving BEq

namespace Query

def Term.accepts (t : Term) (row : Value) : Bool :=
  match row.field? t.field with
  | none => false
  | some v =>
    match t.operator with
    | .isIn => t.values.any (· == v)
    | .equals => t.values.head?.any (· == v)

/-- Whether a row satisfies the terms: some of them if joined by `or`, else all. -/
def accepts (q : Query) (row : Value) : Bool :=
  match q.joiner with
  | some .or => q.terms.any (·.accepts row)
  | some .and | none => q.terms.all (·.accepts row)

/-- Whether the query asks by identity alone. -/
def isIdentLookup (q : Query) : Bool :=
  match q.terms with
  | [t] => t.field = "entity_id"
  | _ => false

/-- Whether no value comes from an earlier entry. -/
def isLiteral (q : Query) : Bool := q.terms.all (!·.chained)

/-- The distinct identities a query by identity asks for, in order. -/
def requested (q : Query) : List Ident :=
  match q.terms with
  | [t] => if t.field = "entity_id" then distinct (t.values.filterMap Ident.ofValue?) else []
  | _ => []

/-- Whether the terms lack the values to match anything. -/
def isUnsatisfiable (q : Query) : Bool :=
  match q.joiner with
  | some .or => q.terms.all (·.values.isEmpty)
  | some .and | none => q.terms.any (·.values.isEmpty)

end Query

end Stockroom
