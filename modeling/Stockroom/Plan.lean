import Stockroom.Plan.Criteria

/-!
# Plans

A plan is a list of entries, each loading entities of one kind, and says whether it is made for
changing what it loads. Entries run in order, and each records the identities it loaded.
-/

namespace Stockroom

/-- The field by which rows are sorted. -/
structure SortKey where
  field : String
  descending : Bool
deriving DecidableEq

/-- One load of one kind. -/
structure Plan.Entry where
  kind : Kind
  criteria : Criteria
  lock : LockMode
  sortKey : Option SortKey
  limit : Option Nat
  offset : Option Nat
  /-- The least entry the criteria read from. -/
  source : Option Nat
  /-- The identities loaded, in the order in which the store returned them. -/
  result : Option (List Ident)
deriving BEq

structure Plan where
  entries : List Plan.Entry
  mutating : Bool
deriving BEq

namespace Plan

/-- A plan that loads nothing. -/
def empty (mutating : Bool) : Plan := ⟨[], mutating⟩

def isReadOnly (p : Plan) : Bool := !p.mutating

/-- The first entry of a kind. -/
def entryFor? (p : Plan) (k : Kind) : Option Entry := p.entries.find? fun e => e.kind = k

/-- The position of the first entry of a kind. -/
def indexFor? (p : Plan) (k : Kind) : Option Nat := p.entries.findIdx? fun e => e.kind = k

def Entry.isLoaded (e : Entry) : Bool := e.result.isSome

end Plan

end Stockroom
