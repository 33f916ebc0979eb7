import Stockroom.LockOrder
import Stockroom.Table
import Stockroom.Value

/-!
# Changes

A delta holds what changed among the rows of one kind: rows created, updated and deleted, each list in
ascending order of identity. `Delta.between` finds it from the rows before and after. Changes are a
delta for every kind, the empty one where nothing changed, and are written in descending lock order.
-/

namespace Stockroom

/-- A row with the identity it is kept under. -/
structure KeyedRow where
  ident : Ident
  row : Value
deriving DecidableEq

structure RowUpdate where
  ident : Ident
  before : Value
  after : Value
deriving DecidableEq

inductive ChangeKind where
  | created
  | updated
  | deleted
deriving DecidableEq

def ChangeKind.name : ChangeKind → String
  | .created => "CREATED"
  | .updated => "UPDATED"
  | .deleted => "DELETED"

structure Delta where
  created : List KeyedRow
  updated : List RowUpdate
  deleted : List KeyedRow
deriving DecidableEq

namespace Delta

def empty : Delta := ⟨[], [], []⟩

def isEmpty (d : Delta) : Bool := d.created.isEmpty && d.updated.isEmpty && d.deleted.isEmpty

def size (d : Delta) : Nat := d.created.length + d.updated.length + d.deleted.length

/-- What the delta says of an identity. -/
def kindOf? (d : Delta) (i : Ident) : Option ChangeKind :=
  if d.created.any (·.ident = i) then some .created
  else if d.updated.any (·.ident = i) then some .updated
  else if d.deleted.any (·.ident = i) then some .deleted
  else none

/-- What an entry of the later table says about the earlier one. -/
def createdFrom? (before : Table Value) (e : Ident × Value) : Option KeyedRow :=
  match before.find? e.1 with
  | none => some ⟨e.1, e.2⟩
  | some _ => none

def updatedFrom? (before : Table Value) (e : Ident × Value) : Option RowUpdate :=
  match before.find? e.1 with
  | none => none
  | some row => if row = e.2 then none else some ⟨e.1, row, e.2⟩

def deletedFrom? (after : Table Value) (e : Ident × Value) : Option KeyedRow :=
  if after.contains e.1 then none else some ⟨e.1, e.2⟩

/-- What changed from one table of rows to another. -/
def between (before after : Table Value) : Delta where
  created := after.entries.filterMap (createdFrom? before)
  updated := after.entries.filterMap (updatedFrom? before)
  deleted := before.entries.filterMap (deletedFrom? after)

end Delta

abbrev Changes := PerKind Delta

namespace Changes

/-- The kinds that changed, in order. -/
def kinds (c : Changes) : List Kind := Kind.all.filter fun k => !(c.get k).isEmpty

def isEmpty (c : Changes) : Bool := c.kinds.isEmpty

/-- The deltas of the kinds that changed, in order. -/
def deltas (c : Changes) : List (Kind × Delta) := c.kinds.map fun k => (k, c.get k)

/-- The deltas of the kinds that changed, in the order in which they are written. -/
def inWriteOrder (c : Changes) (o : LockOrder) : List (Kind × Delta) :=
  (o.backward.filter fun k => !(c.get k).isEmpty).map fun k => (k, c.get k)

end Changes

end Stockroom
