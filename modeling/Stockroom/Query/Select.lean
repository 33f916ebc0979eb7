import Stockroom.Query
import Stockroom.Table
import Stockroom.Value.Order

/-!
# Selecting rows

A query selects rows from a table in three steps: keep the rows that satisfy it, sort them if it asks
for an order, and cut out the window of its offset and limit. Rows start in ascending order of
identity and the sort is stable, so ties stay in that order also when the sort is descending. A row
without the sort field sorts as null.
-/

namespace Stockroom

namespace SortKey

/-- The value a row is sorted by. -/
def valueOf (key : SortKey) (row : Value) : Value := (row.field? key.field).getD .null

/-- Whether a row sorts strictly before another. -/
def precedes (key : SortKey) (a b : Value) : Bool :=
  let o := (key.valueOf a).order (key.valueOf b)
  (if key.descending then o.swap else o) = .lt

end SortKey

namespace Query

/-- Rows in the order the query asks for. -/
def sortRows (q : Query) (rows : List Value) : List Value :=
  match q.sortKey with
  | none => rows
  | some key => stableSort key.precedes rows

/-- The part of a list that offset and limit leave. -/
def window {α : Type} (q : Query) (xs : List α) : List α :=
  let rest := xs.drop (q.offset.getD 0)
  match q.limit with
  | none => rest
  | some n => rest.take n

/-- The rows of a table that the query selects. -/
def select (q : Query) (t : Table Value) : List Value :=
  q.window (q.sortRows (t.values.filter q.accepts))

end Query

end Stockroom
