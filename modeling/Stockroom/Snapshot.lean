import Stockroom.Change

/-!
# Snapshots

A snapshot holds the rows of a working set at one moment, for each kind that had been put into it by
then. A kind that was never put and a kind without rows are different snapshots, but there is no change
between them.
-/

namespace Stockroom

structure Snapshot where
  tables : PerKind (Option (Table Value))
deriving DecidableEq

namespace Snapshot

/-- The rows of a kind, none if the kind was never put. -/
def rows (s : Snapshot) (k : Kind) : Table Value := (s.tables.get k).getD .empty

def find? (s : Snapshot) (k : Kind) (i : Ident) : Option Value := (s.rows k).find? i

def size (s : Snapshot) : Nat := Kind.all.foldl (fun n k => n + (s.rows k).size) 0

def isEmpty (s : Snapshot) : Bool := s.size = 0

/-- What changed from one snapshot to a later one. -/
def changesTo (before after : Snapshot) : Changes :=
  .tabulate fun k => .between (before.rows k) (after.rows k)

end Snapshot

end Stockroom
