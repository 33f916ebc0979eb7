import Stockroom.Change
import Stockroom.Plan

/-!
# The change policy

A read-only plan admits no change. A mutating plan admits creations of every kind, but updates and
deletions only of kinds on which it holds an exclusive lock. The first offending kind is reported.
-/

namespace Stockroom.Plan

/-- How the plan's locks forbid the changes of one kind, if they do. -/
def breach? (p : Plan) (k : Kind) (d : Delta) : Option Breach :=
  if d.isEmpty then none
  else if !p.mutating then some .readOnlyPlan
  else if d.updated.isEmpty && d.deleted.isEmpty then none
  else
    match p.entryFor? k with
    | none => some .noLockingQuery
    | some e => if e.lock.isExclusive then none else some .sharedLock

/-- Checks changes against the plan's locks. -/
def permit (p : Plan) (c : Changes) : Except UnitError Unit :=
  match Kind.all.findSome? fun k => (p.breach? k (c.get k)).map (UnitError.policy k) with
  | some e => .error e
  | none => .ok ()

end Stockroom.Plan
