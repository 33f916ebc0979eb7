import Stockroom.Effect
import Stockroom.Entity.Row
import Stockroom.Fault
import Stockroom.Snapshot

/-!
# Working sets

A working set holds at most one live entity for each kind and identity. Entities are put under their
own identity, and stay under it whatever is done to them afterwards. The first snapshot taken is the
baseline, the second the state to be saved; there is no third. What changed is found by comparing
snapshots, so a change that is taken back is no change.
-/

namespace Stockroom

structure WorkingSet where
  /-- The entities of each kind, absent until one of the kind is put. -/
  partitions : PerKind (Option (Table Entity))
  baseline : Option Snapshot
  presave : Option Snapshot
deriving DecidableEq

namespace WorkingSet

def empty : WorkingSet := ⟨.fill none, none, none⟩

/-! ## Looking up -/

/-- The entities kept under a kind. -/
def partition (w : WorkingSet) (k : Kind) : Table Entity := (w.partitions.get k).getD .empty

def find? (w : WorkingSet) (k : Kind) (i : Ident) : Option Entity := (w.partition k).find? i

def contains (w : WorkingSet) (k : Kind) (i : Ident) : Bool := (w.find? k i).isSome

def size (w : WorkingSet) (k : Kind) : Nat := (w.partition k).size

def get (w : WorkingSet) (k : Kind) (i : Ident) : Except NotFound Entity :=
  match w.find? k i with
  | some e => .ok e
  | none => .error ⟨k, [i]⟩

/-- The entity under a kind and identity, if it is of that kind. -/
def getOfKind (w : WorkingSet) (k : Kind) (i : Ident) : Except NotFound Entity :=
  match w.find? k i with
  | some e => if e.kind = k then .ok e else .error ⟨k, [i]⟩
  | none => .error ⟨k, [i]⟩

/-- The entities of the given identities in the given order, skipping those that are absent. -/
def getMany (w : WorkingSet) (k : Kind) (is : List Ident) : List Entity := is.filterMap (w.find? k)

/-- The entities kept under a kind, in ascending order of identity. -/
def all (w : WorkingSet) (k : Kind) : List Entity := (w.partition k).values

def allOfKind (w : WorkingSet) (k : Kind) : List Entity := (w.all k).filter fun e => e.kind = k

/-- The entities whose row holds one of the values in a field. -/
def whereField (w : WorkingSet) (k : Kind) (field : String) (values : List Value) : List Entity :=
  (w.all k).filter fun e => (e.toRow.field? field).any fun v => values.any (· == v)

/-! ## Changing -/

def setPartition (w : WorkingSet) (k : Kind) (t : Table Entity) : WorkingSet :=
  { w with partitions := w.partitions.set k (some t) }

/-- Puts an entity under its kind and identity, replacing what is there. -/
def insert (w : WorkingSet) (e : Entity) : WorkingSet :=
  w.setPartition e.kind ((w.partition e.kind).insert e.ident e)

/-- Puts an entity that has to be of the given kind. -/
def put (w : WorkingSet) (k : Kind) (e : Entity) : Except UnitError WorkingSet :=
  if e.kind = k then .ok (w.insert e) else .error (.kindMismatch k e.kind)

/-- Puts entities from left to right, up to the first of another kind. -/
def putMany (k : Kind) : List Entity → Effect WorkingSet UnitError Unit
  | [], w => (.ok (), w)
  | e :: es, w =>
    match w.put k e with
    | .ok w => putMany k es w
    | .error fault => (.error fault, w)

/-- Changes the entity under a kind and identity in place. -/
def modify (w : WorkingSet) (k : Kind) (i : Ident) (f : Entity → Entity) :
    Except NotFound WorkingSet :=
  match w.find? k i with
  | some e => .ok (w.setPartition k ((w.partition k).insert i (f e)))
  | none => .error ⟨k, [i]⟩

/-- Takes an entity out. -/
def delete (w : WorkingSet) (k : Kind) (i : Ident) : Except NotFound (Entity × WorkingSet) :=
  match w.find? k i with
  | some e => .ok (e, w.setPartition k ((w.partition k).erase i))
  | none => .error ⟨k, [i]⟩

/-- Takes out entities one after the other, up to the first that is absent. -/
def deleteEach (k : Kind) : List Ident → Effect WorkingSet NotFound (List Entity)
  | [], w => (.ok [], w)
  | i :: is, w =>
    match w.delete k i with
    | .error e => (.error e, w)
    | .ok (e, w) =>
      match deleteEach k is w with
      | (.ok es, w) => (.ok (e :: es), w)
      | (.error e, w) => (.error e, w)

/-- Takes out the entities of all given identities, or reports those that are absent at the start. -/
def deleteMany (k : Kind) (is : List Ident) : Effect WorkingSet NotFound (List Entity) := fun w =>
  let missing := is.filter fun i => !w.contains k i
  if missing.isEmpty then deleteEach k is w else (.error ⟨k, missing⟩, w)

/-- Takes an entity out and returns it if it is of the kind it was kept under. -/
def removeOfKind (k : Kind) (i : Ident) : Effect WorkingSet NotFound Entity := fun w =>
  match w.delete k i with
  | .error e => (.error e, w)
  | .ok (e, w) => (if e.kind = k then .ok e else .error ⟨k, [i]⟩, w)

/-! ## Snapshots -/

/-- The rows of the entities as they are now. -/
def capture (w : WorkingSet) : Snapshot :=
  ⟨w.partitions.map fun t => t.map (Table.map Entity.toRow)⟩

/-- Takes the baseline, or the snapshot to be saved if there is a baseline. -/
def takeSnapshot (w : WorkingSet) : Except UnitError WorkingSet :=
  match w.presave, w.baseline with
  | some _, _ => .error .snapshotsExhausted
  | none, none => .ok { w with baseline := some w.capture }
  | none, some _ => .ok { w with presave := some w.capture }

/-- What changed since the baseline, up to the snapshot to be saved if there is one. -/
def changes (w : WorkingSet) : Except UnitError Changes :=
  match w.baseline with
  | none => .error .snapshotMissing
  | some before => .ok (before.changesTo (w.presave.getD w.capture))

end WorkingSet

end Stockroom
