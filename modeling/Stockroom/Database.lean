import Stockroom.Entity.Row
import Stockroom.Query.Select
import Stockroom.Session

/-!
# The database

The database keeps committed rows, and for every session the writes it has staged since it last began,
committed or rolled back. A session sees the committed rows with its own writes laid over them
(`Database.view`); committing publishes the writes, rolling back drops them. Locks are not modelled:
the failure a contended store would report can be arranged in advance, per kind, for the next load and
for the next save. Every step of a session is recorded.
-/

namespace Stockroom

/-! ## Staged writes -/

/-- The last write to each row: a new row, or nothing for a deleted one. -/
abbrev Writes := Table (Option Value)

namespace Writes

def write (t : Table Value) (i : Ident) : Option Value → Table Value
  | some row => t.insert i row
  | none => t.erase i

/-- The rows that are left when writes are laid over them. -/
def overlay (w : Writes) (t : Table Value) : Table Value :=
  w.entries.foldl (fun t e => write t e.1 e.2) t

/-- Adds the writes of a delta. -/
def stage (w : Writes) (d : Delta) : Writes :=
  let w := d.created.foldl (fun w r => w.insert r.ident (some r.row)) w
  let w := d.updated.foldl (fun w u => w.insert u.ident (some u.after)) w
  d.deleted.foldl (fun w r => w.insert r.ident none) w

theorem find?_write (t : Table Value) (i j : Ident) (r : Option Value) :
    (write t i r).find? j = if j = i then r else t.find? j := by
  cases r with
  | none => exact t.find?_erase i j
  | some row => exact t.find?_insert i j row

/-- A row is the one last written, or the one underneath if it was not written. -/
theorem find?_overlay (w : Writes) (t : Table Value) (i : Ident) :
    (w.overlay t).find? i = (w.find? i).getD (t.find? i) := by
  obtain ⟨es, h⟩ := w
  simp only [overlay, Table.find?]
  induction es generalizing t with
  | nil => rfl
  | cons e es ih =>
    obtain ⟨hhd, htl⟩ := List.pairwise_cons.mp h
    rw [List.foldl_cons, ih _ htl]
    simp only [Table.lookup]
    split
    · rename_i heq
      have hnone : Table.lookup i es = none :=
        Table.lookup_eq_none fun e' he' hk => Ident.ne_of_lt (hhd e' he') (heq.symm.trans hk.symm)
      have hw := find?_write t e.1 i e.2
      rw [if_pos heq] at hw
      simp only [Table.find?] at hw
      simpa [hnone] using hw
    · rename_i hne
      have hw := find?_write t e.1 i e.2
      rw [if_neg hne] at hw
      simp only [Table.find?] at hw
      rw [hw]

end Writes

/-! ## Events -/

/-- One step of a session. -/
inductive Event where
  | begun (session : Nat)
  | loaded (session : Nat) (kind : Kind) (lock : LockMode) (count : Nat)
  | saved (session : Nat) (kind : Kind) (created updated deleted : Nat)
  | committed (session : Nat)
  | rolledBack (session : Nat)
deriving DecidableEq

def Event.session : Event → Nat
  | .begun s | .loaded s _ _ _ | .saved s _ _ _ _ | .committed s | .rolledBack s => s

/-! ## The database -/

structure Database where
  tables : PerKind (Table Value)
  /-- The writes staged by each session, by its number. -/
  staged : Nat → PerKind Writes
  pendingLoads : PerKind (Option Contention)
  pendingSaves : PerKind (Option StoreError)
  events : List Event
  /-- How many sessions were opened; they are numbered from one. -/
  opened : Nat
  /-- How many fresh identities were handed out. -/
  minted : Nat

namespace Database

def empty : Database where
  tables := .fill .empty
  staged := fun _ => .fill .empty
  pendingLoads := .fill none
  pendingSaves := .fill none
  events := []
  opened := 0
  minted := 0

/-! ## Outside any session -/

/-- Commits an entity directly. -/
def seed (db : Database) (e : Entity) : Database :=
  { db with tables := db.tables.set e.kind ((db.tables.get e.kind).insert e.ident e.toRow) }

/-- The failure for a stored row that holds no entity of the kind. -/
def undecodable (k : Kind) : StoreError := .backend s!"undecodable row of {k.name}"

/-- The committed entity of a kind and identity. -/
def fetch (db : Database) (k : Kind) (i : Ident) : Except StoreError (Option Entity) :=
  match (db.tables.get k).find? i with
  | none => .ok none
  | some row =>
    match Entity.ofRow? k row with
    | some e => .ok (some e)
    | none => .error (undecodable k)

def count (db : Database) (k : Kind) : Nat := (db.tables.get k).size

/-- Makes the next load of a kind fail, whichever session it comes from. -/
def failNextLoad (db : Database) (k : Kind) (c : Contention) : Database :=
  { db with pendingLoads := db.pendingLoads.set k (some c) }

/-- Makes the next save of a kind fail, whichever session it comes from. -/
def failNextSave (db : Database) (k : Kind) (e : StoreError) : Database :=
  { db with pendingSaves := db.pendingSaves.set k (some e) }

def record (db : Database) (e : Event) : Database := { db with events := db.events ++ [e] }

/-! ## Steps of a session -/

def setStaged (db : Database) (s : Nat) (w : PerKind Writes) : Database :=
  { db with staged := fun t => if t = s then w else db.staged t }

def clearStaged (db : Database) (s : Nat) : Database := db.setStaged s (.fill .empty)

/-- The rows of a kind as a session sees them. -/
def view (db : Database) (s : Nat) (k : Kind) : Table Value :=
  ((db.staged s).get k).overlay (db.tables.get k)

def start (s : Nat) : Effect Database StoreError Unit := fun db =>
  (.ok (), (db.clearStaged s).record (.begun s))

def commit (s : Nat) : Effect Database StoreError Unit := fun db =>
  (.ok (), ({ db with tables := .tabulate (db.view s) }.clearStaged s).record (.committed s))

def rollback (s : Nat) : Effect Database StoreError Unit := fun db =>
  (.ok (), (db.clearStaged s).record (.rolledBack s))

/-- The entities rows hold, all of one kind. -/
def decode (k : Kind) : List Value → Except StoreError (List Entity)
  | [] => .ok []
  | row :: rows =>
    match Entity.ofRow? k row with
    | none => .error (undecodable k)
    | some e => (decode k rows).map (e :: ·)

/-- Loads what a query selects in the session's view. -/
def load (s : Nat) (k : Kind) (q : Query) : Effect Database StoreError (List Entity) := fun db =>
  match db.pendingLoads.get k with
  | some c =>
    (.error (.contention c), { db with pendingLoads := db.pendingLoads.set k none })
  | none =>
    match decode k (q.select (db.view s k)) with
    | .error e => (.error e, db)
    | .ok es => (.ok es, db.record (.loaded s k q.lock es.length))

/-- Stages the writes of a delta. -/
def save (s : Nat) (k : Kind) (d : Delta) : Effect Database StoreError Unit := fun db =>
  match db.pendingSaves.get k with
  | some e => (.error e, { db with pendingSaves := db.pendingSaves.set k none })
  | none =>
    let writes := (db.staged s).set k (((db.staged s).get k).stage d)
    (.ok (), (db.setStaged s writes).record
      (.saved s k d.created.length d.updated.length d.deleted.length))

def freshIdent (db : Database) : Ident × Database :=
  (Ident.sequential db.minted, { db with minted := db.minted + 1 })

/-! ## Sessions -/

def transaction (s : Nat) : Transaction Database := ⟨start s, commit s, rollback s⟩

def repository (s : Nat) (k : Kind) : Repository Database := ⟨load s k, save s k, freshIdent⟩

/-- The session of a number. -/
def session (s : Nat) : Session Database := ⟨transaction s, .tabulate (repository s)⟩

/-- Opens a new session. -/
def openSession (db : Database) : Session Database × Database :=
  (session (db.opened + 1), { db with opened := db.opened + 1 })

end Database

end Stockroom
