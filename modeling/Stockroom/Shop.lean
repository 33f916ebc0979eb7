import Stockroom.Database
import Stockroom.Settings
import Stockroom.UnitOfWork

/-!
# Shops

A shop opens units of work, each on a session of its own, under one lock order and one set of settings.
The settings may fix the mode of every unit; otherwise a unit is as mutating as its plan, and read-only
without a plan.
-/

namespace Stockroom

structure Shop (σ : Type) where
  /-- Opens a session in which a lock request waits at most so many milliseconds. -/
  openSession : (waitMillis : UInt64) → Effect σ StoreError (Session σ)
  order : LockOrder
  settings : Settings
  /-- Reported in place of a violated NOWAIT lock on entering. -/
  onNowait : Option Failure

namespace Shop

variable {σ : Type}

/-- The shop over a database. -/
def inMemory (order : LockOrder) (settings : Settings) : Shop Database where
  openSession := fun _ db => let (s, db) := db.openSession; (.ok s, db)
  order := order
  settings := settings
  onNowait := none

/-- The mode of a unit of work for a plan. -/
def isReadOnly (shop : Shop σ) (plan : Option Plan) : Bool :=
  shop.settings.readOnly.getD (plan.elim true Plan.isReadOnly)

/-- Opens a unit of work whose lock requests wait at most so many milliseconds. -/
def createWaiting (shop : Shop σ) (plan : Option Plan) (waitMillis : UInt64) :
    Effect σ Failure (UnitOfWork σ) := fun db =>
  match shop.openSession waitMillis db with
  | (.error e, db) => (.error (.ofStore e), db)
  | (.ok session, db) =>
    let workspace := Workspace.create session shop.order (shop.isReadOnly plan)
    let workspace := { workspace with strict := shop.settings.strict }
    (.ok (UnitOfWork.create workspace plan shop.onNowait), db)

/-- Opens a unit of work. -/
def create (shop : Shop σ) (plan : Option Plan) : Effect σ Failure (UnitOfWork σ) :=
  shop.createWaiting plan shop.settings.waitMillis

/-- Opens a unit of work and enters it. -/
def begin (shop : Shop σ) (plan : Option Plan) : Effect σ Failure (UnitOfWork σ) := fun db =>
  match shop.create plan db with
  | (.error f, db) => (.error f, db)
  | (.ok u, db) =>
    match UnitOfWork.enter (u, db) with
    | (.error f, _, db) => (.error f, db)
    | (.ok (), u, db) => (.ok u, db)

end Shop

end Stockroom
