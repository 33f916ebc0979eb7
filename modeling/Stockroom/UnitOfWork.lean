import Stockroom.Workspace

/-!
# Units of work

A unit of work is a workspace that is used once. Entering it starts the transaction, runs its plan and
takes the baseline; it ends with a commit, a rollback or a failure, and from then on it is exhausted:
every further call fails, except that it can always be closed. A read-only unit has no transaction and
cannot commit. A failure to enter or to commit rolls the transaction back before it is reported.
-/

namespace Stockroom

inductive Phase where
  | notEntered
  | active
  | exhausted
deriving DecidableEq

def Phase.name : Phase → String
  | .notEntered => "NotEntered"
  | .active => "Active"
  | .exhausted => "Exhausted"

structure UnitOfWork (σ : Type) where
  workspace : Workspace σ
  /-- The plan to run on entering. -/
  plan : Option Plan
  phase : Phase
  /-- Reported in place of a violated NOWAIT lock on entering. -/
  onNowait : Option Failure

namespace UnitOfWork

variable {σ : Type}

def create (workspace : Workspace σ) (plan : Option Plan) (onNowait : Option Failure) :
    UnitOfWork σ :=
  ⟨workspace, plan, .notEntered, onNowait⟩

def readOnly (u : UnitOfWork σ) : Bool := u.workspace.readOnly

def exhaust (u : UnitOfWork σ) : UnitOfWork σ := { u with phase := .exhausted }

/-- Refuses a unit that is not active. -/
def checkActive (u : UnitOfWork σ) : Except UnitError Unit :=
  match u.phase with
  | .notEntered => .error .notEntered
  | .active => .ok ()
  | .exhausted => .error .exhausted

/-- The working set of an active unit. -/
def resources (u : UnitOfWork σ) : Except UnitError WorkingSet :=
  u.checkActive.map fun _ => u.workspace.set

/-- The plan an active unit has run. -/
def activePlan (u : UnitOfWork σ) : Except UnitError (Option Plan) :=
  u.checkActive.map fun _ => u.workspace.plan

/-- A fresh identity for a new entity of an active unit. -/
def freshIdent (k : Kind) : Effect (UnitOfWork σ × σ) UnitError Ident := fun (u, db) =>
  match u.checkActive with
  | .error e => (.error e, u, db)
  | .ok () =>
    let (i, db) := u.workspace.session.freshIdent k db
    (.ok i, u, db)

/-- Changes the working set of an active unit. -/
def modifySet (u : UnitOfWork σ) (w : WorkingSet) : UnitOfWork σ :=
  { u with workspace := { u.workspace with set := w } }

/-! ## Ending -/

/-- Rolls the transaction back if the unit has one. -/
def rollbackTransaction (u : UnitOfWork σ) : Effect σ StoreError Unit := fun db =>
  if u.readOnly then (.ok (), db) else u.workspace.session.transaction.rollback db

/-- Ends the unit after a failure. What the rollback reports is not. -/
def abort (u : UnitOfWork σ) (db : σ) : UnitOfWork σ × σ :=
  match u.phase with
  | .active => (u.exhaust, (u.rollbackTransaction db).2)
  | _ => (u.exhaust, db)

/-- Discards every change. -/
def rollback : Effect (UnitOfWork σ × σ) Failure Unit := fun (u, db) =>
  match u.checkActive with
  | .error e => (.error (.unit e), u, db)
  | .ok () =>
    match u.rollbackTransaction db with
    | (.error e, db) => (.error (.ofStore e), u.exhaust, db)
    | (.ok (), db) => (.ok (), u.exhaust, db)

/-- Ends the unit whatever its phase. -/
def close : Effect (UnitOfWork σ × σ) Failure Unit := fun (u, db) =>
  match u.phase with
  | .active => rollback (u, db)
  | _ => (.ok (), u.exhaust, db)

/-- What a unit leaves behind in the store when it is dropped: an active one is rolled back, if there
still is something running to do it. -/
def drop (u : UnitOfWork σ) (running : Bool) (db : σ) : σ :=
  if u.phase = .active && running then (u.rollbackTransaction db).2 else db

/-! ## Entering -/

def startTransaction (u : UnitOfWork σ) : Effect σ StoreError Unit := fun db =>
  if u.readOnly then (.ok (), db) else u.workspace.session.transaction.start db

/-- Runs the plan, which is used up by it, and takes the baseline. -/
def loadPlan : Effect (UnitOfWork σ × σ) Failure Unit := fun (u, db) =>
  let loaded : Except Failure Unit × Workspace σ × σ :=
    match u.plan with
    | none => (.ok (), u.workspace, db)
    | some p => Workspace.load p (u.workspace, db)
  match loaded with
  | (.error f, m, db) => (.error f, { u with workspace := m, plan := none }, db)
  | (.ok (), m, db) =>
    match m.takeSnapshot with
    | .error e => (.error (.unit e), { u with workspace := m, plan := none }, db)
    | .ok m => (.ok (), { u with workspace := m, plan := none }, db)

/-- Starts the transaction and fills the working set. -/
def begin : Effect (UnitOfWork σ × σ) Failure Unit := fun (u, db) =>
  match u.startTransaction db with
  | (.error e, db) => (.error (.ofStore e), u, db)
  | (.ok (), db) => loadPlan (u, db)

/-- The failure to report for a failure on entering. -/
def translate (u : UnitOfWork σ) (f : Failure) : Failure :=
  match f, u.onNowait with
  | .contention .nowaitViolated, some g => g
  | f, _ => f

def enter : Effect (UnitOfWork σ × σ) Failure Unit := fun (u, db) =>
  match u.phase with
  | .active => (.error (.unit .alreadyEntered), u, db)
  | .exhausted => (.error (.unit .exhausted), u, db)
  | .notEntered =>
    match begin ({ u with phase := .active }, db) with
    | (.ok (), st) => (.ok (), st)
    | (.error f, u, db) => (.error (u.translate f), u.abort db)

/-! ## Committing -/

/-- Saves every change and commits the transaction. -/
def saveAndCommit : Effect (UnitOfWork σ × σ) Failure (List (Kind × Delta)) := fun (u, db) =>
  match Workspace.save (u.workspace, db) with
  | (.error f, m, db) => (.error f, { u with workspace := m }, db)
  | (.ok deltas, m, db) =>
    match m.session.transaction.commit db with
    | (.error e, db) => (.error (.ofStore e), { u with workspace := m }, db)
    | (.ok (), db) => (.ok deltas, { u with workspace := m }, db)

/-- Saves and commits, and gives the changes in the order of writing. -/
def commit : Effect (UnitOfWork σ × σ) Failure (List (Kind × Delta)) := fun (u, db) =>
  match u.checkActive with
  | .error e => (.error (.unit e), u, db)
  | .ok () =>
    if u.readOnly then (.error (.unit .commitOnReadOnly), u.exhaust, db)
    else
      match saveAndCommit (u, db) with
      | (.ok deltas, u, db) => (.ok deltas, u.exhaust, db)
      | (.error f, u, db) => (.error f, u.abort db)

end UnitOfWork

end Stockroom
