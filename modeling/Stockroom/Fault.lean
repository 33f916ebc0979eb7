import Stockroom.Ident.Text
import Stockroom.Kind
import Stockroom.LockMode

/-!
# What can go wrong

Each way of failing is one case of a type, with what a reader of the message needs. The wording is
given by the `message` functions alone. Only contention for locks is worth trying again
(`Failure.isRetryable`).
-/

namespace Stockroom

/-! ## Plans and lock orders -/

/-- Why a plan or a table of priorities is refused. -/
inductive PlanFault where
  /-- A query is configured before any load is started. -/
  | noEntry
  | emptyCriteria
  /-- The criteria end with a joiner. -/
  | unterminated
  | doubledJoiner
  | leadingJoiner
  | missingJoiner
  | mixedJoiners
  /-- A query reads from an entry that does not precede it. -/
  | forwardReference (source : Nat)
  | noPreviousEntry
  | noLink (source target : Kind)
  | lockUnspecified
  | lockInReadOnlyPlan (mode : LockMode)
  | noLockInMutatingPlan
  | repeatedKind (kind : Kind)
  | lockOrder (previous current : Kind)
  | zeroLimit
  | missingPriority (kind : Kind)
  | priorityTie (priority : Nat) (first second : Kind)
deriving DecidableEq

def PlanFault.message : PlanFault → String
  | .noEntry => "no load() started before configuring a query"
  | .emptyCriteria => "query has no criteria and no previous source"
  | .unterminated => "criteria end with a dangling combinator"
  | .doubledJoiner => "two combinators in a row"
  | .leadingJoiner => "criteria start with a combinator"
  | .missingJoiner => "two criteria terms without a combinator between them"
  | .mixedJoiners => "AND and OR mixed in one criteria chain"
  | .forwardReference source => s!"previous source {source} does not precede entry"
  | .noPreviousEntry => "no previous query to chain from"
  | .noLink source target => s!"no reference from {source.name} to {target.name}"
  | .lockUnspecified => "lock mode not specified for a mutating plan"
  | .lockInReadOnlyPlan mode => s!"{mode.name} is not allowed in a read-only plan"
  | .noLockInMutatingPlan => "NO_LOCK is not allowed in a mutating plan"
  | .repeatedKind kind => s!"more than one query for {kind.name} in a mutating plan"
  | .lockOrder previous current =>
    s!"lock order violation: {previous.name} must not precede {current.name}"
  | .zeroLimit => "limit must be positive"
  | .missingPriority kind => s!"priority table has no entry for {kind.name}"
  | .priorityTie priority first second =>
    s!"priority {priority} assigned to both {first.name} and {second.name}"

/-- A fault, with the entry of the plan it was found in. -/
structure PlanError where
  entry : Option Nat
  fault : PlanFault
deriving DecidableEq

def PlanError.message (e : PlanError) : String :=
  match e.entry with
  | some i => s!"query entry {i}: {e.fault.message}"
  | none => e.fault.message

/-! ## Missing entities -/

/-- Entities that were asked for and are not there; no identities if nothing matched at all. -/
structure NotFound where
  kind : Kind
  idents : List Ident
deriving DecidableEq

def NotFound.message (e : NotFound) : String :=
  let what := if e.idents.isEmpty then "no match" else ", ".intercalate (e.idents.map Ident.text)
  s!"{e.kind.name} not found: {what}"

/-! ## The course of a unit of work -/

/-- Why a change is against the plan's locks. -/
inductive Breach where
  | readOnlyPlan
  | noLockingQuery
  | sharedLock
deriving DecidableEq

def Breach.reason : Breach → String
  | .readOnlyPlan => "read-only plan cannot change aggregates"
  | .noLockingQuery => "updated or deleted without a locking query"
  | .sharedLock => "updated or deleted under a shared lock"

/-- A step out of turn in the life of a unit of work, or a change against its plan. -/
inductive UnitError where
  | exhausted
  | notEntered
  | alreadyEntered
  | commitOnReadOnly
  | modeMismatch (readOnly mutating : Bool)
  | policy (kind : Kind) (breach : Breach)
  | kindMismatch (expected actual : Kind)
  | snapshotMissing
  | snapshotsExhausted
  | alreadyLoaded (entry : Nat)
  | notLoaded (entry : Nat)
  | missingRepository (kind : Kind)
  | serialization (text : String)
deriving DecidableEq

def UnitError.message : UnitError → String
  | .exhausted => "unit of work is exhausted"
  | .notEntered => "unit of work has not been entered"
  | .alreadyEntered => "unit of work is already active"
  | .commitOnReadOnly => "cannot commit a read-only unit of work"
  | .modeMismatch readOnly mutating =>
    "query plan read-only state does not match the resource manager " ++
      s!"(manager read_only={readOnly}, plan mutating={mutating})"
  | .policy kind breach => s!"change policy violated for {kind.name}: {breach.reason}"
  | .kindMismatch expected actual => s!"cannot put {actual.name} into the {expected.name} partition"
  | .snapshotMissing => "baseline snapshot has not been taken"
  | .snapshotsExhausted => "baseline and pre-save snapshots are already taken"
  | .alreadyLoaded entry => s!"query entry {entry} is already loaded"
  | .notLoaded entry => s!"query entry {entry} is not loaded"
  | .missingRepository kind => s!"no repository registered for {kind.name}"
  | .serialization text => s!"serialization failed: {text}"

/-! ## The store -/

/-- Contention for locks, as a store signals it. -/
inductive Contention where
  | deadlock
  | lockTimeout
  | nowaitViolated
deriving DecidableEq

namespace Contention

def message : Contention → String
  | .deadlock => "deadlock detected"
  | .lockTimeout => "lock wait timeout exceeded"
  | .nowaitViolated => "NOWAIT lock could not be acquired immediately"

/-- The contention behind a MySQL server error code. -/
def ofServerCode? : Nat → Option Contention
  | 1213 => some .deadlock
  | 1205 => some .lockTimeout
  | 3572 => some .nowaitViolated
  | _ => none

end Contention

/-- A failure reported by a store. -/
inductive StoreError where
  | contention (c : Contention)
  | backend (text : String)
deriving DecidableEq

def backendMessage (text : String) : String := s!"storage backend error: {text}"

def StoreError.message : StoreError → String
  | .contention c => c.message
  | .backend text => backendMessage text

/-! ## All of them -/

/-- Everything a unit of work can fail with. -/
inductive Failure where
  | plan (e : PlanError)
  | notFound (e : NotFound)
  | unit (e : UnitError)
  | contention (c : Contention)
  | store (text : String)
deriving DecidableEq

namespace Failure

def ofStore : StoreError → Failure
  | .contention c => .contention c
  | .backend text => .store text

def message : Failure → String
  | .plan e => e.message
  | .notFound e => e.message
  | .unit e => e.message
  | .contention c => c.message
  | .store text => backendMessage text

/-- Whether trying again in a fresh unit of work may succeed. -/
def isRetryable : Failure → Bool
  | .contention _ => true
  | _ => false

end Failure

end Stockroom
