/-!
# Lock modes

The lock a load asks the store to take on the rows it finds.
-/

namespace Stockroom

inductive LockMode where
  | noLock
  | shared
  | sharedNowait
  | exclusive
  | exclusiveNowait
deriving DecidableEq

namespace LockMode

def all : List LockMode := [.noLock, .shared, .sharedNowait, .exclusive, .exclusiveNowait]

def name : LockMode → String
  | .noLock => "NO_LOCK"
  | .shared => "SHARED"
  | .sharedNowait => "SHARED_NOWAIT"
  | .exclusive => "EXCLUSIVE"
  | .exclusiveNowait => "EXCLUSIVE_NOWAIT"

def ofName? (s : String) : Option LockMode := all.find? fun m => m.name = s

def isLocking (m : LockMode) : Bool := m ≠ .noLock

def isExclusive : LockMode → Bool
  | .exclusive | .exclusiveNowait => true
  | _ => false

/-- Whether a held lock makes the load fail at once instead of waiting. -/
def isNowait : LockMode → Bool
  | .sharedNowait | .exclusiveNowait => true
  | _ => false

end LockMode

end Stockroom
