import Stockroom.Change
import Stockroom.Effect
import Stockroom.Entity
import Stockroom.Query

/-!
# Sessions

What a store has to offer to one unit of work: a transaction, and a repository for every kind. A
session is assembled from repositories for some kinds and exists only if none is missing, so whoever
holds a session can load and save every kind.
-/

namespace Stockroom

/-- Loads and saves the rows of one kind in a store of type `σ`. -/
structure Repository (σ : Type) where
  /-- The entities a query selects, under the lock it names. -/
  load : Query → Effect σ StoreError (List Entity)
  save : Delta → Effect σ StoreError Unit
  freshIdent : σ → Ident × σ

/-- The transaction of one session. -/
structure Transaction (σ : Type) where
  start : Effect σ StoreError Unit
  commit : Effect σ StoreError Unit
  rollback : Effect σ StoreError Unit

structure Session (σ : Type) where
  transaction : Transaction σ
  repositories : PerKind (Repository σ)

namespace Session

variable {σ : Type}

/-- The session of the given repositories, or the first kind that has none. -/
def assemble (t : Transaction σ) (repositories : PerKind (Option (Repository σ))) :
    Except UnitError (Session σ) :=
  match repositories.customer, repositories.purchase, repositories.product with
  | some c, some u, some p => .ok ⟨t, ⟨c, u, p⟩⟩
  | none, _, _ => .error (.missingRepository .customer)
  | some _, none, _ => .error (.missingRepository .purchase)
  | some _, some _, none => .error (.missingRepository .product)

def load (s : Session σ) (q : Query) : Effect σ StoreError (List Entity) :=
  (s.repositories.get q.kind).load q

/-- Saves deltas in the given order, up to the first that fails. -/
def save (s : Session σ) : List (Kind × Delta) → Effect σ StoreError Unit
  | [], db => (.ok (), db)
  | (k, d) :: rest, db =>
    match (s.repositories.get k).save d db with
    | (.ok (), db) => s.save rest db
    | (.error e, db) => (.error e, db)

def freshIdent (s : Session σ) (k : Kind) (db : σ) : Ident × σ :=
  (s.repositories.get k).freshIdent db

end Session

end Stockroom
