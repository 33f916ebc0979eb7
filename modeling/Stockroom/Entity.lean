import Stockroom.Kind
import Stockroom.Entity.Product
import Stockroom.Entity.Purchase

/-!
# Entities

An entity is a customer, a purchase or a product, with an identity of its own.
-/

namespace Stockroom

structure Customer where
  ident : Ident
  name : String
  email : String
deriving DecidableEq

inductive Entity where
  | customer (c : Customer)
  | purchase (p : Purchase)
  | product (p : Product)
deriving DecidableEq

namespace Entity

def kind : Entity → Kind
  | .customer _ => .customer
  | .purchase _ => .purchase
  | .product _ => .product

def ident : Entity → Ident
  | .customer c => c.ident
  | .purchase p => p.ident
  | .product p => p.ident

def customer? : Entity → Option Customer
  | .customer c => some c
  | _ => none

def purchase? : Entity → Option Purchase
  | .purchase p => some p
  | _ => none

def product? : Entity → Option Product
  | .product p => some p
  | _ => none

end Entity

end Stockroom
