import Stockroom.Entity
import Stockroom.Value

/-!
# Rows

An entity is stored as a row: a record of its fields. `Entity.toRow` writes one canonical row.
`Entity.ofRow?` is more lenient: further fields are ignored, the fields may come as a list in the order
of the kind's components, identities may be spelled in any form, and a purchase's state may be a record
of one null field. It checks no rule of the shop.
-/

namespace Stockroom

/-! ## Components -/

namespace Ident

def toValue (i : Ident) : Value := .text i.text

/-- The identity a value spells; only texts spell identities. -/
def ofValue? : Value → Option Ident
  | .text s => parse? s
  | _ => none

end Ident

namespace Value

def text? : Value → Option String
  | .text s => some s
  | _ => none

/-- An integer of 32 bits without sign. -/
def uint32? : Value → Option UInt32
  | .number (.integer n) => if 0 ≤ n ∧ n.toNat < UInt32.size then some (UInt32.ofNat n.toNat) else none
  | _ => none

/-- An integer of 64 bits without sign. -/
def uint64? : Value → Option UInt64
  | .number (.integer n) => if 0 ≤ n ∧ n.toNat < UInt64.size then some (UInt64.ofNat n.toNat) else none
  | _ => none

/-- The named components of a value: the fields of a record, or all items of a list in the given
order. -/
def components? (names : List String) : Value → Option (List Value)
  | .record fields => names.mapM fun name => field? name (.record fields)
  | .list items => if items.length = names.length then some items else none
  | _ => none

end Value

def PurchaseState.ofName? (s : String) : Option PurchaseState :=
  if s = PurchaseState.active.name then some .active
  else if s = PurchaseState.finalized.name then some .finalized
  else none

def PurchaseState.ofValue? : Value → Option PurchaseState
  | .text s => ofName? s
  | .record [(s, .null)] => ofName? s
  | _ => none

/-! ## Writing -/

def Customer.toRow (c : Customer) : Value :=
  .record [("email", .text c.email), ("entity_id", c.ident.toValue), ("name", .text c.name)]

def Item.toRow (i : Item) : Value :=
  .record [("amount", .number (.integer i.amount.toNat)), ("product_id", i.product.toValue)]

def Purchase.toRow (p : Purchase) : Value :=
  .record [("customer_id", p.customer.toValue), ("entity_id", p.ident.toValue),
    ("items", .list (p.items.map Item.toRow)), ("state", .text p.state.name)]

def Product.toRow (p : Product) : Value :=
  .record [("amount", .number (.integer p.amount.toNat)), ("entity_id", p.ident.toValue),
    ("name", .text p.name), ("price", .number (.integer p.price.toNat)), ("sku", .text p.sku)]

/-- The row an entity is stored as. -/
def Entity.toRow : Entity → Value
  | .customer c => c.toRow
  | .purchase p => p.toRow
  | .product p => p.toRow

/-! ## Reading -/

def Customer.ofRow? (v : Value) : Option Customer :=
  match v.components? ["entity_id", "name", "email"] with
  | some [ident, name, email] => do
    some ⟨← Ident.ofValue? ident, ← name.text?, ← email.text?⟩
  | _ => none

def Item.ofRow? (v : Value) : Option Item :=
  match v.components? ["product_id", "amount"] with
  | some [product, amount] => do
    some ⟨← Ident.ofValue? product, ← amount.uint32?⟩
  | _ => none

def Item.listOfRow? : Value → Option (List Item)
  | .list rows => rows.mapM Item.ofRow?
  | _ => none

def Purchase.ofRow? (v : Value) : Option Purchase :=
  match v.components? ["entity_id", "customer_id", "state", "items"] with
  | some [ident, customer, state, items] => do
    some ⟨← Ident.ofValue? ident, ← Ident.ofValue? customer, ← PurchaseState.ofValue? state,
      ← Item.listOfRow? items⟩
  | _ => none

def Product.ofRow? (v : Value) : Option Product :=
  match v.components? ["entity_id", "name", "sku", "amount", "price"] with
  | some [ident, name, sku, amount, price] => do
    some ⟨← Ident.ofValue? ident, ← name.text?, ← sku.text?, ← amount.uint32?, ← price.uint64?⟩
  | _ => none

/-- The entity of a kind that a row holds. -/
def Entity.ofRow? (k : Kind) (v : Value) : Option Entity :=
  match k with
  | .customer => (Customer.ofRow? v).map .customer
  | .purchase => (Purchase.ofRow? v).map .purchase
  | .product => (Product.ofRow? v).map .product

end Stockroom
