import Stockroom.Entity.Rule

/-!
# Purchases

A purchase belongs to a customer and has items, each an amount of one product. `Purchase.create`
admits one item per product and no item of amount zero (`Item.create`); a purchase starts active and
is finalized once.
-/

namespace Stockroom

/-- An amount of one product. -/
structure Item where
  product : Ident
  amount : UInt32
deriving DecidableEq

/-- An item of a positive amount. -/
def Item.create (product : Ident) (amount : UInt32) : Except RuleError Item :=
  if amount = 0 then .error (.invalidAmount amount) else .ok ⟨product, amount⟩

inductive PurchaseState where
  | active
  | finalized
deriving DecidableEq

def PurchaseState.name : PurchaseState → String
  | .active => "ACTIVE"
  | .finalized => "FINALIZED"

structure Purchase where
  ident : Ident
  customer : Ident
  state : PurchaseState
  items : List Item
deriving DecidableEq

namespace Purchase

/-- The first item of a product. -/
def item? (p : Purchase) (product : Ident) : Option Item :=
  p.items.find? fun i => i.product = product

def products (p : Purchase) : List Ident := p.items.map (·.product)

def isActive (p : Purchase) : Bool := p.state = .active

def addItem (p : Purchase) (i : Item) : Except RuleError Purchase :=
  if i.product ∈ p.products then .error (.duplicateItem i.product)
  else .ok { p with items := p.items ++ [i] }

/-- Adds items from left to right. -/
def addItems (p : Purchase) : List Item → Except RuleError Purchase
  | [] => .ok p
  | i :: is =>
    match p.addItem i with
    | .ok p => p.addItems is
    | .error e => .error e

/-- An active purchase with the given items. -/
def create (ident customer : Ident) (items : List Item) : Except RuleError Purchase :=
  addItems ⟨ident, customer, .active, []⟩ items

/-- Ends an active purchase. -/
def finalize (p : Purchase) : Except RuleError Purchase :=
  match p.state with
  | .active => .ok { p with state := .finalized }
  | .finalized =>
    .error (.invalidTransition PurchaseState.finalized.name PurchaseState.finalized.name)

end Purchase

end Stockroom
