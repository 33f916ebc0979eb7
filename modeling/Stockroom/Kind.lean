/-!
# Kinds of entity

Everything the shop stores is a customer, a purchase or a product. `PerKind α` holds one `α` for each
kind, so whatever is kept per kind is total by construction.
-/

namespace Stockroom

/-- The kinds of entity, in the order in which they are reported. -/
inductive Kind where
  | customer
  | purchase
  | product
deriving DecidableEq

namespace Kind

/-- Every kind, in order. -/
def all : List Kind := [.customer, .purchase, .product]

def name : Kind → String
  | .customer => "Customer"
  | .purchase => "PurchaseActive"
  | .product => "Product"

def ofName? (s : String) : Option Kind := all.find? fun k => k.name = s

theorem mem_all (k : Kind) : k ∈ all := by cases k <;> simp [all]

theorem nodup_all : all.Nodup := by decide

end Kind

/-- One value for each kind. -/
@[ext]
structure PerKind (α : Type) where
  customer : α
  purchase : α
  product : α
deriving DecidableEq

namespace PerKind

variable {α β : Type}

def get (p : PerKind α) : Kind → α
  | .customer => p.customer
  | .purchase => p.purchase
  | .product => p.product

def set (p : PerKind α) (k : Kind) (a : α) : PerKind α :=
  match k with
  | .customer => { p with customer := a }
  | .purchase => { p with purchase := a }
  | .product => { p with product := a }

/-- The same value for every kind. -/
def fill (a : α) : PerKind α := ⟨a, a, a⟩

def tabulate (f : Kind → α) : PerKind α := ⟨f .customer, f .purchase, f .product⟩

def map (f : α → β) (p : PerKind α) : PerKind β := tabulate fun k => f (p.get k)

/-- The values in the order of kinds. -/
def toList (p : PerKind α) : List α := Kind.all.map p.get

theorem get_set (p : PerKind α) (k l : Kind) (a : α) :
    (p.set k a).get l = if l = k then a else p.get l := by
  cases k <;> cases l <;> rfl

@[simp] theorem get_fill (a : α) (k : Kind) : (fill a).get k = a := by cases k <;> rfl

@[simp] theorem get_tabulate (f : Kind → α) (k : Kind) : (tabulate f).get k = f k := by
  cases k <;> rfl

@[simp] theorem get_map (f : α → β) (p : PerKind α) (k : Kind) : (p.map f).get k = f (p.get k) :=
  get_tabulate _ _

theorem ext_get {p q : PerKind α} (h : ∀ k, p.get k = q.get k) : p = q :=
  PerKind.ext (h .customer) (h .purchase) (h .product)

end PerKind

end Stockroom
