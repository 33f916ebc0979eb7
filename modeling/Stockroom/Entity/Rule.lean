import Stockroom.Ident.Text

/-!
# Broken rules

The ways in which a change to an entity can break a rule of the shop.
-/

namespace Stockroom

inductive RuleError where
  /-- More was requested than is in stock. -/
  | insufficientStock (requested available : UInt32)
  /-- The amount of an item is zero. -/
  | invalidAmount (amount : UInt32)
  /-- The purchase has an item of this product already. -/
  | duplicateItem (product : Ident)
  | invalidTransition (source target : String)
deriving DecidableEq

def RuleError.message : RuleError → String
  | .insufficientStock requested available =>
    s!"Insufficient stock: requested {requested}, available {available}"
  | .invalidAmount amount => s!"Invalid amount: {amount}"
  | .duplicateItem product => s!"Item already added for product {product}"
  | .invalidTransition source target => s!"Invalid transition from {source} to {target}"

end Stockroom
