import Stockroom.Entity.Rule

/-!
# Products

A product has an amount in stock and a price in cents. Stock never goes below zero, since `reserve`
refuses more than there is, and `restock` stops at the largest amount a product can have.
-/

namespace Stockroom

structure Product where
  ident : Ident
  name : String
  sku : String
  amount : UInt32
  price : UInt64
deriving DecidableEq

namespace Product

/-- Takes an amount out of stock. -/
def reserve (p : Product) (n : UInt32) : Except RuleError Product :=
  if p.amount < n then .error (.insufficientStock n p.amount)
  else .ok { p with amount := p.amount - n }

/-- The largest amount a product can have. -/
def largestAmount : Nat := UInt32.size - 1

/-- Puts an amount into stock, up to the largest amount. -/
def restock (p : Product) (n : UInt32) : Product :=
  { p with amount := UInt32.ofNat (min (p.amount.toNat + n.toNat) largestAmount) }

theorem toNat_amount_reserve {p q : Product} {n : UInt32} (h : p.reserve n = .ok q) :
    n.toNat ≤ p.amount.toNat ∧ q.amount.toNat = p.amount.toNat - n.toNat := by
  unfold reserve at h
  split at h
  · cases h
  · rename_i hn
    cases h
    have hle : n ≤ p.amount := UInt32.not_lt.mp hn
    exact ⟨hle, UInt32.toNat_sub_of_le _ _ hle⟩

theorem toNat_amount_restock (p : Product) (n : UInt32) :
    (p.restock n).amount.toNat = min (p.amount.toNat + n.toNat) largestAmount := by
  simp only [restock, largestAmount, UInt32.size, UInt32.toNat_ofNat']
  omega

end Product

end Stockroom
