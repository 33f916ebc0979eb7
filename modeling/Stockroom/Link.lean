import Stockroom.Entity.Row

/-!
# Links between kinds

An extractor reads values out of a loaded entity. A link says which field of a target kind holds
which values of a source entity: purchases point at their customer and at the products of their items.
-/

namespace Stockroom

/-- A way to read values out of an entity. Extractors are told apart by their label. -/
structure Extractor where
  label : String
  values : Entity → List Value

instance : BEq Extractor := ⟨fun a b => a.label == b.label⟩

namespace Extractor

/-- The entity's own identity. -/
def ownIdent : Extractor := ⟨"own identity", fun e => [e.ident.toValue]⟩

/-- The customer of a purchase. -/
def customerOfPurchase : Extractor :=
  ⟨"customer of purchase", fun e =>
    match e with
    | .purchase p => [p.customer.toValue]
    | _ => []⟩

/-- The products of a purchase's items. -/
def productsOfPurchase : Extractor :=
  ⟨"products of purchase", fun e =>
    match e with
    | .purchase p => p.products.map Ident.toValue
    | _ => []⟩

end Extractor

/-- The field of a target that matches values of a source. -/
structure Link where
  field : String
  extractor : Extractor

/-- The link from one kind to another, if the shop has one. -/
def Link.between? : (source target : Kind) → Option Link
  | .customer, .purchase => some ⟨"customer_id", .ownIdent⟩
  | .purchase, .customer => some ⟨"entity_id", .customerOfPurchase⟩
  | .purchase, .product => some ⟨"entity_id", .productsOfPurchase⟩
  | _, _ => none

end Stockroom
