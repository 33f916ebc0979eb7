import Stockroom.Entity.Row

/-!
# Rows read back

The row of an entity reads back as that entity (`Entity.ofRow?_toRow`), so nothing is lost between
a working set and the database. It goes part by part: an identity through its text, where the hyphens
put in are those taken out again (`Ident.unhyphenate?_hyphenate`), amounts and prices through integers,
the items of a purchase one by one. Entities of different kinds have different fields, so to compare
rows is to compare entities (`Entity.toRow_inj`).
-/

namespace Stockroom

/-! ## Identities -/

namespace Ident

/-- The number of digits in groups of the given lengths. -/
def digitCount : List Nat → Nat
  | [] => 0
  | n :: ns => n + digitCount ns

theorem length_hyphenate {ns : List Nat} {cs : List Char} (hne : ns ≠ [])
    (h : cs.length = digitCount ns) :
    (hyphenate ns cs).length + 1 = cs.length + ns.length := by
  induction ns generalizing cs with
  | nil => exact absurd rfl hne
  | cons n ns ih =>
      rw [digitCount] at h
      cases ns with
      | nil =>
          rw [digitCount, Nat.add_zero] at h
          simp [hyphenate, h]
      | cons m ns =>
          have hdrop : (cs.drop n).length = digitCount (m :: ns) := by
            rw [List.length_drop]
            omega
          have hrest := ih (by simp) hdrop
          simp only [hyphenate, List.length_append, List.length_take, List.length_cons,
            List.length_drop] at hrest ⊢
          omega

/-- The hyphens put between the groups are those taken out. -/
theorem unhyphenate?_hyphenate {ns : List Nat} {cs : List Char} (hne : ns ≠ [])
    (h : cs.length = digitCount ns) : unhyphenate? ns (hyphenate ns cs) = some cs := by
  induction ns generalizing cs with
  | nil => exact absurd rfl hne
  | cons n ns ih =>
      rw [digitCount] at h
      cases ns with
      | nil =>
          rw [digitCount, Nat.add_zero] at h
          simp [hyphenate, unhyphenate?, ← h]
      | cons m ns =>
          have hdrop : (cs.drop n).length = digitCount (m :: ns) := by
            rw [List.length_drop]
            omega
          have htake : (cs.take n).length = n := by
            rw [List.length_take]
            omega
          have hbehind : (cs.take n ++ '-' :: hyphenate (m :: ns) (cs.drop n)).drop n
              = '-' :: hyphenate (m :: ns) (cs.drop n) := List.drop_left' htake
          have hbefore : (cs.take n ++ '-' :: hyphenate (m :: ns) (cs.drop n)).take n
              = cs.take n := List.take_left' htake
          simp only [hyphenate, unhyphenate?, hbehind, hbefore, ih (by simp) hdrop,
            Option.map_some, List.take_append_drop]

theorem ofDigits?_padded (i : Ident) : ofDigits? (Digits.padded 16 32 i.number) = some i := by
  simp only [ofDigits?, Digits.length_padded, if_true, Digits.read?_padded 32 i.number_lt,
    Option.bind_some, i.number_lt, dif_pos]

/-- An identity reads back from its text. -/
theorem parse?_text (i : Ident) : parse? i.text = some i := by
  have hlength : (Digits.padded 16 32 i.number).length = digitCount groupLengths :=
    Digits.length_padded 16 32 i.number
  have hgroups : groupLengths ≠ [] := by decide
  -- the hyphens make the text longer than bare digits
  have hnot : ofDigits? i.toChars = none := by
    have hlong := length_hyphenate hgroups hlength
    rw [Digits.length_padded] at hlong
    have hcount : groupLengths.length = 5 := rfl
    have hne : i.toChars.length ≠ 32 := by
      rw [toChars]
      omega
    rw [ofDigits?, if_neg hne]
  have hread : ofHyphenated? i.toChars = some i := by
    rw [ofHyphenated?, toChars, unhyphenate?_hyphenate hgroups hlength, Option.bind_some,
      ofDigits?_padded]
  rw [parse?, text, String.toList_ofList, ofChars?, hnot, hread]
  rfl

@[simp] theorem ofValue?_toValue (i : Ident) : ofValue? i.toValue = some i := parse?_text i

theorem toValue_inj {i j : Ident} : i.toValue = j.toValue ↔ i = j := by
  refine ⟨fun h => ?_, congrArg toValue⟩
  have hread := congrArg ofValue? h
  rw [ofValue?_toValue, ofValue?_toValue] at hread
  exact Option.some.inj hread

theorem toValue_mem_map {is : List Ident} {i : Ident} : i.toValue ∈ is.map toValue ↔ i ∈ is := by
  simp only [List.mem_map, toValue_inj, exists_eq_right]

theorem any_beq_toValue {values : List Value} {i : Ident} :
    values.any (· == i.toValue) = true ↔ i.toValue ∈ values := by
  simp only [List.any_eq_true, toValue, Value.beq_text_iff, exists_eq_right]

end Ident

/-! ## Components -/

@[simp] theorem Value.uint32?_toNat (n : UInt32) :
    Value.uint32? (.number (.integer n.toNat)) = some n := by
  have hlt : n.toNat < UInt32.size := n.toNat_lt_size
  simp [Value.uint32?, hlt]

@[simp] theorem Value.uint64?_toNat (n : UInt64) :
    Value.uint64? (.number (.integer n.toNat)) = some n := by
  have hlt : n.toNat < UInt64.size := n.toNat_lt_size
  simp [Value.uint64?, hlt]

@[simp] theorem PurchaseState.ofValue?_name (s : PurchaseState) :
    ofValue? (.text s.name) = some s := by
  cases s <;> simp [ofValue?, ofName?, name]

/-! ## Entities -/

theorem Customer.ofRow?_toRow (c : Customer) : ofRow? c.toRow = some c := by
  simp [ofRow?, toRow, Value.components?, Value.field?, Value.text?]

theorem Item.ofRow?_toRow (i : Item) : ofRow? i.toRow = some i := by
  simp [ofRow?, toRow, Value.components?, Value.field?]

theorem Item.listOfRow?_toRow (items : List Item) :
    listOfRow? (.list (items.map toRow)) = some items := by
  rw [listOfRow?]
  induction items with
  | nil => rfl
  | cons i items ih => simp [ofRow?_toRow, ih]

theorem Purchase.ofRow?_toRow (p : Purchase) : ofRow? p.toRow = some p := by
  simp [ofRow?, toRow, Value.components?, Value.field?, Item.listOfRow?_toRow]

theorem Product.ofRow?_toRow (p : Product) : ofRow? p.toRow = some p := by
  simp [ofRow?, toRow, Value.components?, Value.field?, Value.text?]

namespace Entity

/-- The row of an entity reads back as that entity. -/
theorem ofRow?_toRow (e : Entity) : ofRow? e.kind e.toRow = some e := by
  cases e with
  | customer c => simp [ofRow?, kind, toRow, c.ofRow?_toRow]
  | purchase p => simp [ofRow?, kind, toRow, p.ofRow?_toRow]
  | product p => simp [ofRow?, kind, toRow, p.ofRow?_toRow]

/-- Every row holds the identity of its entity, as it is written. -/
theorem field?_toRow (e : Entity) : e.toRow.field? "entity_id" = some e.ident.toValue := by
  cases e <;> simp [toRow, Customer.toRow, Purchase.toRow, Product.toRow, Value.field?, ident]

/-- The fields of a row tell the kind of its entity. -/
theorem kind_eq_of_toRow_eq {e e' : Entity} (h : e.toRow = e'.toRow) : e.kind = e'.kind := by
  cases e <;> cases e' <;>
    simp [toRow, Customer.toRow, Purchase.toRow, Product.toRow, kind] at h ⊢

/-- Entities with the same row are the same. -/
theorem toRow_inj {e e' : Entity} : e.toRow = e'.toRow ↔ e = e' := by
  refine ⟨fun h => ?_, congrArg toRow⟩
  have hread := e.ofRow?_toRow
  rw [kind_eq_of_toRow_eq h, h, e'.ofRow?_toRow] at hread
  exact (Option.some.inj hread).symm

end Entity

end Stockroom
