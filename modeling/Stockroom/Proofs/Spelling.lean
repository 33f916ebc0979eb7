import Stockroom.Proofs.Rows
import Mathlib.Data.List.Forall2
import Mathlib.Data.List.Induction
import Mathlib.Data.Option.Basic

/-!
# What reads as a row

Reading is more lenient than writing. An identity may be spelled in four ways, in capitals or not
(`Ident.parse?_eq_some_iff`), a record may come as a list and may have further fields, and a state may
be a record of one null field. `Entity.Spelled` says of a value that it is such a spelling of an entity,
without reading it, and the values that read as an entity are exactly its spellings
(`Entity.ofRow?_eq_some_iff`).

Writing gives one spelling of each entity, and no value is a spelling of two. So whatever was read, what
is written back reads as the same entity, and is written back the same from then on
(`Entity.rows_canonical`).
-/

namespace Stockroom

/-! ## Digits in either case -/

namespace Digits

variable {c : Char} {d n : Nat} {cs : List Char}

/-- Only characters below 128 are changed in lower case. -/
theorem lower_induction {P : Char → Prop} (hlow : ∀ n < 128, P (Char.ofNat n))
    (hhigh : ∀ c : Char, 128 ≤ c.toNat → c.toLower = c → P c) (c : Char) : P c := by
  by_cases hc : c.toNat < 128
  · rw [← Char.ofNat_toNat c]
    exact hlow c.toNat hc
  · refine hhigh c (Nat.le_of_not_lt hc) (dif_neg fun hupper => hc ?_)
    exact Nat.lt_of_le_of_lt (UInt32.le_iff_toNat_le.mp hupper.2) (by decide)

theorem value?_toLower (c : Char) : value? 16 c.toLower = value? 16 c :=
  lower_induction (P := fun c => value? 16 c.toLower = value? 16 c) (by decide +kernel)
    (fun _ _ hc => by rw [hc]) c

theorem lt_of_value? (h : value? 16 c = some d) : c.toNat < 128 := by
  have hle : ∀ {c c' : Char}, c ≤ c' → c.toNat ≤ c'.toNat := fun h => UInt32.le_iff_toNat_le.mp h
  simp only [value?] at h
  split at h
  · rename_i hdigit
    exact Nat.lt_of_le_of_lt (hle hdigit.2) (by decide)
  · split at h
    · rename_i hletter
      exact Nat.lt_of_le_of_lt (hle hletter.2) (by decide)
    · split at h
      · rename_i hletter
        exact Nat.lt_of_le_of_lt (hle hletter.2) (by decide)
      · cases h

/-- A digit is written in lower case, in whatever case it was read. -/
theorem digitChar_of_value? (h : value? 16 c = some d) : d < 16 ∧ Nat.digitChar d = c.toLower := by
  have hlow : ∀ n < 128, ∀ d ∈ value? 16 (Char.ofNat n),
      d < 16 ∧ Nat.digitChar d = (Char.ofNat n).toLower := by decide +kernel
  have hc := hlow c.toNat (lt_of_value? h) d
  rw [Char.ofNat_toNat] at hc
  exact hc h

theorem read?_map_toLower (n : Nat) (cs : List Char) :
    read? 16 n (cs.map Char.toLower) = read? 16 n cs := by
  induction cs generalizing n with
  | nil => rfl
  | cons c cs ih =>
      rw [List.map_cons, read?, read?, value?_toLower]
      exact congrArg _ (funext fun d => ih _)

/-- The digits read are those that would be written, but for their case. -/
theorem padded_of_read? (h : read? 16 0 cs = some n) :
    padded 16 cs.length n = cs.map Char.toLower := by
  induction cs using List.reverseRecOn generalizing n with
  | nil => rfl
  | append_singleton cs c ih =>
      rw [read?_append] at h
      obtain ⟨m, hm, h⟩ := Option.bind_eq_some_iff.mp h
      obtain ⟨d, hd, h⟩ := Option.bind_eq_some_iff.mp h
      obtain rfl : 16 * m + d = n := Option.some.inj h
      obtain ⟨hlt, hchar⟩ := digitChar_of_value? hd
      have hquotient : (16 * m + d) / 16 = m := by omega
      have hrest : (16 * m + d) % 16 = d := by omega
      rw [List.length_append, List.length_singleton, padded, hquotient, hrest, ih hm, hchar,
        List.map_append]
      rfl

end Digits

/-! ## Identities -/

namespace Ident

variable {i : Ident} {cs ds : List Char} {ns : List Nat}

/-- The texts that spell an identity in lower case. -/
def spellings (i : Ident) : List (List Char) :=
  [Digits.padded 16 32 i.number, i.toChars, '\x7b' :: i.toChars ++ ['\x7d'],
    ['u', 'r', 'n', ':', 'u', 'u', 'i', 'd', ':'] ++ i.toChars]

theorem map_hyphenate {f : Char → Char} (hf : f '-' = '-') (ns : List Nat) (cs : List Char) :
    (hyphenate ns cs).map f = hyphenate ns (cs.map f) := by
  induction ns generalizing cs with
  | nil => rfl
  | cons n ns ih =>
      cases ns with
      | nil => simp only [hyphenate, List.map_take]
      | cons m ns => simp only [hyphenate, List.map_append, List.map_cons, List.map_take, hf, ih,
          List.map_drop]

/-- Hyphens are taken out only of what they were put into. -/
theorem eq_hyphenate_of_unhyphenate? (h : unhyphenate? ns cs = some ds) : cs = hyphenate ns ds := by
  induction ns generalizing cs ds with
  | nil => cases h
  | cons n ns ih =>
      cases ns with
      | nil =>
          simp only [unhyphenate?] at h
          split at h
          · rename_i hlength
            obtain rfl := Option.some.inj h
            rw [hyphenate, ← hlength, List.take_length]
          · cases h
      | cons m ns =>
          simp only [unhyphenate?] at h
          split at h
          · rename_i rest hrest
            obtain ⟨es, hes, rfl⟩ := Option.map_eq_some_iff.mp h
            have hlength : (cs.take n).length = n := by
              have hlong := congrArg List.length hrest
              rw [List.length_drop, List.length_cons] at hlong
              rw [List.length_take]
              omega
            simp only [hyphenate, List.take_left' hlength, List.drop_left' hlength, ← ih hes, ← hrest,
              List.take_append_drop]
          · cases h

theorem unhyphenate?_map {f : Char → Char} (hf : ∀ c, f c = '-' ↔ c = '-') (ns : List Nat)
    (cs : List Char) : unhyphenate? ns (cs.map f) = (unhyphenate? ns cs).map (List.map f) := by
  induction ns generalizing cs with
  | nil => rfl
  | cons n ns ih =>
      cases ns with
      | nil =>
          simp only [unhyphenate?, List.length_map]
          split <;> rfl
      | cons m ns =>
          simp only [unhyphenate?, ← List.map_drop, ← List.map_take]
          cases hdrop : cs.drop n with
          | nil => rfl
          | cons c rest =>
              by_cases hc : c = '-'
              · subst hc
                rw [List.map_cons, (hf '-').mpr rfl]
                simp only [ih, Option.map_map]
                exact congrArg (Option.map · _) (funext fun es => by simp)
              · have hc' : f c ≠ '-' := fun h => hc ((hf c).mp h)
                rw [List.map_cons]
                split
                · rename_i heq
                  exact absurd (List.cons.inj heq).1 hc'
                · split
                  · rename_i heq
                    exact absurd (List.cons.inj heq).1 hc
                  · rfl

/-- A mark is nothing else in lower case. -/
theorem toLower_eq_iff {mark : Char} (h : mark ∈ ['-', '\x7b', '\x7d']) (c : Char) :
    c.toLower = mark ↔ c = mark := by
  have hmark : ∀ n < 128, ((Char.ofNat n).toLower = mark ↔ Char.ofNat n = mark) := by
    obtain rfl | rfl | rfl : mark = '-' ∨ mark = '\x7b' ∨ mark = '\x7d' := by simpa using h
    · decide +kernel
    · decide +kernel
    · decide +kernel
  exact Digits.lower_induction (P := fun c => c.toLower = mark ↔ c = mark) hmark
    (fun _ _ hc => by rw [hc]) c

theorem ofDigits?_eq_some_iff :
    ofDigits? cs = some i ↔ cs.map Char.toLower = Digits.padded 16 32 i.number := by
  constructor
  · intro h
    unfold ofDigits? at h
    split at h
    · rename_i hlength
      obtain ⟨n, hn, h⟩ := Option.bind_eq_some_iff.mp h
      split at h
      · obtain rfl := Option.some.inj h
        rw [← Digits.padded_of_read? hn, hlength]
      · cases h
    · cases h
  · intro h
    have hlength := congrArg List.length h
    rw [List.length_map, Digits.length_padded] at hlength
    have hread : Digits.read? 16 0 cs = some i.number := by
      rw [← Digits.read?_map_toLower, h, Digits.read?_padded 32 i.number_lt]
    rw [ofDigits?, if_pos hlength, hread, Option.bind_some, dif_pos i.number_lt]

theorem ofHyphenated?_eq_some_iff : ofHyphenated? cs = some i ↔ cs.map Char.toLower = i.toChars := by
  have hdash : ∀ c : Char, c.toLower = '-' ↔ c = '-' := toLower_eq_iff (by decide)
  constructor
  · intro h
    obtain ⟨ds, hds, h⟩ := Option.bind_eq_some_iff.mp h
    rw [eq_hyphenate_of_unhyphenate? hds, map_hyphenate rfl, ofDigits?_eq_some_iff.mp h, toChars]
  · intro h
    have hmap := unhyphenate?_map hdash groupLengths cs
    rw [h, toChars, unhyphenate?_hyphenate (by decide) (Digits.length_padded 16 32 i.number)] at hmap
    obtain ⟨ds, hds, hlower⟩ := Option.map_eq_some_iff.mp hmap.symm
    rw [ofHyphenated?, hds, Option.bind_some, ofDigits?_eq_some_iff.mpr hlower]

theorem unbrace?_bind_eq_some_iff :
    (unbrace? cs).bind ofHyphenated? = some i
      ↔ cs.map Char.toLower = '\x7b' :: i.toChars ++ ['\x7d'] := by
  have hopen : ∀ c : Char, c.toLower = '\x7b' ↔ c = '\x7b' := toLower_eq_iff (by decide)
  have hclose : ∀ c : Char, c.toLower = '\x7d' ↔ c = '\x7d' := toLower_eq_iff (by decide)
  constructor
  · intro h
    obtain ⟨inner, hinner, h⟩ := Option.bind_eq_some_iff.mp h
    unfold unbrace? at hinner
    split at hinner
    · rename_i rest
      split at hinner
      · rename_i hlast
        obtain rfl := Option.some.inj hinner
        obtain ⟨inner, rfl⟩ := List.getLast?_eq_some_iff.mp hlast
        rw [List.dropLast_concat] at h
        rw [List.map_cons, List.map_append, ofHyphenated?_eq_some_iff.mp h]
        rfl
      · cases hinner
    · cases hinner
  · intro h
    obtain ⟨c, rest, rfl, hc, hrest⟩ := List.map_eq_cons_iff.mp h
    obtain rfl := (hopen c).mp hc
    obtain ⟨inner, last, rfl, hinner, hlast⟩ := List.map_eq_append_iff.mp hrest
    obtain ⟨c, tail, rfl, hc, htail⟩ := List.map_eq_cons_iff.mp hlast
    obtain rfl := (hclose c).mp hc
    obtain rfl := List.map_eq_nil_iff.mp htail
    simp only [unbrace?, List.getLast?_concat, if_true, List.dropLast_concat, Option.bind_some]
    exact ofHyphenated?_eq_some_iff.mpr hinner

theorem afterUrn?_bind_eq_some_iff :
    (afterUrn? cs).bind ofHyphenated? = some i
      ↔ cs.map Char.toLower = ['u', 'r', 'n', ':', 'u', 'u', 'i', 'd', ':'] ++ i.toChars := by
  constructor
  · intro h
    obtain ⟨rest, hrest, h⟩ := Option.bind_eq_some_iff.mp h
    unfold afterUrn? at hrest
    split at hrest
    · rename_i hurn
      obtain rfl := Option.some.inj hrest
      rw [← ofHyphenated?_eq_some_iff.mp h, ← hurn, ← List.map_append, List.take_append_drop]
    · cases hrest
  · intro h
    obtain ⟨head, rest, rfl, hhead, hrest⟩ := List.map_eq_append_iff.mp h
    have hlength : head.length = 9 := by
      have := congrArg List.length hhead
      rwa [List.length_map] at this
    rw [afterUrn?, List.take_left' hlength, if_pos hhead, List.drop_left' hlength, Option.bind_some]
    exact ofHyphenated?_eq_some_iff.mpr hrest

theorem length_toChars (i : Ident) : i.toChars.length = 36 := by
  have h := length_hyphenate (by decide : groupLengths ≠ []) (Digits.length_padded 16 32 i.number)
  rw [Digits.length_padded] at h
  exact Nat.succ.inj h

/-- The texts that read as an identity are its spellings, in either case. -/
theorem parse?_eq_some_iff {s : String} :
    parse? s = some i ↔ s.toList.map Char.toLower ∈ i.spellings := by
  generalize hcs : s.toList = cs
  -- the four forms differ in length, so at most one of them is read
  have hdigits : ∀ j, ofDigits? cs = some j → cs.length = 32 := fun j h => by
    rw [← List.length_map (f := Char.toLower), ofDigits?_eq_some_iff.mp h, Digits.length_padded]
  have hhyphens : ∀ j, ofHyphenated? cs = some j → cs.length = 36 := fun j h => by
    rw [← List.length_map (f := Char.toLower), ofHyphenated?_eq_some_iff.mp h, length_toChars]
  have hbraces : ∀ j, (unbrace? cs).bind ofHyphenated? = some j → cs.length = 38 := fun j h => by
    rw [← List.length_map (f := Char.toLower), unbrace?_bind_eq_some_iff.mp h]
    simp [length_toChars]
  have hurn : ∀ j, (afterUrn? cs).bind ofHyphenated? = some j → cs.length = 45 := fun j h => by
    rw [← List.length_map (f := Char.toLower), afterUrn?_bind_eq_some_iff.mp h]
    simp [length_toChars]
  have hnone : ∀ {o : Option Ident} {n m : Nat}, (∀ j, o = some j → cs.length = n) →
      cs.length = m → n ≠ m → o = none := by
    intro o n m ho hm hne
    cases o with
    | none => rfl
    | some j => exact absurd ((ho j rfl).symm.trans hm) hne
  simp only [parse?, ofChars?, hcs, Option.orElse_eq_some, spellings, List.mem_cons,
    List.not_mem_nil, or_false, ← ofDigits?_eq_some_iff, ← ofHyphenated?_eq_some_iff,
    ← unbrace?_bind_eq_some_iff, ← afterUrn?_bind_eq_some_iff]
  constructor
  · rintro (h | ⟨-, h | ⟨-, h | ⟨-, h⟩⟩⟩)
    · exact Or.inl h
    · exact Or.inr (Or.inl h)
    · exact Or.inr (Or.inr (Or.inl h))
    · exact Or.inr (Or.inr (Or.inr h))
  · rintro (h | h | h | h)
    · exact Or.inl h
    · exact Or.inr ⟨hnone hdigits (hhyphens i h) (by decide), Or.inl h⟩
    · exact Or.inr ⟨hnone hdigits (hbraces i h) (by decide),
        Or.inr ⟨hnone hhyphens (hbraces i h) (by decide), Or.inl h⟩⟩
    · exact Or.inr ⟨hnone hdigits (hurn i h) (by decide),
        Or.inr ⟨hnone hhyphens (hurn i h) (by decide),
          Or.inr ⟨hnone hbraces (hurn i h) (by decide), h⟩⟩⟩

/-- A value that spells an identity. -/
def Spelled (i : Ident) (v : Value) : Prop :=
  ∃ s, v = .text s ∧ s.toList.map Char.toLower ∈ i.spellings

theorem ofValue?_eq_some_iff {v : Value} : ofValue? v = some i ↔ i.Spelled v := by
  unfold Spelled
  cases v with
  | text s => simp only [ofValue?, parse?_eq_some_iff, Value.text.injEq, exists_eq_left']
  | _ => simp [ofValue?]

end Ident

/-! ## Components -/

namespace Value

variable {v : Value}

/-- A value with the given components: a record has each of them under its name, whatever else it has,
and a list has them in order and nothing else. -/
inductive Has (components : List (String × Value)) : Value → Prop where
  | record {fields : List (String × Value)}
      (h : ∀ c ∈ components, field? c.1 (.record fields) = some c.2) : Has components (.record fields)
  | list : Has components (.list (components.map Prod.snd))

theorem mapM_field?_eq_some_iff {fields components : List (String × Value)} :
    (components.map Prod.fst).mapM (fun name => field? name (.record fields))
        = some (components.map Prod.snd)
      ↔ ∀ c ∈ components, field? c.1 (.record fields) = some c.2 := by
  induction components with
  | nil => simp
  | cons c cs ih =>
      rw [List.forall_mem_cons, ← ih]
      simp [Option.bind_eq_some_iff]

/-- What is read under the names of components is them exactly if the value has them. -/
theorem components?_eq_some_iff (components : List (String × Value)) :
    v.components? (components.map Prod.fst) = some (components.map Prod.snd) ↔ v.Has components := by
  cases v with
  | record fields =>
      rw [components?, mapM_field?_eq_some_iff]
      exact ⟨.record, fun h => by cases h; assumption⟩
  | list items =>
      simp only [components?, List.length_map]
      constructor
      · intro h
        split at h
        · obtain rfl := Option.some.inj h
          exact .list
        · cases h
      · rintro ⟨⟩
        rw [if_pos (List.length_map ..)]
  | _ => exact ⟨fun h => (by cases h), fun h => (by cases h)⟩

theorem text?_eq_some_iff {s : String} : v.text? = some s ↔ v = .text s := by
  cases v <;> simp [text?]

theorem uint32?_eq_some_iff {n : UInt32} : v.uint32? = some n ↔ v = .number (.integer n.toNat) := by
  constructor
  · intro h
    unfold uint32? at h
    split at h
    · rename_i m
      split at h
      · rename_i hm
        obtain rfl := Option.some.inj h
        rw [UInt32.toNat_ofNat_of_lt' hm.2, Int.toNat_of_nonneg hm.1]
      · cases h
    · cases h
  · rintro rfl
    exact uint32?_toNat n

theorem uint64?_eq_some_iff {n : UInt64} : v.uint64? = some n ↔ v = .number (.integer n.toNat) := by
  constructor
  · intro h
    unfold uint64? at h
    split at h
    · rename_i m
      split at h
      · rename_i hm
        obtain rfl := Option.some.inj h
        rw [UInt64.toNat_ofNat_of_lt' hm.2, Int.toNat_of_nonneg hm.1]
      · cases h
    · cases h
  · rintro rfl
    exact uint64?_toNat n

end Value

/-! ## Entities -/

variable {v : Value}

def PurchaseState.Spelled (s : PurchaseState) (v : Value) : Prop :=
  v = .text s.name ∨ v = .record [(s.name, .null)]

def Customer.Spelled (c : Customer) (v : Value) : Prop :=
  ∃ ident, c.ident.Spelled ident
    ∧ v.Has [("entity_id", ident), ("name", .text c.name), ("email", .text c.email)]

def Item.Spelled (i : Item) (v : Value) : Prop :=
  ∃ product, i.product.Spelled product
    ∧ v.Has [("product_id", product), ("amount", .number (.integer i.amount.toNat))]

def Purchase.Spelled (p : Purchase) (v : Value) : Prop :=
  ∃ ident customer state items, p.ident.Spelled ident ∧ p.customer.Spelled customer
    ∧ p.state.Spelled state ∧ List.Forall₂ Item.Spelled p.items items
    ∧ v.Has [("entity_id", ident), ("customer_id", customer), ("state", state),
        ("items", .list items)]

def Product.Spelled (p : Product) (v : Value) : Prop :=
  ∃ ident, p.ident.Spelled ident
    ∧ v.Has [("entity_id", ident), ("name", .text p.name), ("sku", .text p.sku),
        ("amount", .number (.integer p.amount.toNat)), ("price", .number (.integer p.price.toNat))]

/-- A value that spells an entity. -/
def Entity.Spelled : Entity → Value → Prop
  | .customer c => c.Spelled
  | .purchase p => p.Spelled
  | .product p => p.Spelled

theorem PurchaseState.ofName?_eq_some_iff {s : PurchaseState} {name : String} :
    ofName? name = some s ↔ name = s.name := by
  constructor
  · intro h
    unfold ofName? at h
    split at h
    · rename_i hname
      obtain rfl := Option.some.inj h
      exact hname
    · split at h
      · rename_i hname
        obtain rfl := Option.some.inj h
        exact hname
      · cases h
  · rintro rfl
    cases s <;> rfl

theorem PurchaseState.ofValue?_eq_some_iff {s : PurchaseState} : ofValue? v = some s ↔ s.Spelled v := by
  unfold ofValue? Spelled
  split
  · simp [ofName?_eq_some_iff]
  · simp [ofName?_eq_some_iff]
  · rename_i htext hrecord
    refine ⟨fun h => (by cases h), ?_⟩
    rintro (rfl | rfl)
    · exact absurd rfl (htext _)
    · exact absurd rfl (hrecord _)

theorem Customer.ofRow?_eq_some_iff {c : Customer} : ofRow? v = some c ↔ c.Spelled v := by
  constructor
  · intro h
    unfold ofRow? at h
    split at h
    · rename_i ident name email hv
      obtain ⟨i, hi, h⟩ := Option.bind_eq_some_iff.mp h
      obtain ⟨n, hn, h⟩ := Option.bind_eq_some_iff.mp h
      obtain ⟨e, he, h⟩ := Option.bind_eq_some_iff.mp h
      obtain rfl := Option.some.inj h
      obtain rfl := Value.text?_eq_some_iff.mp hn
      obtain rfl := Value.text?_eq_some_iff.mp he
      exact ⟨ident, Ident.ofValue?_eq_some_iff.mp hi,
        (Value.components?_eq_some_iff [("entity_id", ident), ("name", .text n), ("email", .text e)]).mp hv⟩
    · cases h
  · rintro ⟨ident, hident, hv⟩
    have hcomponents := (Value.components?_eq_some_iff _).mpr hv
    simp only [List.map_cons, List.map_nil] at hcomponents
    simp [ofRow?, hcomponents, Ident.ofValue?_eq_some_iff.mpr hident, Value.text?]

theorem Item.ofRow?_eq_some_iff {i : Item} : ofRow? v = some i ↔ i.Spelled v := by
  constructor
  · intro h
    unfold ofRow? at h
    split at h
    · rename_i product amount hv
      obtain ⟨p, hp, h⟩ := Option.bind_eq_some_iff.mp h
      obtain ⟨n, hn, h⟩ := Option.bind_eq_some_iff.mp h
      obtain rfl := Option.some.inj h
      obtain rfl := Value.uint32?_eq_some_iff.mp hn
      exact ⟨product, Ident.ofValue?_eq_some_iff.mp hp, (Value.components?_eq_some_iff
        [("product_id", product), ("amount", .number (.integer n.toNat))]).mp hv⟩
    · cases h
  · rintro ⟨product, hproduct, hv⟩
    have hcomponents := (Value.components?_eq_some_iff _).mpr hv
    simp only [List.map_cons, List.map_nil] at hcomponents
    simp [ofRow?, hcomponents, Ident.ofValue?_eq_some_iff.mpr hproduct]

theorem Item.mapM_ofRow?_eq_some_iff {items : List Item} {rows : List Value} :
    rows.mapM ofRow? = some items ↔ List.Forall₂ Spelled items rows := by
  induction rows generalizing items with
  | nil => simp [eq_comm]
  | cons row rows ih =>
      cases items with
      | nil => simp [Option.bind_eq_some_iff]
      | cons i items => simp [Option.bind_eq_some_iff, ofRow?_eq_some_iff, ih]

theorem Item.listOfRow?_eq_some_iff {items : List Item} :
    listOfRow? v = some items ↔ ∃ rows, v = .list rows ∧ List.Forall₂ Spelled items rows := by
  unfold listOfRow?
  split
  · rename_i rows
    rw [mapM_ofRow?_eq_some_iff]
    exact ⟨fun h => ⟨rows, rfl, h⟩, fun ⟨_, heq, h⟩ => Value.list.inj heq ▸ h⟩
  · rename_i hlist
    refine ⟨fun h => (by cases h), ?_⟩
    rintro ⟨rows, rfl, -⟩
    exact absurd rfl (hlist rows)

theorem Purchase.ofRow?_eq_some_iff {p : Purchase} : ofRow? v = some p ↔ p.Spelled v := by
  constructor
  · intro h
    unfold ofRow? at h
    split at h
    · rename_i ident customer state items hv
      obtain ⟨i, hi, h⟩ := Option.bind_eq_some_iff.mp h
      obtain ⟨c, hc, h⟩ := Option.bind_eq_some_iff.mp h
      obtain ⟨s, hs, h⟩ := Option.bind_eq_some_iff.mp h
      obtain ⟨is, his, h⟩ := Option.bind_eq_some_iff.mp h
      obtain rfl := Option.some.inj h
      obtain ⟨rows, rfl, hrows⟩ := Item.listOfRow?_eq_some_iff.mp his
      exact ⟨ident, customer, state, rows, Ident.ofValue?_eq_some_iff.mp hi,
        Ident.ofValue?_eq_some_iff.mp hc, PurchaseState.ofValue?_eq_some_iff.mp hs, hrows,
        (Value.components?_eq_some_iff [("entity_id", ident), ("customer_id", customer),
          ("state", state), ("items", .list rows)]).mp hv⟩
    · cases h
  · rintro ⟨ident, customer, state, rows, hident, hcustomer, hstate, hrows, hv⟩
    have hcomponents := (Value.components?_eq_some_iff _).mpr hv
    simp only [List.map_cons, List.map_nil] at hcomponents
    simp [ofRow?, hcomponents, Ident.ofValue?_eq_some_iff.mpr hident,
      Ident.ofValue?_eq_some_iff.mpr hcustomer, PurchaseState.ofValue?_eq_some_iff.mpr hstate,
      Item.listOfRow?_eq_some_iff.mpr ⟨rows, rfl, hrows⟩]

theorem Product.ofRow?_eq_some_iff {p : Product} : ofRow? v = some p ↔ p.Spelled v := by
  constructor
  · intro h
    unfold ofRow? at h
    split at h
    · rename_i ident name sku amount price hv
      obtain ⟨i, hi, h⟩ := Option.bind_eq_some_iff.mp h
      obtain ⟨n, hn, h⟩ := Option.bind_eq_some_iff.mp h
      obtain ⟨s, hs, h⟩ := Option.bind_eq_some_iff.mp h
      obtain ⟨a, ha, h⟩ := Option.bind_eq_some_iff.mp h
      obtain ⟨c, hc, h⟩ := Option.bind_eq_some_iff.mp h
      obtain rfl := Option.some.inj h
      obtain rfl := Value.text?_eq_some_iff.mp hn
      obtain rfl := Value.text?_eq_some_iff.mp hs
      obtain rfl := Value.uint32?_eq_some_iff.mp ha
      obtain rfl := Value.uint64?_eq_some_iff.mp hc
      exact ⟨ident, Ident.ofValue?_eq_some_iff.mp hi, (Value.components?_eq_some_iff
        [("entity_id", ident), ("name", .text n), ("sku", .text s),
          ("amount", .number (.integer a.toNat)), ("price", .number (.integer c.toNat))]).mp hv⟩
    · cases h
  · rintro ⟨ident, hident, hv⟩
    have hcomponents := (Value.components?_eq_some_iff _).mpr hv
    simp only [List.map_cons, List.map_nil] at hcomponents
    simp [ofRow?, hcomponents, Ident.ofValue?_eq_some_iff.mpr hident, Value.text?]

namespace Entity

/-- The values that read as an entity of a kind are the spellings of such an entity. -/
theorem ofRow?_eq_some_iff {k : Kind} {e : Entity} :
    ofRow? k v = some e ↔ k = e.kind ∧ e.Spelled v := by
  cases k <;> cases e <;>
    simp [ofRow?, kind, Spelled, Customer.ofRow?_eq_some_iff, Purchase.ofRow?_eq_some_iff,
      Product.ofRow?_eq_some_iff]

/-- A row of one kind lacks a field of every other kind. -/
theorem ofRow?_of_ne {k : Kind} {e : Entity} (h : k ≠ e.kind) : ofRow? k e.toRow = none := by
  cases e with
  | customer c =>
      cases k with
      | customer => exact absurd rfl h
      | purchase | product =>
          simp [ofRow?, Purchase.ofRow?, Product.ofRow?, toRow, Customer.toRow, Value.components?,
            Value.field?]
  | purchase p =>
      cases k with
      | purchase => exact absurd rfl h
      | customer | product =>
          simp [ofRow?, Customer.ofRow?, Product.ofRow?, toRow, Purchase.toRow, Value.components?,
            Value.field?]
  | product p =>
      cases k with
      | product => exact absurd rfl h
      | customer | purchase =>
          simp [ofRow?, Customer.ofRow?, Purchase.ofRow?, toRow, Product.toRow, Value.components?,
            Value.field?]

/-- Rows are canonical.

The row of an entity reads back as that entity, and as nothing under another kind. A value reads as an
entity of a kind if it is a spelling of an entity of that kind, and only then. Whatever the spelling was,
the row then written reads as the same entity, which is written as that row again. -/
theorem rows_canonical (e : Entity) :
    ofRow? e.kind e.toRow = some e
      ∧ (∀ k, k ≠ e.kind → ofRow? k e.toRow = none)
      ∧ (∀ k v, ofRow? k v = some e ↔ k = e.kind ∧ e.Spelled v)
      ∧ ∀ k v, ofRow? k v = some e →
          ofRow? k e.toRow = some e ∧ (ofRow? k e.toRow).map toRow = some e.toRow := by
  refine ⟨e.ofRow?_toRow, fun k hk => ofRow?_of_ne hk, fun k v => ofRow?_eq_some_iff,
    fun k v h => ?_⟩
  obtain ⟨rfl, -⟩ := ofRow?_eq_some_iff.mp h
  rw [e.ofRow?_toRow]
  exact ⟨rfl, rfl⟩

/-- A purchase spelled as a list, with three forms of identities, its state as a record and a field too
many in its item. -/
theorem respelled_purchase :
    ∃ e v, e = .purchase ⟨.sequential 10, .sequential 11, .active, [⟨.sequential 12, 4⟩]⟩
      ∧ v = .list [.text "URN:UUID:00000000-0000-7000-8000-00000000000A",
          .text "\x7b00000000-0000-7000-8000-00000000000B\x7d",
          .record [("ACTIVE", .null)],
          .list [.record [("amount", .number (.integer 4)), ("note", .text "gift"),
            ("product_id", .text "0000000000007000800000000000000C")]]]
      ∧ ofRow? .purchase v = some e ∧ e.Spelled v ∧ v ≠ e.toRow
      ∧ ofRow? .purchase e.toRow = some e ∧ ofRow? .product e.toRow = none := by
  refine ⟨_, _, rfl, rfl, ?_⟩
  generalize he : Entity.purchase _ = e
  generalize hv : Value.list _ = v
  have hread : ofRow? .purchase v = some e := by
    subst he hv
    decide +kernel
  have hother : v ≠ e.toRow := by
    subst he hv
    decide +kernel
  have hkind : .product ≠ e.kind := by
    subst he
    decide
  obtain ⟨-, hkinds, hspelled, hcanonical⟩ := rows_canonical e
  exact ⟨hread, ((hspelled _ _).mp hread).2, hother, (hcanonical _ _ hread).1, hkinds _ hkind⟩

end Entity

end Stockroom
