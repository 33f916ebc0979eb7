import Mathlib.Data.Set.List
import Stockroom.Proofs.Paging
import Stockroom.Proofs.Rounding

/-!
# Products by price

A price is an integer of 64 bits without sign. Prices below `2 ^ 63` are compared exactly; a pair of
which one is higher is compared by the nearest binary64 numbers, and there a price and a slightly higher
one can be the same (`Product.order_price_eq_lt_iff`). More than `2 ^ 11` apart they never are
(`Product.toldApart_of_far`).

As long as the comparison tells the prices of the products apart, a load sorted by price has them in the
order of the prices themselves, in either direction, and products of one price in order of identity
(`Database.load_by_price`). Prices that are not told apart count as ties, so the products come in order
of identity whatever they cost (`Database.gold_before_silver`). A price can tie with two that are told
apart, and then no order ranks the three (`Database.metals_not_ranked`).
-/

namespace Stockroom

/-! ## Comparing prices -/

namespace Product

/-- What it takes for a price to be compared as less than a higher one: the higher one is within 64 bits
with sign, or the two round to different binary64 numbers. -/
def ToldApart (x y : UInt64) : Prop :=
  y.toNat < 2 ^ 63
    ∨ Number.nearest ((x.toNat : Int) : Rat) < Number.nearest ((y.toNat : Int) : Rat)

variable {x y : UInt64}

theorem toldApart_of_far (h : x.toNat + 2048 < y.toNat) : ToldApart x y :=
  Or.inr (Number.nearest_lt_of_far h y.toNat_lt)

/-- The value a price is sorted by. -/
def priceNumber (x : UInt64) : Number := .integer x.toNat

/-- The lower price is compared as less exactly if the two are told apart. -/
theorem order_price_eq_lt_iff (h : x < y) :
    (priceNumber x).order (priceNumber y) = .lt ↔ ToldApart x y := by
  have hlt : x.toNat < y.toNat := UInt64.lt_iff_toNat_lt.mp h
  rw [priceNumber, priceNumber, Number.order]
  split
  · rename_i hsigned
    have hy : y.toNat < 2 ^ 63 := by
      have := hsigned.2.2
      omega
    rw [compareOfLessAndEq_eq_lt]
    exact ⟨fun _ => Or.inl hy, fun _ => by omega⟩
  · rename_i hsigned
    have hy : ¬ y.toNat < 2 ^ 63 := by
      intro hy
      refine hsigned ⟨⟨?_, ?_⟩, ?_, ?_⟩ <;> omega
    rw [compareOfLessAndEq_eq_lt]
    exact ⟨Or.inr, fun hapart => hapart.resolve_left hy⟩

/-- Prices that are told apart are compared as the integers they are. -/
theorem order_price_iff (hxy : x < y → ToldApart x y) (hyx : y < x → ToldApart y x) :
    (priceNumber x).order (priceNumber y) = .lt ↔ x < y := by
  constructor
  · intro hless
    by_contra hnot
    have hswap := Number.order_swap (priceNumber x) (priceNumber y)
    rw [hless] at hswap
    rcases UInt64.lt_or_eq_of_le (UInt64.not_lt.mp hnot) with hlt | rfl
    · rw [(order_price_eq_lt_iff hlt).mpr (hyx hlt)] at hswap
      cases hswap
    · rw [hless] at hswap
      cases hswap
  · intro hlt
    exact (order_price_eq_lt_iff hlt).mpr (hxy hlt)

/-- One price comes before another one: it is lower, or higher if the order is descending. -/
def PriceBefore (descending : Bool) (x y : UInt64) : Prop := if descending then y < x else x < y

theorem precedes_price {p p' : Product} (descending : Bool)
    (h : p.price < p'.price → ToldApart p.price p'.price)
    (h' : p'.price < p.price → ToldApart p'.price p.price) :
    (SortKey.mk "price" descending).precedes p.toRow p'.toRow = true
      ↔ PriceBefore descending p.price p'.price := by
  have hvalue : ∀ p : Product, (SortKey.mk "price" descending).valueOf p.toRow
      = .number (priceNumber p.price) := fun p => rfl
  rw [SortKey.precedes, hvalue, hvalue, PriceBefore]
  cases descending with
  | false => simpa [Value.order] using order_price_iff h h'
  | true => simpa [Value.order, ← Number.order_swap] using order_price_iff h' h

theorem ranks_price {descending : Bool} {ps : List Product}
    (h : ∀ p ∈ ps, ∀ p' ∈ ps, p.price < p'.price → ToldApart p.price p'.price) :
    Ranks (fun p p' => (SortKey.mk "price" descending).precedes p.toRow p'.toRow)
      (fun p p' => PriceBefore descending p.price p'.price) ps where
  decides p hp p' hp' := precedes_price descending (h p hp p' hp') (h p' hp' p hp)
  asymm p _ p' _ := by
    unfold PriceBefore
    split <;> exact UInt64.lt_asymm
  parts p _ p' _ p'' _ := by
    simp only [PriceBefore, UInt64.lt_iff_toNat_lt]
    split <;> omega

theorem eq_of_not_priceBefore {descending : Bool} (hxy : ¬ PriceBefore descending x y)
    (hyx : ¬ PriceBefore descending y x) : x = y := by
  cases descending with
  | false => exact UInt64.le_antisymm (UInt64.not_lt.mp hyx) (UInt64.not_lt.mp hxy)
  | true => exact UInt64.le_antisymm (UInt64.not_lt.mp hxy) (UInt64.not_lt.mp hyx)

theorem toRow_inj {p p' : Product} : p.toRow = p'.toRow ↔ p = p' := by
  rw [← Entity.product.injEq, ← Entity.toRow_inj]
  rfl

/-- The entry a product is stored as. -/
def entry (p : Product) : Ident × Value := (p.ident, p.toRow)

theorem entry_injective : Function.Injective entry := by
  intro p p' h
  exact toRow_inj.mp (Prod.mk.inj h).2

end Product

/-! ## Loading by price -/

namespace Database

open Product (PriceBefore ToldApart)

variable {db : Database} {s : Nat} {q : Query}

theorem decode_products (ps : List Product) :
    decode .product (ps.map Product.toRow) = .ok (ps.map .product) := by
  have hrows : (ps.map Entity.product).map Entity.toRow = ps.map Product.toRow := List.map_map
  rw [← hrows]
  refine decode_map_toRow fun e he => ?_
  obtain ⟨p, -, rfl⟩ := List.mem_map.mp he
  rfl

/-- A session has a product, and the query accepts it. -/
def Offers (db : Database) (s : Nat) (q : Query) (p : Product) : Prop :=
  db.row? s .product p.ident = some p.toRow ∧ q.accepts p.toRow = true

/-- Sorted by price, a load gives the products a session has and the query accepts in the order of their
prices, and those of one price in order of identity, as long as different prices are told apart. -/
theorem load_by_price {descending : Bool}
    (hproducts : ∀ i row, db.row? s .product i = some row →
      ∃ p : Product, p.ident = i ∧ p.toRow = row)
    (hpending : db.pendingLoads.get .product = none)
    (hkey : q.sortKey = some ⟨"price", descending⟩) (hoffset : q.offset = none)
    (hlimit : q.limit = none)
    (hapart : ∀ p p', db.Offers s q p → db.Offers s q p' → p.price < p'.price →
      ToldApart p.price p'.price) :
    ∃ ps : List Product, (load s .product q db).1 = .ok (ps.map .product)
      ∧ (∀ p, p ∈ ps ↔ db.Offers s q p)
      ∧ ps.Pairwise fun p p' => PriceBefore descending p.price p'.price
          ∨ (p.price = p'.price ∧ p.ident < p'.ident) := by
  have hrow : ∀ i, (db.view s .product).find? i = db.row? s .product i := db.find?_view s .product
  have hascending := (db.view s .product).pairwise_filter_entries q.accepts
  have hmem : ∀ r, r ∈ (db.view s .product).entries.filter (fun r => q.accepts r.2)
      ↔ db.row? s .product r.1 = some r.2 ∧ q.accepts r.2 = true := by
    intro r
    rw [List.mem_filter, ← hrow]
    exact and_congr Table.mem_entries_iff Iff.rfl
  -- the entries to be sorted are those of products
  obtain ⟨ps, hps⟩ : ∃ ps : List Product, ps.map Product.entry
      = (db.view s .product).entries.filter fun r => q.accepts r.2 := by
    refine (Set.range_list_map Product.entry).ge fun r hr => ?_
    obtain ⟨p, hident, htoRow⟩ := hproducts r.1 r.2 ((hmem r).mp hr).1
    exact ⟨p, Prod.ext hident htoRow⟩
  rw [← hps] at hascending hmem
  have hoffers : ∀ p, p ∈ ps ↔ db.Offers s q p := fun p =>
    (List.mem_map_of_injective Product.entry_injective).symm.trans (hmem p.entry)
  have hranks : Ranks _ (fun p p' => PriceBefore descending p.price p'.price) ps :=
    Product.ranks_price fun p hp p' hp' => hapart p p' ((hoffers p).mp hp) ((hoffers p').mp hp')
  refine ⟨stableSort (fun p p' => (SortKey.mk "price" descending).precedes p.toRow p'.toRow) ps,
    ?_, fun p => mem_stableSort.trans (hoffers p), ?_⟩
  · have hsort := stableSort_map Product.entry
      (fun a b => (SortKey.mk "price" descending).precedes a.2 b.2) ps
    rw [load_result hpending, Table.select_eq_pick, hkey, hoffset, hlimit]
    simp only [Table.pick, Table.arrange, ← hps, ← hsort]
    exact (congrArg _ List.map_map).trans (decode_products _)
  · refine (hranks.pairwise_stableSort (List.pairwise_map.mp hascending)).imp fun {p p'} h => ?_
    by_cases hbefore : PriceBefore descending p.price p'.price
    · exact Or.inl hbefore
    · obtain ⟨hnot, hident⟩ := h.resolve_left hbefore
      exact Or.inr ⟨Product.eq_of_not_priceBefore hbefore hnot, hident⟩

/-! ## Precious metals -/

/-- The products of a store by ascending price. -/
def byPrice : Query := ⟨.product, [], none, .noLock, some ⟨"price", false⟩, none, none⟩

def platinum : Product := ⟨.sequential 0, "Platinum", "PT-1", 1, 9223372036854780808⟩
def gold : Product := ⟨.sequential 0, "Gold", "AU-1", 1, 9223372036854775808⟩
def silver : Product := ⟨.sequential 1, "Silver", "AG-1", 1, 9223372036854775807⟩
def copper : Product := ⟨.sequential 2, "Copper", "CU-1", 1, 9223372036854775806⟩

/-- A store of two products. -/
def vault (p p' : Product) : Database := (Database.empty.seed (.product p)).seed (.product p')

/-- Silver costs much less than platinum and comes first. -/
theorem silver_before_platinum :
    ∃ ps, ps = [silver, platinum]
      ∧ (load 1 .product byPrice (vault platinum silver)).1 = .ok (ps.map .product)
      ∧ ps.Pairwise fun p p' => PriceBefore false p.price p'.price
          ∨ (p.price = p'.price ∧ p.ident < p'.ident) := by
  have hentries : ∀ r ∈ ((vault platinum silver).view 1 .product).entries,
      ∃ p ∈ [platinum, silver], p.entry = r := by decide +kernel
  have hrow : ∀ i row, (vault platinum silver).row? 1 .product i = some row →
      ∃ p ∈ [platinum, silver], p.entry = (i, row) := fun i row hrow =>
    hentries (i, row) (Table.mem_entries_iff.mpr ((find?_view _ 1 .product i).trans hrow))
  have hoffered : ∀ p, (vault platinum silver).Offers 1 byPrice p → p = platinum ∨ p = silver := by
    rintro p ⟨hfind, -⟩
    obtain ⟨p', hp', hentry⟩ := hrow _ _ hfind
    obtain rfl : p' = p := Product.entry_injective hentry
    simpa using hp'
  obtain ⟨ps, hload, -, hsorted⟩ := @load_by_price (vault platinum silver) 1 byPrice _
    (fun i row hfind => by
      obtain ⟨p, -, hentry⟩ := hrow i row hfind
      exact ⟨p, (Prod.mk.inj hentry).1, (Prod.mk.inj hentry).2⟩)
    rfl rfl rfl rfl
    (fun p p' hp hp' hlt => by
      rcases hoffered p hp with rfl | rfl <;> rcases hoffered p' hp' with rfl | rfl
      · exact absurd hlt (by decide)
      · exact absurd hlt (by decide)
      · exact Product.toldApart_of_far (by decide)
      · exact absurd hlt (by decide))
  have hresult : (load 1 .product byPrice (vault platinum silver)).1
      = .ok ([silver, platinum].map .product) := by
    rw [load_result rfl]
    decide +kernel
  obtain rfl : ps = [silver, platinum] :=
    List.map_injective_iff.mpr (fun _ _ h => Entity.product.inj h)
      (Except.ok.inj (hload.symm.trans hresult))
  exact ⟨_, rfl, hload, hsorted⟩

/-- Gold costs one cent more than silver and comes first all the same, since it is the first by
identity: the comparison takes both prices for `2 ^ 63`. -/
theorem gold_before_silver :
    silver.price < gold.price
      ∧ (load 1 .product byPrice (vault gold silver)).1 = .ok [.product gold, .product silver] := by
  refine ⟨by decide, ?_⟩
  rw [load_result rfl]
  decide +kernel

/-- Copper is told apart from silver, but gold ties with both, so no order ranks the three by price and
a sort promises nothing. -/
theorem metals_not_ranked (B : Value → Value → Prop) :
    ¬ Ranks (SortKey.mk "price" false).precedes B [copper.toRow, gold.toRow, silver.toRow] := by
  intro h
  have hmem : ∀ p ∈ [copper, gold, silver], p.toRow ∈ [copper.toRow, gold.toRow, silver.toRow] :=
    fun _ hp => List.mem_map_of_mem (f := Product.toRow) hp
  have hcopper := hmem copper (by simp)
  have hgold := hmem gold (by simp)
  have hsilver := hmem silver (by simp)
  have hless := (h.decides _ hcopper _ hsilver).mp (by decide +kernel)
  rcases h.parts _ hcopper _ hgold _ hsilver hless with hbefore | hbehind
  · exact absurd ((h.decides _ hcopper _ hgold).mpr hbefore) (by decide +kernel)
  · exact absurd ((h.decides _ hgold _ hsilver).mpr hbehind) (by decide +kernel)

end Database

end Stockroom
