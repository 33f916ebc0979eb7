import Stockroom.Proofs.Paging

/-!
# The order of identities

Identities are ordered three times over: as numbers, which is the order of the entries of a table, by
their sixteen bytes, and as texts, which is how rows are sorted by the field that holds them. The three
are one order (`Ident.bytes_lt_bytes_iff`, `Ident.text_lt_text_iff`). Digits of a fixed number, most
significant first, are in lexicographic order as the numbers are, for any base
(`Digits.places_lt_places_iff`); writing a digit as a character or as a byte keeps the order; and hyphens
at fixed places take no part in it (`Ident.hyphenate_lt_hyphenate_iff`).

So sorting by identity finds the rows in order already, and in descending order reverses them
(`Database.load_by_ident`). This holds of tables whose rows are those of entities, each under its own
identity, since elsewhere the field may hold anything.
-/

namespace Stockroom

/-! ## Lexicographic order -/

section

variable {α β : Type} [LT α] [LT β]

/-- Lists are compared by their first parts, and behind equal ones by what follows. -/
theorem append_lt_append_iff {as bs xs ys : List α} (h : as.length = bs.length) :
    as ++ xs < bs ++ ys ↔ as < bs ∨ (as = bs ∧ xs < ys) := by
  induction as generalizing bs with
  | nil =>
      obtain rfl := List.length_eq_zero_iff.mp h.symm
      simp
  | cons a as ih =>
      cases bs with
      | nil => cases h
      | cons b bs =>
          rw [List.cons_append, List.cons_append, List.cons_lt_cons_iff, List.cons_lt_cons_iff,
            ih (Nat.succ.inj h), List.cons.injEq]
          tauto

/-- A function that keeps the order of the elements, and keeps them apart, keeps the order of lists. -/
theorem map_lt_map_iff {f : α → β} {S : Set α} (horder : ∀ a ∈ S, ∀ b ∈ S, f a < f b ↔ a < b)
    (hinj : Set.InjOn f S) {xs ys : List α} (hxs : ∀ x ∈ xs, x ∈ S) (hys : ∀ y ∈ ys, y ∈ S) :
    xs.map f < ys.map f ↔ xs < ys := by
  induction xs generalizing ys with
  | nil => cases ys <;> simp
  | cons x xs ih =>
      cases ys with
      | nil => simp
      | cons y ys =>
          have hx := hxs x (List.mem_cons_self ..)
          have hy := hys y (List.mem_cons_self ..)
          rw [List.map_cons, List.map_cons, List.cons_lt_cons_iff, List.cons_lt_cons_iff,
            horder x hx y hy, hinj.eq_iff hx hy,
            ih (fun z hz => hxs z (List.mem_cons_of_mem _ hz))
              fun z hz => hys z (List.mem_cons_of_mem _ hz)]

end

/-! ## Digits -/

namespace Digits

variable {base width m n : Nat}

/-- The values of the last `width` digits of a number. -/
def places (base : Nat) : (width : Nat) → Nat → List Nat
  | 0, _ => []
  | width + 1, n => places base width (n / base) ++ [n % base]

theorem length_places (base width n : Nat) : (places base width n).length = width := by
  induction width generalizing n with
  | zero => rfl
  | succ width ih => simp [places, ih]

theorem lt_of_mem_places (hbase : 0 < base) {d : Nat} (h : d ∈ places base width n) : d < base := by
  induction width generalizing n with
  | zero => cases h
  | succ width ih =>
      rcases List.mem_append.mp h with h | h
      · exact ih h
      · rw [List.mem_singleton.mp h]
        exact Nat.mod_lt n hbase

theorem padded_eq_map (base width n : Nat) :
    padded base width n = (places base width n).map Nat.digitChar := by
  induction width generalizing n with
  | zero => rfl
  | succ width ih => simp [padded, places, ih]

/-- A number is less than another if its digits before the last are, or else the last one is. -/
theorem lt_iff_div_mod :
    m < n ↔ m / base < n / base ∨ (m / base = n / base ∧ m % base < n % base) := by
  have hm := Nat.div_add_mod m base
  have hn := Nat.div_add_mod n base
  rcases Nat.lt_trichotomy (m / base) (n / base) with hlt | heq | hgt
  · simp only [hlt, true_or, iff_true]
    exact Nat.lt_of_div_lt_div hlt
  · rw [heq] at hm
    omega
  · have hnm : n < m := Nat.lt_of_div_lt_div hgt
    omega

/-- Digits are in lexicographic order exactly if the numbers are in order. -/
theorem places_lt_places_iff (hm : m < base ^ width) (hn : n < base ^ width) :
    places base width m < places base width n ↔ m < n := by
  induction width generalizing m n with
  | zero =>
      rw [Nat.lt_one_iff.mp hm, Nat.lt_one_iff.mp hn]
      simp
  | succ width ih =>
      have hm' : m / base < base ^ width := Nat.div_lt_of_lt_mul (by rwa [← Nat.pow_succ'])
      have hn' : n / base < base ^ width := Nat.div_lt_of_lt_mul (by rwa [← Nat.pow_succ'])
      have hsame : places base width (m / base) = places base width (n / base)
          ↔ m / base = n / base := by
        refine ⟨fun h => le_antisymm ?_ ?_, congrArg _⟩
        · exact not_lt.mp fun hlt => ((ih hn' hm').mpr hlt).ne' h
        · exact not_lt.mp fun hlt => ((ih hm' hn').mpr hlt).ne h
      have hlast : [m % base] < [n % base] ↔ m % base < n % base := by
        simp [List.cons_lt_cons_iff]
      have hlength : (places base width (m / base)).length
          = (places base width (n / base)).length := by
        rw [length_places, length_places]
      rw [places, places, append_lt_append_iff hlength, ih hm' hn', hsame, hlast,
        lt_iff_div_mod (m := m)]

/-- So are they with every digit written in a way that keeps digits apart and in order. -/
theorem map_places_lt_iff {α : Type} [LT α] {f : Nat → α} (hbase : 0 < base)
    (horder : ∀ c < base, ∀ d < base, f c < f d ↔ c < d) (hinj : Set.InjOn f {d | d < base})
    (hm : m < base ^ width) (hn : n < base ^ width) :
    (places base width m).map f < (places base width n).map f ↔ m < n :=
  (map_lt_map_iff horder hinj (fun _ => lt_of_mem_places hbase) fun _ => lt_of_mem_places hbase).trans
    (places_lt_places_iff hm hn)

end Digits

/-! ## Bytes and texts -/

namespace Ident

variable {i j : Ident}

/-- The sixteen bytes of an identity, the most significant one first. -/
def bytes (i : Ident) : List UInt8 := (Digits.places 256 16 i.number).map UInt8.ofNat

/-- The bytes of identities are in the order of the identities. -/
theorem bytes_lt_bytes_iff : i.bytes < j.bytes ↔ i < j := by
  have htoNat : ∀ d < 256, (UInt8.ofNat d).toNat = d := fun d hd => UInt8.toNat_ofNat_of_lt' hd
  have horder : ∀ c < 256, ∀ d < 256, UInt8.ofNat c < UInt8.ofNat d ↔ c < d := by
    intro c hc d hd
    rw [UInt8.lt_iff_toNat_lt, htoNat c hc, htoNat d hd]
  have hinj : Set.InjOn UInt8.ofNat {d | d < 256} := Set.LeftInvOn.injOn htoNat
  have hbound : 1 <<< 128 = 256 ^ 16 := by decide
  exact Digits.map_places_lt_iff (by decide) horder hinj (hbound ▸ i.number_lt) (hbound ▸ j.number_lt)

/-- The hyphens, which are at the same places in both, make no difference. -/
theorem hyphenate_lt_hyphenate_iff {ns : List Nat} {cs ds : List Char} (hne : ns ≠ [])
    (hcs : cs.length = digitCount ns) (hds : ds.length = digitCount ns) :
    hyphenate ns cs < hyphenate ns ds ↔ cs < ds := by
  induction ns generalizing cs ds with
  | nil => exact absurd rfl hne
  | cons n ns ih =>
      rw [digitCount] at hcs hds
      cases ns with
      | nil =>
          rw [digitCount, Nat.add_zero] at hcs hds
          rw [hyphenate, hyphenate, ← hcs, List.take_length, hcs, ← hds, List.take_length]
      | cons m ns =>
          have hrest : hyphenate (m :: ns) (cs.drop n) < hyphenate (m :: ns) (ds.drop n)
              ↔ cs.drop n < ds.drop n :=
            ih (by simp) (by rw [List.length_drop]; omega) (by rw [List.length_drop]; omega)
          have hgroup : (cs.take n).length = (ds.take n).length := by
            rw [List.length_take, List.length_take]
            omega
          calc hyphenate (n :: m :: ns) cs < hyphenate (n :: m :: ns) ds
              ↔ cs.take n < ds.take n ∨ (cs.take n = ds.take n
                  ∧ '-' :: hyphenate (m :: ns) (cs.drop n)
                    < '-' :: hyphenate (m :: ns) (ds.drop n)) := append_lt_append_iff hgroup
            _ ↔ cs.take n < ds.take n ∨ (cs.take n = ds.take n ∧ cs.drop n < ds.drop n) := by
              rw [List.cons_lt_cons_iff, hrest]
              simp
            _ ↔ cs.take n ++ cs.drop n < ds.take n ++ ds.drop n :=
              (append_lt_append_iff hgroup).symm
            _ ↔ cs < ds := by rw [List.take_append_drop, List.take_append_drop]

/-- The texts of identities are in the order of the identities. -/
theorem text_lt_text_iff : i.text < j.text ↔ i < j := by
  have hdigits : ∀ c d : Fin 16, (Nat.digitChar c < Nat.digitChar d ↔ c < d)
      ∧ (Nat.digitChar c = Nat.digitChar d → c = d) := by decide
  have horder : ∀ c < 16, ∀ d < 16, Nat.digitChar c < Nat.digitChar d ↔ c < d :=
    fun c hc d hd => (hdigits ⟨c, hc⟩ ⟨d, hd⟩).1
  have hinj : Set.InjOn Nat.digitChar {d | d < 16} :=
    fun c hc d hd h => Fin.mk.inj ((hdigits ⟨c, hc⟩ ⟨d, hd⟩).2 h)
  have hlength : ∀ i : Ident, (Digits.padded 16 32 i.number).length = digitCount groupLengths :=
    fun i => Digits.length_padded 16 32 i.number
  have hbound : 1 <<< 128 = 16 ^ 32 := by decide
  rw [text, text, String.lt_iff_toList_lt, String.toList_ofList, String.toList_ofList, toChars, toChars,
    hyphenate_lt_hyphenate_iff (by decide) (hlength i) (hlength j), Digits.padded_eq_map,
    Digits.padded_eq_map]
  exact Digits.map_places_lt_iff (by decide) horder hinj (hbound ▸ i.number_lt) (hbound ▸ j.number_lt)

end Ident

/-! ## Sorting by identity -/

/-- What is strictly in order already is what sorting gives. -/
theorem Ranks.stableSort_eq {α : Type} {less : α → α → Bool} {B : α → α → Prop} {xs ys : List α}
    (h : Ranks less B xs) (hperm : ys.Perm xs) (hys : ys.Pairwise B) : stableSort less xs = ys := by
  have hsorted := h.pairwise_stableSort (R := fun a b => B a b ∨ B b a)
    ((hperm.pairwise_iff Or.symm).mp (hys.imp Or.inl))
  have hstrict : (stableSort less xs).Pairwise B :=
    hsorted.imp fun hab => hab.elim id fun ⟨hnot, heither⟩ => heither.resolve_right hnot
  refine ((stableSort_perm less xs).trans hperm.symm).eq_of_pairwise ?_ hstrict hys
  intro a b ha hb hab hba
  exact absurd hba (h.asymm a (mem_stableSort.mp ha) b (hperm.mem_iff.mp hb) hab)

namespace Table

variable {t : Table Value} {k : Kind}

/-- The rows of such a table hold the texts of their identities. -/
theorem OfKind.valueOf_entity_id (h : t.OfKind k) (descending : Bool) {r : Ident × Value}
    (hr : r ∈ t.entries) : SortKey.valueOf ⟨"entity_id", descending⟩ r.2 = .text r.1.text := by
  obtain ⟨e, -, hident, hrow⟩ := h r.1 r.2 (mem_entries_iff.mp hr)
  rw [SortKey.valueOf, hrow, e.field?_toRow, hident]
  rfl

/-- By that field entries come in order of identity, or in the opposite order. -/
theorem OfKind.before_iff (h : t.OfKind k) (descending : Bool) {a b : Ident × Value}
    (ha : a ∈ t.entries) (hb : b ∈ t.entries) :
    SortKey.Before ⟨"entity_id", descending⟩ a.2 b.2
      ↔ if descending then b.1 < a.1 else a.1 < b.1 := by
  rw [SortKey.Before, h.valueOf_entity_id descending ha, h.valueOf_entity_id descending hb]
  cases descending <;> exact Value.below_text_iff.trans Ident.text_lt_text_iff

theorem OfKind.arrange_eq (h : t.OfKind k) (descending : Bool) {rs ys : List (Ident × Value)}
    (hrs : ∀ r ∈ rs, r ∈ t.entries) (hperm : ys.Perm rs)
    (hys : ys.Pairwise fun a b => if descending then b.1 < a.1 else a.1 < b.1) :
    arrange (some ⟨"entity_id", descending⟩) rs = ys := by
  have hsortable : ∀ r ∈ rs, (SortKey.valueOf ⟨"entity_id", descending⟩ r.2).Sortable := by
    intro r hr
    rw [h.valueOf_entity_id descending (hrs r hr)]
    trivial
  refine (SortKey.ranks hsortable).stableSort_eq hperm (hys.imp_of_mem fun ha hb hab => ?_)
  exact (h.before_iff descending (hrs _ (hperm.mem_iff.mp ha)) (hrs _ (hperm.mem_iff.mp hb))).mpr hab

variable {test : Value → Bool}

/-- Sorting by identity picks what is picked unsorted. -/
theorem OfKind.pick_ascending (h : t.OfKind k) (offset limit : Option Nat) :
    t.pick test (some ⟨"entity_id", false⟩) offset limit = t.pick test none offset limit := by
  have hsame := h.arrange_eq false (fun _ hr => (List.mem_filter.mp hr).1) (List.Perm.refl _)
    (t.pairwise_filter_entries test)
  rw [pick, hsame]
  rfl

/-- Sorting by descending identity reverses what is picked without a window. -/
theorem OfKind.pick_descending (h : t.OfKind k) :
    t.pick test (some ⟨"entity_id", true⟩) none none = (t.pick test none none none).reverse :=
  h.arrange_eq true (fun _ hr => (List.mem_filter.mp hr).1) (List.reverse_perm _)
    (List.pairwise_reverse.mpr (t.pairwise_filter_entries test))

/-- Whatever a query selects from such a table reads. -/
theorem OfKind.exists_decode_select (h : t.OfKind k) (q : Query) :
    ∃ es, Database.decode k (q.select t) = .ok es := by
  rw [select_eq_pick]
  obtain ⟨es, hdecode, -⟩ := h.decode_entries fun _ hr => mem_of_mem_pick hr
  exact ⟨es, hdecode⟩

end Table

namespace Database

variable {db : Database} {s : Nat} {k : Kind} {q : Query}

theorem decode_reverse {rows : List Value} {es : List Entity} (h : decode k rows = .ok es) :
    decode k rows.reverse = .ok es.reverse := by
  rw [decode_eq_ok_iff] at h ⊢
  rw [List.map_reverse, List.map_reverse, h]

/-- Queries that are answered alike, and lock alike, load alike. -/
theorem load_congr {q' : Query} (hselect : q.select (db.view s k) = q'.select (db.view s k))
    (hlock : q.lock = q'.lock) : load s k q db = load s k q' db := by
  rw [load, load, hselect, hlock]

/-- Sorting by identity is no sorting. Where a session sees rows of entities, each under its own
identity, a query sorted by ascending identity loads what it loads unsorted, whatever its window, and
sorted by descending identity and without a window it loads the reverse. For the texts of identities are
in order exactly if their bytes are, and that is the order of the identities. -/
theorem load_by_ident (hview : (db.view s k).OfKind k) :
    (∀ q : Query, q.sortKey = none →
        load s k { q with sortKey := some ⟨"entity_id", false⟩ } db = load s k q db
          ∧ (q.offset = none → q.limit = none →
              load s k { q with sortKey := some ⟨"entity_id", true⟩ } db
                = ((load s k q db).1.map List.reverse, (load s k q db).2)))
      ∧ ∀ i j : Ident, (i.text < j.text ↔ i.bytes < j.bytes) ∧ (i.bytes < j.bytes ↔ i < j) := by
  refine ⟨fun q hkey => ⟨load_congr ?_ rfl, fun hoffset hlimit => ?_⟩, fun i j =>
    ⟨Ident.text_lt_text_iff.trans Ident.bytes_lt_bytes_iff.symm, Ident.bytes_lt_bytes_iff⟩⟩
  · rw [Table.select_eq_pick, Table.select_eq_pick, hkey]
    exact congrArg _ (hview.pick_ascending _ _)
  · have hselect : ({ q with sortKey := some ⟨"entity_id", true⟩ } : Query).select (db.view s k)
        = (q.select (db.view s k)).reverse := by
      rw [Table.select_eq_pick, Table.select_eq_pick, hkey, hoffset, hlimit, ← List.map_reverse]
      exact congrArg _ hview.pick_descending
    obtain ⟨es, hdecode⟩ := hview.exists_decode_select q
    unfold load
    cases db.pendingLoads.get k with
    | some c => rfl
    | none => simp [hselect, hdecode, decode_reverse hdecode, Except.map]

theorem shelf_ofKind : (shelf.view 1 .product).OfKind .product := by
  have hentries : (shelf.view 1 .product).entries
      = [shelfLamp, shelfStool, shelfTable].map fun p => (p.ident, p.toRow) := by decide +kernel
  intro i row hfind
  have hmem := Table.mem_entries_iff.mpr hfind
  rw [hentries] at hmem
  obtain ⟨p, -, hp⟩ := List.mem_map.mp hmem
  obtain ⟨rfl, rfl⟩ := Prod.mk.inj hp
  exact ⟨.product p, rfl, rfl, rfl⟩

/-- All of a shelf, from its last product to its first. -/
theorem shelf_by_ident :
    (load 1 .product ⟨.product, [], none, .noLock, some ⟨"entity_id", true⟩, none, none⟩ shelf).1
        = .ok [.product shelfTable, .product shelfStool, .product shelfLamp]
      ∧ (load 1 .product ⟨.product, [], none, .noLock, some ⟨"entity_id", false⟩, some 2, none⟩ shelf).1
        = .ok [.product shelfLamp, .product shelfStool]
      ∧ shelfLamp.ident.text < shelfTable.ident.text := by
  obtain ⟨hloads, horder⟩ := load_by_ident shelf_ofKind
  refine ⟨?_, ?_, (horder _ _).1.mpr ((horder _ _).2.mpr (by decide))⟩
  · rw [(hloads ⟨.product, [], none, .noLock, none, none, none⟩ rfl).2 rfl rfl, load_result rfl]
    decide +kernel
  · rw [(hloads ⟨.product, [], none, .noLock, none, some 2, none⟩ rfl).1, load_result rfl]
    decide +kernel

end Database

end Stockroom
