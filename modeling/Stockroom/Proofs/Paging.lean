import Mathlib.Data.List.Perm.Basic
import Stockroom.Proofs.StableSorting

/-!
# Paging through what a query selects

Without a window a query selects every row that a session sees and that satisfies it, once, in the order
it asks for (`Query.Selects`). An offset and a limit cut a piece out of what reads back, so the pieces
of one length behind one another are the whole again (`flatten_cut`). `Database.load_selects` puts the
two together for whatever is committed and staged, and for whatever stable sort brings the rows in order.
-/

namespace Stockroom

/-! ## Pages of a list -/

/-- Pieces of one length, as many as it takes, make up the list. -/
theorem flatten_cut {α : Type} (n m : Nat) {xs : List α} (h : xs.length ≤ m * n) :
    ((List.range m).map fun j => cut (some (j * n)) (some n) xs).flatten = xs := by
  induction m generalizing xs with
  | zero =>
      rw [Nat.zero_mul] at h
      rw [List.eq_nil_of_length_eq_zero (Nat.le_zero.mp h)]
      rfl
  | succ m ih =>
      have hrest : (xs.drop n).length ≤ m * n := by
        rw [List.length_drop, Nat.sub_le_iff_le_add, ← Nat.succ_mul]
        exact h
      -- every page but the first is a page of what the first leaves
      have hpage : ∀ j, cut (some ((j + 1) * n)) (some n) xs
          = cut (some (j * n)) (some n) (xs.drop n) := by
        intro j
        simp only [cut, Option.getD_some, List.drop_drop, Nat.succ_mul, Nat.add_comm]
      have hfirst : cut (some (0 * n)) (some n) xs = xs.take n := by
        simp only [cut, Option.getD_some, Nat.zero_mul, List.drop_zero]
      rw [List.range_succ_eq_map, List.map_cons, List.map_map, List.flatten_cons, hfirst]
      calc xs.take n ++ ((List.range m).map fun j => cut (some ((j + 1) * n)) (some n) xs).flatten
          = xs.take n
              ++ ((List.range m).map fun j => cut (some (j * n)) (some n) (xs.drop n)).flatten := by
            simp only [hpage]
        _ = xs.take n ++ xs.drop n := by rw [ih hrest]
        _ = xs := List.take_append_drop n xs

/-! ## Reading rows -/

namespace Database

variable {k : Kind} {rows : List Value} {es : List Entity}

/-- Rows read as entities exactly if each of them does. -/
theorem decode_eq_ok_iff :
    decode k rows = .ok es ↔ es.map some = rows.map (Entity.ofRow? k) := by
  induction rows generalizing es with
  | nil => cases es <;> simp [decode]
  | cons row rows ih =>
      rw [decode]
      cases hrow : Entity.ofRow? k row with
      | none => cases es <;> simp [hrow]
      | some e =>
          cases es with
          | nil => cases decode k rows <;> simp [Except.map]
          | cons e' es' =>
              rw [List.map_cons, List.map_cons, List.cons.injEq, ← ih, hrow]
              cases decode k rows <;> simp [Except.map, eq_comm]

/-- The rows of entities of one kind read as these entities. -/
theorem decode_map_toRow (h : ∀ e ∈ es, e.kind = k) : decode k (es.map Entity.toRow) = .ok es := by
  rw [decode_eq_ok_iff, List.map_map]
  refine List.map_congr_left fun e he => ?_
  rw [Function.comp_apply, ← h e he, e.ofRow?_toRow]

theorem exists_decode (h : ∀ row ∈ rows, (Entity.ofRow? k row).isSome) :
    ∃ es, decode k rows = .ok es := by
  induction rows with
  | nil => exact ⟨[], rfl⟩
  | cons row rows ih =>
      obtain ⟨e, he⟩ := Option.isSome_iff_exists.mp (h row (List.mem_cons_self ..))
      obtain ⟨es, hes⟩ := ih fun row' hrow' => h row' (List.mem_cons_of_mem _ hrow')
      exact ⟨e :: es, by rw [decode, he, hes]; rfl⟩

/-- A piece of rows that read reads as the same piece of the entities. -/
theorem decode_cut (h : decode k rows = .ok es) (offset limit : Option Nat) :
    decode k (cut offset limit rows) = .ok (cut offset limit es) := by
  rw [decode_eq_ok_iff] at h ⊢
  rw [← cut_map, h, cut_map]

end Database

/-! ## What a query selects -/

/-- The entries that a query without a window selects, in order: each that satisfies it once, ascending
or by the sort key, and among those that tie by the key still ascending. -/
structure Query.Selects (q : Query) (row? : Ident → Option Value) (rs : List (Ident × Value)) :
    Prop where
  once : (rs.map Prod.fst).Nodup
  mem : ∀ i row, (i, row) ∈ rs ↔ row? i = some row ∧ q.accepts row = true
  ascending : q.sortKey = none → rs.Pairwise fun a b => a.1 < b.1
  sorted : ∀ key, q.sortKey = some key → (∀ r ∈ rs, (key.valueOf r.2).Sortable) →
    rs.Pairwise (TieBroken (fun a b => key.Before a.2 b.2) fun a b => a.1 < b.1)

namespace Table

variable {t : Table Value}

theorem arrange_perm (key : Option SortKey) (rs : List (Ident × Value)) :
    (arrange key rs).Perm rs := by
  cases key with
  | none => exact List.Perm.refl _
  | some key => exact stableSort_perm _ _

theorem pairwise_filter_entries (t : Table Value) (test : Value → Bool) :
    (t.entries.filter fun r => test r.2).Pairwise fun a b => a.1 < b.1 :=
  t.ascending.sublist List.filter_sublist

/-- Whatever rearranges the entries that pass is selected, if it is in order. -/
theorem selects_of_perm {q : Query} {rs : List (Ident × Value)}
    (hperm : rs.Perm (t.entries.filter fun r => q.accepts r.2))
    (hascending : q.sortKey = none → rs.Pairwise fun a b => a.1 < b.1)
    (hsorted : ∀ key, q.sortKey = some key → (∀ r ∈ rs, (key.valueOf r.2).Sortable) →
      rs.Pairwise (TieBroken (fun a b => key.Before a.2 b.2) fun a b => a.1 < b.1)) :
    q.Selects t.find? rs where
  once := by
    refine (hperm.map Prod.fst).nodup_iff.mpr ?_
    rw [List.Nodup, List.pairwise_map]
    exact (t.pairwise_filter_entries q.accepts).imp Ident.ne_of_lt
  mem i row := by rw [hperm.mem_iff, List.mem_filter, mem_entries_iff]
  ascending := hascending
  sorted := hsorted

theorem selects_pick (t : Table Value) (q : Query) :
    q.Selects t.find? (t.pick q.accepts q.sortKey none none) := by
  refine selects_of_perm (arrange_perm q.sortKey _) (fun hkey => ?_) fun key hkey hvalues => ?_
  · rw [hkey]
    exact t.pairwise_filter_entries q.accepts
  · rw [hkey] at hvalues ⊢
    exact (SortKey.ranks fun r hr => hvalues r (mem_stableSort.mpr hr)).pairwise_stableSort
      (t.pairwise_filter_entries q.accepts)

/-- Rows that any sorter leaves are those of entries that are selected. -/
theorem exists_selects {σ : Sorter Value} {q : Query} {rows : List Value}
    (h : q.sortRowsWith σ (t.values.filter q.accepts) = some rows) :
    ∃ rs, q.Selects t.find? rs ∧ rs.map (·.2) = rows := by
  by_cases hranks : q.RanksRows (t.values.filter q.accepts)
  · rw [Query.sortRowsWith_eq σ hranks, values_filter, sortRows_map] at h
    exact ⟨_, t.selects_pick q, Option.some.inj h⟩
  · -- of these rows no more is known than that none is lost, and no order is asked of them
    obtain ⟨key, hkey, -, row, hrow, hvalue⟩ := Query.exists_of_not_ranksRows hranks
    have hperm : rows.Perm ((t.entries.filter fun r => q.accepts r.2).map (·.2)) := by
      rw [Query.sortRowsWith, hkey] at h
      rw [← values_filter]
      exact σ.perm h
    obtain ⟨rs, rfl, hrs⟩ := (congrFun₂ (List.eq_map_comp_perm _) _ _).mpr hperm
    refine ⟨rs, selects_of_perm hrs (fun hnokey => ?_) fun key' hkey' hvalues => ?_, rfl⟩
    · rw [hnokey] at hkey
      cases hkey
    · obtain rfl := Option.some.inj (hkey.symm.trans hkey')
      rw [values_filter] at hrow
      obtain ⟨r, hr, rfl⟩ := List.mem_map.mp hrow
      exact absurd (hvalues r (hrs.mem_iff.mpr hr)) hvalue

end Table

/-! ## What a load gives -/

namespace Database

variable {db : Database} {s : Nat} {k : Kind} {q : Query}

/-- The row a session has under an identity: the one it wrote last, or else the committed one. -/
def row? (db : Database) (s : Nat) (k : Kind) (i : Ident) : Option Value :=
  (((db.staged s).get k).find? i).getD ((db.tables.get k).find? i)

/-- Without a window a load gives the entity of every row that a session has and the query accepts, in the
order asked for. With a window it gives the piece of that list which it leaves, and pages of one length
together the whole of it.

The sort is any stable sort (`Sorter`). With that of `load` there is always a result
(`loadWith_insertion`). Another one can break off, and then no load gives a result, whatever its window. It
does so only if the query sorts by a key that does not rank the rows it accepts, and one of these has a
value that is not compared exactly. -/
theorem load_selects (σ : Sorter Value) (hpending : db.pendingLoads.get k = none)
    (hreads : ∀ i row, db.row? s k i = some row → q.accepts row = true →
      (Entity.ofRow? k row).isSome) :
    (∃ rs es, q.Selects (db.row? s k) rs
      ∧ es.map some = rs.map (fun r => Entity.ofRow? k r.2)
      ∧ (loadWith σ s k { q with offset := none, limit := none } db).map Prod.fst = some (.ok es)
      ∧ (∀ offset limit, (loadWith σ s k { q with offset := offset, limit := limit } db).map Prod.fst
          = some (.ok (cut offset limit es)))
      ∧ ∀ n m, es.length ≤ m * n →
          ∃ pages : List (List Entity), (List.range m).map (fun j =>
              (loadWith σ s k { q with offset := some (j * n), limit := some n } db).map Prod.fst)
                = pages.map (fun page => some (.ok page))
            ∧ pages.flatten = es)
      ∨ ∃ key, q.sortKey = some key
        ∧ (∀ B, ¬ Ranks key.precedes B ((db.view s k).values.filter q.accepts))
        ∧ (∃ i row, db.row? s k i = some row ∧ q.accepts row = true ∧ ¬ (key.valueOf row).Sortable)
        ∧ ∀ offset limit, loadWith σ s k { q with offset := offset, limit := limit } db = none := by
  have hrow : db.row? s k = (db.view s k).find? := funext fun i => (db.find?_view s k i).symm
  cases hsort : q.sortRowsWith σ ((db.view s k).values.filter q.accepts) with
  | some rows =>
      obtain ⟨rs, hselects, rfl⟩ := Table.exists_selects hsort
      rw [← hrow] at hselects
      obtain ⟨es, hes⟩ : ∃ es, decode k (rs.map (·.2)) = .ok es := by
        refine exists_decode fun row hmem => ?_
        obtain ⟨⟨i, row⟩, hr, rfl⟩ := List.mem_map.mp hmem
        obtain ⟨hfind, haccepts⟩ := (hselects.mem i row).mp hr
        exact hreads i row hfind haccepts
      have hwindow : ∀ offset limit,
          (loadWith σ s k { q with offset := offset, limit := limit } db).map Prod.fst
            = some (.ok (cut offset limit es)) := by
        intro offset limit
        rw [loadWith_result hpending, Query.selectWith_window, hsort, Option.map_some, Option.map_some,
          decode_cut hes]
      refine Or.inl ⟨rs, es, hselects, ?_, hwindow none none, hwindow, fun n m hlength => ?_⟩
      · rw [decode_eq_ok_iff.mp hes, List.map_map]
        rfl
      · refine ⟨(List.range m).map fun j => cut (some (j * n)) (some n) es, ?_, flatten_cut n m hlength⟩
        simp only [hwindow, List.map_map, Function.comp_def]
  | none =>
      obtain ⟨key, hkey, hnone, row, hmem, hvalue⟩ := Query.exists_of_sortRowsWith_eq_none hsort
      rw [Table.values_filter] at hmem
      obtain ⟨r, hr, rfl⟩ := List.mem_map.mp hmem
      obtain ⟨hentry, haccepts⟩ := List.mem_filter.mp hr
      refine Or.inr ⟨key, hkey, hnone, ⟨r.1, r.2, ?_, haccepts, hvalue⟩, fun offset limit => ?_⟩
      · rw [hrow]
        exact Table.mem_entries_iff.mp hentry
      · rw [loadWith, hpending, Query.selectWith_window, hsort]
        rfl

/-! ## A shelf with three products -/

def shelfLamp : Product := ⟨.sequential 0, "Lamp", "LAMP-1", 5, 3499⟩
def shelfStool : Product := ⟨.sequential 1, "Stool", "STOOL-1", 7, 2499⟩
def shelfTable : Product := ⟨.sequential 2, "Table", "TABLE-1", 5, 9900⟩

/-- Three committed products, and a fourth one that the first session has deleted. -/
def shelf : Database :=
  let vase : Product := ⟨.sequential 3, "Vase", "VASE-1", 9, 1250⟩
  (save 1 .product ⟨[], [], [⟨vase.ident, vase.toRow⟩]⟩
    (([shelfLamp, shelfStool, shelfTable, vase].map Entity.product).foldl seed .empty)).2

def byAmount : Query := ⟨.product, [], none, .noLock, some ⟨"amount", true⟩, none, none⟩

/-- By descending amount the two products of one amount come in order of identity, and two pages hold
the same products. -/
theorem shelf_by_amount :
    ∃ (rs : List (Ident × Value)) (pages : List (List Entity)), byAmount.Selects (shelf.row? 1 .product) rs
      ∧ (load 1 .product byAmount shelf).1
        = .ok [.product shelfStool, .product shelfLamp, .product shelfTable]
      ∧ (List.range 2).map (fun j =>
          (load 1 .product { byAmount with offset := some (j * 2), limit := some 2 } shelf).1)
        = pages.map .ok
      ∧ pages.flatten = [.product shelfStool, .product shelfLamp, .product shelfTable] := by
  have hentries : ∀ r ∈ (shelf.view 1 .product).entries,
      (Entity.ofRow? .product r.2).isSome = true := by decide +kernel
  have hreads : ∀ i row, shelf.row? 1 .product i = some row → byAmount.accepts row = true →
      (Entity.ofRow? .product row).isSome = true := fun i row hrow _ =>
    hentries (i, row) (Table.mem_entries_iff.mpr ((shelf.find?_view 1 .product i).trans hrow))
  rcases load_selects (q := byAmount) .insertion rfl hreads with
    ⟨rs, es, hselects, -, hload, -, hpages⟩ | ⟨key, -, -, -, hnone⟩
  · have hshelf : (load 1 .product byAmount shelf).1
        = .ok [.product shelfStool, .product shelfLamp, .product shelfTable] := by
      rw [load_result rfl]
      decide +kernel
    simp only [loadWith_insertion, Option.map_some] at hload hpages
    obtain rfl := Except.ok.inj ((Option.some.inj hload).symm.trans hshelf)
    obtain ⟨pages, hread, hwhole⟩ := hpages 2 2 (by decide)
    refine ⟨rs, pages, hselects, hshelf, ?_, hwhole⟩
    refine List.map_injective_iff.mpr (Option.some_injective _) ?_
    rw [List.map_map, List.map_map]
    exact hread
  · exact absurd ((loadWith_insertion ..).symm.trans (hnone none none)) (Option.some_ne_none _)

end Database

end Stockroom
