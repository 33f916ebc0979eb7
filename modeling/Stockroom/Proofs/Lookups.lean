import Stockroom.Proofs.IdentOrder
import Stockroom.Proofs.Meaning

/-!
# Looking up without the store

A working set looks entities up by the rows they would be stored as; a store looks through the rows it has
and reads those it selects. If a working set holds, under a kind, the entities that a session sees, each
under its identity (`WorkingSet.HoldsAll`), both give the same entities in the same order, whatever the
field and the values are (`WorkingSet.load_eq_whereField`).

For then the rows of what the working set holds are the table that the session sees, entry by entry, since
an entity that was read is written as the row it was read from (`WorkingSet.HoldsAll.map_partition`). So both
filter one list by one test, and it makes no difference whether entities are read before or after that.

A working set comes to hold all that a session sees of a kind when a query runs that accepts all of it
(`WorkingSet.holdsAll_of_runQuery`).
-/

namespace Stockroom.WorkingSet

open Plan

variable {w w' : WorkingSet} {view : Kind → Table Value} {k : Kind}

/-- Under a kind a working set holds the entities that a view shows, each under the identity it is shown
under, and no others. -/
def HoldsAll (w : WorkingSet) (view : Kind → Table Value) (k : Kind) : Prop :=
  ∀ i, w.find? k i = shown? view k i

/-! ## The rows of a working set -/

/-- Written as rows, what is held is the table it was read from. -/
theorem HoldsAll.map_partition (h : w.HoldsAll view k) (hview : (view k).OfKind k) :
    (w.partition k).map Entity.toRow = view k := by
  refine Table.ext_find? fun i => Option.ext fun row => ?_
  rw [Table.find?_map, Option.map_eq_some_iff, find?_eq_some_iff hview, ← h i]
  refine exists_congr fun e => and_congr_right fun he => ?_
  have hident : e.ident = i := ident_of_shown? hview ((h i).symm.trans he)
  rw [and_iff_right hident, eq_comm]

theorem HoldsAll.map_all (h : w.HoldsAll view k) (hview : (view k).OfKind k) :
    (w.all k).map Entity.toRow = (view k).values := by
  rw [← h.map_partition hview, all, Table.values, Table.values, Table.map, List.map_map, List.map_map]
  rfl

theorem HoldsAll.kind_eq (h : w.HoldsAll view k) : ∀ e ∈ w.all k, e.kind = k := by
  intro e he
  obtain ⟨⟨i, e⟩, hentry, rfl⟩ := List.mem_map.mp he
  exact kind_of_shown? ((h i).symm.trans (Table.mem_entries_iff.mp hentry))

/-- The rows that hold one of some values in a field are those of the entities that are looked up by
them. -/
theorem HoldsAll.filter_values (h : w.HoldsAll view k) (hview : (view k).OfKind k) (field : String)
    (values : List Value) :
    (view k).values.filter (fun row => (row.field? field).any fun v => values.any (· == v))
      = (w.whereField k field values).map Entity.toRow := by
  rw [← h.map_all hview, List.filter_map]
  rfl

/-! ## Lookups -/

variable {s : Nat} {db db' : Database} {q : Query}

/-- A query that accepts all that a session sees of its kind leaves all of it in the working set, if there
was nothing of the kind before. -/
theorem holdsAll_of_runQuery {strict : Bool} {found : List Ident}
    (hview : (db.view s q.kind).OfKind q.kind) (hoffset : q.offset = none) (hlimit : q.limit = none)
    (hall : ∀ row ∈ (db.view s q.kind).values, q.accepts row = true)
    (hw : ∀ i, w.find? q.kind i = none)
    (h : Workspace.runQuery (Database.session s) strict q (w, db) = (.ok found, w', db')) :
    w'.HoldsAll (db.view s) q.kind := by
  obtain ⟨rfl, hfind, -⟩ := Workspace.runQuery_ok hview h
  intro i
  rw [hfind, hw i]
  split
  · rfl
  · rename_i hnot
    -- every row was picked, so an identity that was not found has none
    cases hrow : (db.view s q.kind).find? i with
    | none => rw [shown?, hrow, Option.bind_none]
    | some row =>
        have hentry : (i, row) ∈ (db.view s q.kind).entries := Table.mem_entries_iff.mpr hrow
        have haccepts : q.accepts row = true := hall row (List.mem_map_of_mem hentry)
        rw [hoffset, hlimit] at hnot
        exact absurd ⟨rfl, List.mem_map.mpr ⟨_, Table.mem_pick.mpr ⟨hentry, haccepts⟩, rfl⟩⟩ hnot

/-- A lookup in a working set answers for the store. Where a session sees rows of entities of a kind, each
under its own identity, and the working set holds just these entities under the kind, looking values of a
field up gives what the store gives to a query for the rows with one of these values in that field, without
a sort key and a window: the same entities in the same order. -/
theorem load_eq_whereField (hview : (db.view s k).OfKind k) (hpending : db.pendingLoads.get k = none)
    (hheld : w.HoldsAll (db.view s) k) (field : String) (values : List Value) (joiner : Option Joiner)
    (lock : LockMode) :
    ((Database.session s).load
        ⟨k, [⟨field, .isIn, values, false⟩], joiner, lock, none, none, none⟩ db).1
      = .ok (w.whereField k field values) := by
  have hkinds : ∀ e ∈ w.whereField k field values, e.kind = k := fun e he =>
    hheld.kind_eq e (List.mem_filter.mp he).1
  have haccepts : (Query.mk k [⟨field, .isIn, values, false⟩] joiner lock none none none).accepts
      = fun row => (row.field? field).any fun v => values.any (· == v) := by
    funext row
    rw [Query.accepts_of_terms_eq rfl, Query.Term.accepts]
    cases row.field? field <;> rfl
  rw [Database.session_load, Database.load_result hpending]
  calc Database.decode k
        ((Query.mk k [⟨field, .isIn, values, false⟩] joiner lock none none none).select (db.view s k))
      = Database.decode k ((db.view s k).values.filter fun row =>
          (row.field? field).any fun v => values.any (· == v)) := by rw [← haccepts]; rfl
    _ = Database.decode k ((w.whereField k field values).map Entity.toRow) := by
        rw [hheld.filter_values hview]
    _ = .ok (w.whereField k field values) := Database.decode_map_toRow hkinds

/-! ## A shelf with three products -/

/-- The products with one of some amounts in stock. -/
def ofAmounts (values : List Value) : Query :=
  ⟨.product, [⟨"amount", .isIn, values, false⟩], none, .noLock, none, none, none⟩

/-- The products with five or seven in stock. -/
def fiveOrSeven : Query := ofAmounts [.number (.integer 5), .number (.integer 7)]

/-- With all products of a shelf loaded, those of which five are in stock are found without the store. -/
theorem shelf_looked_up :
    ∃ found w db', Workspace.runQuery (Database.session 1) true fiveOrSeven (empty, Database.shelf)
        = (.ok found, w, db')
      ∧ w.HoldsAll (Database.shelf.view 1) .product
      ∧ ((Database.session 1).load (ofAmounts [.number (.integer 5)]) Database.shelf).1
        = .ok (w.whereField .product "amount" [.number (.integer 5)])
      ∧ w.whereField .product "amount" [.number (.integer 5)]
        = [.product Database.shelfLamp, .product Database.shelfTable] := by
  have hok : (Workspace.runQuery (Database.session 1) true fiveOrSeven
      (empty, Database.shelf)).1.isOk = true := by decide +kernel
  have hfive : ((Database.session 1).load (ofAmounts [.number (.integer 5)]) Database.shelf).1
      = .ok [.product Database.shelfLamp, .product Database.shelfTable] := by
    rw [Database.session_load, Database.load_result rfl]
    decide +kernel
  rcases hrun : Workspace.runQuery (Database.session 1) true fiveOrSeven (empty, Database.shelf)
    with ⟨f | found, w, db'⟩
  · rw [hrun] at hok
    cases hok
  · have hheld : w.HoldsAll (Database.shelf.view 1) .product :=
      holdsAll_of_runQuery (q := fiveOrSeven) Database.shelf_ofKind rfl rfl (by decide +kernel)
        (fun _ => rfl) hrun
    have hload := load_eq_whereField Database.shelf_ofKind rfl hheld "amount" [.number (.integer 5)]
      none .noLock
    exact ⟨found, w, db', rfl, hheld, hload, Except.ok.inj (hload.symm.trans hfive)⟩

end Stockroom.WorkingSet
