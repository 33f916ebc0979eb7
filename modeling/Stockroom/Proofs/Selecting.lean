import Stockroom.Database
import Stockroom.Proofs.Rows

/-!
# Selecting with identities

A query selects rows and a load gives the entities in them; under which identity a row is kept plays no
part in either. `Table.pick` makes the same selection of the entries themselves, so that it can be said
which identities a load finds. It is the same selection because sorting by what a function gives and
then applying the function is applying it and then sorting (`stableSort_map`). In a table whose rows are
those of entities of one kind, each under its own identity, what is selected reads back, identity by
identity (`Table.OfKind.decode_entries`).
-/

namespace Stockroom

/-! ## Sorting -/

section

variable {α β : Type} (f : α → β) (less : β → β → Bool)

theorem settle_map (x : α) (ys : List α) :
    (settle (fun a b => less (f a) (f b)) x ys).map f = settle less (f x) (ys.map f) := by
  induction ys with
  | nil => rfl
  | cons y ys ih =>
      simp only [settle, List.map_cons]
      split
      · rw [List.map_cons, ih]
      · rfl

theorem stableSort_map (xs : List α) :
    (stableSort (fun a b => less (f a) (f b)) xs).map f = stableSort less (xs.map f) := by
  have general : ∀ xs done : List α,
      (xs.foldl (fun done x => settle (fun a b => less (f a) (f b)) x done) done).map f
        = (xs.map f).foldl (fun done x => settle less x done) (done.map f) := by
    intro xs
    induction xs with
    | nil => intro done; rfl
    | cons x xs ih =>
        intro done
        rw [List.foldl_cons, ih, settle_map, List.map_cons, List.foldl_cons]
  rw [stableSort, stableSort, List.map_reverse, general, List.map_nil]

end

/-! ## Cutting out a window -/

section

variable {α β : Type}

/-- The part of a list that an offset and a limit leave. -/
def cut (offset limit : Option Nat) (xs : List α) : List α :=
  let rest := xs.drop (offset.getD 0)
  match limit with
  | none => rest
  | some n => rest.take n

theorem Query.window_eq_cut (q : Query) (xs : List α) : q.window xs = cut q.offset q.limit xs := rfl

theorem mem_of_mem_cut {offset limit : Option Nat} {xs : List α} {x : α}
    (h : x ∈ cut offset limit xs) : x ∈ xs := by
  cases limit with
  | none => exact List.mem_of_mem_drop h
  | some n => exact List.mem_of_mem_drop (List.mem_of_mem_take h)

theorem cut_map (f : α → β) (offset limit : Option Nat) (xs : List α) :
    cut offset limit (xs.map f) = (cut offset limit xs).map f := by
  cases limit with
  | none => exact List.map_drop.symm
  | some n => simp only [cut, List.map_take, List.map_drop]

end

/-! ## Picking entries -/

namespace Table

/-- Entries in the order of a key on their rows, or as they are. -/
def arrange (key : Option SortKey) (rs : List (Ident × Value)) : List (Ident × Value) :=
  match key with
  | none => rs
  | some key => stableSort (fun a b => key.precedes a.2 b.2) rs

/-- The entries whose rows pass a test, in ascending order of identity or sorted by a key, cut to the
window that offset and limit leave. -/
def pick (t : Table Value) (test : Value → Bool) (key : Option SortKey) (offset limit : Option Nat) :
    List (Ident × Value) :=
  cut offset limit (arrange key (t.entries.filter fun r => test r.2))

variable {t : Table Value} {test : Value → Bool} {key : Option SortKey} {offset limit : Option Nat}

theorem mem_of_mem_pick {r : Ident × Value} (h : r ∈ t.pick test key offset limit) :
    r ∈ t.entries := by
  have harranged := mem_of_mem_cut h
  have hpassing : r ∈ t.entries.filter fun r => test r.2 := by
    cases key with
    | none => exact harranged
    | some key => exact mem_stableSort.mp harranged
  exact (List.mem_filter.mp hpassing).1

/-- Without offset and limit everything that passes is picked, in whatever order. -/
theorem mem_pick {r : Ident × Value} :
    r ∈ t.pick test key none none ↔ r ∈ t.entries ∧ test r.2 = true := by
  have hpassing : r ∈ t.entries.filter (fun r => test r.2) ↔ r ∈ t.entries ∧ test r.2 = true :=
    List.mem_filter
  rw [← hpassing]
  cases key with
  | none => exact Iff.rfl
  | some key => exact mem_stableSort

/-- Where nothing passes, nothing is picked. -/
theorem pick_eq_nil (h : ∀ row, test row = false) : t.pick test key offset limit = [] := by
  have hnone : (t.entries.filter fun r => test r.2) = [] := by simp [h]
  rw [pick, hnone]
  cases key <;> cases limit <;> simp [cut, arrange, stableSort]

theorem values_filter (t : Table Value) (test : Value → Bool) :
    t.values.filter test = (t.entries.filter fun r => test r.2).map (·.2) := by
  rw [values, List.filter_map]
  rfl

/-- Sorting rows is sorting the entries they are in. -/
theorem sortRows_map (q : Query) (rs : List (Ident × Value)) :
    q.sortRows (rs.map (·.2)) = (arrange q.sortKey rs).map (·.2) := by
  unfold Query.sortRows arrange
  cases q.sortKey with
  | none => rfl
  | some key => exact (stableSort_map (·.2) key.precedes rs).symm

/-- A query selects the rows of the entries it would pick. -/
theorem select_eq_pick (q : Query) (t : Table Value) :
    q.select t = (t.pick q.accepts q.sortKey q.offset q.limit).map (·.2) := by
  rw [Query.select, Query.window_eq_cut, values_filter, sortRows_map, cut_map, pick]

/-! ## Reading what was picked -/

/-- Every row is that of an entity of the kind, under its own identity. -/
def OfKind (k : Kind) (t : Table Value) : Prop :=
  ∀ i row, t.find? i = some row → ∃ e : Entity, e.kind = k ∧ e.ident = i ∧ row = e.toRow

/-- Entries of such a table read back, identity by identity. -/
theorem OfKind.decode_entries {k : Kind} (h : t.OfKind k) {rs : List (Ident × Value)}
    (hrs : ∀ r ∈ rs, r ∈ t.entries) :
    ∃ es, Database.decode k (rs.map (·.2)) = .ok es ∧ es.map Entity.ident = rs.map (·.1)
      ∧ ∀ e ∈ es, e.kind = k ∧ t.find? e.ident = some e.toRow := by
  induction rs with
  | nil => exact ⟨[], rfl, rfl, by simp⟩
  | cons r rs ih =>
      obtain ⟨es, hdecode, hidents, hes⟩ := ih fun r' hr' => hrs r' (List.mem_cons_of_mem _ hr')
      obtain ⟨i, row⟩ := r
      have hfind := mem_entries_iff.mp (hrs (i, row) (List.mem_cons_self ..))
      obtain ⟨e, hkind, hident, hrow⟩ := h i row hfind
      have hread : Entity.ofRow? k row = some e := by
        rw [hrow, ← hkind]
        exact e.ofRow?_toRow
      refine ⟨e :: es, ?_, ?_, ?_⟩
      · simp only [List.map_cons, Database.decode, hread, hdecode]
        rfl
      · rw [List.map_cons, List.map_cons, hidents, hident]
      · intro e' he'
        rcases List.mem_cons.mp he' with rfl | he'
        · exact ⟨hkind, by rw [hident, hfind, hrow]⟩
        · exact hes e' he'

end Table

end Stockroom
