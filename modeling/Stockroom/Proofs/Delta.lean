import Stockroom.Database

/-!
# What a delta writes

Staging a delta is a list of writes, one row after the other, and the last write to a row counts
(`Writes.find?_stage`).

The delta between two tables names exactly the rows on which they differ: a row is created, updated or
deleted as the two tables have it (`Delta.mem_created_between` and its siblings), no identity comes
twice in a list, and what it writes to a row is what the later table holds there
(`Delta.lastWrite?_between`). Laid over any third table it therefore carries over the differences and
nothing else.
-/

namespace Stockroom

/-! ## Entry lists -/

namespace Table

variable {α : Type}

theorem lookup_append (i : Ident) (xs ys : List (Ident × α)) :
    lookup i (xs ++ ys) = (lookup i xs).or (lookup i ys) := by
  induction xs with
  | nil => rfl
  | cons x xs ih =>
      simp only [List.cons_append, lookup]
      split
      · rfl
      · exact ih

/-- An identity with one value only finds it, however often it is listed. -/
theorem lookup_of_mem {i : Ident} {a : α} {es : List (Ident × α)}
    (hmem : (i, a) ∈ es) (hall : ∀ b, (i, b) ∈ es → b = a) :
    lookup i es = some a := by
  induction es with
  | nil => cases hmem
  | cons e es ih =>
      obtain ⟨j, b⟩ := e
      simp only [lookup]
      split
      · rename_i hij
        subst hij
        rw [hall b (List.mem_cons_self ..)]
      · rename_i hij
        have hmem' : (i, a) ∈ es := by
          rcases List.mem_cons.mp hmem with heq | hmem'
          · exact absurd (congrArg Prod.fst heq) hij
          · exact hmem'
        exact ih hmem' fun b hb => hall b (List.mem_cons_of_mem _ hb)

/-- After inserting entries from left to right, the last one of an identity is found. -/
theorem find?_insertAll (es : List (Ident × α)) (t : Table α) (i : Ident) :
    (es.foldl (fun t e => t.insert e.1 e.2) t).find? i
      = (lookup i es.reverse).or (t.find? i) := by
  induction es generalizing t with
  | nil => rfl
  | cons e es ih =>
      rw [List.foldl_cons, ih, List.reverse_cons, lookup_append, find?_insert, Option.or_assoc]
      congr 1
      simp only [lookup]
      split <;> rfl

theorem contains_eq_false_iff {t : Table α} {i : Ident} :
    t.contains i = false ↔ t.find? i = none := by
  simp [contains]

end Table

/-! ## The writes of a delta -/

namespace Delta

/-- The writes that stage a delta, in order; nothing is written to a deleted row. -/
def writes (d : Delta) : List (Ident × Option Value) :=
  d.created.map (fun r => (r.ident, some r.row))
    ++ d.updated.map (fun u => (u.ident, some u.after))
    ++ d.deleted.map (fun r => (r.ident, none))

/-- The last write to a row, if there is one. -/
def lastWrite? (d : Delta) (i : Ident) : Option (Option Value) :=
  Table.lookup i d.writes.reverse

end Delta

theorem Writes.stage_eq (w : Writes) (d : Delta) :
    w.stage d = d.writes.foldl (fun w e => w.insert e.1 e.2) w := by
  simp only [stage, Delta.writes, List.foldl_append, List.foldl_map]

/-- A staged row is the one the delta writes last, or else the one staged before. -/
theorem Writes.find?_stage (w : Writes) (d : Delta) (i : Ident) :
    (w.stage d).find? i = (d.lastWrite? i).or (w.find? i) := by
  rw [Writes.stage_eq, Table.find?_insertAll, Delta.lastWrite?]

/-! ## The delta between two tables -/

namespace Delta

variable {before after : Table Value} {i : Ident}

theorem mem_created_between {r : KeyedRow} :
    r ∈ (between before after).created ↔
      before.find? r.ident = none ∧ after.find? r.ident = some r.row := by
  simp only [between, List.mem_filterMap]
  constructor
  · rintro ⟨⟨j, row⟩, hmem, hr⟩
    simp only [createdFrom?] at hr
    split at hr
    · rename_i hnone
      obtain rfl := Option.some.inj hr
      exact ⟨hnone, Table.mem_entries_iff.mp hmem⟩
    · cases hr
  · rintro ⟨hnone, hsome⟩
    exact ⟨(r.ident, r.row), Table.mem_entries_iff.mpr hsome, by simp [createdFrom?, hnone]⟩

theorem mem_updated_between {u : RowUpdate} :
    u ∈ (between before after).updated ↔
      before.find? u.ident = some u.before ∧ after.find? u.ident = some u.after
        ∧ u.before ≠ u.after := by
  simp only [between, List.mem_filterMap]
  constructor
  · rintro ⟨⟨j, row⟩, hmem, hu⟩
    simp only [updatedFrom?] at hu
    split at hu
    · cases hu
    · rename_i old hold
      split at hu
      · cases hu
      · rename_i hne
        obtain rfl := Option.some.inj hu
        exact ⟨hold, Table.mem_entries_iff.mp hmem, hne⟩
  · rintro ⟨hold, hnew, hne⟩
    exact ⟨(u.ident, u.after), Table.mem_entries_iff.mpr hnew, by
      simp [updatedFrom?, hold, hne]⟩

theorem mem_deleted_between {r : KeyedRow} :
    r ∈ (between before after).deleted ↔
      before.find? r.ident = some r.row ∧ after.find? r.ident = none := by
  simp only [between, List.mem_filterMap]
  constructor
  · rintro ⟨⟨j, row⟩, hmem, hr⟩
    simp only [deletedFrom?] at hr
    split at hr
    · cases hr
    · rename_i habs
      obtain rfl := Option.some.inj hr
      exact ⟨Table.mem_entries_iff.mp hmem,
        Table.contains_eq_false_iff.mp (Bool.eq_false_iff.mpr habs)⟩
  · rintro ⟨hsome, hnone⟩
    exact ⟨(r.ident, r.row), Table.mem_entries_iff.mpr hsome, by
      simp [deletedFrom?, Table.contains, hnone]⟩

/-- Something is written to exactly the rows on which the tables differ, and it is what the later
table holds. -/
theorem mem_writes_between {r : Option Value} :
    (i, r) ∈ (between before after).writes ↔
      before.find? i ≠ after.find? i ∧ r = after.find? i := by
  simp only [writes, List.mem_append, List.mem_map, Prod.mk.injEq]
  constructor
  · rintro ((⟨c, hc, rfl, rfl⟩ | ⟨u, hu, rfl, rfl⟩) | ⟨c, hc, rfl, rfl⟩)
    · obtain ⟨hb, ha⟩ := mem_created_between.mp hc
      rw [hb, ha]
      exact ⟨by simp, rfl⟩
    · obtain ⟨hb, ha, hne⟩ := mem_updated_between.mp hu
      rw [hb, ha]
      exact ⟨by simpa using hne, rfl⟩
    · obtain ⟨hb, ha⟩ := mem_deleted_between.mp hc
      rw [hb, ha]
      exact ⟨by simp, rfl⟩
  · rintro ⟨hne, rfl⟩
    -- the two look-ups decide which of the three lists the row is in
    cases hb : before.find? i with
    | none =>
        cases ha : after.find? i with
        | none => exact absurd (hb.trans ha.symm) hne
        | some row =>
            exact Or.inl (Or.inl ⟨⟨i, row⟩, mem_created_between.mpr ⟨hb, ha⟩, rfl, rfl⟩)
    | some old =>
        cases ha : after.find? i with
        | none => exact Or.inr ⟨⟨i, old⟩, mem_deleted_between.mpr ⟨hb, ha⟩, rfl, rfl⟩
        | some row =>
            have hrow : old ≠ row := fun h => hne (by rw [hb, ha, h])
            exact Or.inl (Or.inr ⟨⟨i, old, row⟩,
              mem_updated_between.mpr ⟨hb, ha, hrow⟩, rfl, rfl⟩)

theorem lastWrite?_between (before after : Table Value) (i : Ident) :
    (between before after).lastWrite? i
      = if before.find? i = after.find? i then none else some (after.find? i) := by
  unfold lastWrite?
  split
  · rename_i heq
    refine Table.lookup_eq_none fun e he hi => ?_
    obtain ⟨j, r⟩ := e
    subst hi
    exact (mem_writes_between.mp (List.mem_reverse.mp he)).1 heq
  · rename_i hne
    refine Table.lookup_of_mem (List.mem_reverse.mpr (mem_writes_between.mpr ⟨hne, rfl⟩)) ?_
    intro r hr
    exact (mem_writes_between.mp (List.mem_reverse.mp hr)).2

theorem isEmpty_iff {d : Delta} :
    d.isEmpty = true ↔ d.created = [] ∧ d.updated = [] ∧ d.deleted = [] := by
  simp [isEmpty, and_assoc]

theorem isEmpty_eq_false {d : Delta} (h : d.created ≠ [] ∨ d.updated ≠ [] ∨ d.deleted ≠ []) :
    d.isEmpty = false := by
  refine Bool.eq_false_iff.mpr fun hempty => ?_
  obtain ⟨hc, hu, hd⟩ := isEmpty_iff.mp hempty
  rcases h with h | h | h
  · exact h hc
  · exact h hu
  · exact h hd

/-! ## The order of the lists -/

/-- Each of the three lists is in strictly ascending order of identity. -/
structure Ascending (d : Delta) : Prop where
  created : d.created.Pairwise fun a b => a.ident < b.ident
  updated : d.updated.Pairwise fun a b => a.ident < b.ident
  deleted : d.deleted.Pairwise fun a b => a.ident < b.ident

theorem pairwise_filterMap_entries {ρ : Type} {key : ρ → Ident} {f : Ident × Value → Option ρ}
    (hf : ∀ e r, f e = some r → key r = e.1) (t : Table Value) :
    (t.entries.filterMap f).Pairwise fun a b => key a < key b :=
  t.ascending.filterMap f fun e e' hlt r hr r' hr' => by
    rw [hf e r hr, hf e' r' hr']
    exact hlt

theorem ascending_between (before after : Table Value) : Ascending (between before after) where
  created := pairwise_filterMap_entries (fun e r hr => by
    simp only [createdFrom?] at hr
    split at hr
    · obtain rfl := Option.some.inj hr
      rfl
    · cases hr) after
  updated := pairwise_filterMap_entries (fun e u hu => by
    simp only [updatedFrom?] at hu
    split at hu
    · cases hu
    · split at hu
      · cases hu
      · obtain rfl := Option.some.inj hu
        rfl) after
  deleted := pairwise_filterMap_entries (fun e r hr => by
    simp only [deletedFrom?] at hr
    split at hr
    · cases hr
    · obtain rfl := Option.some.inj hr
      rfl) before

end Delta

end Stockroom
