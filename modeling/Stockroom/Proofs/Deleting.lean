import Stockroom.Proofs.Edit
import Mathlib.Data.List.Basic

/-!
# Deleting several entities

Several entities are deleted in two passes. The first looks for every identity listed and reports those
that are absent; the second takes the entities out one after the other. Taking one out leaves all others
where they are, so the first pass foretells the second as long as no identity is listed twice. Then the
deletion is all or nothing (`WorkingSet.deleteMany_all_or_nothing`).

An identity listed again is there when it is looked for and gone when its turn comes. The second pass
stops at it and reports it absent, and what was listed before it stays deleted
(`WorkingSet.deleteMany_of_repeated`).
-/

namespace Stockroom

theorem distinct_of_nodup {α : Type} [DecidableEq α] {xs : List α} (h : xs.Nodup) :
    distinct xs = xs := by
  have general : ∀ xs seen : List α, (seen ++ xs).Nodup →
      xs.foldl (fun seen x => if x ∈ seen then seen else seen ++ [x]) seen = seen ++ xs := by
    intro xs
    induction xs with
    | nil => intro seen _; exact (List.append_nil seen).symm
    | cons x xs ih =>
        intro seen hseen
        have hx : x ∉ seen := fun hmem =>
          (List.nodup_append.mp hseen).2.2 x hmem x (List.mem_cons_self ..) rfl
        rw [List.append_cons] at hseen ⊢
        rw [List.foldl_cons, if_neg hx, ih _ hseen]
  exact general xs [] h

namespace WorkingSet

variable {w w' : WorkingSet} {k : Kind} {is front rest : List Ident} {i : Ident}

/-! ## Taking entities out -/

/-- The working set without the entities of the given identities. -/
def without (w : WorkingSet) (k : Kind) (is : List Ident) : WorkingSet :=
  is.foldl (fun w i => w.setPartition k ((w.partition k).erase i)) w

theorem find?_erase (w : WorkingSet) (k : Kind) (i : Ident) (l : Kind) (j : Ident) :
    (w.setPartition k ((w.partition k).erase i)).find? l j
      = if l = k ∧ j = i then none else w.find? l j := by
  rw [find?_setPartition, Table.find?_erase]
  by_cases hl : l = k
  · subst hl
    simp [find?]
  · simp [hl]

theorem find?_without (w : WorkingSet) (k : Kind) (is : List Ident) (l : Kind) (j : Ident) :
    (w.without k is).find? l j = if l = k ∧ j ∈ is then none else w.find? l j := by
  induction is generalizing w with
  | nil => simp [without]
  | cons i is ih =>
      have hstep : w.without k (i :: is)
          = (w.setPartition k ((w.partition k).erase i)).without k is := rfl
      rw [hstep, ih, find?_erase]
      by_cases hl : l = k <;> by_cases hj : j ∈ is <;> simp [hl, hj]

theorem partitions_without (w : WorkingSet) (is : List Ident) {l : Kind} (h : l ≠ k) :
    (w.without k is).partitions.get l = w.partitions.get l := by
  induction is generalizing w with
  | nil => rfl
  | cons i is ih =>
      have hstep := ih (w.setPartition k ((w.partition k).erase i))
      rw [setPartition, PerKind.get_set, if_neg h] at hstep
      exact hstep

theorem snapshots_without (w : WorkingSet) (k : Kind) (is : List Ident) :
    (w.without k is).baseline = w.baseline ∧ (w.without k is).presave = w.presave := by
  induction is generalizing w with
  | nil => exact ⟨rfl, rfl⟩
  | cons i is ih => exact ih (w.setPartition k ((w.partition k).erase i))

/-! ## The second pass -/

theorem delete_of_contains (h : w.contains k i = true) :
    ∃ e, w.find? k i = some e
      ∧ w.delete k i = .ok (e, w.setPartition k ((w.partition k).erase i)) := by
  obtain ⟨e, he⟩ := Option.isSome_iff_exists.mp h
  exact ⟨e, he, by simp only [delete, he]⟩

theorem map_some_getMany (h : ∀ i ∈ is, w.contains k i = true) :
    (w.getMany k is).map some = is.map (w.find? k) := by
  induction is with
  | nil => rfl
  | cons i is ih =>
      obtain ⟨e, he⟩ := Option.isSome_iff_exists.mp (h i (List.mem_cons_self ..))
      have hrest := ih fun j hj => h j (List.mem_cons_of_mem _ hj)
      rw [getMany] at hrest ⊢
      rw [List.filterMap_cons, he, List.map_cons, List.map_cons, hrest, he]

/-- Entities that are there, each listed once, are taken out before the pass goes on. -/
theorem deleteEach_append (hnodup : front.Nodup) (hheld : ∀ i ∈ front, w.contains k i = true)
    (rest : List Ident) :
    deleteEach k (front ++ rest) w = match deleteEach k rest (w.without k front) with
      | (.ok es, w') => (.ok (w.getMany k front ++ es), w')
      | (.error e, w') => (.error e, w') := by
  induction front generalizing w with
  | nil =>
      change deleteEach k rest w = match deleteEach k rest w with
        | (.ok es, w') => (.ok es, w')
        | (.error e, w') => (.error e, w')
      rcases deleteEach k rest w with ⟨_ | _, _⟩ <;> rfl
  | cons i front ih =>
      obtain ⟨hi, hfront⟩ := List.nodup_cons.mp hnodup
      obtain ⟨e, he, hdelete⟩ := delete_of_contains (hheld i (List.mem_cons_self ..))
      -- the entities still to be taken out are not the one just taken out
      have hsame : ∀ j ∈ front,
          (w.setPartition k ((w.partition k).erase i)).find? k j = w.find? k j := by
        intro j hj
        rw [find?_erase, if_neg]
        rintro ⟨-, rfl⟩
        exact hi hj
      have hheld' : ∀ j ∈ front,
          (w.setPartition k ((w.partition k).erase i)).contains k j = true := by
        intro j hj
        rw [contains, hsame j hj]
        exact hheld j (List.mem_cons_of_mem _ hj)
      have hmany : (w.setPartition k ((w.partition k).erase i)).getMany k front
          = w.getMany k front := List.filterMap_congr hsame
      have hfound : w.getMany k (i :: front) = e :: w.getMany k front := by
        simp only [getMany, List.filterMap_cons, he]
      simp only [List.cons_append, deleteEach, hdelete, ih hfront hheld', hmany, hfound]
      have hwithout : w.without k (i :: front)
          = (w.setPartition k ((w.partition k).erase i)).without k front := rfl
      rw [hwithout]
      rcases deleteEach k rest ((w.setPartition k ((w.partition k).erase i)).without k front) with
        ⟨_ | _, _⟩ <;> rfl

/-! ## Both passes -/

theorem deleteMany_of_absent (h : ∃ i ∈ is, w.contains k i = false) :
    deleteMany k is w = (.error ⟨k, is.filter fun i => !w.contains k i⟩, w) := by
  obtain ⟨i, hi, habsent⟩ := h
  have hmissing : (is.filter fun i => !w.contains k i).isEmpty = false := by
    rw [List.isEmpty_eq_false_iff_exists_mem]
    exact ⟨i, List.mem_filter.mpr ⟨hi, by rw [habsent]; rfl⟩⟩
  simp only [deleteMany, hmissing, Bool.false_eq_true, if_false]

theorem deleteMany_of_held (h : ∀ i ∈ is, w.contains k i = true) :
    deleteMany k is w = deleteEach k is w := by
  have hmissing : (is.filter fun i => !w.contains k i) = [] := by
    rw [List.filter_eq_nil_iff]
    intro i hi
    simp [h i hi]
  simp only [deleteMany, hmissing, List.isEmpty_nil, if_true]

theorem deleteMany_of_nodup (hheld : ∀ i ∈ is, w.contains k i = true) (hnodup : is.Nodup) :
    deleteMany k is w = (.ok (w.getMany k is), w.without k is) := by
  have hpass := deleteEach_append hnodup hheld []
  rw [List.append_nil] at hpass
  rw [deleteMany_of_held hheld, hpass]
  simp only [deleteEach, List.append_nil]

/-- The pass stops where an identity is listed again. -/
theorem deleteMany_of_repeated (hheld : ∀ j ∈ front ++ i :: rest, w.contains k j = true)
    (hnodup : front.Nodup) (hi : i ∈ front) :
    deleteMany k (front ++ i :: rest) w = (.error ⟨k, [i]⟩, w.without k front) := by
  have hgone : (w.without k front).find? k i = none := by
    rw [find?_without, if_pos ⟨rfl, hi⟩]
  rw [deleteMany_of_held hheld,
    deleteEach_append hnodup (fun j hj => hheld j (List.mem_append_left _ hj))]
  simp only [deleteEach, delete, hgone]

/-- What deleting several entities should come to, for its answer and the working set it leaves. Either
it reports the identities that were absent and has done nothing, or it returns the entities in the order
in which they are listed and they are gone, and nothing else is. -/
def AllOrNothing (w : WorkingSet) (k : Kind) (is : List Ident) :
    Except NotFound (List Entity) × WorkingSet → Prop
  | (.error e, w') => w' = w ∧ e = ⟨k, is.filter fun i => !w.contains k i⟩
  | (.ok es, w') =>
    es.map some = (distinct is).map (w.find? k)
      ∧ (∀ l i, w'.find? l i = if l = k ∧ i ∈ is then none else w.find? l i)
      ∧ (∀ l, l ≠ k → w'.partitions.get l = w.partitions.get l)
      ∧ w'.baseline = w.baseline ∧ w'.presave = w.presave

/-- Deleting several entities is all or nothing, if no identity is listed twice or one of them is absent.
It succeeds if all of them are there. -/
theorem deleteMany_all_or_nothing (h : is.Nodup ∨ ∃ i ∈ is, w.contains k i = false) :
    w.AllOrNothing k is (deleteMany k is w)
      ∧ ((deleteMany k is w).1.isOk = true ↔ ∀ i ∈ is, w.contains k i = true) := by
  by_cases habsent : ∃ i ∈ is, w.contains k i = false
  · rw [deleteMany_of_absent habsent]
    refine ⟨⟨rfl, rfl⟩, fun hok => (by cases hok), fun hheld => ?_⟩
    obtain ⟨i, hi, hno⟩ := habsent
    rw [hheld i hi] at hno
    cases hno
  · have hnodup : is.Nodup := h.resolve_right habsent
    have hheld : ∀ i ∈ is, w.contains k i = true := by
      intro i hi
      cases hheld : w.contains k i with
      | true => rfl
      | false => exact absurd ⟨i, hi, hheld⟩ habsent
    rw [deleteMany_of_nodup hheld hnodup]
    obtain ⟨hbaseline, hpresave⟩ := snapshots_without w k is
    refine ⟨⟨?_, find?_without w k is, fun l hl => partitions_without w is hl, hbaseline, hpresave⟩,
      fun _ => hheld, fun _ => rfl⟩
    rw [distinct_of_nodup hnodup, map_some_getMany hheld]

/-- Of two products asked for one is absent, and the other stays. -/
theorem absent_product_keeps_other :
    ∃ w, w = empty.insert (.product ⟨.sequential 0, "Lamp", "LAMP-1", 10, 3499⟩)
      ∧ w.AllOrNothing .product [.sequential 0, .sequential 1]
          (deleteMany .product [.sequential 0, .sequential 1] w)
      ∧ (deleteMany .product [.sequential 0, .sequential 1] w).1.isOk = false
      ∧ (deleteMany .product [.sequential 0, .sequential 1] w).2.contains .product (.sequential 0)
          = true := by
  refine ⟨_, rfl, ?_⟩
  generalize hw : empty.insert _ = w
  have habsent : w.contains .product (.sequential 1) = false := by
    subst hw
    rfl
  have hlisted : Ident.sequential 1 ∈ [Ident.sequential 0, .sequential 1] := by simp
  obtain ⟨hall, hok⟩ := deleteMany_all_or_nothing (Or.inr ⟨_, hlisted, habsent⟩)
  refine ⟨hall, ?_, ?_⟩
  · rw [Bool.eq_false_iff, ne_eq, hok]
    intro hheld
    rw [hheld _ hlisted] at habsent
    cases habsent
  · subst hw
    rfl

/-- One product is listed twice. The deletion fails, and the product is gone. -/
theorem repeated_product_lost :
    ∃ w w', w = empty.insert (.product ⟨.sequential 0, "Lamp", "LAMP-1", 10, 3499⟩)
      ∧ deleteMany .product [.sequential 0, .sequential 0] w
          = (.error ⟨.product, [.sequential 0]⟩, w')
      ∧ w.contains .product (.sequential 0) = true ∧ w'.contains .product (.sequential 0) = false
      ∧ ¬ w.AllOrNothing .product [.sequential 0, .sequential 0]
          (deleteMany .product [.sequential 0, .sequential 0] w) := by
  refine ⟨_, _, rfl, rfl, rfl, rfl, ?_⟩
  rintro ⟨hsame, -⟩
  have hgone := congrArg (fun w => w.contains .product (.sequential 0)) hsame
  cases hgone

end WorkingSet

end Stockroom
