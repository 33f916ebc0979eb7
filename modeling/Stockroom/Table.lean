import Stockroom.Ident

/-!
# Tables

A table maps identities to values and lists its entries in ascending order of identity. The order is
part of the type, so a table is determined by its lookups (`Table.ext_find?`).
-/

namespace Stockroom

/-- Entries in strictly ascending order of identity. -/
structure Table (α : Type) where
  entries : List (Ident × α)
  ascending : entries.Pairwise (fun a b => a.1 < b.1)
deriving DecidableEq

namespace Table

variable {α β : Type}

/-! ## Entry lists -/

/-- The value at `i` in an entry list. -/
def lookup (i : Ident) : List (Ident × α) → Option α
  | [] => none
  | (j, a) :: es => if i = j then some a else lookup i es

/-- Places an entry in order, replacing one of the same identity. -/
def place (i : Ident) (a : α) : List (Ident × α) → List (Ident × α)
  | [] => [(i, a)]
  | (j, b) :: es =>
    if i < j then (i, a) :: (j, b) :: es
    else if i = j then (i, a) :: es
    else (j, b) :: place i a es

/-- Removes the entry of an identity. -/
def remove (i : Ident) (es : List (Ident × α)) : List (Ident × α) :=
  es.filter fun e => e.1 ≠ i

theorem mem_place {i : Ident} {a : α} {e : Ident × α} {es : List (Ident × α)}
    (h : e ∈ place i a es) : e = (i, a) ∨ e ∈ es := by
  induction es with
  | nil => simpa [place] using h
  | cons hd es ih =>
    simp only [place] at h
    split at h
    · simpa using h
    · split at h
      · simp only [List.mem_cons] at h ⊢
        exact h.imp id Or.inr
      · simp only [List.mem_cons] at h ⊢
        rcases h with rfl | h
        · exact Or.inr (Or.inl rfl)
        · exact (ih h).imp id Or.inr

theorem pairwise_place (i : Ident) (a : α) {es : List (Ident × α)}
    (h : es.Pairwise fun a b => a.1 < b.1) : (place i a es).Pairwise fun a b => a.1 < b.1 := by
  induction es with
  | nil => simp [place]
  | cons hd es ih =>
    obtain ⟨hhd, htl⟩ := List.pairwise_cons.mp h
    simp only [place]
    split
    · rename_i hlt
      refine List.pairwise_cons.mpr ⟨fun e he => ?_, h⟩
      rcases List.mem_cons.mp he with rfl | he
      · exact hlt
      · exact Ident.lt_trans hlt (hhd e he)
    · rename_i hlt
      split
      · rename_i heq
        exact List.pairwise_cons.mpr ⟨fun e he => heq ▸ hhd e he, htl⟩
      · rename_i hne
        refine List.pairwise_cons.mpr ⟨fun e he => ?_, ih htl⟩
        rcases mem_place he with rfl | he
        · exact Ident.lt_of_not_lt_of_ne hlt hne
        · exact hhd e he

theorem lookup_eq_none {i : Ident} {es : List (Ident × α)} (h : ∀ e ∈ es, e.1 ≠ i) :
    lookup i es = none := by
  induction es with
  | nil => rfl
  | cons hd es ih =>
    have hne : ¬ i = hd.1 := fun e => h hd (by simp) e.symm
    simp only [lookup, if_neg hne]
    exact ih fun e he => h e (by simp [he])

theorem lookup_place (i j : Ident) (a : α) (es : List (Ident × α)) :
    lookup j (place i a es) = if j = i then some a else lookup j es := by
  induction es with
  | nil => simp [place, lookup]
  | cons hd es ih =>
    simp only [place]
    split
    · simp [lookup]
    · split
      · rename_i heq
        simp only [lookup, heq]
        split <;> simp_all
      · rename_i hne
        simp only [lookup, ih]
        split <;> simp_all [eq_comm]

theorem lookup_remove (i j : Ident) (es : List (Ident × α)) :
    lookup j (remove i es) = if j = i then none else lookup j es := by
  induction es with
  | nil => simp [remove, lookup]
  | cons hd es ih =>
    by_cases h : hd.1 = i
    · have hdrop : remove i (hd :: es) = remove i es := by simp [remove, h]
      rw [hdrop, ih]
      simp only [lookup, h]
      split <;> rfl
    · have hkeep : remove i (hd :: es) = hd :: remove i es := by simp [remove, h]
      rw [hkeep]
      simp only [lookup, ih]
      by_cases hj : j = hd.1 <;> simp_all

/-! ## Tables -/

def empty : Table α := ⟨[], List.Pairwise.nil⟩

def find? (t : Table α) (i : Ident) : Option α := lookup i t.entries

def contains (t : Table α) (i : Ident) : Bool := (t.find? i).isSome

/-- Adds an entry or replaces the one of the same identity. -/
def insert (t : Table α) (i : Ident) (a : α) : Table α :=
  ⟨place i a t.entries, pairwise_place i a t.ascending⟩

def erase (t : Table α) (i : Ident) : Table α :=
  ⟨remove i t.entries, t.ascending.sublist List.filter_sublist⟩

def size (t : Table α) : Nat := t.entries.length

def idents (t : Table α) : List Ident := t.entries.map (·.1)

/-- The values, in ascending order of identity. -/
def values (t : Table α) : List α := t.entries.map (·.2)

def map (f : α → β) (t : Table α) : Table β :=
  ⟨t.entries.map fun e => (e.1, f e.2), by
    rw [List.pairwise_map]; exact t.ascending⟩

/-- The entries from left to right, a later entry of one identity replacing an earlier one. -/
def ofList (es : List (Ident × α)) : Table α :=
  es.foldl (fun t e => t.insert e.1 e.2) empty

@[simp] theorem find?_empty (i : Ident) : (empty : Table α).find? i = none := rfl

theorem find?_insert (t : Table α) (i j : Ident) (a : α) :
    (t.insert i a).find? j = if j = i then some a else t.find? j :=
  lookup_place i j a t.entries

theorem find?_erase (t : Table α) (i j : Ident) :
    (t.erase i).find? j = if j = i then none else t.find? j :=
  lookup_remove i j t.entries

theorem find?_map (f : α → β) (t : Table α) (i : Ident) :
    (t.map f).find? i = (t.find? i).map f := by
  simp only [find?, map]
  induction t.entries with
  | nil => rfl
  | cons e es ih => simp only [List.map_cons, lookup]; split <;> simp_all

/-- An entry is in the table exactly if its identity finds its value. -/
theorem mem_entries_iff {t : Table α} {i : Ident} {a : α} :
    (i, a) ∈ t.entries ↔ t.find? i = some a := by
  obtain ⟨es, h⟩ := t
  simp only [find?]
  induction es with
  | nil => simp [lookup]
  | cons hd es ih =>
    obtain ⟨hhd, htl⟩ := List.pairwise_cons.mp h
    simp only [List.mem_cons, lookup]
    split
    · rename_i heq
      constructor
      · rintro (rfl | hmem)
        · rfl
        · exact absurd heq.symm (Ident.ne_of_lt (hhd _ hmem))
      · rintro he
        exact Or.inl (by cases hd; simp_all)
    · rename_i hne
      rw [← ih htl]
      exact ⟨fun hm => hm.resolve_left fun e => hne (by simp [← e]), Or.inr⟩

/-- Two tables with the same lookups are the same table. -/
theorem ext_find? {s t : Table α} (h : ∀ i, s.find? i = t.find? i) : s = t := by
  obtain ⟨xs, hx⟩ := s
  obtain ⟨ys, hy⟩ := t
  simp only [mk.injEq]
  have hmem : ∀ e : Ident × α, e ∈ xs ↔ e ∈ ys := fun e => by
    have hx' := @mem_entries_iff α ⟨xs, hx⟩ e.1 e.2
    have hy' := @mem_entries_iff α ⟨ys, hy⟩ e.1 e.2
    rw [h e.1] at hx'
    exact hx'.trans hy'.symm
  clear h
  induction xs generalizing ys with
  | nil =>
    cases ys with
    | nil => rfl
    | cons y ys => exact absurd ((hmem y).mpr (by simp)) (by simp)
  | cons x xs ih =>
    cases ys with
    | nil => exact absurd ((hmem x).mp (by simp)) (by simp)
    | cons y ys =>
      obtain ⟨hxh, hxt⟩ := List.pairwise_cons.mp hx
      obtain ⟨hyh, hyt⟩ := List.pairwise_cons.mp hy
      have hxy : x = y := by
        rcases List.mem_cons.mp ((hmem x).mp (by simp)) with e | hin
        · exact e
        · rcases List.mem_cons.mp ((hmem y).mpr (by simp)) with e | hin'
          · exact e.symm
          · exact absurd (hxh y hin') (Ident.lt_asymm (hyh x hin))
      subst hxy
      refine congrArg (x :: ·) (ih hxt ys hyt fun e => ?_)
      have := hmem e
      simp only [List.mem_cons] at this
      constructor
      · intro he
        exact (this.mp (Or.inr he)).resolve_left fun heq => Ident.lt_irrefl _ (heq ▸ hxh e he)
      · intro he
        exact (this.mpr (Or.inr he)).resolve_left fun heq => Ident.lt_irrefl _ (heq ▸ hyh e he)

end Table

end Stockroom
