/-!
# Stable sorting

`stableSort` sorts by insertion from left to right: each element moves left past the elements it is
strictly less than, so elements that tie keep their order. Any other stable sort gives the same, provided
that the comparison is a strict weak order on the elements. If it is none, only that the elements are
rearranged is more than an accident of this algorithm: another one may leave them in a different order, or
give no result at all. What is said of loads in that case is said of this sort; `Sorter` says what holds
of all.
-/

namespace Stockroom

variable {α : Type}

/-- Moves an element into a sorted list that is held in reverse. -/
def settle (less : α → α → Bool) (x : α) : List α → List α
  | [] => [x]
  | y :: ys => if less x y then y :: settle less x ys else x :: y :: ys

/-- Sorts by insertion, ties keeping their order. The result depends on the algorithm where the comparison
is no strict weak order on the elements. -/
def stableSort (less : α → α → Bool) (xs : List α) : List α :=
  (xs.foldl (fun done x => settle less x done) []).reverse

theorem settle_perm (less : α → α → Bool) (x : α) (ys : List α) :
    (settle less x ys).Perm (x :: ys) := by
  induction ys with
  | nil => exact List.Perm.refl _
  | cons y ys ih =>
    simp only [settle]
    split
    · exact (ih.cons y).trans (List.Perm.swap x y ys)
    · exact List.Perm.refl _

theorem mem_settle {less : α → α → Bool} {x y : α} {ys : List α} :
    y ∈ settle less x ys ↔ y = x ∨ y ∈ ys := (settle_perm less x ys).mem_iff.trans List.mem_cons

/-- Sorting rearranges. -/
theorem stableSort_perm (less : α → α → Bool) (xs : List α) : (stableSort less xs).Perm xs := by
  have general : ∀ (xs done : List α),
      (xs.foldl (fun done x => settle less x done) done).Perm (xs ++ done) := by
    intro xs
    induction xs with
    | nil => intro done; exact List.Perm.refl _
    | cons x xs ih =>
      intro done
      exact (ih _).trans (((settle_perm less x done).append_left xs).trans List.perm_middle)
  have h := general xs []
  rw [List.append_nil] at h
  exact (List.reverse_perm _).trans h

theorem mem_stableSort {less : α → α → Bool} {x : α} {xs : List α} :
    x ∈ stableSort less xs ↔ x ∈ xs := (stableSort_perm less xs).mem_iff

/-- Drops each element that equals its right neighbour. -/
def dropRepeats [DecidableEq α] : List α → List α
  | [] => []
  | [x] => [x]
  | x :: y :: rest => if x = y then dropRepeats (y :: rest) else x :: dropRepeats (y :: rest)

theorem mem_dropRepeats [DecidableEq α] {x : α} {xs : List α} : x ∈ dropRepeats xs ↔ x ∈ xs := by
  fun_induction dropRepeats xs with
  | case1 => exact Iff.rfl
  | case2 y => exact Iff.rfl
  | case3 y rest ih => simp [ih]
  | case4 y z rest hne ih => simp [ih]

/-- The elements in order of first occurrence, each once. -/
def distinct [DecidableEq α] (xs : List α) : List α :=
  xs.foldl (fun seen x => if x ∈ seen then seen else seen ++ [x]) []

theorem mem_distinct [DecidableEq α] {x : α} {xs : List α} : x ∈ distinct xs ↔ x ∈ xs := by
  have general : ∀ (xs seen : List α),
      x ∈ xs.foldl (fun seen x => if x ∈ seen then seen else seen ++ [x]) seen ↔
        x ∈ seen ∨ x ∈ xs := by
    intro xs
    induction xs with
    | nil => simp
    | cons y ys ih =>
      intro seen
      simp only [List.foldl_cons, ih, List.mem_cons]
      split
      · rename_i hy
        exact ⟨fun h => h.imp id Or.inr, fun h => by
          rcases h with h | rfl | h
          · exact Or.inl h
          · exact Or.inl hy
          · exact Or.inr h⟩
      · simp [or_assoc]
  simpa [distinct] using general xs []

end Stockroom
