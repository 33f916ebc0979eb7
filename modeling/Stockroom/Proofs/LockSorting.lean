import Stockroom.Proofs.Priorities

/-!
# Kinds sorted into lock order

A list of kinds is sorted by priority and then loses its repetitions. Both the removal of repetitions and
the check whether a list is in lock order compare neighbours only. That is enough for the first because no
two kinds have one priority: what has the same priority is the same kind, so after the sort nothing stands
between equal kinds, and what is left ascends strictly (`pairwise_dropRepeats`). It is enough for the
second because priorities are ordered transitively (`LockOrder.isAscending_iff`).

Only one list in strict order has given kinds (`LockOrder.eq_of_ascending`). So the sorted list depends on
nothing but the kinds that occur, and a list is its own sorted list exactly if it is in strict order
(`LockOrder.sort_canonical`).
-/

namespace Stockroom

/-- Where elements of one weight are the same, a list sorted by weight ascends strictly once it has lost
its repetitions. -/
theorem pairwise_dropRepeats {α : Type} [DecidableEq α] {weight : α → Nat}
    (hinj : Function.Injective weight) {xs : List α}
    (h : xs.Pairwise fun x y => weight x ≤ weight y) :
    (dropRepeats xs).Pairwise fun x y => weight x < weight y := by
  fun_induction dropRepeats xs with
  | case1 => exact List.Pairwise.nil
  | case2 x => exact List.pairwise_singleton _ x
  | case3 x rest ih => exact ih (List.pairwise_cons.mp h).2
  | case4 x y rest hne ih =>
      obtain ⟨hx, hrest⟩ := List.pairwise_cons.mp h
      refine List.pairwise_cons.mpr ⟨fun z hz => ?_, ih hrest⟩
      have hxy : weight x < weight y :=
        Nat.lt_of_le_of_ne (hx y (List.mem_cons_self ..)) fun heq => hne (hinj heq)
      -- the right neighbour is strictly above `x`, and everything behind it at least as high
      rcases List.mem_cons.mp (mem_dropRepeats.mp hz) with rfl | hz
      · exact hxy
      · exact Nat.lt_of_lt_of_le hxy (List.rel_of_pairwise_cons hrest hz)

namespace LockOrder

variable (o : LockOrder) (ks : List Kind)

/-- Sorting keeps the kinds of a list. -/
theorem mem_sort (k : Kind) : k ∈ o.sort ks ↔ k ∈ ks :=
  mem_dropRepeats.trans mem_stableSort

theorem pairwise_sort : (o.sort ks).Pairwise fun k l => o.priority k < o.priority l :=
  pairwise_dropRepeats (fun k l => o.injective k l) (o.pairwise_le_arrange ks)

/-- Lists are sorted alike if the same kinds occur in them. -/
theorem sort_eq_sort_iff (ls : List Kind) : o.sort ls = o.sort ks ↔ ∀ k, k ∈ ls ↔ k ∈ ks := by
  constructor
  · intro h k
    rw [← o.mem_sort ls, h, o.mem_sort]
  · intro h
    refine eq_of_ascending (o.pairwise_sort ls) (o.pairwise_sort ks) fun k => ?_
    rw [o.mem_sort, o.mem_sort, h k]

/-- Sorting leaves a list as it is if the list is in strict order. -/
theorem sort_eq_self_iff :
    o.sort ks = ks ↔ ks.Pairwise fun k l => o.priority k < o.priority l :=
  ⟨fun h => h ▸ o.pairwise_sort ks, fun h => eq_of_ascending (o.pairwise_sort ks) h (o.mem_sort ks)⟩

/-- Sorting into lock order is canonical. In any lock order the sorted list ascends strictly in priority,
its kinds are those of the list, and lists are sorted alike exactly if the same kinds occur in them, in
whatever order and however often. The check of neighbours passes exactly the lists that sorting leaves as
they are, which are those in which each kind has a lower priority than all kinds behind it. -/
theorem sort_canonical :
    (o.sort ks).Pairwise (fun k l => o.priority k < o.priority l)
      ∧ (∀ k, k ∈ o.sort ks ↔ k ∈ ks)
      ∧ (∀ ls, o.sort ls = o.sort ks ↔ ∀ k, k ∈ ls ↔ k ∈ ks)
      ∧ (o.isAscending ks = true ↔ o.sort ks = ks)
      ∧ (o.sort ks = ks ↔ ks.Pairwise fun k l => o.priority k < o.priority l) := by
  refine ⟨o.pairwise_sort ks, o.mem_sort ks, o.sort_eq_sort_iff ks, ?_, o.sort_eq_self_iff ks⟩
  exact isAscending_iff.trans (o.sort_eq_self_iff ks).symm

example : standard.sort [.product, .customer, .product] = [.customer, .product] := by decide

end LockOrder

end Stockroom
