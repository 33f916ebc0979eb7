import Stockroom.Fault
import Stockroom.Sorting

/-!
# The lock order

A lock order gives every kind a priority, and no two kinds the same. Whoever locks kinds in ascending
priority can never wait for a lock in a circle. A table of priorities makes a lock order if it covers
every kind and no row takes a priority that another kind holds at that point; a later row of a kind
replaces its earlier one.
-/

namespace Stockroom

structure LockOrder where
  priorities : PerKind Nat
  injective : ∀ k l, priorities.get k = priorities.get l → k = l

namespace LockOrder

def priority (o : LockOrder) (k : Kind) : Nat := o.priorities.get k

/-- Customers before their purchases before the products of those purchases. -/
def standard : LockOrder where
  priorities := ⟨0, 2, 7⟩
  injective := by intro k l; cases k <;> cases l <;> simp [PerKind.get]

/-! ## Tables of priorities -/

/-- No two kinds hold one priority. -/
def Distinct (held : PerKind (Option Nat)) : Prop :=
  ∀ k l p, held.get k = some p → held.get l = some p → k = l

/-- The kind that holds a priority. -/
def holder? (held : PerKind (Option Nat)) (p : Nat) : Option Kind :=
  Kind.all.find? fun k => held.get k = some p

theorem distinct_set {held : PerKind (Option Nat)} {k : Kind} {p : Nat} (h : Distinct held)
    (hk : ∀ l, held.get l = some p → l = k) : Distinct (held.set k (some p)) := by
  intro a b q ha hb
  rw [PerKind.get_set] at ha hb
  by_cases hak : a = k <;> by_cases hbk : b = k
  · rw [hak, hbk]
  · rw [if_pos hak] at ha
    rw [if_neg hbk] at hb
    exact absurd (hk b (by rw [hb, ← ha])) hbk
  · rw [if_neg hak] at ha
    rw [if_pos hbk] at hb
    exact absurd (hk a (by rw [ha, ← hb])) hak
  · rw [if_neg hak] at ha
    rw [if_neg hbk] at hb
    exact h a b q ha hb

theorem holder?_eq_none {held : PerKind (Option Nat)} {p : Nat} (h : holder? held p = none)
    (l : Kind) : held.get l ≠ some p := by
  have := List.find?_eq_none.mp h l (Kind.mem_all l)
  simpa using this

theorem get_of_holder? {held : PerKind (Option Nat)} {p : Nat} {k : Kind}
    (h : holder? held p = some k) : held.get k = some p := by
  simpa using List.find?_some h

/-- Reads the rows of a table onto the priorities already held. -/
def assign (held : { held // Distinct held }) :
    List (Kind × Nat) → Except PlanFault { held // Distinct held }
  | [] => .ok held
  | (k, p) :: rows =>
    match h : holder? held.1 p with
    | none =>
      assign ⟨held.1.set k (some p),
        distinct_set held.2 fun l hl => absurd hl (holder?_eq_none h l)⟩ rows
    | some first =>
      if hf : first = k then
        assign ⟨held.1.set k (some p), distinct_set held.2 fun l hl =>
          hf ▸ held.2 l first p hl (get_of_holder? h)⟩ rows
      else .error (.priorityTie p first k)

/-- The lock order of priorities that cover every kind. -/
def ofHeld (held : PerKind (Option Nat)) (h : Distinct held) : Except PlanFault LockOrder :=
  match hc : held.get .customer, hu : held.get .purchase, hp : held.get .product with
  | some c, some u, some p =>
    have covered : ∀ k, held.get k = some ((PerKind.mk c u p).get k) := by
      intro k; cases k <;> assumption
    .ok ⟨⟨c, u, p⟩, fun k l e => h k l _ (covered k) (e ▸ covered l)⟩
  | none, _, _ => .error (.missingPriority .customer)
  | some _, none, _ => .error (.missingPriority .purchase)
  | some _, some _, none => .error (.missingPriority .product)

def ofRows (rows : List (Kind × Nat)) : Except PlanFault LockOrder :=
  match assign ⟨PerKind.fill none, fun _ _ _ h => by simp at h⟩ rows with
  | .ok held => ofHeld held.1 held.2
  | .error fault => .error fault

/-- The lock order a table of priorities describes. -/
def ofTable (rows : List (Kind × Nat)) : Except PlanError LockOrder :=
  (ofRows rows).mapError fun fault => ⟨none, fault⟩

/-! ## Kinds in lock order -/

/-- Kinds by ascending priority, ties in the order given. -/
def arrange (o : LockOrder) (ks : List Kind) : List Kind :=
  stableSort (fun k l => o.priority k < o.priority l) ks

/-- Every kind, in the order in which to load and lock. -/
def forward (o : LockOrder) : List Kind := o.arrange Kind.all

/-- Every kind, in the order in which to save and delete. -/
def backward (o : LockOrder) : List Kind := o.forward.reverse

/-- The kinds of a list in lock order, each once. -/
def sort (o : LockOrder) (ks : List Kind) : List Kind := dropRepeats (o.arrange ks)

/-- Whether each kind has a lower priority than its right neighbour. -/
def isAscending (o : LockOrder) : List Kind → Bool
  | [] | [_] => true
  | k :: l :: rest => o.priority k < o.priority l && o.isAscending (l :: rest)

/-- The check of neighbours finds whether each kind has a lower priority than all kinds behind it. -/
theorem isAscending_iff {o : LockOrder} {ks : List Kind} :
    o.isAscending ks = true ↔ ks.Pairwise fun k l => o.priority k < o.priority l := by
  induction ks with
  | nil => simp [isAscending]
  | cons k ks ih =>
    cases ks with
    | nil => simp [isAscending]
    | cons l ks =>
      rw [isAscending, Bool.and_eq_true, decide_eq_true_eq, ih, List.pairwise_cons (l := l :: ks)]
      refine and_congr_left fun hrest => ⟨fun hkl m hm => ?_, fun h => h l (List.mem_cons_self ..)⟩
      rcases List.mem_cons.mp hm with rfl | hm
      · exact hkl
      · exact Nat.lt_trans hkl (List.rel_of_pairwise_cons hrest hm)

theorem mem_backward (o : LockOrder) (k : Kind) : k ∈ o.backward := by
  simp [backward, forward, arrange, mem_stableSort, Kind.mem_all]

theorem nodup_backward (o : LockOrder) : o.backward.Nodup := by
  unfold backward forward arrange
  exact (List.reverse_perm _).nodup_iff.mpr ((stableSort_perm _ _).nodup_iff.mpr Kind.nodup_all)

end LockOrder

end Stockroom
