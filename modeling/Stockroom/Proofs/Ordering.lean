import Mathlib.Algebra.Order.Ring.Rat
import Mathlib.Data.String.Basic
import Stockroom.Proofs.Selecting

/-!
# Sorted rows

Rows are sorted by insertion, under a comparison of one of their values. If on the rows at hand that
comparison is a strict weak order - no two rows come before each other, and whatever lies between two
rows in order is apart from one of them (`Ranks`) - the result is sorted by it, and rows that tie are in
the order they were in (`Ranks.pairwise_stableSort`).

The comparison of values is such an order on values that are no numbers, or integers of 64 bits with
sign. There it is the order by shape, and by content among booleans, integers and texts (`Value.Below`,
`Value.order_eq_lt_iff`). Fractional numbers and larger integers are compared by their nearest binary64
numbers, which can tie with integers that are compared exactly among themselves, so for these there may
be no such order.
-/

namespace Stockroom

/-! ## Sorting by a strict weak order -/

section

variable {α : Type} {less : α → α → Bool} {B R : α → α → Prop} {xs : List α}

/-- On the elements of a list a comparison is a strict weak order. -/
structure Ranks (less : α → α → Bool) (B : α → α → Prop) (xs : List α) : Prop where
  decides : ∀ a ∈ xs, ∀ b ∈ xs, less a b = true ↔ B a b
  asymm : ∀ a ∈ xs, ∀ b ∈ xs, B a b → ¬ B b a
  parts : ∀ a ∈ xs, ∀ b ∈ xs, ∀ c ∈ xs, B a c → B a b ∨ B b c

/-- An element comes before another by one order, or ties with it and comes first by a second one. -/
def TieBroken (B R : α → α → Prop) (a b : α) : Prop := B a b ∨ (¬ B b a ∧ R a b)

theorem Ranks.pairwise_settle (h : Ranks less B xs) {x : α} (hx : x ∈ xs) {done : List α}
    (hdone : ∀ y ∈ done, y ∈ xs) (hbefore : ∀ y ∈ done, R y x)
    (hsorted : done.Pairwise fun b a => TieBroken B R a b) :
    (settle less x done).Pairwise fun b a => TieBroken B R a b := by
  induction done with
  | nil => exact List.pairwise_singleton _ _
  | cons y ys ih =>
      obtain ⟨hy, hys⟩ := List.pairwise_cons.mp hsorted
      have hrest : ∀ z ∈ ys, z ∈ xs := fun z hz => hdone z (List.mem_cons_of_mem _ hz)
      have hyxs := hdone y (List.mem_cons_self ..)
      simp only [settle]
      split
      · rename_i hless
        have hsettled := ih hrest (fun z hz => hbefore z (List.mem_cons_of_mem _ hz)) hys
        refine List.pairwise_cons.mpr ⟨fun z hz => ?_, hsettled⟩
        rcases mem_settle.mp hz with rfl | hz
        · exact Or.inl ((h.decides _ hx _ hyxs).mp hless)
        · exact hy z hz
      · rename_i hless
        have hxy : ¬ B x y := mt (h.decides _ hx _ hyxs).mpr hless
        refine List.pairwise_cons.mpr ⟨fun z hz => Or.inr ⟨fun hxz => ?_, hbefore z hz⟩, hsorted⟩
        rcases List.mem_cons.mp hz with rfl | hz
        · exact hxy hxz
        · -- `y` is not behind `x`, so if `x` came before `z`, `y` would as well
          have hyz : B y z := (h.parts _ hx _ hyxs _ (hrest z hz) hxz).resolve_left hxy
          rcases hy z hz with hzy | ⟨hnot, -⟩
          · exact h.asymm _ (hrest z hz) _ hyxs hzy hyz
          · exact hnot hyz

/-- A sorted list is in order, and elements that tie are in the order they were in. -/
theorem Ranks.pairwise_stableSort (h : Ranks less B xs) (hR : xs.Pairwise R) :
    (stableSort less xs).Pairwise (TieBroken B R) := by
  have general : ∀ rest done : List α, (∀ y ∈ rest, y ∈ xs) → (∀ y ∈ done, y ∈ xs) →
      rest.Pairwise R → (∀ y ∈ done, ∀ x ∈ rest, R y x) →
      (done.Pairwise fun b a => TieBroken B R a b) →
      (rest.foldl (fun done x => settle less x done) done).Pairwise
        fun b a => TieBroken B R a b := by
    intro rest
    induction rest with
    | nil => exact fun done _ _ _ _ hsorted => hsorted
    | cons x rest ih =>
        intro done hrest hdone hR hbefore hsorted
        obtain ⟨hxR, hR⟩ := List.pairwise_cons.mp hR
        have hx := hrest x (List.mem_cons_self ..)
        refine ih _ (fun y hy => hrest y (List.mem_cons_of_mem _ hy)) (fun y hy => ?_) hR
          (fun y hy z hz => ?_)
          (h.pairwise_settle hx hdone (fun y hy => hbefore y hy x (List.mem_cons_self ..)) hsorted)
        · rcases mem_settle.mp hy with rfl | hy
          · exact hx
          · exact hdone y hy
        · rcases mem_settle.mp hy with rfl | hy
          · exact hxR z hz
          · exact hbefore y hy z (List.mem_cons_of_mem _ hz)
  rw [stableSort, List.pairwise_reverse]
  exact general xs [] (fun _ hy => hy) (fun _ hy => (List.not_mem_nil hy).elim) hR
    (fun _ hy => (List.not_mem_nil hy).elim) List.Pairwise.nil

end

/-! ## Comparing values -/

theorem compareOfLessAndEq_swap {α : Type} [LinearOrder α] (a b : α) :
    compareOfLessAndEq b a = (compareOfLessAndEq a b).swap :=
  compareOfLessAndEq_eq_swap le_antisymm (le_total · ·) not_le

theorem Number.order_swap (a b : Number) : b.order a = (a.order b).swap := by
  have hmixed := compareOfLessAndEq_swap a.approximate b.approximate
  cases a <;> cases b
  case integer.integer m n =>
    by_cases hsigned : InSignedRange m ∧ InSignedRange n
    · rw [order, order, if_pos hsigned, if_pos hsigned.symm]
      exact compareOfLessAndEq_swap m n
    · rw [order, order, if_neg hsigned, if_neg (mt And.symm hsigned)]
      exact compareOfLessAndEq_swap (nearest m) (nearest n)
  all_goals exact hmixed

namespace Value

/-- A value comes before another one: by their shapes, or among booleans, integers and texts by what
they hold. -/
inductive Below : Value → Value → Prop
  | shape {a b : Value} (h : a.rank < b.rank) : Below a b
  | bool : Below (.bool false) (.bool true)
  | integer {m n : Int} (h : m < n) : Below (.number (.integer m)) (.number (.integer n))
  | text {s t : String} (h : s < t) : Below (.text s) (.text t)

/-- Values that are compared exactly: all but fractional numbers and integers of more than 64 bits with
sign. -/
def Sortable : Value → Prop
  | .number (.integer n) => Number.InSignedRange n
  | .number _ => False
  | _ => True

variable {a b c : Value}

@[simp] theorem below_bool_iff {x y : Bool} : Below (.bool x) (.bool y) ↔ x < y := by
  constructor
  · intro h
    cases h with
    | shape h => exact absurd h (Nat.lt_irrefl _)
    | bool => decide
  · intro h
    obtain ⟨rfl, rfl⟩ : x = false ∧ y = true := by revert h; cases x <;> cases y <;> decide
    exact .bool

@[simp] theorem below_integer_iff {m n : Int} :
    Below (.number (.integer m)) (.number (.integer n)) ↔ m < n := by
  constructor
  · intro h
    cases h with
    | shape h => exact absurd h (Nat.lt_irrefl _)
    | integer h => exact h
  · exact .integer

@[simp] theorem below_text_iff {s t : String} : Below (.text s) (.text t) ↔ s < t := by
  constructor
  · intro h
    cases h with
    | shape h => exact absurd h (Nat.lt_irrefl _)
    | text h => exact h
  · exact .text

theorem order_swap (a b : Value) : b.order a = (a.order b).swap := by
  have hrank := compareOfLessAndEq_swap a.rank b.rank
  cases a <;> cases b
  case number.number => exact Number.order_swap _ _
  case bool.bool => exact compareOfLessAndEq_swap _ _
  case text.text => exact compareOfLessAndEq_swap _ _
  all_goals exact hrank

/-- Values that are compared exactly are compared as `Below` says. -/
theorem order_eq_lt_iff (ha : a.Sortable) (hb : b.Sortable) : a.order b = .lt ↔ a.Below b := by
  have hrank : compareOfLessAndEq a.rank b.rank = .lt ↔ a.rank < b.rank := compareOfLessAndEq_eq_lt
  cases a <;> cases b
  case bool.bool x y =>
    rw [below_bool_iff, order, compareOfLessAndEq_eq_lt]
    cases x <;> cases y <;> decide
  case number.number x y =>
    cases x with
    | integer m =>
        cases y with
        | integer n =>
            rw [below_integer_iff, order, Number.order, if_pos ⟨ha, hb⟩, compareOfLessAndEq_eq_lt]
        | _ => exact hb.elim
    | _ => exact ha.elim
  case text.text s t => rw [below_text_iff, order, compareOfLessAndEq_eq_lt]
  -- in all other cases the shapes alone decide
  all_goals
    refine hrank.trans ⟨.shape, fun h => ?_⟩
    cases h
    assumption

/-- Whatever is compared exactly is apart from one of two values in order. -/
theorem Below.parts (h : a.Below c) (hb : b.Sortable) : a.Below b ∨ b.Below c := by
  rcases Nat.lt_or_ge a.rank b.rank with hab | hba
  · exact Or.inl (.shape hab)
  · rcases Nat.lt_or_ge b.rank c.rank with hbc | hcb
    · exact Or.inr (.shape hbc)
    · -- all three are of one shape
      cases h with
      | shape h => exact absurd (Nat.lt_of_lt_of_le h hcb) (Nat.not_lt_of_ge hba)
      | bool =>
          cases b with
          | bool y => cases y <;> simp
          | _ => cases Nat.le_antisymm hba hcb
      | integer hmn =>
          cases b with
          | number y =>
              cases y with
              | integer k => rw [below_integer_iff, below_integer_iff]; omega
              | _ => exact hb.elim
          | _ => cases Nat.le_antisymm hba hcb
      | @text s t hst =>
          cases b with
          | text u =>
              rw [below_text_iff, below_text_iff]
              exact (lt_or_ge s u).imp id fun hus => lt_of_le_of_lt hus hst
          | _ => cases Nat.le_antisymm hba hcb

theorem Below.asymm (h : a.Below b) : ¬ b.Below a := by
  intro h'
  cases h with
  | shape h =>
      cases h' with
      | shape h' => exact Nat.lt_asymm h h'
      | _ => exact Nat.lt_irrefl _ h
  | bool => exact absurd (below_bool_iff.mp h') (by decide)
  | integer h => exact Int.lt_asymm h (below_integer_iff.mp h')
  | text h => exact String.lt_asymm h (below_text_iff.mp h')

end Value

/-! ## Sorting by a key -/

namespace SortKey

variable {key : SortKey} {a b : Value}

/-- By a key one row comes before another one: its value is below the other's, or above it if the key
is descending. -/
def Before (key : SortKey) (a b : Value) : Prop :=
  if key.descending then (key.valueOf b).Below (key.valueOf a)
  else (key.valueOf a).Below (key.valueOf b)

theorem precedes_iff (ha : (key.valueOf a).Sortable) (hb : (key.valueOf b).Sortable) :
    key.precedes a b = true ↔ key.Before a b := by
  unfold precedes Before
  cases key.descending with
  | false => simp [Value.order_eq_lt_iff ha hb]
  | true => simp [← Value.order_swap, Value.order_eq_lt_iff hb ha]

/-- Rows whose values are compared exactly are ranked by the key. -/
theorem ranks {α : Type} {row : α → Value} {xs : List α}
    (h : ∀ x ∈ xs, (key.valueOf (row x)).Sortable) :
    Ranks (fun x y => key.precedes (row x) (row y)) (fun x y => key.Before (row x) (row y)) xs where
  decides x hx y hy := precedes_iff (h x hx) (h y hy)
  asymm x hx y hy := by
    unfold Before
    split <;> exact Value.Below.asymm
  parts x hx y hy z hz := by
    unfold Before
    split
    · exact fun hxz => (hxz.parts (h y hy)).symm
    · exact fun hxz => hxz.parts (h y hy)

end SortKey

end Stockroom
