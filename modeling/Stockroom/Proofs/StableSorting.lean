import Stockroom.Proofs.Isolation
import Stockroom.Proofs.Ordering

/-!
# Any stable sort

A stable sort brings elements in order and leaves those that tie in the order they were in
(`SortedStably`). If the comparison ranks the elements that says it all. Sorting by insertion gives such a
list (`Ranks.sortedStably_stableSort`), and there is no other one (`Ranks.eq_of_sortedStably`), so every
stable sort gives what insertion gives.

A comparison that does not rank the elements leaves almost everything open. A sort may give them in any
order then, and it may break off without a result; what it gives it must neither lose nor repeat. A
`Sorter` is a sort of which no more is known than that. `Query.selectWith` and `Database.loadWith` select
and load with it, and as long as the key of the query ranks the rows that are sorted, they are
`Query.select` and `Database.load` (`Database.loadWith_eq`). A key does so unless it comes across values
that are not compared exactly (`Query.exists_of_not_ranksRows`).
-/

namespace Stockroom

/-! ## What makes a sort stable -/

section

variable {α : Type} {less : α → α → Bool} {B : α → α → Prop} {xs ys zs : List α}

/-- Neither of two elements is strictly less. -/
def ties (less : α → α → Bool) (a b : α) : Bool := !less a b && !less b a

/-- The elements of a list are in order, and those that tie are in the order they had. -/
structure SortedStably (less : α → α → Bool) (xs ys : List α) : Prop where
  perm : ys.Perm xs
  ordered : ys.Pairwise fun a b => less b a = false
  kept : ∀ a ∈ xs, ys.filter (ties less a) = xs.filter (ties less a)

theorem Ranks.less_self (h : Ranks less B xs) {a : α} (ha : a ∈ xs) : less a a = false := by
  rw [Bool.eq_false_iff]
  intro hless
  have hB := (h.decides a ha a ha).mp hless
  exact h.asymm a ha a ha hB hB

/-- Two elements of which one comes before the other do not both tie with a third one. -/
theorem Ranks.ties_eq_false (h : Ranks less B xs) {a b c : α} (ha : a ∈ xs) (hb : b ∈ xs) (hc : c ∈ xs)
    (hless : less b c = true) : ties less a b = false ∨ ties less a c = false := by
  have hbc := (h.decides b hb c hc).mp hless
  rcases h.parts b hb a ha c hc hbc with hba | hac
  · exact Or.inl (by simp [ties, (h.decides b hb a ha).mpr hba])
  · exact Or.inr (by simp [ties, (h.decides a ha c hc).mpr hac])

/-- An element that settles passes none that it ties with. -/
theorem Ranks.filter_settle (h : Ranks less B xs) {a x : α} (ha : a ∈ xs) (hx : x ∈ xs) {done : List α}
    (hdone : ∀ y ∈ done, y ∈ xs) :
    (settle less x done).filter (ties less a) = (x :: done).filter (ties less a) := by
  induction done with
  | nil => rfl
  | cons y ys ih =>
      have hsettled := ih fun z hz => hdone z (List.mem_cons_of_mem _ hz)
      simp only [settle]
      split
      · rename_i hless
        rcases h.ties_eq_false ha hx (hdone y (List.mem_cons_self ..)) hless with hax | hay
        · simp [List.filter_cons, hsettled, hax]
        · simp [List.filter_cons, hsettled, hay]
      · rfl

theorem Ranks.filter_stableSort (h : Ranks less B xs) {a : α} (ha : a ∈ xs) :
    (stableSort less xs).filter (ties less a) = xs.filter (ties less a) := by
  have general : ∀ rest done : List α, (∀ y ∈ rest, y ∈ xs) → (∀ y ∈ done, y ∈ xs) →
      (rest.foldl (fun done x => settle less x done) done).filter (ties less a)
        = (rest.reverse ++ done).filter (ties less a) := by
    intro rest
    induction rest with
    | nil => exact fun done _ _ => rfl
    | cons x rest ih =>
        intro done hrest hdone
        have hx := hrest x (List.mem_cons_self ..)
        have hsettled : ∀ y ∈ settle less x done, y ∈ xs := by
          intro y hy
          rcases mem_settle.mp hy with rfl | hy
          · exact hx
          · exact hdone y hy
        rw [List.foldl_cons, ih _ (fun y hy => hrest y (List.mem_cons_of_mem _ hy)) hsettled,
          List.filter_append, h.filter_settle ha hx hdone, ← List.filter_append, List.reverse_cons,
          List.append_assoc, List.singleton_append]
  rw [stableSort, List.filter_reverse,
    general xs [] (fun _ hy => hy) fun _ hy => (List.not_mem_nil hy).elim, List.append_nil,
    List.filter_reverse, List.reverse_reverse]

/-- Sorting by insertion is stable. -/
theorem Ranks.sortedStably_stableSort (h : Ranks less B xs) : SortedStably less xs (stableSort less xs) where
  perm := stableSort_perm less xs
  ordered := by
    have hsorted := h.pairwise_stableSort (R := fun _ _ => True)
      (List.pairwise_of_forall fun _ _ => trivial)
    refine hsorted.imp_of_mem fun {a b} ha hb hab => ?_
    rw [mem_stableSort] at ha hb
    have hnot : ¬ B b a := hab.elim (h.asymm a ha b hb) And.left
    exact Bool.eq_false_iff.mpr (mt (h.decides b hb a ha).mp hnot)
  kept _ ha := h.filter_stableSort ha

/-- Lists in order with the same elements are the same if elements that tie come in one order. -/
theorem Ranks.eq_of_filter_eq (h : Ranks less B xs) (hmem : ∀ a ∈ ys, a ∈ xs) (hperm : ys.Perm zs)
    (hys : ys.Pairwise fun a b => less b a = false) (hzs : zs.Pairwise fun a b => less b a = false)
    (hkept : ∀ a ∈ ys, ys.filter (ties less a) = zs.filter (ties less a)) : ys = zs := by
  induction ys generalizing zs with
  | nil => exact hperm.nil_eq
  | cons y ys ih =>
      have hyxs := hmem y (List.mem_cons_self ..)
      cases zs with
      | nil => exact hperm.eq_nil
      | cons z zs =>
          -- neither of the first elements is less than the other
          have hzy : less z y = false := by
            rcases List.mem_cons.mp (hperm.mem_iff.mpr (List.mem_cons_self ..)) with rfl | hz
            · exact h.less_self hyxs
            · exact (List.pairwise_cons.mp hys).1 z hz
          have hyz : less y z = false := by
            rcases List.mem_cons.mp (hperm.mem_iff.mp (List.mem_cons_self ..)) with rfl | hy
            · exact h.less_self hyxs
            · exact (List.pairwise_cons.mp hzs).1 y hy
          have hfirst := hkept y (List.mem_cons_self ..)
          rw [List.filter_cons_of_pos (by simp [ties, h.less_self hyxs]),
            List.filter_cons_of_pos (by simp [ties, hzy, hyz])] at hfirst
          obtain rfl := (List.cons.inj hfirst).1
          refine congrArg _ (ih (fun a ha => hmem a (List.mem_cons_of_mem _ ha)) hperm.cons_inv
            (List.pairwise_cons.mp hys).2 (List.pairwise_cons.mp hzs).2 fun a ha => ?_)
          have hrest := hkept a (List.mem_cons_of_mem _ ha)
          rw [List.filter_cons, List.filter_cons] at hrest
          split at hrest
          · exact (List.cons.inj hrest).2
          · exact hrest

/-- What a comparison ranks can be sorted stably in one way only. -/
theorem Ranks.eq_of_sortedStably (h : Ranks less B xs) (hys : SortedStably less xs ys)
    (hzs : SortedStably less xs zs) : ys = zs := by
  refine h.eq_of_filter_eq (fun a ha => hys.perm.mem_iff.mp ha) (hys.perm.trans hzs.perm.symm)
    hys.ordered hzs.ordered fun a ha => ?_
  rw [hys.kept a (hys.perm.mem_iff.mp ha), hzs.kept a (hys.perm.mem_iff.mp ha)]

end

/-! ## Sorts that may break off -/

/-- A stable sort, as far as its promises go. What it gives is a rearrangement, and it sorts whatever the
comparison ranks. Nothing else is said: where the comparison does not rank the elements, there may be no
result, and a result may be in any order. -/
structure Sorter (α : Type) where
  sort : (α → α → Bool) → List α → Option (List α)
  perm : ∀ {less : α → α → Bool} {xs ys : List α}, sort less xs = some ys → ys.Perm xs
  sorts : ∀ {less : α → α → Bool} {B : α → α → Prop} {xs : List α}, Ranks less B xs →
    ∃ ys, sort less xs = some ys ∧ SortedStably less xs ys

namespace Sorter

variable {α : Type}

/-- Sorting by insertion, which never breaks off. -/
def insertion : Sorter α where
  sort less xs := some (stableSort less xs)
  perm := by
    rintro less xs ys h
    obtain rfl := Option.some.inj h
    exact stableSort_perm less xs
  sorts h := ⟨_, rfl, h.sortedStably_stableSort⟩

/-- Every sorter gives what insertion gives, if the comparison ranks the elements. -/
theorem sort_eq (σ : Sorter α) {less : α → α → Bool} {B : α → α → Prop} {xs : List α}
    (h : Ranks less B xs) : σ.sort less xs = some (stableSort less xs) := by
  obtain ⟨ys, hsort, hys⟩ := σ.sorts h
  rw [hsort, h.eq_of_sortedStably hys h.sortedStably_stableSort]

end Sorter

/-! ## Selecting and loading -/

namespace Query

variable {q : Query} {rows : List Value}

/-- Rows in the order the query asks for, if the sort gives a result. -/
def sortRowsWith (σ : Sorter Value) (q : Query) (rows : List Value) : Option (List Value) :=
  match q.sortKey with
  | none => some rows
  | some key => σ.sort key.precedes rows

/-- The rows of a table that the query selects, if the sort gives a result. -/
def selectWith (σ : Sorter Value) (q : Query) (t : Table Value) : Option (List Value) :=
  (q.sortRowsWith σ (t.values.filter q.accepts)).map q.window

/-- The sort key of a query, if there is one, ranks rows. -/
def RanksRows (q : Query) (rows : List Value) : Prop :=
  ∀ key, q.sortKey = some key → ∃ B, Ranks key.precedes B rows

/-- What a key does not rank has a value that is not compared exactly. -/
theorem exists_of_not_ranksRows (h : ¬ q.RanksRows rows) :
    ∃ key, q.sortKey = some key ∧ (∀ B, ¬ Ranks key.precedes B rows)
      ∧ ∃ row ∈ rows, ¬ (key.valueOf row).Sortable := by
  unfold RanksRows at h
  push Not at h
  obtain ⟨key, hkey, hnone⟩ := h
  refine ⟨key, hkey, hnone, ?_⟩
  by_contra hall
  push Not at hall
  exact hnone _ (@SortKey.ranks key Value id rows hall)

theorem sortRowsWith_eq (σ : Sorter Value) (h : q.RanksRows rows) :
    q.sortRowsWith σ rows = some (q.sortRows rows) := by
  unfold sortRowsWith sortRows
  cases hkey : q.sortKey with
  | none => rfl
  | some key =>
      obtain ⟨B, hranks⟩ := h key hkey
      exact σ.sort_eq hranks

/-- Only rows that a key does not rank can make a sort break off. -/
theorem exists_of_sortRowsWith_eq_none {σ : Sorter Value} (h : q.sortRowsWith σ rows = none) :
    ∃ key, q.sortKey = some key ∧ (∀ B, ¬ Ranks key.precedes B rows)
      ∧ ∃ row ∈ rows, ¬ (key.valueOf row).Sortable := by
  refine exists_of_not_ranksRows fun hranks => ?_
  rw [sortRowsWith_eq σ hranks] at h
  cases h

theorem selectWith_eq (σ : Sorter Value) {t : Table Value} (h : q.RanksRows (t.values.filter q.accepts)) :
    q.selectWith σ t = some (q.select t) := by
  rw [selectWith, sortRowsWith_eq σ h]
  rfl

/-- The window is cut out of what the sort gives. -/
theorem selectWith_window (σ : Sorter Value) (q : Query) (t : Table Value) (offset limit : Option Nat) :
    ({ q with offset := offset, limit := limit } : Query).selectWith σ t
      = (q.sortRowsWith σ (t.values.filter q.accepts)).map (cut offset limit) := rfl

theorem selectWith_insertion (q : Query) (t : Table Value) :
    q.selectWith .insertion t = some (q.select t) := by
  unfold selectWith select sortRowsWith sortRows
  cases q.sortKey <;> rfl

end Query

namespace Database

variable {db : Database} {s : Nat} {k : Kind} {q : Query}

/-- Loads what a query selects in the session's view, if the sort gives a result. -/
def loadWith (σ : Sorter Value) (s : Nat) (k : Kind) (q : Query) (db : Database) :
    Option (Except StoreError (List Entity) × Database) :=
  match db.pendingLoads.get k with
  | some c => some (.error (.contention c), { db with pendingLoads := db.pendingLoads.set k none })
  | none => (q.selectWith σ (db.view s k)).map fun rows =>
      match decode k rows with
      | .error e => (.error e, db)
      | .ok es => (.ok es, db.record (.loaded s k q.lock es.length))

theorem loadWith_of_selectWith_eq {σ : Sorter Value}
    (h : q.selectWith σ (db.view s k) = some (q.select (db.view s k))) :
    loadWith σ s k q db = some (load s k q db) := by
  unfold loadWith load
  rw [h]
  cases db.pendingLoads.get k <;> rfl

/-- Sorting by insertion, a load always gives a result. -/
theorem loadWith_insertion (s : Nat) (k : Kind) (q : Query) (db : Database) :
    loadWith .insertion s k q db = some (load s k q db) :=
  loadWith_of_selectWith_eq (q.selectWith_insertion _)

/-- Every stable sort loads alike if the key ranks the rows that are sorted. -/
theorem loadWith_eq (σ : Sorter Value) (h : q.RanksRows ((db.view s k).values.filter q.accepts)) :
    loadWith σ s k q db = some (load s k q db) :=
  loadWith_of_selectWith_eq (Query.selectWith_eq σ h)

/-- With no failure pending, a load gives what the query selects in the session's view. -/
theorem loadWith_result (h : db.pendingLoads.get k = none) (σ : Sorter Value) (q : Query) :
    (loadWith σ s k q db).map Prod.fst = (q.selectWith σ (db.view s k)).map (decode k) := by
  unfold loadWith
  rw [h, Option.map_map]
  refine congrArg (fun f => Option.map f _) (funext fun rows => ?_)
  rw [Function.comp_apply]
  cases decode k rows <;> rfl

end Database

end Stockroom
