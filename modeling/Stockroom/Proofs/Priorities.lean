import Mathlib.Data.List.Sort
import Stockroom.LockOrder
import Stockroom.Proofs.Ordering

/-!
# Tables of priorities

What a table of priorities says can be read off its rows. The last row of a kind gives the kind its
priority (`LockOrder.lastAssigned`), and a row ties if by the rows before it another kind has the
priority it gives (`LockOrder.Ties`). Reading the rows one by one keeps just what they say so far, so the
first row that ties is reported, then the first kind that has no row, and otherwise there is a lock order
that gives every kind what its last row says (`LockOrder.ofTable_verdict`).

The reading keeps one map, from kinds to priorities, and looks a holder up in it; the kinds are sorted
when there is a lock order. They can be kept in order all along in a second map, from priorities to kinds
(`LockOrder.Register`). Then a kind that has a row already has to give up the priority it had, or it would
be in the order twice, and a kind that loses a priority of its own would be missing. The invariant is that
each of the two maps is the other one turned round (`LockOrder.Register.Mirrors`).
-/

namespace Stockroom.LockOrder

/-! ## What a table says -/

/-- The priority that the last row of a kind gives it. -/
def lastAssigned (rows : List (Kind × Nat)) (k : Kind) : Option Nat :=
  (rows.filter fun r => r.1 = k).getLast?.map (·.2)

/-- By the rows before it, another kind has the priority that a row gives. -/
def Ties (before : List (Kind × Nat)) (row : Kind × Nat) (first : Kind) : Prop :=
  first ≠ row.1 ∧ lastAssigned before first = some row.2

/-- No row of a list ties, after the given rows. -/
def TieFree (before rows : List (Kind × Nat)) : Prop :=
  ∀ mid row after, rows = mid ++ row :: after → ∀ first, ¬ Ties (before ++ mid) row first

/-- Why a table is refused: its first row that ties, or else its first kind without a row. -/
inductive Refused (rows : List (Kind × Nat)) : PlanFault → Prop where
  | tie {before after : List (Kind × Nat)} {k first : Kind} {p : Nat}
      (hrows : rows = before ++ (k, p) :: after) (hfree : TieFree [] before)
      (htie : Ties before (k, p) first) : Refused rows (.priorityTie p first k)
  | missing {k : Kind} (hfree : TieFree [] rows)
      (hk : Kind.all.find? (fun k => (lastAssigned rows k).isNone) = some k) :
      Refused rows (.missingPriority k)

/-- A lock order gives every kind what its last row says, no two of them the same, and lists all of them
by ascending priority, or the other way round. -/
structure Describes (rows : List (Kind × Nat)) (o : LockOrder) : Prop where
  assigned : ∀ k, lastAssigned rows k = some (o.priority k)
  distinct : ∀ k l, o.priority k = o.priority l → k = l
  ascending : o.forward.Pairwise fun k l => o.priority k < o.priority l
  complete : ∀ k, o.forward.count k = 1
  reversed : o.backward = o.forward.reverse

variable {before rows : List (Kind × Nat)} {row : Kind × Nat} {k first : Kind} {p : Nat}

theorem lastAssigned_concat (before : List (Kind × Nat)) (k : Kind) (p : Nat) (l : Kind) :
    lastAssigned (before ++ [(k, p)]) l = if l = k then some p else lastAssigned before l := by
  by_cases hl : l = k
  · simp [lastAssigned, hl]
  · have hk : ¬ k = l := fun h => hl h.symm
    simp [lastAssigned, hl, hk]

theorem tieFree_nil (before : List (Kind × Nat)) : TieFree before [] := by
  intro mid row after h
  simp at h

theorem tieFree_cons :
    TieFree before (row :: rows) ↔ (∀ first, ¬ Ties before row first) ∧ TieFree (before ++ [row]) rows := by
  constructor
  · intro h
    refine ⟨by simpa using h [] row rows rfl, fun mid row' after hrows => ?_⟩
    have hlater := h (row :: mid) row' after (by rw [hrows]; rfl)
    rwa [List.append_cons] at hlater
  · rintro ⟨hrow, hrest⟩ mid row' after hrows
    cases mid with
    | nil =>
        obtain ⟨rfl, -⟩ := List.cons.inj hrows
        rwa [List.append_nil]
    | cons row'' mid =>
        obtain ⟨rfl, htail⟩ := List.cons.inj hrows
        rw [List.append_cons]
        exact hrest mid row' after htail

/-- Rows are free of ties, or there is a first one that ties. -/
theorem tieFree_or_ties (before rows : List (Kind × Nat)) :
    TieFree before rows ∨ ∃ mid row after first, rows = mid ++ row :: after ∧ TieFree before mid
      ∧ Ties (before ++ mid) row first := by
  induction rows generalizing before with
  | nil => exact Or.inl (tieFree_nil before)
  | cons row rows ih =>
      by_cases htie : ∃ first, Ties before row first
      · obtain ⟨first, htie⟩ := htie
        exact Or.inr ⟨[], row, rows, first, rfl, tieFree_nil before, by rwa [List.append_nil]⟩
      · have hrow := not_exists.mp htie
        rcases ih (before ++ [row]) with hrest | ⟨mid, row', after, first, rfl, hmid, hties⟩
        · exact Or.inl (tieFree_cons.mpr ⟨hrow, hrest⟩)
        · rw [← List.append_cons] at hties
          exact Or.inr ⟨row :: mid, row', after, first, rfl, tieFree_cons.mpr ⟨hrow, hmid⟩, hties⟩

/-! ## Reading rows -/

/-- Priorities are held just as rows say. -/
def Holds (rows : List (Kind × Nat)) (held : PerKind (Option Nat)) : Prop :=
  ∀ k, held.get k = lastAssigned rows k

theorem holds_nil : Holds [] (PerKind.fill none) := fun k => PerKind.get_fill none k

theorem Holds.set {held : PerKind (Option Nat)} (h : Holds before held) (k : Kind) (p : Nat) :
    Holds (before ++ [(k, p)]) (held.set k (some p)) := by
  intro l
  rw [PerKind.get_set, lastAssigned_concat, h l]

section

variable (held : { held // Distinct held })

theorem holder?_eq_some_iff : holder? held.1 p = some k ↔ held.1.get k = some p := by
  refine ⟨get_of_holder?, fun h => ?_⟩
  cases hholder : holder? held.1 p with
  | none => exact absurd h (holder?_eq_none hholder k)
  | some l => rw [held.2 l k p (get_of_holder? hholder) h]

/-- Another kind holds a priority, or none but the given one does. -/
theorem tie_or_free (k : Kind) (p : Nat) :
    (∃ first, first ≠ k ∧ held.1.get first = some p) ∨ ∀ l, held.1.get l = some p → l = k := by
  refine or_iff_not_imp_left.mpr fun htie l hl => ?_
  by_contra hne
  exact htie ⟨l, hne, hl⟩

theorem assign_cons_of_tie (hne : first ≠ k) (hfirst : held.1.get first = some p)
    (rows : List (Kind × Nat)) : assign held ((k, p) :: rows) = .error (.priorityTie p first k) := by
  have hholder := (holder?_eq_some_iff held).mpr hfirst
  rw [assign]
  split
  · rename_i hnone
    rw [hholder] at hnone
    cases hnone
  · rename_i first' hsome
    obtain rfl : first = first' := Option.some.inj (hholder.symm.trans hsome)
    rw [dif_neg hne]

theorem assign_cons_of_free (hfree : ∀ l, held.1.get l = some p → l = k) (rows : List (Kind × Nat)) :
    ∃ h, assign held ((k, p) :: rows) = assign ⟨held.1.set k (some p), h⟩ rows := by
  refine ⟨distinct_set held.2 hfree, ?_⟩
  rw [assign]
  split
  · rfl
  · rename_i first hsome
    rw [dif_pos (hfree first (get_of_holder? hsome))]

/-- Without a tie all rows are read. -/
theorem exists_assign_of_tieFree (h : Holds before held.1) (hfree : TieFree before rows) :
    ∃ held', assign held rows = .ok held' ∧ Holds (before ++ rows) held'.1 := by
  induction rows generalizing before held with
  | nil => exact ⟨held, rfl, by rwa [List.append_nil]⟩
  | cons row rows ih =>
      obtain ⟨k, p⟩ := row
      obtain ⟨hrow, hrest⟩ := tieFree_cons.mp hfree
      have hk : ∀ l, held.1.get l = some p → l = k :=
        (tie_or_free held k p).resolve_left fun ⟨first, hne, hfirst⟩ =>
          hrow first ⟨hne, (h first).symm.trans hfirst⟩
      obtain ⟨hdistinct, hassign⟩ := assign_cons_of_free held hk rows
      rw [hassign, List.append_cons]
      exact ih ⟨_, hdistinct⟩ (h.set k p) hrest

theorem assign_append {held held' : { held // Distinct held }} {rows : List (Kind × Nat)}
    (h : assign held rows = .ok held') (more : List (Kind × Nat)) :
    assign held (rows ++ more) = assign held' more := by
  induction rows generalizing held with
  | nil => rw [← Except.ok.inj h, List.nil_append]
  | cons row rows ih =>
      obtain ⟨k, p⟩ := row
      rcases tie_or_free held k p with ⟨first, hne, hfirst⟩ | hfree
      · rw [assign_cons_of_tie held hne hfirst] at h
        cases h
      · obtain ⟨hdistinct, hassign⟩ := assign_cons_of_free held hfree rows
        obtain ⟨_, hassign'⟩ := assign_cons_of_free held hfree (rows ++ more)
        rw [hassign] at h
        rw [List.cons_append, hassign', ih h]

end

/-! ## Tables -/

/-- The first kind that holds no priority is missing, if there is one. -/
theorem ofHeld_spec (held : PerKind (Option Nat)) (h : Distinct held) :
    match ofHeld held h with
    | .ok o => ∀ k, held.get k = some (o.priority k)
    | .error fault => ∃ k, Kind.all.find? (fun k => (held.get k).isNone) = some k
        ∧ fault = .missingPriority k := by
  obtain ⟨_ | c, _ | u, _ | p⟩ := held
  case some.some.some =>
    intro k
    cases k <;> rfl
  case some.some.none => exact ⟨.product, rfl, rfl⟩
  case some.none.none | some.none.some => exact ⟨.purchase, rfl, rfl⟩
  all_goals exact ⟨.customer, rfl, rfl⟩

theorem eq_of_priority {o o' : LockOrder} (h : ∀ k, o.priority k = o'.priority k) : o = o' := by
  obtain ⟨priorities, _⟩ := o
  obtain ⟨priorities', _⟩ := o'
  obtain rfl : priorities = priorities' := PerKind.ext_get h
  rfl

theorem ofHeld_eq_ok_iff {held : PerKind (Option Nat)} {h : Distinct held} {o : LockOrder} :
    ofHeld held h = .ok o ↔ ∀ k, held.get k = some (o.priority k) := by
  have hmade := ofHeld_spec held h
  cases hheld : ofHeld held h <;> rw [hheld] at hmade
  case ok o' =>
    refine ⟨fun ho => Except.ok.inj ho ▸ hmade, fun ho => congrArg _ ?_⟩
    exact eq_of_priority fun k => Option.some.inj ((hmade k).symm.trans (ho k))
  case error fault =>
    obtain ⟨k, hk, -⟩ := hmade
    refine ⟨(nomatch ·), fun ho => ?_⟩
    have hnone := List.find?_some hk
    rw [ho k] at hnone
    cases hnone

theorem ofHeld_eq_error_iff {held : PerKind (Option Nat)} {h : Distinct held} {fault : PlanFault} :
    ofHeld held h = .error fault ↔
      ∃ k, Kind.all.find? (fun k => (held.get k).isNone) = some k ∧ fault = .missingPriority k := by
  have hmade := ofHeld_spec held h
  cases hheld : ofHeld held h <;> rw [hheld] at hmade
  case ok o =>
    refine ⟨(nomatch ·), fun ⟨k, hk, _⟩ => ?_⟩
    have hnone := List.find?_some hk
    rw [hmade k] at hnone
    cases hnone
  case error fault' =>
    obtain ⟨k, hk, rfl⟩ := hmade
    simp [hk, eq_comm]

theorem ofRows_of_tieFree (hfree : TieFree [] rows) :
    ∃ held h, Holds rows held ∧ ofRows rows = ofHeld held h := by
  obtain ⟨held, hassign, hholds⟩ :=
    exists_assign_of_tieFree ⟨.fill none, fun _ _ _ h => by simp at h⟩ holds_nil hfree
  exact ⟨held.1, held.2, hholds, by rw [ofRows, hassign]⟩

theorem ofRows_of_tie (hfree : TieFree [] before) (htie : Ties before (k, p) first)
    (after : List (Kind × Nat)) :
    ofRows (before ++ (k, p) :: after) = .error (.priorityTie p first k) := by
  obtain ⟨held, hassign, hholds⟩ :=
    exists_assign_of_tieFree ⟨.fill none, fun _ _ _ h => by simp at h⟩ holds_nil hfree
  rw [ofRows, assign_append hassign,
    assign_cons_of_tie held htie.1 ((hholds first).trans htie.2)]

/-- A table describes a lock order if none of its rows ties and no kind is missing. -/
theorem ofRows_eq_ok_iff {o : LockOrder} :
    ofRows rows = .ok o ↔ TieFree [] rows ∧ ∀ k, lastAssigned rows k = some (o.priority k) := by
  rcases tieFree_or_ties [] rows with hfree | ⟨before, ⟨k, p⟩, after, first, rfl, hbefore, htie⟩
  · obtain ⟨held, hdistinct, hholds, hrows⟩ := ofRows_of_tieFree hfree
    rw [hrows, ofHeld_eq_ok_iff, and_iff_right hfree]
    exact forall_congr' fun k => by rw [hholds k]
  · rw [ofRows_of_tie hbefore htie]
    exact ⟨(nomatch ·), fun h => absurd htie (h.1 before _ after rfl first)⟩

theorem ofRows_eq_error_iff {fault : PlanFault} : ofRows rows = .error fault ↔ Refused rows fault := by
  constructor
  · intro h
    rcases tieFree_or_ties [] rows with hfree | ⟨before, ⟨k, p⟩, after, first, rfl, hbefore, htie⟩
    · obtain ⟨held, hdistinct, hholds, hrows⟩ := ofRows_of_tieFree hfree
      obtain ⟨k, hk, rfl⟩ := ofHeld_eq_error_iff.mp (hrows.symm.trans h)
      exact .missing hfree (by simpa only [hholds _] using hk)
    · rw [ofRows_of_tie hbefore htie] at h
      exact Except.error.inj h ▸ .tie rfl hbefore htie
  · rintro (⟨rfl, hfree, htie⟩ | ⟨hfree, hk⟩)
    · exact ofRows_of_tie hfree htie _
    · obtain ⟨held, hdistinct, hholds, hrows⟩ := ofRows_of_tieFree hfree
      rw [hrows]
      exact ofHeld_eq_error_iff.mpr ⟨_, by simpa only [hholds _] using hk, rfl⟩

/-! ## Kinds in lock order -/

/-- Sorted by priority, no kind has a higher priority than a kind behind it. -/
theorem pairwise_le_arrange (o : LockOrder) (ks : List Kind) :
    (o.arrange ks).Pairwise fun k l => o.priority k ≤ o.priority l := by
  have hranks : Ranks (fun k l => decide (o.priority k < o.priority l))
      (fun k l => o.priority k < o.priority l) ks :=
    ⟨by simp, fun _ _ _ _ hlt hgt => Nat.lt_asymm hlt hgt, fun _ _ _ _ _ _ hlt => by omega⟩
  have hsorted := hranks.pairwise_stableSort (List.pairwise_of_forall fun _ _ => trivial)
  exact hsorted.imp fun h => h.elim Nat.le_of_lt fun ⟨hnot, _⟩ => Nat.not_lt.mp hnot

/-- If no two kinds are the same, every kind has a lower priority than all kinds behind it. -/
theorem pairwise_arrange (o : LockOrder) {ks : List Kind} (h : ks.Nodup) :
    (o.arrange ks).Pairwise fun k l => o.priority k < o.priority l := by
  have hnodup : (o.arrange ks).Nodup := (stableSort_perm _ ks).nodup_iff.mpr h
  refine ((o.pairwise_le_arrange ks).and hnodup).imp fun {k l} ⟨hle, hne⟩ => ?_
  exact Nat.lt_of_le_of_ne hle fun heq => hne (o.injective k l heq)

/-- Of the lists of the same kinds only one is in strict order. -/
theorem eq_of_ascending {o : LockOrder} {ks ls : List Kind}
    (hks : ks.Pairwise fun k l => o.priority k < o.priority l)
    (hls : ls.Pairwise fun k l => o.priority k < o.priority l) (h : ∀ k, k ∈ ks ↔ k ∈ ls) :
    ks = ls := by
  have hne : ∀ {k l : Kind}, o.priority k < o.priority l → k ≠ l := by
    rintro k l hlt rfl
    exact Nat.lt_irrefl _ hlt
  have hperm : ks.Perm ls := (List.perm_ext_iff_of_nodup (hks.imp hne) (hls.imp hne)).mpr h
  exact hperm.eq_of_pairwise (fun k l _ _ hkl hlk => absurd hkl (Nat.lt_asymm hlk)) hks hls

theorem count_forward (o : LockOrder) (k : Kind) : o.forward.count k = 1 := by
  rw [forward, arrange, (stableSort_perm _ _).count_eq]
  cases k <;> rfl

theorem describes_iff {o : LockOrder} :
    Describes rows o ↔ ∀ k, lastAssigned rows k = some (o.priority k) :=
  ⟨Describes.assigned,
    fun h => ⟨h, o.injective, o.pairwise_arrange Kind.nodup_all, o.count_forward, rfl⟩⟩

/-! ## With a second map -/

/-- The priorities assigned so far, and by ascending priority the kinds that have them. -/
structure Register where
  assigned : PerKind (Option Nat)
  owners : List (Nat × Kind)

namespace Register

def empty : Register := ⟨.fill none, []⟩

/-- The kind that has a priority. -/
def owner? (r : Register) (p : Nat) : Option Kind := (r.owners.find? fun o => o.1 = p).map (·.2)

/-- The owners without the one of a priority. -/
def without (owners : List (Nat × Kind)) (p : Nat) : List (Nat × Kind) :=
  owners.filter fun o => o.1 ≠ p

/-- The owners after a kind has given up the priority it had. -/
def released (r : Register) (k : Kind) : List (Nat × Kind) :=
  match r.assigned.get k with
  | some previous => without r.owners previous
  | none => r.owners

/-- Gives a kind a priority, in place of the one it had. -/
def assign (r : Register) (k : Kind) (p : Nat) : Register where
  assigned := r.assigned.set k (some p)
  owners := (without (r.released k) p).orderedInsert (fun a b => a.1 < b.1) (p, k)

/-- Assigns the priorities of rows, up to the first that another kind has. -/
def read (r : Register) : List (Kind × Nat) → Except PlanFault Register
  | [] => .ok r
  | (k, p) :: rows =>
    match r.owner? p with
    | some first => if first ≠ k then .error (.priorityTie p first k) else (r.assign k p).read rows
    | none => (r.assign k p).read rows

/-- The kinds of a table by ascending priority, if it covers all of them. -/
def order (rows : List (Kind × Nat)) : Except PlanFault (List Kind) :=
  match empty.read rows with
  | .error fault => .error fault
  | .ok r =>
    match Kind.all.find? fun k => (r.assigned.get k).isNone with
    | some k => .error (.missingPriority k)
    | none => .ok (r.owners.map (·.2))

/-- The owners are the assigned priorities turned round, in order. -/
structure Mirrors (r : Register) : Prop where
  ascending : r.owners.Pairwise fun a b => a.1 < b.1
  inverse : ∀ p k, (p, k) ∈ r.owners ↔ r.assigned.get k = some p

theorem mirrors_empty : empty.Mirrors where
  ascending := List.Pairwise.nil
  inverse p k := by simp [empty]

theorem pairwise_insert {owners : List (Nat × Kind)} (h : owners.Pairwise fun a b => a.1 < b.1)
    (k : Kind) {p : Nat} (hp : ∀ o ∈ owners, o.1 ≠ p) :
    (owners.orderedInsert (fun a b => a.1 < b.1) (p, k)).Pairwise fun a b => a.1 < b.1 := by
  induction owners with
  | nil => exact List.pairwise_singleton _ _
  | cons o owners ih =>
      obtain ⟨ho, hrest⟩ := List.pairwise_cons.mp h
      rw [List.orderedInsert_cons]
      split
      · rename_i hlt
        refine List.pairwise_cons.mpr ⟨fun o' ho' => ?_, h⟩
        rcases List.mem_cons.mp ho' with rfl | ho'
        · exact hlt
        · exact Nat.lt_trans hlt (ho o' ho')
      · rename_i hnot
        have hop : o.1 < p := Nat.lt_of_le_of_ne (Nat.not_lt.mp hnot) (hp o (List.mem_cons_self ..))
        refine List.pairwise_cons.mpr ⟨fun o' ho' => ?_,
          ih hrest fun o' ho' => hp o' (List.mem_cons_of_mem _ ho')⟩
        rcases List.mem_orderedInsert _ |>.mp ho' with rfl | ho'
        · exact hop
        · exact ho o' ho'

variable {r : Register}

/-- A kind gives up its own priority and no other. -/
theorem Mirrors.mem_released (h : r.Mirrors) (hdistinct : Distinct r.assigned) {q : Nat} {l : Kind} :
    (q, l) ∈ r.released k ↔ l ≠ k ∧ r.assigned.get l = some q := by
  unfold released
  cases hk : r.assigned.get k with
  | none =>
      rw [h.inverse]
      refine ⟨fun hl => ⟨?_, hl⟩, And.right⟩
      rintro rfl
      rw [hk] at hl
      cases hl
  | some previous =>
      simp only [without, List.mem_filter, decide_eq_true_eq, h.inverse]
      rw [and_comm]
      refine and_congr_left fun hl => not_congr ⟨?_, ?_⟩
      · rintro rfl
        exact hdistinct l k _ hl hk
      · rintro rfl
        exact Option.some.inj (hl.symm.trans hk)

theorem Mirrors.assign (h : r.Mirrors) (hdistinct : Distinct r.assigned)
    (hfree : ∀ l, r.assigned.get l = some p → l = k) : (r.assign k p).Mirrors where
  ascending := by
    have hreleased : (r.released k).Pairwise fun a b => a.1 < b.1 := by
      unfold released
      split
      · exact h.ascending.sublist List.filter_sublist
      · exact h.ascending
    exact pairwise_insert (hreleased.sublist List.filter_sublist) k fun o ho => by
      simpa using (List.mem_filter.mp ho).2
  inverse q l := by
    have hfilter : (q, l) ∈ without (r.released k) p ↔
        (l ≠ k ∧ r.assigned.get l = some q) ∧ q ≠ p := by
      rw [← h.mem_released hdistinct]
      simp [without]
    simp only [Register.assign, List.mem_orderedInsert, hfilter, PerKind.get_set, Prod.mk.injEq]
    by_cases hl : l = k
    · simp [hl, eq_comm]
    · have hne : r.assigned.get l = some q → q ≠ p := by
        rintro hq rfl
        exact hl (hfree l hq)
      simp only [hl, and_false, false_or, if_false, ne_eq, not_false_eq_true, true_and]
      exact and_iff_left_of_imp hne

theorem Mirrors.owner?_eq_some_iff (h : r.Mirrors) (hdistinct : Distinct r.assigned) :
    r.owner? p = some k ↔ r.assigned.get k = some p := by
  unfold owner?
  constructor
  · intro hk
    obtain ⟨⟨q, l⟩, hfind, rfl⟩ := Option.map_eq_some_iff.mp hk
    obtain rfl : q = p := by simpa using List.find?_some hfind
    exact (h.inverse q l).mp (List.mem_of_find?_eq_some hfind)
  · intro hk
    cases hfind : r.owners.find? fun o => o.1 = p with
    | none =>
        have hnot := List.find?_eq_none.mp hfind (p, k) ((h.inverse p k).mpr hk)
        simp at hnot
    | some o =>
        obtain ⟨q, l⟩ := o
        obtain rfl : q = p := by simpa using List.find?_some hfind
        have hl := (h.inverse q l).mp (List.mem_of_find?_eq_some hfind)
        exact congrArg some (hdistinct l k q hl hk)

/-- With and without the second map rows are read to the same priorities, or refused for the same. -/
theorem read_eq (h : r.Mirrors) (held : { held // Distinct held }) (hassigned : r.assigned = held.1)
    (rows : List (Kind × Nat)) :
    (r.read rows).map Register.assigned = (LockOrder.assign held rows).map Subtype.val
      ∧ ∀ r', r.read rows = .ok r' → r'.Mirrors := by
  induction rows generalizing r held with
  | nil => exact ⟨congrArg Except.ok hassigned, fun r' hr' => Except.ok.inj hr' ▸ h⟩
  | cons row rows ih =>
      obtain ⟨k, p⟩ := row
      have hdistinct : Distinct r.assigned := hassigned ▸ held.2
      rcases tie_or_free held k p with ⟨first, hne, hfirst⟩ | hfree
      · have howner : r.owner? p = some first :=
          (h.owner?_eq_some_iff hdistinct).mpr (hassigned ▸ hfirst)
        rw [assign_cons_of_tie held hne hfirst]
        simp only [read, howner, ne_eq, hne, not_false_eq_true, if_true]
        exact ⟨rfl, fun r' hr' => nomatch hr'⟩
      · obtain ⟨hset, hassign⟩ := assign_cons_of_free held hfree rows
        have hread : r.read ((k, p) :: rows) = (r.assign k p).read rows := by
          cases howner : r.owner? p with
          | none => simp only [read, howner]
          | some first =>
              have hfirst := (h.owner?_eq_some_iff hdistinct).mp howner
              simp [read, howner, hfree first (hassigned ▸ hfirst)]
        rw [hread, hassign]
        refine ih (h.assign hdistinct (hassigned ▸ hfree)) ⟨_, hset⟩ ?_
        rw [Register.assign, hassigned]

/-- Owners of all kinds are in the order of a lock order with their priorities. -/
theorem Mirrors.kinds_eq {o : LockOrder} (h : r.Mirrors)
    (ho : ∀ k, r.assigned.get k = some (o.priority k)) : r.owners.map (·.2) = o.forward := by
  have howner : ∀ a ∈ r.owners, o.priority a.2 = a.1 := by
    rintro ⟨q, l⟩ ha
    exact Option.some.inj ((ho l).symm.trans ((h.inverse q l).mp ha))
  have hasc : (r.owners.map (·.2)).Pairwise fun k l => o.priority k < o.priority l := by
    rw [List.pairwise_map]
    refine h.ascending.imp_of_mem fun {a b} ha hb hab => ?_
    rwa [howner a ha, howner b hb]
  refine eq_of_ascending hasc (o.pairwise_arrange Kind.nodup_all) fun k => ?_
  refine iff_of_true (List.mem_map.mpr ⟨(o.priority k, k), (h.inverse _ k).mpr (ho k), rfl⟩) ?_
  exact mem_stableSort.mpr k.mem_all

/-- Kept in the second map all along, the kinds of a table are in the order they are sorted in. -/
theorem order_eq (rows : List (Kind × Nat)) : order rows = (ofRows rows).map forward := by
  obtain ⟨hsame, hmirrors⟩ := read_eq mirrors_empty
    ⟨.fill none, fun _ _ _ h => by simp at h⟩ rfl rows
  unfold order ofRows
  cases hread : empty.read rows <;> rw [hread] at hsame
  case error fault =>
    cases hassign : LockOrder.assign _ rows <;> rw [hassign] at hsame
    case error fault' =>
      obtain rfl : fault = fault' := Except.error.inj hsame
      rfl
    case ok => cases hsame
  case ok r =>
    cases hassign : LockOrder.assign _ rows <;> rw [hassign] at hsame
    case error => cases hsame
    case ok held =>
      have hassigned : r.assigned = held.1 := Except.ok.inj hsame
      simp only [hassigned]
      cases hheld : ofHeld held.1 held.2
      case error fault =>
        obtain ⟨k, hk, rfl⟩ := ofHeld_eq_error_iff.mp hheld
        rw [hk]
        rfl
      case ok o =>
        have hmade := ofHeld_eq_ok_iff.mp hheld
        have hnone : Kind.all.find? (fun k => (held.1.get k).isNone) = none :=
          List.find?_eq_none.mpr fun k _ => by rw [hmade k]; exact Bool.noConfusion
        rw [hnone]
        exact congrArg Except.ok ((hmirrors r hread).kinds_eq fun k => hassigned ▸ hmade k)

end Register

/-! ## Tables -/

/-- A table describes a lock order unless one of its rows ties or a kind has no row, and no other lock
order than the one it describes is made of it. A table that is refused is refused for its first row that
ties, with the kind that had the priority before the kind of the row, or else for its first kind without a
row. A second map from priorities to kinds, kept with every row, gives the same order and the same
refusals. -/
theorem ofTable_verdict (rows : List (Kind × Nat)) :
    ((∃ o, ofTable rows = .ok o) ↔ TieFree [] rows ∧ ∀ k, lastAssigned rows k ≠ none)
      ∧ (∀ o, ofTable rows = .ok o ↔ TieFree [] rows ∧ Describes rows o)
      ∧ (∀ e, ofTable rows = .error e ↔ e.entry = none ∧ Refused rows e.fault)
      ∧ (ofTable rows).map forward = (Register.order rows).mapError (PlanError.mk none) := by
  have hok : ∀ o, ofTable rows = .ok o ↔ TieFree [] rows ∧ Describes rows o := by
    intro o
    rw [describes_iff, ← ofRows_eq_ok_iff, ofTable]
    cases ofRows rows <;> simp [Except.mapError]
  have herror : ∀ e, ofTable rows = .error e ↔ e.entry = none ∧ Refused rows e.fault := by
    rintro ⟨entry, fault⟩
    rw [← ofRows_eq_error_iff, ofTable]
    cases ofRows rows <;> simp [Except.mapError, eq_comm]
  refine ⟨⟨fun ⟨o, ho⟩ => ?_, fun ⟨hfree, hcovered⟩ => ?_⟩, hok, herror, ?_⟩
  · obtain ⟨hfree, hdescribes⟩ := (hok o).mp ho
    exact ⟨hfree, fun k => by rw [hdescribes.assigned k]; exact Option.some_ne_none _⟩
  · cases hmade : ofTable rows with
    | ok o => exact ⟨o, rfl⟩
    | error e =>
        obtain ⟨entry, fault⟩ := e
        rcases ((herror _).mp hmade).2 with ⟨rfl, -, htie⟩ | ⟨-, hk⟩
        · exact absurd htie (hfree _ _ _ rfl _)
        · have hnone := List.find?_some hk
          exact absurd (Option.isNone_iff_eq_none.mp hnone) (hcovered _)
  · rw [Register.order_eq, ofTable]
    cases ofRows rows <;> rfl

-- A priority that its kind has given up is free for another.
example : (ofTable [(.customer, 1), (.customer, 5), (.purchase, 1), (.product, 3)]).map forward
    = .ok [.purchase, .product, .customer] := by rfl

end Stockroom.LockOrder
