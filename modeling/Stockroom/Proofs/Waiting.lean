import Stockroom.Proofs.Building
import Stockroom.Proofs.Loading

/-!
# Waiting for locks

A unit of work locks a kind when it puts the load of an entry of that kind to the store, and keeps the
lock until it commits or rolls back. It waits for another unit if that one has locked the kind of the
load it will issue next. Units that lock in one order never wait for each other in a circle
(`waits_acyclic`).

A run of a plan is taken apart here into its entries (`Workspace.runEntries_cons`), so that the runs of
several units can be interleaved. A load and its answer are one move; all that others could see in between
is the lock, which is there from the start and stays. What the store holds may be different whenever an
entry runs. Which load comes next is known beforehand all the same: entries that nothing can match are
passed over without asking the store (`Workspace.nextQuery?`), and the load found that way is the first
to reach it (`Workspace.runs_of_nextQuery`).

The invariant is that the kinds locked so far and those to come, in this order, ascend
(`Loader.Ordered`). A unit that waits then waits for a kind behind every kind it holds, so along a
chain of waiting the kinds waited for strictly ascend.
-/

namespace Stockroom

/-! ## A run, entry by entry -/

namespace Workspace

section

variable {σ : Type} (s : Session σ) (strict : Bool) (ran : List Plan.Entry) (e : Plan.Entry)
  (rest : List Plan.Entry)

/-- Runs one entry, between those that have run and those to come. -/
def runEntry : Effect (WorkingSet × σ) Failure Plan.Entry := fun (w, db) =>
  if e.isLoaded then (.error (.unit (.alreadyLoaded ran.length)), w, db)
  else
    match resolve w (ran ++ e :: rest) e with
    | .error fault => (.error (.unit fault), w, db)
    | .ok q =>
      match runQuery s strict q (w, db) with
      | (.error f, st) => (.error f, st)
      | (.ok found, st) => (.ok { e with result := some found }, st)

theorem runEntries_cons (st : WorkingSet × σ) :
    runEntries s strict ran (e :: rest) st = match runEntry s strict ran e rest st with
      | (.error f, st) => (.error f, st)
      | (.ok e, st) => runEntries s strict (ran ++ [e]) rest st := by
  obtain ⟨w, db⟩ := st
  simp only [runEntries, runEntry]
  split
  · rfl
  · cases resolve w (ran ++ e :: rest) e with
    | error fault => rfl
    | ok q =>
        dsimp only
        rcases runQuery s strict q (w, db) with ⟨_ | _, st⟩ <;> rfl

end

/-- The query an entry puts to the store, if it comes to that. -/
def posed? (w : WorkingSet) (ran : List Plan.Entry) (e : Plan.Entry) (rest : List Plan.Entry) :
    Option Query :=
  if e.isLoaded then none
  else
    match resolve w (ran ++ e :: rest) e with
    | .error _ => none
    | .ok q => if q.isUnsatisfiable then none else some q

/-- The query a run puts to the store next, if it comes to that. Entries that nothing can match are
passed over, unless the run is strict and does not accept that. -/
def nextQuery? (strict : Bool) (w : WorkingSet) (ran : List Plan.Entry) :
    List Plan.Entry → Option Query
  | [] => none
  | e :: rest =>
    if e.isLoaded then none
    else
      match resolve w (ran ++ e :: rest) e with
      | .error _ => none
      | .ok q =>
        if q.isUnsatisfiable then
          match checkFound strict q [] with
          | .error _ => none
          | .ok () => nextQuery? strict w (ran ++ [{ e with result := some [] }]) rest
        else some q

variable {s : Nat} {strict : Bool} {w : WorkingSet} {ran rest : List Plan.Entry} {e : Plan.Entry}
  {q : Query}

/-- All but the terms of a query is copied from its entry. -/
theorem exists_terms_of_resolve {entries : List Plan.Entry} (h : resolve w entries e = .ok q) :
    ∃ terms, resolveChain w entries e.criteria.chain = .ok terms
      ∧ q = ⟨e.kind, terms, e.criteria.joiner, e.lock, e.sortKey, e.limit, e.offset⟩ := by
  unfold resolve at h
  cases hchain : resolveChain w entries e.criteria.chain with
  | error fault =>
      rw [hchain] at h
      cases h
  | ok terms =>
      rw [hchain] at h
      exact ⟨terms, rfl, (Except.ok.inj h).symm⟩

theorem kind_of_resolve {entries : List Plan.Entry} (h : resolve w entries e = .ok q) :
    q.kind = e.kind := by
  obtain ⟨terms, -, rfl⟩ := exists_terms_of_resolve h
  rfl

theorem kind_of_posed (h : posed? w ran e rest = some q) : q.kind = e.kind := by
  unfold posed? at h
  split at h
  · cases h
  · split at h
    · cases h
    · rename_i q' hq'
      split at h
      · cases h
      · obtain rfl := Option.some.inj h
        exact kind_of_resolve hq'

/-- A query is put to the store unless nothing can match it. -/
theorem runQuery_database (s : Nat) (strict : Bool) (q : Query) (w : WorkingSet) (db : Database) :
    (runQuery (Database.session s) strict q (w, db)).2.2
      = if q.isUnsatisfiable then db else (Database.load s q.kind q db).2 := by
  have hfetch : (fetch (Database.session s) q db).2
      = if q.isUnsatisfiable then db else (Database.load s q.kind q db).2 := by
    unfold fetch
    split
    · rfl
    · rw [Database.session_load]
  simp only [runQuery]
  split
  · rename_i f db' heq
    rw [← hfetch, heq]
  · rename_i es db' heq
    rw [← hfetch, heq]
    split
    · rfl
    · split <;> rfl

/-- What an entry does to the store is its load. -/
theorem runEntry_database (s : Nat) (strict : Bool) (ran : List Plan.Entry) (e : Plan.Entry)
    (rest : List Plan.Entry) (w : WorkingSet) (db : Database) :
    (runEntry (Database.session s) strict ran e rest (w, db)).2.2
      = match posed? w ran e rest with
        | none => db
        | some q => db.step (.load s q.kind q) := by
  simp only [runEntry, posed?]
  split
  · rfl
  · split
    · rfl
    · rename_i q hq
      have hquery := runQuery_database s strict q w db
      rcases hrun : runQuery (Database.session s) strict q (w, db) with ⟨_ | found, st⟩
      all_goals
        rw [hrun] at hquery
        by_cases hnone : q.isUnsatisfiable = true
        · simpa [hnone] using hquery
        · simpa [hnone, Database.step] using hquery

/-- Running a query that nothing can match finds nothing and changes nothing. -/
theorem runQuery_of_isUnsatisfiable (h : q.isUnsatisfiable = true) (db : Database) :
    runQuery (Database.session s) strict q (w, db) = match checkFound strict q [] with
      | .error f => (.error (.notFound f), w, db)
      | .ok () => (.ok [], w, db) := by
  rcases hfound : checkFound strict q [] with f | ⟨⟩
  · simp [runQuery, fetch, h, WorkingSet.putMany, hfound]
  · simp [runQuery, fetch, h, WorkingSet.putMany, hfound]

/-- The query told beforehand is the first that reaches the store; if there is none, the store is left
alone. -/
theorem runs_of_nextQuery (s : Nat) (strict : Bool) (w : WorkingSet) (ran rest : List Plan.Entry)
    (db : Database) :
    match nextQuery? strict w ran rest with
    | none => (runEntries (Database.session s) strict ran rest (w, db)).2.2 = db
    | some q => (db.step (.load s q.kind q)).Runs (Database.Step.IsLoad s)
        (runEntries (Database.session s) strict ran rest (w, db)).2.2 := by
  induction rest generalizing ran with
  | nil => rfl
  | cons e rest ih =>
      by_cases hloaded : e.isLoaded = true
      · simp only [nextQuery?, runEntries, hloaded, if_true]
      · cases hq : resolve w (ran ++ e :: rest) e with
        | error fault => simp only [nextQuery?, runEntries, hloaded, hq, Bool.false_eq_true, if_false]
        | ok q =>
            simp only [nextQuery?, runEntries, hloaded, hq, Bool.false_eq_true, if_false]
            by_cases hnone : q.isUnsatisfiable = true
            · simp only [hnone, if_true, runQuery_of_isUnsatisfiable hnone]
              cases checkFound strict q [] with
              | error f => rfl
              | ok _ => exact ih _
            · have hquery := runQuery_database s strict q w db
              simp only [hnone, Bool.false_eq_true, if_false] at hquery ⊢
              rcases hrun : runQuery (Database.session s) strict q (w, db) with ⟨_ | found, w', db'⟩
              · rw [hrun] at hquery
                obtain rfl : db' = _ := hquery
                exact Database.Runs.refl _ _
              · rw [hrun] at hquery
                obtain rfl : db' = _ := hquery
                exact (runEntries_fills s strict _ rest _).runs

theorem mem_of_nextQuery (h : nextQuery? strict w ran rest = some q) :
    q.kind ∈ rest.map Plan.Entry.kind := by
  induction rest generalizing ran with
  | nil => cases h
  | cons e rest ih =>
      simp only [nextQuery?] at h
      split at h
      · cases h
      · split at h
        · cases h
        · rename_i q' hq'
          split at h
          · split at h
            · cases h
            · exact List.mem_cons_of_mem _ (ih h)
          · obtain rfl := Option.some.inj h
            rw [kind_of_resolve hq']
            exact List.mem_cons_self ..

end Workspace

/-! ## Units that load -/

/-- A unit of work as far as it has run its plan. -/
structure Loader where
  session : Nat
  strict : Bool
  ran : List Plan.Entry
  rest : List Plan.Entry
  set : WorkingSet
  /-- The kinds of the loads it has put to the store, in order. -/
  issued : List Kind
  /-- It has committed or rolled back. -/
  ended : Bool

namespace Loader

def start (session : Nat) (strict : Bool) (set : WorkingSet) (p : Plan) : Loader :=
  ⟨session, strict, [], p.entries, set, [], false⟩

/-- The kinds a unit has locked. -/
def locked (l : Loader) : List Kind := if l.ended then [] else l.issued

def nextQuery? (l : Loader) : Option Query := Workspace.nextQuery? l.strict l.set l.ran l.rest

inductive Move where
  /-- Runs the next entry on what the store holds by then. -/
  | load (db : Database)
  /-- Commits or rolls back. -/
  | finish

/-- A unit whose entry fails has no more to come. -/
def take (l : Loader) : Move → Loader
  | .finish => { l with rest := [], ended := true }
  | .load db =>
    match l.rest with
    | [] => l
    | e :: rest =>
      let posed := Workspace.posed? l.set l.ran e rest
      let issued := l.issued ++ posed.toList.map Query.kind
      match Workspace.runEntry (Database.session l.session) l.strict l.ran e rest (l.set, db) with
      | (.error _, w, _) => { l with rest := [], set := w, issued := issued }
      | (.ok e, w, _) => { l with ran := l.ran ++ [e], rest := rest, set := w, issued := issued }

variable {o : LockOrder} {l : Loader}

/-- The kinds locked so far, and then those to come, ascend. -/
def Ordered (o : LockOrder) (l : Loader) : Prop :=
  (l.issued ++ l.rest.map Plan.Entry.kind).Pairwise fun k k' => o.priority k < o.priority k'

theorem Ordered.take (h : l.Ordered o) (m : Move) : (l.take m).Ordered o := by
  cases m with
  | finish => exact List.Pairwise.sublist (by simp [Loader.take]) h
  | load db =>
      cases hrest : l.rest with
      | nil =>
          simp only [Loader.take, hrest]
          exact h
      | cons e rest =>
          rw [Ordered, hrest, List.map_cons] at h
          -- the kind of the entry moves from those to come to those locked, or is dropped
          have hissued : ((Workspace.posed? l.set l.ran e rest).toList.map Query.kind).Sublist
              [e.kind] := by
            cases hposed : Workspace.posed? l.set l.ran e rest with
            | none => simp
            | some q => simp [Workspace.kind_of_posed hposed]
          have hall := (hissued.append_right (rest.map Plan.Entry.kind)).append_left l.issued
          rw [← List.append_assoc] at hall
          simp only [Loader.take, hrest]
          split
          · refine List.Pairwise.sublist ?_ h
            rw [List.map_nil, List.append_nil]
            exact (List.sublist_append_left _ _).trans hall
          · exact List.Pairwise.sublist hall h

theorem ordered_start {calls : List Plan.Call} {p : Plan} (h : Plan.build o true calls = .ok p)
    (session : Nat) (strict : Bool) (set : WorkingSet) :
    (start session strict set p).Ordered o := Plan.ascending_of_build h

/-- What a unit waits for comes behind everything it has locked. -/
theorem Ordered.lt_next (h : l.Ordered o) {q : Query} (hq : l.nextQuery? = some q) {k : Kind}
    (hk : k ∈ l.locked) : o.priority k < o.priority q.kind := by
  have hissued : k ∈ l.issued := by
    unfold locked at hk
    split at hk
    · cases hk
    · exact hk
  exact (List.pairwise_append.mp h).2.2 k hissued q.kind (Workspace.mem_of_nextQuery hq)

/-! ## Units side by side -/

variable {ι : Type}

/-- The units after a list of moves, latest first, each made by one of them. -/
def after [DecidableEq ι] (units : ι → Loader) : List (ι × Move) → ι → Loader
  | [] => units
  | (i, m) :: past => fun j =>
    if j = i then (after units past i).take m else after units past j

/-- A unit waits for another if the load it will issue next is of a kind the other has locked. -/
def Waits (units : ι → Loader) (i j : ι) : Prop :=
  ∃ q, (units i).nextQuery? = some q ∧ q.kind ∈ (units j).locked

theorem ordered_after [DecidableEq ι] {units : ι → Loader} (h : ∀ i, (units i).Ordered o)
    (moves : List (ι × Move)) (i : ι) : (after units moves i).Ordered o := by
  induction moves generalizing i with
  | nil => exact h i
  | cons move past ih =>
      obtain ⟨j, m⟩ := move
      simp only [after]
      split
      · exact (ih j).take m
      · exact ih i

/-- Along a chain of waiting the kinds waited for ascend. -/
theorem lt_of_waits {units : ι → Loader} (h : ∀ i, (units i).Ordered o) {i j : ι}
    (hwaits : Relation.TransGen (Waits units) i j) :
    ∃ q, (units i).nextQuery? = some q ∧ ∀ q', (units j).nextQuery? = some q' →
      o.priority q.kind < o.priority q'.kind := by
  induction hwaits with
  | single hij =>
      obtain ⟨q, hq, hlocked⟩ := hij
      exact ⟨q, hq, fun q' hq' => (h _).lt_next hq' hlocked⟩
  | tail _ hjk ih =>
      obtain ⟨q, hq, hlt⟩ := ih
      obtain ⟨q₁, hq₁, hlocked⟩ := hjk
      exact ⟨q, hq, fun q' hq' => Nat.lt_trans (hlt q₁ hq₁) ((h _).lt_next hq' hlocked)⟩

/-- Units of work that run plans built against one lock order never wait for each other in a circle,
however their loads are interleaved and whatever their entries find; and each puts its loads to the
store in ascending lock order. -/
theorem waits_acyclic [DecidableEq ι] (o : LockOrder) (units : ι → Loader) (moves : List (ι × Move))
    (hbuilt : ∀ i, ∃ calls p session strict set,
      Plan.build o true calls = .ok p ∧ units i = start session strict set p) :
    (∀ i, ¬ Relation.TransGen (Waits (after units moves)) i i)
      ∧ ∀ i, o.isAscending (after units moves i).issued = true := by
  have hstart : ∀ i, (units i).Ordered o := by
    intro i
    obtain ⟨calls, p, session, strict, set, hbuild, hi⟩ := hbuilt i
    rw [hi]
    exact ordered_start hbuild session strict set
  have hordered := ordered_after hstart moves
  constructor
  · intro i hcircle
    obtain ⟨q, hq, hlt⟩ := lt_of_waits hordered hcircle
    exact Nat.lt_irrefl _ (hlt q hq)
  · intro i
    exact LockOrder.isAscending_iff.mpr (List.pairwise_append.mp (hordered i)).1

/-- A unit that has loaded customers waits for one that has loaded products, which is what it will load
next, and that is all the waiting there is. -/
theorem waits_for_products :
    ∃ p q, Plan.build .standard true [.load .product, .fieldEquals "sku" .null, .lock .exclusive] = .ok p
      ∧ Plan.build .standard true [.load .customer, .fieldEquals "name" .null, .lock .shared,
          .load .product, .fieldEquals "sku" .null, .lock .exclusive] = .ok q
      ∧ Waits (after (fun i : Bool => start i.toNat false .empty (if i then p else q))
          [(false, .load .empty), (true, .load .empty)]) false true
      ∧ ∀ i, ¬ Relation.TransGen (Waits (after
          (fun i : Bool => start i.toNat false .empty (if i then p else q))
          [(false, .load .empty), (true, .load .empty)])) i i := by
  have hp : Plan.build .standard true
      [.load .product, .fieldEquals "sku" .null, .lock .exclusive] = .ok _ := rfl
  have hq : Plan.build .standard true [.load .customer, .fieldEquals "name" .null, .lock .shared,
      .load .product, .fieldEquals "sku" .null, .lock .exclusive] = .ok _ := rfl
  refine ⟨_, _, hp, hq, ⟨_, rfl, List.mem_singleton.mpr rfl⟩, ?_⟩
  refine (waits_acyclic .standard _ _ fun i => ?_).1
  cases i with
  | false => exact ⟨_, _, _, _, _, hq, rfl⟩
  | true => exact ⟨_, _, _, _, _, hp, rfl⟩

end Loader

end Stockroom
