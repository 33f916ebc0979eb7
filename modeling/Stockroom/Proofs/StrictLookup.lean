import Stockroom.Proofs.Meaning

/-!
# Strict lookups by identity

A strict workspace that is asked for identities answers for every one of them. Two readings of the values
decide on the answer. Rows are matched by equality, so a row is found only by the text its identity is
written as. What was asked for is read off the values in any of the spellings (`Plan.requested`). So an
identity is missed if it is absent, and also if it is there but none of the values is its text
(`Plan.missing`). Texts made by `Ident.toValue`, as a description by identities makes them, never miss
what is there.

`Workspace.runEntries_lookup` tells what becomes of such an entry: the run fails with everything that is
missed, or, if nothing is, goes on with what was found. A value that spells no identity asks for nothing
and is not missed (`Workspace.spelling_matters`).

The entry may ask for an order. That there is an answer at all is said of the sort of `Database.load`; a
stable sort may break off at rows that the sort key does not rank (`Sorter`). Which identities are missed
does not depend on the order.
-/

namespace Stockroom

namespace Plan

/-- The distinct identities that values spell, in order. -/
def requested (values : List Value) : List Ident := distinct (values.filterMap Ident.ofValue?)

/-- Whether an identity is absent, or none of the values is the text it is written as. -/
def isMissed (t : Table Value) (values : List Value) (i : Ident) : Bool :=
  !t.contains i || values.all (· ≠ i.toValue)

/-- The identities asked for that are missed, in the order of asking. -/
def missing (t : Table Value) (values : List Value) : List Ident :=
  (requested values).filter (isMissed t values)

theorem isMissed_iff {t : Table Value} {values : List Value} {i : Ident} :
    isMissed t values i = true ↔ ¬ (t.contains i = true ∧ i.toValue ∈ values) := by
  unfold isMissed
  cases t.contains i with
  | false => simp
  | true => simp [List.forall_mem_ne']

theorem mem_requested {values : List Value} {i : Ident} :
    i ∈ requested values ↔ ∃ v ∈ values, Ident.ofValue? v = some i := by
  rw [requested, mem_distinct, List.mem_filterMap]

/-- An entry that asks for identities and nothing else, without a window. -/
structure Entry.IsLookup (values : List Value) (e : Entry) : Prop where
  chain : e.criteria.chain = [.isIn "entity_id" values]
    ∨ ∃ v, values = [v] ∧ e.criteria.chain = [.equals "entity_id" v]
  limit : e.limit = none
  offset : e.offset = none
  result : e.result = none

/-- The entry that a description by the values of the identity alone makes. -/
def Entry.ofIdents (k : Kind) (values : List Value) : Entry :=
  ⟨k, ⟨[.isIn "entity_id" values], none⟩, .noLock, none, none, none, none, none⟩

theorem build_ofIdents (o : LockOrder) (k : Kind) (values : List Value) :
    build o false [.load k, .fieldIn "entity_id" values] = .ok ⟨[.ofIdents k values], false⟩ := rfl

@[simp] theorem Entry.kind_ofIdents (k : Kind) (values : List Value) : (ofIdents k values).kind = k := rfl

theorem Entry.isLookup_ofIdents (k : Kind) (values : List Value) :
    (ofIdents k values).IsLookup values := ⟨Or.inl rfl, rfl, rfl, rfl⟩

/-- The query such an entry poses. -/
def Entry.lookup (op : Operator) (values : List Value) (e : Entry) : Query :=
  ⟨e.kind, [⟨"entity_id", op, values, false⟩], e.criteria.joiner, e.lock, e.sortKey, none, none⟩

end Plan

namespace Workspace

open Plan

variable {s : Nat} {e : Plan.Entry} {values : List Value} {op : Operator} {db : Database} {q : Query}

theorem resolve_lookup (h : e.IsLookup values) (w : WorkingSet) (entries : List Plan.Entry) :
    ∃ op, (op = .isIn ∨ ∃ v, values = [v]) ∧ resolve w entries e = .ok (e.lookup op values) := by
  rcases h.chain with hchain | ⟨v, rfl, hchain⟩
  · exact ⟨.isIn, Or.inl rfl, by simp [resolve, hchain, resolveChain, resolveCriterion,
      Criterion.isIn, Except.map, Entry.lookup, h.limit, h.offset]⟩
  · exact ⟨.equals, Or.inr ⟨v, rfl⟩, by simp [resolve, hchain, resolveChain, resolveCriterion,
      Criterion.equals, Except.map, Entry.lookup, h.limit, h.offset]⟩

/-- The row of an entity is matched exactly if its identity is among the values as it is written. -/
theorem accepts_lookup (hop : op = .isIn ∨ ∃ v, values = [v]) (a : Entity) :
    (e.lookup op values).accepts a.toRow = true ↔ a.ident.toValue ∈ values := by
  have hterm : (Query.Term.mk "entity_id" op values false).accepts a.toRow = true
      ↔ a.ident.toValue ∈ values := by
    simp only [Query.Term.accepts, a.field?_toRow]
    rcases hop with rfl | ⟨v, rfl⟩
    · exact Ident.any_beq_toValue
    · cases op with
      | isIn => exact Ident.any_beq_toValue
      | equals => simpa using @Ident.any_beq_toValue [v] a.ident
  rw [Query.accepts_of_terms_eq rfl, hterm]

/-- Exactly the identities that are there and among the values as they are written are found. -/
theorem mem_found_lookup {t : Table Value} (ht : t.OfKind e.kind)
    (hop : op = .isIn ∨ ∃ v, values = [v]) (i : Ident) :
    i ∈ (t.pick (e.lookup op values).accepts e.sortKey none none).map (·.1)
      ↔ t.contains i = true ∧ i.toValue ∈ values := by
  rw [List.mem_map]
  constructor
  · rintro ⟨⟨j, row⟩, hr, rfl⟩
    obtain ⟨hmem, haccepts⟩ := Table.mem_pick.mp hr
    have hfind := Table.mem_entries_iff.mp hmem
    obtain ⟨a, -, rfl, rfl⟩ := ht j row hfind
    exact ⟨by simp [Table.contains, hfind], (accepts_lookup hop a).mp haccepts⟩
  · rintro ⟨hcontains, hspelled⟩
    obtain ⟨row, hfind⟩ := Option.isSome_iff_exists.mp hcontains
    obtain ⟨a, -, rfl, rfl⟩ := ht i row hfind
    exact ⟨_, Table.mem_pick.mpr ⟨Table.mem_entries_iff.mpr hfind, (accepts_lookup hop a).mpr hspelled⟩,
      rfl⟩

/-- What is asked for and not found is reported. -/
theorem checkFound_lookup {t : Table Value} {found : List Ident}
    (hfound : ∀ i, i ∈ found ↔ t.contains i = true ∧ i.toValue ∈ values) :
    checkFound true (e.lookup op values) found
      = if missing t values = [] then .ok () else .error ⟨e.kind, missing t values⟩ := by
  have hmissing : (e.lookup op values).requested.filter (· ∉ found) = missing t values := by
    refine List.filter_congr fun i _ => ?_
    rw [Bool.eq_iff_iff, decide_eq_true_eq, hfound, isMissed_iff]
  simp only [checkFound, hmissing]
  simp [Entry.lookup, Query.isLiteral, Query.isIdentLookup]

/-- With no failure pending, the check of what a query picks decides on it. -/
theorem runQuery_checked (hview : (db.view s q.kind).OfKind q.kind)
    (hpending : db.pendingLoads.get q.kind = none) (strict : Bool) (w : WorkingSet) :
    ∃ found w' db',
      found = ((db.view s q.kind).pick q.accepts q.sortKey q.offset q.limit).map (·.1)
        ∧ runQuery (Database.session s) strict q (w, db)
          = match checkFound strict q found with
            | .error f => (.error (.notFound f), w', db')
            | .ok () => (.ok found, w', db') := by
  obtain ⟨es, db', hreads⟩ := Query.exists_reads_of_ofKind hview hpending
  exact ⟨_, _, db', (hreads.picks hview).1, runQuery_of_reads hreads⟩

/-- What becomes of a strict lookup. -/
theorem runEntries_lookup (h : e.IsLookup values) (hview : (db.view s e.kind).OfKind e.kind)
    (hpending : db.pendingLoads.get e.kind = none) (ran rest : List Plan.Entry) (w : WorkingSet) :
    ∃ found w' db',
      (∀ i, i ∈ found ↔ (db.view s e.kind).contains i = true ∧ i.toValue ∈ values)
        ∧ runEntries (Database.session s) true ran (e :: rest) (w, db)
          = if missing (db.view s e.kind) values = [] then
              runEntries (Database.session s) true (ran ++ [{ e with result := some found }]) rest
                (w', db')
            else (.error (.notFound ⟨e.kind, missing (db.view s e.kind) values⟩), w', db') := by
  obtain ⟨op, hop, hresolve⟩ := resolve_lookup h w (ran ++ e :: rest)
  obtain ⟨found, w', db', hpicked, hquery⟩ :=
    runQuery_checked (q := e.lookup op values) hview hpending true w
  have hfound : ∀ i, i ∈ found ↔ (db.view s e.kind).contains i = true ∧ i.toValue ∈ values := by
    rw [hpicked]
    exact mem_found_lookup hview hop
  have hloaded : e.isLoaded = false := by
    rw [Plan.Entry.isLoaded, h.result]
    rfl
  refine ⟨found, w', db', hfound, ?_⟩
  rw [checkFound_lookup hfound] at hquery
  simp only [runEntries, hloaded, Bool.false_eq_true, if_false, hresolve, hquery]
  by_cases hmissing : missing (db.view s e.kind) values = []
  · simp only [if_pos hmissing]
  · simp only [if_neg hmissing]

/-- A strict lookup answers for every identity it is asked for. If some of them are missing, the
run fails with all of these in the order of asking. If each value is the text of an identity, or another
spelling of one whose text is given as well, and all of them are there, the run goes on with exactly
these found. -/
theorem strict_lookup (ran rest : List Plan.Entry) (w : WorkingSet) (h : e.IsLookup values)
    (hview : (db.view s e.kind).OfKind e.kind) (hpending : db.pendingLoads.get e.kind = none) :
    (missing (db.view s e.kind) values ≠ [] →
        (runEntries (Database.session s) true ran (e :: rest) (w, db)).1
          = .error (.notFound ⟨e.kind, missing (db.view s e.kind) values⟩))
      ∧ ((∀ v ∈ values, ∃ i, Ident.ofValue? v = some i ∧ (db.view s e.kind).contains i = true
            ∧ i.toValue ∈ values) →
        ∃ found w' db', (∀ i, i ∈ found ↔ i ∈ requested values)
          ∧ runEntries (Database.session s) true ran (e :: rest) (w, db)
            = runEntries (Database.session s) true (ran ++ [{ e with result := some found }]) rest
                (w', db')) := by
  obtain ⟨found, w', db', hfound, hrun⟩ := runEntries_lookup h hview hpending ran rest w
  constructor
  · intro hmissing
    rw [hrun, if_neg hmissing]
  · intro hvalues
    have hrequested : ∀ i, i ∈ requested values →
        (db.view s e.kind).contains i = true ∧ i.toValue ∈ values := by
      intro i hi
      obtain ⟨v, hv, hspelled⟩ := mem_requested.mp hi
      obtain ⟨j, hj, hthere⟩ := hvalues v hv
      obtain rfl : j = i := Option.some.inj (hj.symm.trans hspelled)
      exact hthere
    have hmissing : missing (db.view s e.kind) values = [] :=
      List.filter_eq_nil_iff.mpr fun i hi hmissed => isMissed_iff.mp hmissed (hrequested i hi)
    rw [if_pos hmissing] at hrun
    refine ⟨found, w', db', fun i => (hfound i).trans ⟨fun ⟨_, hi⟩ => ?_, hrequested i⟩, hrun⟩
    exact mem_requested.mpr ⟨i.toValue, hi, i.ofValue?_toValue⟩

/-! ## A shop with one lamp -/

/-- A store with one product, whose identity has a letter among its digits. -/
def lampStore : Database := Database.empty.seed (.product ⟨.sequential 10, "Lamp", "LAMP-1", 10, 3499⟩)

theorem ofKind_lampStore (k : Kind) : (lampStore.view 1 k).OfKind k :=
  (Database.sound_empty.seed _).ofKind_view (fun _ => rfl) 1 k

/-- Asked for the lamp and a product that is not there, the store is found lacking the latter; asked for
the lamp alone, it is not. -/
theorem absent_product_missing :
    (∃ p, Plan.build .standard false [.load .product,
          .fieldIn "entity_id" [(Ident.sequential 10).toValue, (Ident.sequential 11).toValue]] = .ok p
        ∧ (runEntries (Database.session 1) true [] p.entries (.empty, lampStore)).1
          = .error (.notFound ⟨.product, [.sequential 11]⟩))
      ∧ ∃ p es st, Plan.build .standard false [.load .product,
          .fieldIn "entity_id" [(Ident.sequential 10).toValue]] = .ok p
        ∧ runEntries (Database.session 1) true [] p.entries (.empty, lampStore) = (.ok es, st) := by
  constructor
  · have hmissing : missing (lampStore.view 1 .product)
        [(Ident.sequential 10).toValue, (Ident.sequential 11).toValue] = [.sequential 11] := by
      decide +kernel
    have hstrict := (strict_lookup [] [] .empty
      (Entry.isLookup_ofIdents .product
        [(Ident.sequential 10).toValue, (Ident.sequential 11).toValue])
      (ofKind_lampStore .product) rfl).1
    rw [Entry.kind_ofIdents, hmissing] at hstrict
    exact ⟨_, build_ofIdents .standard .product _, hstrict (List.cons_ne_nil _ _)⟩
  · have hthere : (lampStore.view 1 .product).contains (.sequential 10) = true := by decide +kernel
    obtain ⟨found, w', db', -, hrun⟩ := (strict_lookup [] [] .empty
      (Entry.isLookup_ofIdents .product [(Ident.sequential 10).toValue])
      (ofKind_lampStore .product) rfl).2 fun v hv => by
        obtain rfl := List.mem_singleton.mp hv
        exact ⟨_, Ident.ofValue?_toValue _, hthere, hv⟩
    exact ⟨_, _, _, build_ofIdents .standard .product _, hrun⟩

/-- Which spelling is used matters: the lamp is not found by its identity in upper case, though that is
what the values spell; and a value that spells no identity is not missed. -/
theorem spelling_matters :
    (Ident.ofValue? (.text "00000000-0000-7000-8000-00000000000A") = some (.sequential 10)
        ∧ (lampStore.view 1 .product).contains (.sequential 10) = true
        ∧ (runEntries (Database.session 1) true []
            [.ofIdents .product [.text "00000000-0000-7000-8000-00000000000A"]]
            (.empty, lampStore)).1 = .error (.notFound ⟨.product, [.sequential 10]⟩))
      ∧ (Ident.ofValue? (.text "lamp") = none
        ∧ ∃ es st, runEntries (Database.session 1) true [] [.ofIdents .product [.text "lamp"]]
            (.empty, lampStore) = (.ok es, st)) := by
  constructor
  · have hmissing : missing (lampStore.view 1 .product)
        [.text "00000000-0000-7000-8000-00000000000A"] = [.sequential 10] := by decide +kernel
    obtain ⟨found, w', db', -, hrun⟩ := runEntries_lookup
      (Entry.isLookup_ofIdents .product [.text "00000000-0000-7000-8000-00000000000A"])
      (ofKind_lampStore .product) rfl [] [] .empty
    rw [Entry.kind_ofIdents, hmissing, if_neg (List.cons_ne_nil _ _)] at hrun
    exact ⟨by decide +kernel, by decide +kernel, by rw [hrun]⟩
  · have hmissing : missing (lampStore.view 1 .product) [.text "lamp"] = [] := by decide +kernel
    obtain ⟨found, w', db', -, hrun⟩ := runEntries_lookup
      (Entry.isLookup_ofIdents .product [.text "lamp"]) (ofKind_lampStore .product) rfl [] [] .empty
    rw [Entry.kind_ofIdents, hmissing, if_pos rfl] at hrun
    exact ⟨by decide +kernel, _, _, hrun⟩

end Workspace

end Stockroom
