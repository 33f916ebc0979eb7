import Stockroom.Proofs.Paging
import Stockroom.Proofs.SafeLoading

/-!
# How a query is answered

Running a query comes to one of two ends, and which one can be told before it runs. It fails if a failure
is pending for its kind and it has to go to the store at all, if a row it selects holds no entity, or if a
strict run misses something in what it read (`Query.Fails`). Otherwise it finds the entities in the rows
it selects and puts them into the working set (`Query.Finds`). Either says in full what the working set and
the database are afterwards, so the two leave nothing of a run to be told (`Workspace.answered`).
-/

namespace Stockroom

/-! ## Rows that hold no entity -/

theorem Database.decode_undecodable {k : Kind} {rows : List Value} {row : Value} (hrow : row ∈ rows)
    (h : Entity.ofRow? k row = none) : decode k rows = .error (undecodable k) := by
  induction rows with
  | nil => cases hrow
  | cons row' rows ih =>
      rw [decode]
      cases hrow' : Entity.ofRow? k row' with
      | none => rfl
      | some e =>
          have hne : row ≠ row' := by
            rintro rfl
            rw [h] at hrow'
            cases hrow'
          rw [ih ((List.mem_cons.mp hrow).resolve_left hne)]
          rfl

namespace Query

/-! ## What a query accepts -/

/-- One term joined to nothing is itself, whatever the joiner. -/
theorem accepts_of_terms_eq {q : Query} {t : Term} (h : q.terms = [t]) (row : Value) :
    q.accepts row = t.accepts row := by
  unfold accepts
  split <;> simp [h]

theorem Term.accepts_of_isEmpty {t : Term} (h : t.values.isEmpty = true) (row : Value) :
    t.accepts row = false := by
  have hnone : t.values = [] := List.isEmpty_iff.mp h
  unfold accepts
  split
  · rfl
  · split <;> simp [hnone]

/-- A query that lacks the values to match anything accepts no row. -/
theorem accepts_of_isUnsatisfiable {q : Query} (h : q.isUnsatisfiable = true) (row : Value) :
    q.accepts row = false := by
  have hall : (q.terms.any fun t => t.values.isEmpty) = true →
      (q.terms.all fun t => t.accepts row) = false := by
    intro hany
    obtain ⟨t, ht, hempty⟩ := List.any_eq_true.mp hany
    exact List.all_eq_false.mpr ⟨t, ht, by simp [Term.accepts_of_isEmpty hempty]⟩
  unfold isUnsatisfiable at h
  unfold accepts
  split at h
  · refine List.any_eq_false.mpr fun t ht => ?_
    have hempty := List.all_eq_true.mp h t ht
    simp [Term.accepts_of_isEmpty hempty]
  · exact hall h
  · exact hall h

/-! ## What is missed -/

/-- Only literal values are checked, and only without a window. -/
structure Checked (q : Query) : Prop where
  literal : q.isLiteral = true
  limit : q.limit = none
  offset : q.offset = none

/-- What is missed in the identities found: those asked for that are not among them, if it was asked for
identities alone, or else anything at all. -/
inductive Misses (q : Query) (found : List Ident) : NotFound → Prop where
  | idents (hchecked : q.Checked) (hlookup : q.isIdentLookup = true)
      (hmissing : q.requested.filter (· ∉ found) ≠ []) :
      Misses q found ⟨q.kind, q.requested.filter (· ∉ found)⟩
  | everything (hchecked : q.Checked) (hlookup : q.isIdentLookup = false) (hnone : found = []) :
      Misses q found ⟨q.kind, []⟩

variable {s : Nat} {strict : Bool} {q : Query} {w : WorkingSet} {db db' : Database} {es : List Entity}
  {found : List Ident} {e : NotFound}

theorem Misses.checked (h : q.Misses found e) : q.Checked := by
  cases h <;> assumption

theorem misses_of_lookup (hchecked : q.Checked) (hlookup : q.isIdentLookup = true) :
    q.Misses found e ↔ q.requested.filter (· ∉ found) ≠ []
      ∧ e = ⟨q.kind, q.requested.filter (· ∉ found)⟩ := by
  constructor
  · rintro (⟨-, -, hmissing⟩ | ⟨-, hother, -⟩)
    · exact ⟨hmissing, rfl⟩
    · rw [hlookup] at hother
      cases hother
  · rintro ⟨hmissing, rfl⟩
    exact .idents hchecked hlookup hmissing

theorem misses_of_not_lookup (hchecked : q.Checked) (hlookup : q.isIdentLookup = false) :
    q.Misses found e ↔ found = [] ∧ e = ⟨q.kind, []⟩ := by
  constructor
  · rintro (⟨-, hother, -⟩ | ⟨-, -, hnone⟩)
    · rw [hlookup] at hother
      cases hother
    · exact ⟨hnone, rfl⟩
  · rintro ⟨hnone, rfl⟩
    exact .everything hchecked hlookup hnone

theorem unchecked_iff : (!strict || !q.isLiteral || q.limit.isSome || q.offset.isSome) = true
    ↔ ¬ (strict = true ∧ q.Checked) := by
  have hchecked : q.Checked ↔ q.isLiteral = true ∧ q.limit = none ∧ q.offset = none :=
    ⟨fun h => ⟨h.literal, h.limit, h.offset⟩, fun h => ⟨h.1, h.2.1, h.2.2⟩⟩
  rw [hchecked]
  cases strict <;> cases q.isLiteral <;> cases q.limit <;> cases q.offset <;> simp

/-- The check of what was found reports what is missed. -/
theorem checkFound_eq_error_iff :
    Workspace.checkFound strict q found = .error e ↔ strict = true ∧ q.Misses found e := by
  unfold Workspace.checkFound
  by_cases hchecked : strict = true ∧ q.Checked
  · rw [if_neg (mt unchecked_iff.mp (not_not.mpr hchecked))]
    obtain ⟨hstrict, hchecked⟩ := hchecked
    cases hlookup : q.isIdentLookup with
    | true =>
        rw [misses_of_lookup hchecked hlookup, if_pos rfl]
        dsimp only
        generalize q.requested.filter (· ∉ found) = missing
        cases missing with
        | nil => simp
        | cons i is => simp [hstrict, eq_comm]
    | false =>
        rw [misses_of_not_lookup hchecked hlookup, if_neg Bool.false_ne_true]
        by_cases hnone : found = []
        · simp [hnone, hstrict, eq_comm]
        · simp [hnone]
  · rw [if_pos (unchecked_iff.mpr hchecked)]
    exact ⟨(nomatch ·), fun h => absurd ⟨h.1, h.2.checked⟩ hchecked⟩

/-! ## The two ends -/

/-- What a query reads: the entities in the rows it selects, which is recorded; or nothing, without going
to the store, if nothing can match it. -/
inductive Reads (s : Nat) (q : Query) (db : Database) : List Entity → Database → Prop where
  | skipped (h : q.isUnsatisfiable = true) : Reads s q db [] db
  | loaded {es : List Entity} (h : q.isUnsatisfiable = false)
      (hpending : db.pendingLoads.get q.kind = none)
      (hrows : es.map some = (q.select (db.view s q.kind)).map (Entity.ofRow? q.kind)) :
      Reads s q db es (db.record (.loaded s q.kind q.lock es.length))

/-- Why a query fails, with the working set and the database that it leaves. -/
inductive Fails (s : Nat) (strict : Bool) (q : Query) (w : WorkingSet) (db : Database) :
    Failure → WorkingSet → Database → Prop where
  /-- The failure that was pending is used up. -/
  | contended {c : Contention} (h : q.isUnsatisfiable = false)
      (hpending : db.pendingLoads.get q.kind = some c) :
      Fails s strict q w db (.contention c) w { db with pendingLoads := db.pendingLoads.set q.kind none }
  | undecodable {row : Value} (h : q.isUnsatisfiable = false)
      (hpending : db.pendingLoads.get q.kind = none) (hrow : row ∈ q.select (db.view s q.kind))
      (hnone : Entity.ofRow? q.kind row = none) :
      Fails s strict q w db (.ofStore (Database.undecodable q.kind)) w db
  /-- What was read is kept all the same. -/
  | missed {es : List Entity} {db' : Database} {e : NotFound} (hreads : q.Reads s db es db')
      (hstrict : strict = true) (hmisses : q.Misses (es.map Entity.ident) e) :
      Fails s strict q w db (.notFound e) (es.foldl .insert w) db'

/-- What a query finds, with the working set and the database that it leaves. -/
inductive Finds (s : Nat) (strict : Bool) (q : Query) (w : WorkingSet) (db : Database) :
    List Ident → WorkingSet → Database → Prop where
  | found {es : List Entity} {db' : Database} (hreads : q.Reads s db es db')
      (h : strict = true → ∀ e, ¬ q.Misses (es.map Entity.ident) e) :
      Finds s strict q w db (es.map Entity.ident) (es.foldl .insert w) db'

theorem Reads.kinds (h : q.Reads s db es db') : ∀ e ∈ es, e.kind = q.kind := by
  cases h with
  | skipped => simp
  | loaded _ _ hrows =>
      intro e he
      have hsome : some e ∈ (q.select (db.view s q.kind)).map (Entity.ofRow? q.kind) :=
        hrows ▸ List.mem_map_of_mem he
      obtain ⟨row, -, hrow⟩ := List.mem_map.mp hsome
      exact Entity.kind_of_ofRow? hrow

theorem Reads.fetch_eq (h : q.Reads s db es db') :
    Workspace.fetch (Database.session s) q db = (.ok es, db') := by
  unfold Workspace.fetch
  cases h with
  | skipped h => rw [if_pos h]
  | loaded h hpending hrows =>
      rw [h, if_neg Bool.false_ne_true, Database.session_load]
      simp only [Database.load, hpending, Database.decode_eq_ok_iff.mpr hrows]

theorem exists_reads (hpending : db.pendingLoads.get q.kind = none)
    (hdecode : Database.decode q.kind (q.select (db.view s q.kind)) = .ok es) :
    ∃ es db', q.Reads s db es db' := by
  cases hskipped : q.isUnsatisfiable with
  | true => exact ⟨[], db, .skipped hskipped⟩
  | false => exact ⟨es, _, .loaded hskipped hpending (Database.decode_eq_ok_iff.mp hdecode)⟩

/-! ## Reading rows of entities -/

/-- With no failure pending, rows of entities are read. -/
theorem exists_reads_of_ofKind (hview : (db.view s q.kind).OfKind q.kind)
    (hpending : db.pendingLoads.get q.kind = none) : ∃ es db', q.Reads s db es db' := by
  obtain ⟨es, hdecode, -⟩ := hview.decode_entries fun r hr => Table.mem_of_mem_pick hr
  rw [← Table.select_eq_pick q] at hdecode
  exact exists_reads hpending hdecode

/-- What is read are the entities that the query picks. -/
theorem Reads.picks (hview : (db.view s q.kind).OfKind q.kind) (h : q.Reads s db es db') :
    es.map Entity.ident
        = ((db.view s q.kind).pick q.accepts q.sortKey q.offset q.limit).map (·.1)
      ∧ ∀ e ∈ es, (db.view s q.kind).find? e.ident = some e.toRow := by
  cases h with
  | skipped h =>
      -- not put to the store, where it would pick nothing
      rw [Table.pick_eq_nil (accepts_of_isUnsatisfiable h)]
      exact ⟨rfl, by simp⟩
  | loaded _ _ hrows =>
      have hpicked : ∀ r ∈ (db.view s q.kind).pick q.accepts q.sortKey q.offset q.limit,
          r ∈ (db.view s q.kind).entries := fun r hr => Table.mem_of_mem_pick hr
      obtain ⟨es', hdecode, hidents, hes⟩ := hview.decode_entries hpicked
      rw [← Table.select_eq_pick q, Database.decode_eq_ok_iff.mpr hrows] at hdecode
      obtain rfl := Except.ok.inj hdecode
      exact ⟨hidents, fun e he => (hes e he).2⟩

/-- Nothing but the events changes. -/
theorem Reads.database_eq (h : q.Reads s db es db') : ∃ events, db' = { db with events := events } := by
  cases h with
  | skipped => exact ⟨db.events, rfl⟩
  | loaded => exact ⟨_, rfl⟩

end Query

namespace Workspace

variable {s : Nat} {strict : Bool} {q : Query} {w w' : WorkingSet} {db db' : Database}
  {found : List Ident} {f : Failure}

theorem runQuery_of_reads {es : List Entity} (h : q.Reads s db es db') :
    runQuery (Database.session s) strict q (w, db)
      = match checkFound strict q (es.map Entity.ident) with
        | .error e => (.error (.notFound e), es.foldl .insert w, db')
        | .ok () => (.ok (es.map Entity.ident), es.foldl .insert w, db') := by
  cases hcheck : checkFound strict q (es.map Entity.ident) <;>
    simp only [runQuery, h.fetch_eq, WorkingSet.putMany_ok h.kinds, hcheck]

theorem runQuery_of_fails (h : q.Fails s strict w db f w' db') :
    runQuery (Database.session s) strict q (w, db) = (.error f, w', db') := by
  cases h with
  | contended h hpending =>
      simp [runQuery, fetch, h, Database.session_load, Database.load, hpending, Failure.ofStore]
  | undecodable h hpending hrow hnone =>
      simp [runQuery, fetch, h, Database.session_load, Database.load, hpending,
        Database.decode_undecodable hrow hnone]
  | missed hreads hstrict hmisses =>
      rw [runQuery_of_reads hreads, Query.checkFound_eq_error_iff.mpr ⟨hstrict, hmisses⟩]

theorem runQuery_of_finds (h : q.Finds s strict w db found w' db') :
    runQuery (Database.session s) strict q (w, db) = (.ok found, w', db') := by
  cases h with
  | found hreads h =>
      rw [runQuery_of_reads hreads]
      split
      · rename_i e he
        obtain ⟨hstrict, hmisses⟩ := Query.checkFound_eq_error_iff.mp he
        exact absurd hmisses (h hstrict e)
      · rfl

/-- A query fails or it finds something. -/
theorem answered (s : Nat) (strict : Bool) (q : Query) (w : WorkingSet) (db : Database) :
    (∃ f w' db', q.Fails s strict w db f w' db')
      ∨ ∃ found w' db', q.Finds s strict w db found w' db' := by
  have hread : ∀ es db', q.Reads s db es db' →
      (∃ f w' db', q.Fails s strict w db f w' db')
        ∨ ∃ found w' db', q.Finds s strict w db found w' db' := by
    intro es db' hreads
    by_cases hmisses : strict = true ∧ ∃ e, q.Misses (es.map Entity.ident) e
    · obtain ⟨hstrict, e, hmisses⟩ := hmisses
      exact Or.inl ⟨_, _, _, .missed hreads hstrict hmisses⟩
    · exact Or.inr ⟨_, _, _, .found hreads fun hstrict e he => hmisses ⟨hstrict, e, he⟩⟩
  cases hskipped : q.isUnsatisfiable with
  | true => exact hread [] db (.skipped hskipped)
  | false =>
      cases hpending : db.pendingLoads.get q.kind with
      | some c => exact Or.inl ⟨_, _, _, .contended hskipped hpending⟩
      | none =>
          by_cases hrow : ∃ row ∈ q.select (db.view s q.kind), Entity.ofRow? q.kind row = none
          · obtain ⟨row, hrow, hnone⟩ := hrow
            exact Or.inl ⟨_, _, _, .undecodable hskipped hpending hrow hnone⟩
          · obtain ⟨es, hes⟩ := Database.exists_decode fun row hmem =>
              Option.isSome_iff_ne_none.mpr fun hnone => hrow ⟨row, hmem, hnone⟩
            obtain ⟨es', db', hreads⟩ := Query.exists_reads hpending hes
            exact hread es' db' hreads

theorem runQuery_eq_ok_iff : runQuery (Database.session s) strict q (w, db) = (.ok found, w', db')
    ↔ q.Finds s strict w db found w' db' := by
  refine ⟨fun h => ?_, runQuery_of_finds⟩
  rcases answered s strict q w db with ⟨f, w₁, db₁, hfails⟩ | ⟨found₁, w₁, db₁, hfinds⟩
  · rw [runQuery_of_fails hfails] at h
    cases h
  · rw [runQuery_of_finds hfinds] at h
    obtain ⟨hfound, hst⟩ := Prod.mk.inj h
    obtain ⟨rfl, rfl⟩ := Prod.mk.inj hst
    obtain rfl := Except.ok.inj hfound
    exact hfinds

theorem runQuery_eq_error_iff : runQuery (Database.session s) strict q (w, db) = (.error f, w', db')
    ↔ q.Fails s strict w db f w' db' := by
  refine ⟨fun h => ?_, runQuery_of_fails⟩
  rcases answered s strict q w db with ⟨f₁, w₁, db₁, hfails⟩ | ⟨found, w₁, db₁, hfinds⟩
  · rw [runQuery_of_fails hfails] at h
    obtain ⟨hf, hst⟩ := Prod.mk.inj h
    obtain ⟨rfl, rfl⟩ := Prod.mk.inj hst
    obtain rfl := Except.error.inj hf
    exact hfails
  · rw [runQuery_of_finds hfinds] at h
    cases h

end Workspace

end Stockroom
