import Stockroom.Proofs.Answering
import Stockroom.Proofs.Protocol
import Stockroom.Proofs.StrictLookup

/-!
# Where a load stops

A load runs the entries of a plan in order and stops at the first that fails. The entries before it have
found something (`Workspace.Reaches`), and from what they left the one behind them fails
(`Workspace.FailsAt`). There is such an entry, or the run gets to the end and only the mode of the plan is
left to be checked; `Workspace.load_stops` says what a load comes to in either case.

What a failed load leaves is what its entries did up to there. The entities read are in the working set, a
missed one's included, while of the database nothing changes but its events and, if the load ran into a
pending failure, that failure. The invariant along a run is that all that is new in the database are loads
of the entries that have run (`Workspace.Reaches.trace`).

That an entry finds something or fails is said of the sort of `Database.load`, which always gives a result.
A stable sort may break off at rows that the key of an entry does not rank (`Sorter`), and the load with it.
-/

namespace Stockroom

/-- Loads for some of the entries, in their order. -/
def LoadsOf (s : Nat) (es : List Plan.Entry) (events : List Event) : Prop :=
  ∃ loads : List (Plan.Entry × Nat), (loads.map Prod.fst).Sublist es
    ∧ events = loads.map fun l => .loaded s l.1.kind l.1.lock l.2

variable {s : Nat} {es es' : List Plan.Entry} {events events' : List Event}

theorem LoadsOf.nil (s : Nat) (es : List Plan.Entry) : LoadsOf s es [] :=
  ⟨[], List.nil_sublist es, rfl⟩

theorem LoadsOf.append (h : LoadsOf s es events) (h' : LoadsOf s es' events') :
    LoadsOf s (es ++ es') (events ++ events') := by
  obtain ⟨loads, hsub, rfl⟩ := h
  obtain ⟨loads', hsub', rfl⟩ := h'
  refine ⟨loads ++ loads', ?_, by rw [List.map_append]⟩
  rw [List.map_append]
  exact hsub.append hsub'

/-- The database with more events, and otherwise as it is. -/
def Database.addEvents (db : Database) (events : List Event) : Database :=
  { db with events := db.events ++ events }

namespace Workspace

open Plan

variable {strict : Bool} {q : Query} {e : Plan.Entry} {ran rest : List Plan.Entry} {w w' : WorkingSet}
  {db db' : Database} {f : Failure}

/-! ## One entry -/

/-- All that reading does to the database is that it records a load of the entry. -/
theorem loadsOf_of_reads {entries : List Plan.Entry} (hq : resolve w entries e = .ok q)
    {found : List Entity} (h : q.Reads s db found db') :
    ∃ events, LoadsOf s [e] events ∧ db' = db.addEvents events := by
  cases h with
  | skipped => exact ⟨[], .nil s [e], by rw [Database.addEvents, List.append_nil]⟩
  | loaded =>
      refine ⟨[.loaded s e.kind e.lock found.length], ⟨[(e, found.length)], List.Sublist.refl _, rfl⟩, ?_⟩
      obtain ⟨terms, -, rfl⟩ := exists_terms_of_resolve hq
      rfl

theorem runEntry_of_finds (hfresh : e.result = none) (hq : resolve w (ran ++ e :: rest) e = .ok q)
    {found : List Ident} (h : q.Finds s strict w db found w' db') :
    runEntry (Database.session s) strict ran e rest (w, db)
      = (.ok { e with result := some found }, w', db') := by
  simp only [runEntry, Plan.Entry.isLoaded, hfresh, Option.isSome_none, Bool.false_eq_true, if_false, hq,
    runQuery_of_finds h]

theorem runEntry_of_fails (hfresh : e.result = none) (hq : resolve w (ran ++ e :: rest) e = .ok q)
    (h : q.Fails s strict w db f w' db') :
    runEntry (Database.session s) strict ran e rest (w, db) = (.error f, w', db') := by
  simp only [runEntry, Plan.Entry.isLoaded, hfresh, Option.isSome_none, Bool.false_eq_true, if_false, hq,
    runQuery_of_fails h]

/-! ## Getting to an entry -/

section

variable (s : Nat) (strict : Bool) (entries : List Plan.Entry) (w₀ : WorkingSet) (db₀ : Database)

/-- A run gets somewhere: all entries before have found something. -/
inductive Reaches : List Plan.Entry → List Plan.Entry → WorkingSet → Database → Prop where
  | start : Reaches [] entries w₀ db₀
  | step {ran rest : List Plan.Entry} {e : Plan.Entry} {w w' : WorkingSet} {db db' : Database} {q : Query}
      {found : List Ident} (h : Reaches ran (e :: rest) w db)
      (hq : resolve w (ran ++ e :: rest) e = .ok q) (hfinds : q.Finds s strict w db found w' db') :
      Reaches (ran ++ [{ e with result := some found }]) rest w' db'

/-- The first entry of a run that fails, by its position, with what is left then. -/
inductive FailsAt : Nat → Failure → WorkingSet → Database → Prop where
  | fails {ran rest : List Plan.Entry} {e : Plan.Entry} {w w' : WorkingSet} {db db' : Database} {q : Query}
      {f : Failure} (h : Reaches s strict entries w₀ db₀ ran (e :: rest) w db)
      (hq : resolve w (ran ++ e :: rest) e = .ok q) (hfails : q.Fails s strict w db f w' db') :
      FailsAt ran.length f w' db'

end

variable {entries : List Plan.Entry} {w₀ : WorkingSet} {db₀ : Database}

/-- The entries behind a run and those before it are the entries it was given, and what is new in the
database are loads of those behind. -/
theorem Reaches.trace (h : Reaches s strict entries w₀ db₀ ran rest w db)
    (hfresh : ∀ e ∈ entries, e.result = none) :
    entries = ran.map Entry.unloaded ++ rest ∧ (∀ e ∈ ran, e.isLoaded = true)
      ∧ ∃ events, LoadsOf s (ran.map Entry.unloaded) events ∧ db = db₀.addEvents events := by
  induction h with
  | start =>
      refine ⟨rfl, by simp, [], .nil s _, ?_⟩
      rw [Database.addEvents, List.append_nil]
  | step _ hq hfinds ih =>
      obtain ⟨hentries, hloaded, events, hloads, rfl⟩ := ih
      rename_i ran rest e w w' db' q found _
      have hunloaded : Entry.unloaded { e with result := some found } = e := by
        have he : e ∈ entries := hentries ▸ List.mem_append_right _ (List.mem_cons_self ..)
        rw [Entry.unloaded, ← hfresh e he]
      obtain ⟨events', hloads', hdb'⟩ : ∃ events', LoadsOf s [e] events'
          ∧ db' = (db₀.addEvents events).addEvents events' := by
        cases hfinds with
        | found hreads _ => exact loadsOf_of_reads hq hreads
      refine ⟨?_, ?_, events ++ events', ?_, ?_⟩
      · rw [List.map_append, List.map_singleton, hunloaded, List.append_assoc, List.singleton_append,
          hentries]
      · intro e' he'
        rcases List.mem_append.mp he' with he' | he'
        · exact hloaded e' he'
        · obtain rfl := List.mem_singleton.mp he'
          rfl
      · rw [List.map_append, List.map_singleton, hunloaded]
        exact hloads.append hloads'
      · rw [hdb', Database.addEvents, Database.addEvents, Database.addEvents, List.append_assoc]

theorem Reaches.runEntries_eq (h : Reaches s strict entries w₀ db₀ ran rest w db)
    (hfresh : ∀ e ∈ entries, e.result = none) :
    runEntries (Database.session s) strict [] entries (w₀, db₀)
      = runEntries (Database.session s) strict ran rest (w, db) := by
  induction h with
  | start => rfl
  | step hbefore hq hfinds ih =>
      have hentries := (hbefore.trace hfresh).1
      rw [ih, runEntries_cons, runEntry_of_finds (hfresh _ (by simp [hentries])) hq hfinds]

/-- From anywhere a run that reads backwards gets to an entry that fails, or to the end. -/
theorem Reaches.fails_or_ends (hfresh : ∀ e ∈ entries, e.result = none)
    (hbackward : ∀ n (e : Plan.Entry), entries[n]? = some e → ∀ j ∈ e.criteria.sources, j < n)
    (h : Reaches s strict entries w₀ db₀ ran rest w db) :
    (∃ i f w' db', FailsAt s strict entries w₀ db₀ i f w' db')
      ∨ ∃ es w' db', Reaches s strict entries w₀ db₀ es [] w' db' := by
  induction rest generalizing ran w db with
  | nil => exact Or.inr ⟨ran, w, db, h⟩
  | cons e rest ih =>
      obtain ⟨hentries, hloaded, -⟩ := h.trace hfresh
      have he : entries[ran.length]? = some e := by simp [hentries]
      obtain ⟨q, hq⟩ := resolve_of_backward w (e :: rest) hloaded (hbackward ran.length e he)
      rcases answered s strict q w db with ⟨f, w', db', hfails⟩ | ⟨found, w', db', hfinds⟩
      · exact Or.inl ⟨_, f, w', db', .fails h hq hfails⟩
      · exact ih (h.step hq hfinds)

/-! ## Lookups that fail -/

theorem requested_toValue (is : List Ident) : requested (is.map Ident.toValue) = distinct is := by
  have hread : (fun i : Ident => Ident.ofValue? i.toValue) = some := funext Ident.ofValue?_toValue
  rw [requested, List.filterMap_map, Function.comp_def, hread, List.filterMap_some]

/-- Identities that are asked for as they are written are missed if they are not there. -/
theorem missing_toValue (t : Table Value) (is : List Ident) :
    missing t (is.map Ident.toValue) = (distinct is).filter fun i => !t.contains i := by
  rw [missing, requested_toValue]
  refine List.filter_congr fun i hi => ?_
  have hasked : i.toValue ∈ is.map Ident.toValue := List.mem_map_of_mem (mem_distinct.mp hi)
  rw [Bool.eq_iff_iff, isMissed_iff]
  simp [hasked]

/-- The identities that a lookup misses are those asked for that the session does not see. -/
theorem missed_of_fails {is : List Ident} {entries : List Plan.Entry} {nf : NotFound}
    (hchain : e.criteria.chain = [.isIn "entity_id" (is.map Ident.toValue)]) (hfresh : e.result = none)
    (hview : (db.view s e.kind).OfKind e.kind) (hq : resolve w entries e = .ok q)
    (h : q.Fails s strict w db (.notFound nf) w' db') :
    nf = ⟨e.kind, (distinct is).filter fun i => !(db.view s e.kind).contains i⟩ := by
  generalize hf : Failure.notFound nf = f at h
  cases h with
  | contended => cases hf
  | undecodable => cases hf
  | @missed es db' _ hreads _ hmisses =>
      obtain rfl := Failure.notFound.inj hf
      -- what is checked has no window, so the entry is a lookup
      have hlookup : e.IsLookup (is.map Ident.toValue) := by
        obtain ⟨terms, -, rfl⟩ := exists_terms_of_resolve hq
        exact ⟨Or.inl hchain, hmisses.checked.limit, hmisses.checked.offset, hfresh⟩
      obtain ⟨op, hop, hresolve⟩ := resolve_lookup hlookup w entries
      obtain rfl := Except.ok.inj (hq.symm.trans hresolve)
      have hfound : ∀ i, i ∈ es.map Entity.ident
          ↔ (db.view s e.kind).contains i = true ∧ i.toValue ∈ is.map Ident.toValue := by
        rw [(hreads.picks hview).1]
        exact mem_found_lookup hview hop
      have hchecked := Query.checkFound_eq_error_iff.mpr ⟨rfl, hmisses⟩
      rw [checkFound_lookup hfound, missing_toValue] at hchecked
      split at hchecked
      · cases hchecked
      · exact (Except.error.inj hchecked).symm

/-! ## Loads -/

section

variable (s : Nat) (p : Plan) (m : Workspace Database) (db : Database)

/-- What a load comes to that stops at an entry, the `i`-th: it fails as the entry does, and leaves the
workspace as it was but for the working set. -/
structure Stopped (i : Nat) (e : Plan.Entry) (f : Failure) (w : WorkingSet) (db' : Database) : Prop where
  entry : p.entries[i]? = some e
  failed : load p (m, db) = (.error f, { m with set := w }, db')
  /-- All it has recorded are loads of the entries up to this one. -/
  logged : ∃ events, LoadsOf s (p.entries.take (i + 1)) events ∧ db'.events = db.events ++ events
  /-- A pending failure is used up only if it is the one reported. -/
  pending : ∀ k, db'.pendingLoads.get k = db.pendingLoads.get k
    ∨ k = e.kind ∧ ∃ c, f = .contention c ∧ db.pendingLoads.get k = some c
  /-- A lookup that misses something reports the distinct identities asked for that are not there. -/
  missing : ∀ is nf, e.criteria.chain = [.isIn "entity_id" (is.map Ident.toValue)] →
    (db.view s e.kind).OfKind e.kind → f = .notFound nf →
    nf = ⟨e.kind, (distinct is).filter fun j => !(db.view s e.kind).contains j⟩

end

variable {m : Workspace Database} {p : Plan}

theorem stopped_of_failsAt (hsession : m.session = Database.session s)
    (hfresh : ∀ e ∈ p.entries, e.result = none) {i : Nat}
    (h : FailsAt s m.strict p.entries m.set db i f w db') : ∃ e, Stopped s p m db i e f w db' := by
  obtain ⟨hreaches, hq, hfails⟩ := h
  rename_i ran rest e w₁ db₁ q
  have hrun := hreaches.runEntries_eq hfresh
  obtain ⟨hentries, -, events, hloads, rfl⟩ := hreaches.trace hfresh
  have he : e.result = none := hfresh e (by simp [hentries])
  have hkind : q.kind = e.kind := kind_of_resolve hq
  rw [runEntries_cons, runEntry_of_fails he hq hfails] at hrun
  refine ⟨e, by simp [hentries], ?_, ?_, ?_, ?_⟩
  · simp only [load, hsession, hrun]
  · have htake : p.entries.take (ran.length + 1) = ran.map Entry.unloaded ++ [e] := by
      simp [hentries, List.take_append, List.take_of_length_le]
    obtain ⟨events', hloads', hnew⟩ : ∃ events', LoadsOf s [e] events'
        ∧ db'.events = (db.addEvents events).events ++ events' := by
      cases hfails with
      | contended | undecodable => exact ⟨[], .nil s [e], (List.append_nil _).symm⟩
      | missed hreads =>
          obtain ⟨events', hloads', rfl⟩ := loadsOf_of_reads hq hreads
          exact ⟨events', hloads', rfl⟩
    rw [htake, hnew]
    exact ⟨events ++ events', hloads.append hloads', List.append_assoc ..⟩
  · intro k
    cases hfails with
    | @contended c _ hpending =>
        by_cases hk : k = q.kind
        · subst hk
          exact Or.inr ⟨hkind, c, rfl, hpending⟩
        · exact Or.inl (by simp [PerKind.get_set, hk, Database.addEvents])
    | undecodable => exact Or.inl rfl
    | missed hreads =>
        obtain ⟨events', rfl⟩ := hreads.database_eq
        exact Or.inl rfl
  · rintro is nf hchain hview rfl
    have hview' : ((db.addEvents events).view s e.kind).OfKind e.kind := hview
    have hmissed := missed_of_fails hchain he hview' hq hfails
    exact hmissed

theorem load_of_ends (hsession : m.session = Database.session s)
    (hfresh : ∀ e ∈ p.entries, e.result = none) {es : List Plan.Entry}
    (h : Reaches s m.strict p.entries m.set db es [] w db') :
    load p (m, db) = if m.readOnly = p.mutating then
        (.error (.unit (.modeMismatch m.readOnly p.mutating)), { m with set := w }, db')
      else (.ok (), { m with set := w, plan := some { p with entries := es } }, db') := by
  simp only [load, hsession, h.runEntries_eq hfresh, runEntries]

variable {o : LockOrder} {mutating : Bool} {calls : List Plan.Call}

/-- A unit of work that is opened for a plan has the mode of the plan, unless the settings fix another. -/
theorem not_modeMismatch_of_createWaiting (hbuild : Plan.build o mutating calls = .ok p)
    {shop : Shop Database} {wait : UInt64} {u : UnitOfWork Database}
    (hshop : shop.openSession = (Shop.inMemory shop.order shop.settings).openSession)
    (hmode : shop.settings.readOnly = none) (hcreate : shop.createWaiting (some p) wait db = (.ok u, db'))
    (db'' : Database) (readOnly mutates : Bool) :
    (load p (u.workspace, db'')).1 ≠ .error (.unit (.modeMismatch readOnly mutates)) := by
  obtain ⟨w, hsession, hreadOnly, -, hmade⟩ := UnitOfWork.createWaiting_inMemory hshop (some p) wait db
  rw [hmade] at hcreate
  obtain rfl := Except.ok.inj (Prod.mk.inj hcreate).1
  intro hload
  have htyped : w.session.Typed := by
    rw [hsession]
    exact Session.typed_of_repositories fun k => ⟨_, PerKind.get_tabulate _ k⟩
  generalize hf : Failure.unit (.modeMismatch readOnly mutates) = f at hload
  cases loadFails_of_build htyped hbuild hload with
  | run h =>
      cases h with
      | store e => cases e <;> cases hf
      | missing => cases hf
  | mode h =>
      have hopposite : w.readOnly = !p.mutating := by
        rw [hreadOnly, Shop.isReadOnly, hmode]
        rfl
      have h : w.readOnly = p.mutating := h
      rw [hopposite] at h
      cases hp : p.mutating <;> simp [hp] at h

/-- A load stops at the first entry that fails, with its failure, and leaves what its entries did up to
there. If no entry fails, only the mode of the plan can still be at odds with that of the workspace, which it
never is in a unit of work opened for the plan, unless the settings fix the mode. -/
theorem load_stops (hbuild : Plan.build o mutating calls = .ok p) :
    (∀ (m : Workspace Database) (db : Database) (s : Nat), m.session = Database.session s →
        (∀ i f w db', FailsAt s m.strict p.entries m.set db i f w db' →
          ∃ e, Stopped s p m db i e f w db')
        ∧ ((¬ ∃ i f w db', FailsAt s m.strict p.entries m.set db i f w db') →
          ∃ es w db', Reaches s m.strict p.entries m.set db es [] w db'
            ∧ es.map Entry.unloaded = p.entries ∧ (∀ e ∈ es, e.isLoaded = true)
            ∧ load p (m, db) = if m.readOnly = p.mutating then
                (.error (.unit (.modeMismatch m.readOnly p.mutating)), { m with set := w }, db')
              else (.ok (), { m with set := w, plan := some { p with entries := es } }, db')))
      ∧ ∀ (shop : Shop Database) (wait : UInt64) (db db' db'' : Database) (u : UnitOfWork Database),
          shop.openSession = (Shop.inMemory shop.order shop.settings).openSession →
          shop.settings.readOnly = none → shop.createWaiting (some p) wait db = (.ok u, db') →
          ∀ r c, (load p (u.workspace, db'')).1 ≠ .error (.unit (.modeMismatch r c)) := by
  have hfresh := Plan.fresh_of_build hbuild
  have hbackward : ∀ n (e : Plan.Entry), p.entries[n]? = some e → ∀ j ∈ e.criteria.sources, j < n :=
    fun n e hn => (Plan.wellFormed_of_build hbuild n e hn).backward
  refine ⟨fun m db s hsession => ⟨fun i f w db' h => stopped_of_failsAt hsession hfresh h, fun hnone => ?_⟩,
    fun shop wait db db' db'' u hshop hmode hcreate => ?_⟩
  · have hstart : Reaches s m.strict p.entries m.set db [] p.entries m.set db := .start
    rcases hstart.fails_or_ends hfresh hbackward with hfails | ⟨es, w, db', hreaches⟩
    · exact absurd hfails hnone
    · obtain ⟨hentries, hloaded, -⟩ := hreaches.trace hfresh
      rw [List.append_nil] at hentries
      exact ⟨es, w, db', hreaches, hentries.symm, hloaded, load_of_ends hsession hfresh hreaches⟩
  · exact not_modeMismatch_of_createWaiting hbuild hshop hmode hcreate db''

/-- A load that asks for no customers, and then for the lamp and a product that is not there, stops for the
latter. The failures that were pending for customers and purchases still are: no customer was asked for, and
the purchases were not reached. -/
theorem absent_product_stops_load :
    ∃ p db i e w db', Plan.build .standard false [.load .customer, .identIn [],
          .load .product, .identIn [.sequential 10, .sequential 11],
          .load .purchase, .identIn [.sequential 2]] = .ok p
      ∧ db = (lampStore.failNextLoad .customer .deadlock).failNextLoad .purchase .lockTimeout
      ∧ Stopped 1 p (create (Database.session 1) .standard true) db i e
          (.notFound ⟨.product, [.sequential 11]⟩) w db'
      ∧ db'.pendingLoads.get .customer = some .deadlock
      ∧ db'.pendingLoads.get .purchase = some .lockTimeout := by
  have hbuild : Plan.build .standard false [.load .customer, .identIn [],
      .load .product, .identIn [.sequential 10, .sequential 11],
      .load .purchase, .identIn [.sequential 2]]
    = .ok ⟨[.ofIdents .customer [],
        .ofIdents .product [Ident.toValue (.sequential 10), Ident.toValue (.sequential 11)],
        .ofIdents .purchase [Ident.toValue (.sequential 2)]], false⟩ := rfl
  generalize hp : Plan.mk _ false = p at hbuild
  generalize hdb : (lampStore.failNextLoad .customer .deadlock).failNextLoad .purchase .lockTimeout = db
  obtain ⟨hfails, hends⟩ := (load_stops hbuild).1 (create (Database.session 1) .standard true) db 1 rfl
  have hload : (load p (create (Database.session 1) .standard true, db)).1
      = .error (.notFound ⟨.product, [.sequential 11]⟩) := by
    subst hp hdb
    decide +kernel
  by_cases hsome : ∃ i f w db', FailsAt 1 true p.entries .empty db i f w db'
  · obtain ⟨i, f, w, db', hfailsAt⟩ := hsome
    obtain ⟨e, hstopped⟩ := hfails i f w db' hfailsAt
    have hf := hload
    rw [hstopped.failed] at hf
    obtain rfl := Except.error.inj hf
    have hpending : ∀ k, db'.pendingLoads.get k = db.pendingLoads.get k := fun k =>
      (hstopped.pending k).resolve_right (by rintro ⟨-, c, hc, -⟩; cases hc)
    exact ⟨p, db, i, e, w, db', hbuild, rfl, hstopped, by rw [hpending, ← hdb]; rfl,
      by rw [hpending, ← hdb]; rfl⟩
  · obtain ⟨es, w, db', -, -, -, hok⟩ := hends hsome
    rw [hok, if_neg (by rw [← hp]; decide)] at hload
    cases hload

end Workspace

end Stockroom
