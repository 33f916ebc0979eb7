import Stockroom.Proofs.Building
import Stockroom.Proofs.Waiting

/-!
# Built plans load safely

A run takes some things for granted. It reads the result of an entry that a criterion names by position,
it runs entries that were not run before, and it puts what a repository returns under the kind of its
query. If one of them is not so, the run stops with an error that speaks of misuse (`Failure.isMisuse`).

For a built plan they always are (`Workspace.load_of_build`). The criteria read from earlier entries only,
and the run goes through the entries in order, so the invariant is that all entries behind it have a
result and all entries before it have none. A repository of the database decodes every row as its own
kind, whatever is stored (`Session.Typed`). What is left to fail is the store, a strict run that misses
something, and the mode of the plan (`Workspace.LoadFails`).
-/

namespace Stockroom

/-- Whether a failure says that a plan or a repository was used in a way it is not made for. -/
def Failure.isMisuse : Failure → Bool
  | .unit (.notLoaded _) | .unit (.alreadyLoaded _) | .unit (.kindMismatch _ _)
  | .unit (.missingRepository _) => true
  | _ => false

theorem Failure.isMisuse_ofStore (e : StoreError) : (ofStore e).isMisuse = false := by
  cases e <;> rfl

/-! ## What repositories return -/

theorem Entity.kind_of_ofRow? {k : Kind} {row : Value} {e : Entity} (h : ofRow? k row = some e) :
    e.kind = k := by
  cases k with
  | customer | purchase | product =>
      obtain ⟨a, -, rfl⟩ := Option.map_eq_some_iff.mp h
      rfl

theorem Database.kind_of_decode {k : Kind} {rows : List Value} {es : List Entity}
    (h : decode k rows = .ok es) : ∀ e ∈ es, e.kind = k := by
  induction rows generalizing es with
  | nil =>
      obtain rfl := Except.ok.inj h
      simp
  | cons row rows ih =>
      simp only [decode] at h
      split at h
      · cases h
      · rename_i e he
        cases hrows : decode k rows with
        | error f =>
            rw [hrows] at h
            cases h
        | ok es' =>
            rw [hrows] at h
            obtain rfl := Except.ok.inj h
            intro e' he'
            rcases List.mem_cons.mp he' with rfl | he'
            · exact Entity.kind_of_ofRow? he
            · exact ih hrows e' he'

theorem Database.kind_of_load {s : Nat} {k : Kind} {q : Query} {db : Database} {es : List Entity}
    (h : (load s k q db).1 = .ok es) : ∀ e ∈ es, e.kind = k := by
  unfold load at h
  split at h
  · cases h
  · split at h
    · cases h
    · rename_i es' hdecode
      obtain rfl := Except.ok.inj h
      exact kind_of_decode hdecode

variable {σ : Type}

/-- A repository returns entities of the kind it is asked for. -/
def Session.Typed (s : Session σ) : Prop :=
  ∀ (q : Query) (db : σ) es, (s.load q db).1 = .ok es → ∀ e ∈ es, e.kind = q.kind

/-- Repositories of a database are typed, also if they are of different sessions. -/
theorem Session.typed_of_repositories {s : Session Database}
    (h : ∀ k, ∃ t, s.repositories.get k = Database.repository t k) : s.Typed := by
  intro q db es hload
  obtain ⟨t, ht⟩ := h q.kind
  rw [Session.load, ht] at hload
  exact Database.kind_of_load hload

theorem WorkingSet.putMany_ok {k : Kind} {es : List Entity} (h : ∀ e ∈ es, e.kind = k)
    (w : WorkingSet) : putMany k es w = (.ok (), es.foldl insert w) := by
  induction es generalizing w with
  | nil => rfl
  | cons e es ih =>
      have hput : w.put k e = .ok (w.insert e) := if_pos (h e (List.mem_cons_self ..))
      simp only [putMany, hput]
      exact ih (fun e' he' => h e' (List.mem_cons_of_mem _ he')) _

/-! ## Running entries -/

namespace Workspace

variable {s : Session σ} {strict : Bool} {ran rest : List Plan.Entry} {e : Plan.Entry}

section

variable (w : WorkingSet) (rest : List Plan.Entry)

/-- An entry that has run can be read from. -/
theorem chainedValues_of_lt (hran : ∀ e ∈ ran, e.isLoaded = true) {j : Nat} (hj : j < ran.length)
    (x : Extractor) : ∃ values, chainedValues w (ran ++ rest) j x = .ok values := by
  have hsource : (ran ++ rest)[j]? = some ran[j] := by
    rw [List.getElem?_append_left hj, List.getElem?_eq_getElem hj]
  obtain ⟨is, his⟩ := Option.isSome_iff_exists.mp (hran ran[j] (List.getElem_mem hj))
  simp only [chainedValues, hsource, his]
  exact ⟨_, rfl⟩

theorem resolveCriterion_of_backward (hran : ∀ e ∈ ran, e.isLoaded = true) {c : Criterion}
    (hc : ∀ j, c.entry? = some j → j < ran.length) :
    ∃ t, resolveCriterion w (ran ++ rest) c = .ok t := by
  unfold resolveCriterion
  cases hsource : c.source with
  | literal values => exact ⟨_, rfl⟩
  | previous j x =>
      have hj : j < ran.length := hc j (by simp only [Criterion.entry?, hsource])
      obtain ⟨values, hvalues⟩ := chainedValues_of_lt w rest hran hj x
      simp only [hvalues]
      exact ⟨_, rfl⟩

theorem resolveChain_of_backward (hran : ∀ e ∈ ran, e.isLoaded = true) {cs : List Criterion}
    (hcs : ∀ j ∈ cs.filterMap Criterion.entry?, j < ran.length) :
    ∃ terms, resolveChain w (ran ++ rest) cs = .ok terms := by
  induction cs with
  | nil => exact ⟨[], rfl⟩
  | cons c cs ih =>
      obtain ⟨t, ht⟩ := resolveCriterion_of_backward w rest hran (c := c)
        fun j hj => hcs j (List.mem_filterMap.mpr ⟨c, List.mem_cons_self .., hj⟩)
      obtain ⟨terms, hterms⟩ := ih fun j hj => by
        obtain ⟨c', hc', hj⟩ := List.mem_filterMap.mp hj
        exact hcs j (List.mem_filterMap.mpr ⟨c', List.mem_cons_of_mem _ hc', hj⟩)
      simp only [resolveChain, ht, hterms]
      exact ⟨_, rfl⟩

/-- An entry that reads from entries that have run poses a query. -/
theorem resolve_of_backward (hran : ∀ e ∈ ran, e.isLoaded = true)
    (he : ∀ j ∈ e.criteria.sources, j < ran.length) :
    ∃ q, resolve w (ran ++ rest) e = .ok q := by
  obtain ⟨terms, hterms⟩ := resolveChain_of_backward w rest hran he
  simp only [resolve, hterms]
  exact ⟨_, rfl⟩

end

/-- All that a run of entries can fail with: the store reports it, or a strict run misses something. -/
inductive RunFails (strict : Bool) : Failure → Prop where
  | store (e : StoreError) : RunFails strict (.ofStore e)
  | missing (e : NotFound) (h : strict = true) : RunFails strict (.notFound e)

theorem runQuery_error (hs : s.Typed) {q : Query} {st st' : WorkingSet × σ} {f : Failure}
    (h : runQuery s strict q st = (.error f, st')) : RunFails strict f := by
  obtain ⟨w, db⟩ := st
  simp only [runQuery] at h
  split at h
  · rename_i e db' _
    obtain ⟨hf, -⟩ := Prod.mk.inj h
    obtain rfl := Except.error.inj hf
    exact .store e
  · rename_i es db' hfetch
    have hkinds : ∀ e ∈ es, e.kind = q.kind := by
      unfold fetch at hfetch
      split at hfetch
      · obtain ⟨hes, -⟩ := Prod.mk.inj hfetch
        obtain rfl := Except.ok.inj hes
        simp
      · exact hs q db es (by rw [hfetch])
    have hput := WorkingSet.putMany_ok hkinds w
    split at h
    · rename_i fault w' hfault
      rw [hfault] at hput
      cases (Prod.mk.inj hput).1
    · split at h
      · rename_i e hmissing
        obtain ⟨hf, -⟩ := Prod.mk.inj h
        obtain rfl := Except.error.inj hf
        refine .missing e ?_
        cases strict with
        | true => rfl
        | false => cases hmissing
      · cases h

theorem runEntry_error (hs : s.Typed) (hran : ∀ e ∈ ran, e.isLoaded = true)
    (hfresh : e.result = none) (he : ∀ j ∈ e.criteria.sources, j < ran.length)
    {st st' : WorkingSet × σ} {f : Failure}
    (h : runEntry s strict ran e rest st = (.error f, st')) : RunFails strict f := by
  obtain ⟨w, db⟩ := st
  obtain ⟨q, hq⟩ := resolve_of_backward w (e :: rest) hran he
  simp only [runEntry, Plan.Entry.isLoaded, hfresh, Option.isSome_none, Bool.false_eq_true, if_false,
    hq] at h
  split at h
  · rename_i f' st'' hrun
    obtain ⟨hf, -⟩ := Prod.mk.inj h
    obtain rfl := Except.error.inj hf
    exact runQuery_error hs hrun
  · cases h

theorem isLoaded_of_runEntry {e' : Plan.Entry} {st st' : WorkingSet × σ}
    (h : runEntry s strict ran e rest st = (.ok e', st')) : e'.isLoaded = true := by
  obtain ⟨w, db⟩ := st
  simp only [runEntry] at h
  split at h
  · cases h
  · split at h
    · cases h
    · split at h
      · cases h
      · obtain ⟨he', -⟩ := Prod.mk.inj h
        obtain rfl := Except.ok.inj he'
        rfl

/-- With results behind it and none before it, a run that reads backwards fails in two ways only. -/
theorem runEntries_error (hs : s.Typed) (hran : ∀ e ∈ ran, e.isLoaded = true)
    (hfresh : ∀ e ∈ rest, e.result = none)
    (hbackward : ∀ n (e : Plan.Entry), rest[n]? = some e →
      ∀ j ∈ e.criteria.sources, j < ran.length + n)
    {st st' : WorkingSet × σ} {f : Failure}
    (h : runEntries s strict ran rest st = (.error f, st')) : RunFails strict f := by
  induction rest generalizing ran st with
  | nil => cases h
  | cons e rest ih =>
      rw [runEntries_cons] at h
      split at h
      · rename_i f' st'' hrun
        obtain ⟨hf, -⟩ := Prod.mk.inj h
        obtain rfl := Except.error.inj hf
        exact runEntry_error hs hran (hfresh e (List.mem_cons_self ..)) (hbackward 0 e rfl) hrun
      · rename_i e' st'' hrun
        -- the entry has moved to those that have run, and the others are one step nearer
        refine ih ?_ (fun e he => hfresh e (List.mem_cons_of_mem _ he)) ?_ h
        · intro e'' he''
          rcases List.mem_append.mp he'' with he'' | he''
          · exact hran e'' he''
          · exact List.mem_singleton.mp he'' ▸ isLoaded_of_runEntry hrun
        · intro n e'' hn j hj
          have hlt := hbackward (n + 1) e'' hn j hj
          rw [List.length_append, List.length_singleton]
          omega

/-! ## Loading built plans -/

/-- All that loading a built plan can fail with. -/
inductive LoadFails (m : Workspace σ) (p : Plan) : Failure → Prop where
  | run {f : Failure} (h : RunFails m.strict f) : LoadFails m p f
  | mode (h : m.readOnly = p.mutating) : LoadFails m p (.unit (.modeMismatch m.readOnly p.mutating))

theorem LoadFails.isMisuse {m : Workspace σ} {p : Plan} {f : Failure} (h : LoadFails m p f) :
    f.isMisuse = false := by
  cases h with
  | run h =>
      cases h with
      | store e => exact Failure.isMisuse_ofStore e
      | missing e _ => rfl
  | mode _ => rfl

variable {o : LockOrder} {mutating : Bool} {calls : List Plan.Call} {p : Plan}

theorem loadFails_of_build {m : Workspace σ} (hs : m.session.Typed)
    (hbuild : Plan.build o mutating calls = .ok p) {db : σ} {f : Failure}
    (h : (load p (m, db)).1 = .error f) : LoadFails m p f := by
  simp only [load] at h
  split at h
  · rename_i f' w db' hrun
    obtain rfl := Except.error.inj h
    refine .run (runEntries_error hs (by simp) (Plan.fresh_of_build hbuild) ?_ hrun)
    intro n e hn j hj
    rw [List.length_nil, Nat.zero_add]
    exact (Plan.wellFormed_of_build hbuild n e hn).backward j hj
  · split at h
    · rename_i hmode
      obtain rfl := Except.error.inj h
      exact .mode hmode
    · cases h

/-- The entries of a built plan have terms that are joined if there are several, and read from earlier
entries only, the least of which is the source. Loading it into any workspace over repositories of the
database never comes to reading what is not loaded, loading what is loaded, putting an entity under
another kind, or a missing repository. -/
theorem load_of_build (hbuild : Plan.build o mutating calls = .ok p) :
    (∀ n (e : Plan.Entry), p.entries[n]? = some e →
        e.criteria.chain ≠ []
          ∧ (e.criteria.joiner.isSome ↔ 2 ≤ e.criteria.chain.length)
          ∧ (∀ j ∈ e.criteria.sources, j < n)
          ∧ e.source = e.criteria.sources.min?)
      ∧ ∀ (m : Workspace Database) (db : Database) (f : Failure),
          (∀ k, ∃ s, m.session.repositories.get k = Database.repository s k) →
          (load p (m, db)).1 = .error f → f.isMisuse = false := by
  constructor
  · intro n e hn
    have hwell := Plan.wellFormed_of_build hbuild n e hn
    exact ⟨hwell.nonempty, hwell.joined, hwell.backward, hwell.source⟩
  · intro m db f hmemory h
    exact (loadFails_of_build (Session.typed_of_repositories hmemory) hbuild h).isMisuse

/-- Purchases chained to a customer are loaded as far as the store lets them: what the run fails with is
the deadlock that was arranged. -/
theorem purchases_of_customer_deadlock :
    ∃ p, Plan.build .standard true [.load .customer, .identIn [.sequential 0], .lock .shared,
          .load .purchase, .viaLink none, .lock .exclusive] = .ok p
      ∧ (load p (create (Database.session 1) .standard false,
          (Database.empty.seed (.customer ⟨.sequential 0, "Ada", "ada@example.org"⟩)).failNextLoad
            .purchase .deadlock)).1 = .error (.contention .deadlock)
      ∧ (Failure.contention .deadlock).isMisuse = false
      ∧ ∃ e, p.entries[1]? = some e ∧ e.source = e.criteria.sources.min? := by
  have hbuild : Plan.build .standard true [.load .customer, .identIn [.sequential 0], .lock .shared,
      .load .purchase, .viaLink none, .lock .exclusive]
    = .ok ⟨[⟨.customer, ⟨[.isIn "entity_id" [Ident.toValue (.sequential 0)]], none⟩, .shared, none,
          none, none, none, none⟩,
        ⟨.purchase, ⟨[.previous "customer_id" 0 .ownIdent], none⟩, .exclusive, none, none, none,
          some 0, none⟩], true⟩ := rfl
  generalize hp : Plan.mk _ true = p at hbuild
  have hload : (load p (create (Database.session 1) .standard false,
      (Database.empty.seed (.customer ⟨.sequential 0, "Ada", "ada@example.org"⟩)).failNextLoad
        .purchase .deadlock)).1 = .error (.contention .deadlock) := by
    subst hp
    rfl
  have hsource : ∃ e, p.entries[1]? = some e := by
    rw [← hp]
    exact ⟨_, rfl⟩
  obtain ⟨hentries, hsafe⟩ := load_of_build hbuild
  obtain ⟨e, he⟩ := hsource
  exact ⟨p, hbuild, hload, hsafe _ _ _ (fun k => ⟨1, PerKind.get_tabulate _ k⟩) hload, e, he,
    (hentries 1 e he).2.2.2⟩

end Workspace

end Stockroom
