import Stockroom.Proofs.Answering
import Stockroom.Proofs.WriteBack

/-!
# What a plan means

A plan can be read without running it. An entry means the identities of those rows of its kind that
satisfy its criteria, sorted and cut as it asks for, and a chained criterion compares with what its
extractor gives for the entities that an earlier entry names (`Plan.Entry.meant`). All of this speaks of
the rows that a session sees and of the results of earlier entries; there is no working set in it.

Running a plan goes another way. It reads the values of a chained criterion out of the working set, where
entities of several entries are mixed, and each of them once; it does not ask the store for what nothing
can match; and it puts what it loads over what is there. It comes to the same (`Workspace.load_means`).
The invariant, over the entries that have run, is that every one found what it means and the working set
holds what they found and nothing else (`Plan.Executed`). An entry reads from entries that have run only,
so what it means does not change when more entries run behind it (`Plan.Entry.meant_append`).
-/

namespace Stockroom

namespace Plan

/-! ## Meaning -/

/-- Tests on a row joined to one: some of them pass if joined by `or`, else all. -/
def joined (joiner : Option Joiner) (tests : List (Value → Bool)) (row : Value) : Bool :=
  match joiner with
  | some .or => tests.any fun test => test row
  | some .and | none => tests.all fun test => test row

section

variable (view : Kind → Table Value) (es : List Entry)

/-- The entity a view shows under a kind and an identity. -/
def shown? (k : Kind) (i : Ident) : Option Entity := ((view k).find? i).bind (Entity.ofRow? k)

/-- The entities that an entry names in its result. -/
def Entry.named (e : Entry) : List Entity := (e.result.getD []).filterMap (shown? view e.kind)

/-- The values a criterion compares with. -/
def valuesOf (c : Criterion) : List Value :=
  match c.source with
  | .literal values => values
  | .previous j x => (es[j]?.toList.flatMap (Entry.named view)).flatMap x.values

/-- A row has the field, with one of the values. -/
def holds (c : Criterion) (row : Value) : Bool :=
  (row.field? c.field).any fun v => (valuesOf view es c).any (· == v)

/-- The identities an entry means, among entries with results. -/
def Entry.meant (e : Entry) : List Ident :=
  ((view e.kind).pick (joined e.criteria.joiner (e.criteria.chain.map (holds view es)))
    e.sortKey e.offset e.limit).map (·.1)

/-- Every entry found what it means, and the working set shows what they found as the view does. -/
structure Recalled (w : WorkingSet) : Prop where
  found : ∀ e ∈ es, e.result = some (e.meant view es)
  find? : ∀ e ∈ es, ∀ i ∈ e.result.getD [], w.find? e.kind i = shown? view e.kind i

/-- Every entry found what it means, and the working set holds what they found, as the view shows it,
and nothing else. -/
structure Executed (w : WorkingSet) : Prop where
  found : ∀ e ∈ es, e.result = some (e.meant view es)
  held : ∀ k i, w.contains k i = true ↔ ∃ e ∈ es, e.kind = k ∧ i ∈ e.result.getD []
  shown : ∀ k i a, w.find? k i = some a → shown? view k i = some a

end

/-- An entry as it was before it ran. -/
def Entry.unloaded (e : Entry) : Entry := { e with result := none }

/-- The criteria of an entry read from the first `n` entries only. -/
def Entry.ReadsBelow (n : Nat) (e : Entry) : Prop :=
  ∀ c ∈ e.criteria.chain, ∀ j, c.entry? = some j → j < n

/-! ## What a view shows -/

variable {view : Kind → Table Value} {ran rest : List Entry} {e : Entry} {c : Criterion}
  {w w' : WorkingSet}

theorem kind_of_shown? {k : Kind} {i : Ident} {a : Entity} (h : shown? view k i = some a) :
    a.kind = k := by
  obtain ⟨row, -, hrow⟩ := Option.bind_eq_some_iff.mp h
  exact Entity.kind_of_ofRow? hrow

/-- In a table of entities an identity has the row of the entity shown under it. -/
theorem find?_eq_some_iff {k : Kind} (hview : (view k).OfKind k) {i : Ident} {row : Value} :
    (view k).find? i = some row ↔ ∃ a, shown? view k i = some a ∧ a.ident = i ∧ row = a.toRow := by
  constructor
  · intro h
    obtain ⟨a, hkind, hident, rfl⟩ := hview i row h
    refine ⟨a, ?_, hident, rfl⟩
    rw [shown?, h, Option.bind_some, ← hkind]
    exact a.ofRow?_toRow
  · rintro ⟨a, hshown, -, rfl⟩
    obtain ⟨row, hfind, hrow⟩ := Option.bind_eq_some_iff.mp hshown
    obtain ⟨a', hkind, -, rfl⟩ := hview i row hfind
    rw [← hkind, a'.ofRow?_toRow] at hrow
    rw [hfind, Option.some.inj hrow]

theorem ident_of_shown? {k : Kind} (hview : (view k).OfKind k) {i : Ident} {a : Entity}
    (h : shown? view k i = some a) : a.ident = i := by
  obtain ⟨row, hfind, hrow⟩ := Option.bind_eq_some_iff.mp h
  obtain ⟨a', ha', hident, -⟩ := (find?_eq_some_iff hview).mp hfind
  obtain rfl : a = a' := Option.some.inj (h.symm.trans ha')
  exact hident

theorem contains_iff {k : Kind} (hview : (view k).OfKind k) {i : Ident} :
    (view k).contains i = true ↔ ∃ a, shown? view k i = some a := by
  rw [Table.contains, Option.isSome_iff_exists]
  constructor
  · rintro ⟨row, hrow⟩
    obtain ⟨a, ha, -⟩ := (find?_eq_some_iff hview).mp hrow
    exact ⟨a, ha⟩
  · rintro ⟨a, ha⟩
    exact ⟨_, (find?_eq_some_iff hview).mpr ⟨a, ha, ident_of_shown? hview ha, rfl⟩⟩

/-! ## What an entry means stays -/

theorem valuesOf_append (h : ∀ j, c.entry? = some j → j < ran.length) (more : List Entry) :
    valuesOf view (ran ++ more) c = valuesOf view ran c := by
  unfold valuesOf
  cases hsource : c.source with
  | literal values => rfl
  | previous j x =>
      have hj : j < ran.length := h j (by simp only [Criterion.entry?, hsource])
      simp only [List.getElem?_append_left hj]

/-- More entries behind those it reads from do not change what an entry means. -/
theorem Entry.meant_append (h : e.ReadsBelow ran.length) (more : List Entry) :
    e.meant view (ran ++ more) = e.meant view ran := by
  have htests : e.criteria.chain.map (holds view (ran ++ more))
      = e.criteria.chain.map (holds view ran) := by
    refine List.map_congr_left fun c hc => ?_
    funext row
    rw [holds, holds, valuesOf_append (h c hc)]
  rw [meant, meant, htests]

theorem Executed.recalled (h : Executed view ran w) : Recalled view ran w where
  found := h.found
  find? e he i hi := by
    have hheld := (h.held e.kind i).mpr ⟨e, he, rfl, hi⟩
    obtain ⟨a, ha⟩ := Option.isSome_iff_exists.mp hheld
    rw [ha, h.shown e.kind i a ha]

/-- An entry that found what it means is one more that can be recalled. -/
theorem Recalled.append (h : Recalled view ran w) (hback : ∀ e ∈ ran, e.ReadsBelow ran.length)
    (he : e.ReadsBelow ran.length)
    (hput : ∀ l i, w'.find? l i = if l = e.kind ∧ i ∈ e.meant view ran then shown? view e.kind i
      else w.find? l i) :
    Recalled view (ran ++ [{ e with result := some (e.meant view ran) }]) w' := by
  constructor
  · intro e' he'
    rcases List.mem_append.mp he' with he' | he'
    · -- those before read from those before them, and mean what they meant
      rw [Entry.meant_append (hback e' he'), h.found e' he']
    · obtain rfl := List.mem_singleton.mp he'
      exact congrArg some (Entry.meant_append he _).symm
  · intro e' he' i hi
    rw [hput]
    split
    · rename_i hki
      rw [hki.1]
    · rename_i hki
      rcases List.mem_append.mp he' with he' | he'
      · exact h.find? e' he' i hi
      · obtain rfl := List.mem_singleton.mp he'
        exact absurd ⟨rfl, hi⟩ hki

/-- An entry means identities that the view shows. -/
theorem Entry.isSome_shown? (hview : (view e.kind).OfKind e.kind) {es : List Entry} {i : Ident}
    (hi : i ∈ e.meant view es) : (shown? view e.kind i).isSome := by
  obtain ⟨r, hr, rfl⟩ := List.mem_map.mp hi
  have hfind := Table.mem_entries_iff.mp (Table.mem_of_mem_pick hr)
  obtain ⟨a, ha, -⟩ := (find?_eq_some_iff hview).mp hfind
  rw [ha]
  rfl

end Plan

/-! ## Filling in values -/

namespace Query

/-- A query tests a row by its terms joined. -/
theorem accepts_eq_joined (q : Query) : q.accepts = Plan.joined q.joiner (q.terms.map Term.accepts) := by
  funext row
  unfold accepts Plan.joined
  cases q.joiner with
  | none => simp [List.all_map, Function.comp_def]
  | some j => cases j <;> simp [List.any_map, List.all_map, Function.comp_def]

end Query

namespace Workspace

open Plan

variable {view : Kind → Table Value} {ran rest : List Plan.Entry} {e : Plan.Entry}
  {w w' : WorkingSet}

/-- The values read out of the working set are those of the entities an entry names. Only an entry that
has run can be read from. -/
theorem chainedValues_ok (h : Recalled view ran w) (hrest : ∀ e ∈ rest, e.result = none)
    {j : Nat} {x : Extractor} {values : List Value}
    (hvalues : chainedValues w (ran ++ rest) j x = .ok values) :
    j < ran.length ∧ ∀ v, v ∈ values ↔
      v ∈ (ran[j]?.toList.flatMap (Entry.named view)).flatMap x.values := by
  unfold chainedValues at hvalues
  split at hvalues
  · cases hvalues
  · rename_i e he
    split at hvalues
    · cases hvalues
    · rename_i is his
      obtain rfl := Except.ok.inj hvalues
      -- the entries that have not run have no result to read from
      have hj : j < ran.length := by
        by_cases hj : j < ran.length
        · exact hj
        · rw [List.getElem?_append_right (Nat.le_of_not_lt hj)] at he
          have hnone := hrest e (List.mem_of_getElem? he)
          rw [his] at hnone
          cases hnone
      rw [List.getElem?_append_left hj] at he
      have hmem : e ∈ ran := List.mem_of_getElem? he
      have hnamed : ∀ a, a ∈ w.getMany e.kind is ↔ a ∈ e.named view := by
        intro a
        simp only [WorkingSet.getMany, Entry.named, his, Option.getD_some, List.mem_filterMap]
        refine exists_congr fun i => and_congr_right fun hi => ?_
        rw [h.find? e hmem i (by simpa only [his, Option.getD_some] using hi)]
      refine ⟨hj, fun v => ?_⟩
      rw [mem_distinct, he]
      simp only [List.mem_flatMap, hnamed, Option.toList_some, List.mem_singleton, exists_eq_left]

/-- A term made of a criterion tests rows as the criterion does. -/
theorem resolveCriterion_ok (h : Recalled view ran w) (hrest : ∀ e ∈ rest, e.result = none)
    {c : Criterion} (hplain : c.Plain) {t : Query.Term}
    (ht : resolveCriterion w (ran ++ rest) c = .ok t) :
    t.accepts = holds view ran c ∧ ∀ j, c.entry? = some j → j < ran.length := by
  unfold resolveCriterion at ht
  cases hsource : c.source with
  | literal values =>
      rw [hsource] at ht
      obtain rfl := Except.ok.inj ht
      refine ⟨?_, by simp [Criterion.entry?, hsource]⟩
      funext row
      simp only [Query.Term.accepts, holds, valuesOf, hsource]
      cases row.field? c.field with
      | none => rfl
      | some v =>
          rcases hplain with hop | ⟨u, hu⟩
          · simp [hop]
          · -- compared with the first value only, but there is no other
            obtain rfl : values = [u] := by simpa [hsource] using hu
            cases c.operator <;> simp
  | previous j x =>
      simp only [hsource] at ht
      have hop : c.operator = .isIn := by
        rcases hplain with hop | ⟨u, hu⟩
        · exact hop
        · rw [hsource] at hu
          cases hu
      cases hvalues : chainedValues w (ran ++ rest) j x with
      | error fault =>
          rw [hvalues] at ht
          cases ht
      | ok values =>
          rw [hvalues] at ht
          obtain rfl := Except.ok.inj ht
          obtain ⟨hj, hmem⟩ := chainedValues_ok h hrest hvalues
          refine ⟨?_, ?_⟩
          · funext row
            simp only [Query.Term.accepts, holds, valuesOf, hsource, hop]
            cases row.field? c.field with
            | none => rfl
            | some v =>
                rw [Option.any_some, Bool.eq_iff_iff, List.any_eq_true, List.any_eq_true]
                simp only [hmem]
          · intro j' hj'
            simp only [Criterion.entry?, hsource, Option.some.injEq] at hj'
            rw [← hj']
            exact hj

theorem resolveChain_ok (h : Recalled view ran w) (hrest : ∀ e ∈ rest, e.result = none)
    {cs : List Criterion} (hplain : ∀ c ∈ cs, c.Plain) {terms : List Query.Term}
    (hterms : resolveChain w (ran ++ rest) cs = .ok terms) :
    terms.map Query.Term.accepts = cs.map (holds view ran)
      ∧ ∀ c ∈ cs, ∀ j, c.entry? = some j → j < ran.length := by
  induction cs generalizing terms with
  | nil =>
      obtain rfl := Except.ok.inj hterms
      exact ⟨rfl, by simp⟩
  | cons c cs ih =>
      simp only [resolveChain] at hterms
      split at hterms
      · cases hterms
      · rename_i t ht
        cases hrec : resolveChain w (ran ++ rest) cs with
        | error fault =>
            rw [hrec] at hterms
            cases hterms
        | ok ts =>
            rw [hrec] at hterms
            obtain rfl := Except.ok.inj hterms
            obtain ⟨htests, hbelow⟩ := ih (fun c hc => hplain c (List.mem_cons_of_mem _ hc)) hrec
            obtain ⟨htest, hfirst⟩ :=
              resolveCriterion_ok h hrest (hplain c (List.mem_cons_self ..)) ht
            refine ⟨by rw [List.map_cons, List.map_cons, htest, htests], ?_⟩
            intro c' hc'
            rcases List.mem_cons.mp hc' with rfl | hc'
            · exact hfirst
            · exact hbelow c' hc'

/-- The query of an entry picks what the entry means. -/
theorem resolve_ok (h : Recalled view ran w) (hrest : ∀ e ∈ rest, e.result = none)
    (hplain : ∀ c ∈ e.criteria.chain, c.Plain) {q : Query}
    (hq : resolve w (ran ++ rest) e = .ok q) :
    q.kind = e.kind ∧ e.ReadsBelow ran.length
      ∧ ((view e.kind).pick q.accepts q.sortKey q.offset q.limit).map (·.1) = e.meant view ran := by
  obtain ⟨terms, hterms, rfl⟩ := exists_terms_of_resolve hq
  obtain ⟨htests, hbelow⟩ := resolveChain_ok h hrest hplain hterms
  refine ⟨rfl, hbelow, ?_⟩
  rw [Query.accepts_eq_joined, Entry.meant, ← htests]

/-! ## Running entries -/

variable {s : Nat} {strict : Bool} {q : Query} {found : List Ident} {db db' : Database}

/-- Entities put where a view shows them are found there, and nothing else changes. -/
theorem find?_insert_all {k : Kind} {es : List Entity}
    (hes : ∀ e ∈ es, e.kind = k ∧ shown? view k e.ident = some e) (l : Kind) (i : Ident) :
    (es.foldl WorkingSet.insert w).find? l i
      = if l = k ∧ i ∈ es.map Entity.ident then shown? view k i else w.find? l i := by
  induction es generalizing w with
  | nil => simp
  | cons e es ih =>
      obtain ⟨hkind, hshown⟩ := hes e (List.mem_cons_self ..)
      rw [List.foldl_cons, ih fun e' he' => hes e' (List.mem_cons_of_mem _ he'),
        WorkingSet.find?_insert, hkind]
      by_cases hl : l = k
      · by_cases hi : i = e.ident
        · simp [hl, hi, hshown]
        · simp [hl, hi]
      · simp [hl]

/-- A query that runs finds what it picks, and puts it into the working set. -/
theorem runQuery_ok (hview : (db.view s q.kind).OfKind q.kind)
    (h : runQuery (Database.session s) strict q (w, db) = (.ok found, w', db')) :
    found = ((db.view s q.kind).pick q.accepts q.sortKey q.offset q.limit).map (·.1)
      ∧ (∀ l i, w'.find? l i
        = if l = q.kind ∧ i ∈ found then shown? (db.view s) q.kind i else w.find? l i)
      ∧ ∃ events, db' = { db with events := events } := by
  cases runQuery_eq_ok_iff.mp h with
  | @found es _ hreads _ =>
      obtain ⟨hidents, hrows⟩ := hreads.picks hview
      have hshown : ∀ e ∈ es, e.kind = q.kind ∧ shown? (db.view s) q.kind e.ident = some e := by
        intro e he
        refine ⟨hreads.kinds e he, ?_⟩
        rw [shown?, hrows e he, Option.bind_some, ← hreads.kinds e he]
        exact e.ofRow?_toRow
      exact ⟨hidents, find?_insert_all hshown, hreads.database_eq⟩

/-- What is true between the entries of a run, if it is not known what the working set held before. -/
structure Recalling (s : Nat) (view : Kind → Table Value) (ran : List Plan.Entry)
    (st : WorkingSet × Database) : Prop where
  recalled : Recalled view ran st.1
  backward : ∀ e ∈ ran, e.ReadsBelow ran.length
  view_eq : st.2.view s = view

/-- What is true between the entries of a run, those that have run being known. -/
structure Running (s : Nat) (view : Kind → Table Value) (ran : List Plan.Entry)
    (st : WorkingSet × Database) : Prop where
  executed : Executed view ran st.1
  backward : ∀ e ∈ ran, e.ReadsBelow ran.length
  view_eq : st.2.view s = view
  pending : ∀ k, st.2.pendingLoads.get k = none

theorem runEntry_ok {st st' : WorkingSet × Database} {e' : Plan.Entry}
    (h : Recalling s view ran st) (hview : ∀ k, (view k).OfKind k)
    (hrest : ∀ e' ∈ e :: rest, e'.result = none) (hplain : ∀ c ∈ e.criteria.chain, c.Plain)
    (hrun : runEntry (Database.session s) strict ran e rest st = (.ok e', st')) :
    e' = { e with result := some (e.meant view ran) } ∧ Recalling s view (ran ++ [e']) st'
      ∧ (∀ l i, st'.1.find? l i = if l = e.kind ∧ i ∈ e.meant view ran then shown? view e.kind i
        else st.1.find? l i)
      ∧ st'.2.pendingLoads = st.2.pendingLoads := by
  obtain ⟨w, db⟩ := st
  obtain ⟨w', db'⟩ := st'
  obtain ⟨hrecalled, hback, rfl⟩ := h
  simp only [runEntry] at hrun
  split at hrun
  · cases hrun
  · split at hrun
    · cases hrun
    · rename_i q hq
      obtain ⟨hkind, hbelow, hmeant⟩ := resolve_ok hrecalled hrest hplain hq
      split at hrun
      · cases hrun
      · rename_i found st₁ hquery
        obtain ⟨he', hst⟩ := Prod.mk.inj hrun
        obtain rfl := Except.ok.inj he'
        subst hst
        obtain ⟨hfound, hput, events, rfl⟩ := runQuery_ok (hview q.kind) hquery
        rw [hkind, hmeant] at hfound
        rw [hkind] at hput
        subst hfound
        refine ⟨rfl, ⟨hrecalled.append hback hbelow hput, fun e₁ he₁ c hc j hj => ?_, rfl⟩, hput, rfl⟩
        rw [List.length_append]
        rcases List.mem_append.mp he₁ with he₁ | he₁
        · exact Nat.lt_add_right _ (hback e₁ he₁ c hc j hj)
        · obtain rfl := List.mem_singleton.mp he₁
          exact Nat.lt_add_right _ (hbelow c hc j hj)

/-- The entries that a run adds are those it was given, with what they mean; and what they found is in the
working set then as the view shows it, in place of what was there. -/
theorem runEntries_recalling {st st' : WorkingSet × Database} {es : List Plan.Entry}
    (h : Recalling s view ran st) (hview : ∀ k, (view k).OfKind k)
    (hrest : ∀ e ∈ rest, e.result = none) (hplain : ∀ e ∈ rest, ∀ c ∈ e.criteria.chain, c.Plain)
    (hrun : runEntries (Database.session s) strict ran rest st = (.ok es, st')) :
    Recalling s view es st' ∧ st'.2.pendingLoads = st.2.pendingLoads
      ∧ ∃ done, es = ran ++ done ∧ done.map Entry.unloaded = rest.map Entry.unloaded
        ∧ ∀ k i, st'.1.find? k i = if ∃ e ∈ done, e.kind = k ∧ i ∈ e.result.getD [] then shown? view k i
          else st.1.find? k i := by
  induction rest generalizing ran st with
  | nil =>
      obtain ⟨hes, rfl⟩ := Prod.mk.inj hrun
      obtain rfl := Except.ok.inj hes
      exact ⟨h, rfl, [], (List.append_nil _).symm, rfl, by simp⟩
  | cons e rest ih =>
      rw [runEntries_cons] at hrun
      split at hrun
      · cases hrun
      · rename_i e' st₁ hentry
        obtain ⟨he', hnext, hput, hleft⟩ :=
          runEntry_ok h hview hrest (hplain e (List.mem_cons_self ..)) hentry
        obtain ⟨hlast, hleft', done, rfl, hmap, hfind⟩ :=
          ih hnext (fun e hmem => hrest e (List.mem_cons_of_mem _ hmem))
            (fun e hmem => hplain e (List.mem_cons_of_mem _ hmem)) hrun
        subst he'
        refine ⟨hlast, hleft'.trans hleft, _ :: done, (List.append_cons ..).symm, ?_, fun k i => ?_⟩
        · rw [List.map_cons, List.map_cons, hmap]
          rfl
        · rw [hfind, hput]
          by_cases hlater : ∃ e ∈ done, e.kind = k ∧ i ∈ e.result.getD []
          · obtain ⟨e', he', hki⟩ := hlater
            rw [if_pos ⟨e', he', hki⟩, if_pos ⟨e', List.mem_cons_of_mem _ he', hki⟩]
          · rw [if_neg hlater]
            by_cases hki : k = e.kind ∧ i ∈ e.meant view ran
            · obtain ⟨rfl, hi⟩ := hki
              rw [if_pos ⟨rfl, hi⟩, if_pos ⟨_, List.mem_cons_self .., rfl, hi⟩]
            · rw [if_neg hki, if_neg]
              rintro ⟨e', he', hk, hi⟩
              rcases List.mem_cons.mp he' with rfl | he'
              · exact hki ⟨hk.symm, hi⟩
              · exact hlater ⟨e', he', hk, hi⟩

theorem runEntries_ok {st st' : WorkingSet × Database} {es : List Plan.Entry}
    (h : Running s view ran st) (hview : ∀ k, (view k).OfKind k)
    (hrest : ∀ e ∈ rest, e.result = none) (hplain : ∀ e ∈ rest, ∀ c ∈ e.criteria.chain, c.Plain)
    (hrun : runEntries (Database.session s) strict ran rest st = (.ok es, st')) :
    es.map Entry.unloaded = (ran ++ rest).map Entry.unloaded ∧ Running s view es st' := by
  obtain ⟨⟨hrecalled, hback, hsame⟩, hleft, done, rfl, hmap, hfind⟩ :=
    runEntries_recalling ⟨h.executed.recalled, h.backward, h.view_eq⟩ hview hrest hplain hrun
  have hshown : ∀ k i, (∃ e ∈ done, e.kind = k ∧ i ∈ e.result.getD []) → (shown? view k i).isSome := by
    rintro k i ⟨e, he, rfl, hi⟩
    rw [hrecalled.found e (List.mem_append_right _ he)] at hi
    exact Entry.isSome_shown? (hview e.kind) hi
  refine ⟨by rw [List.map_append, List.map_append, hmap], ⟨hrecalled.found, fun k i => ?_, ?_⟩, hback,
    hsame, fun k => by rw [hleft]; exact h.pending k⟩
  · have hheld := h.executed.held k i
    simp only [List.mem_append, or_and_right, exists_or]
    rw [← hheld, WorkingSet.contains, WorkingSet.contains, hfind]
    by_cases hnew : ∃ e ∈ done, e.kind = k ∧ i ∈ e.result.getD []
    · rw [if_pos hnew]
      exact iff_of_true (hshown k i hnew) (Or.inr hnew)
    · rw [if_neg hnew]
      exact (or_iff_left hnew).symm
  · intro k i a ha
    rw [hfind] at ha
    split at ha
    · exact ha
    · exact h.executed.shown k i a ha

variable {m m' : Workspace Database}

/-- Running a built plan comes to what the plan means.

The workspace is fresh, and its session sees rows of entities only, each under its own identity. If the
plan runs, every entry is loaded with the identities it means, and the working set holds the entities
they name as the session sees them, and no other. -/
theorem load_means {o : LockOrder} {mutating : Bool} {calls : List Plan.Call} {p : Plan}
    (hbuild : Plan.build o mutating calls = .ok p) (hsession : m.session = Database.session s)
    (hset : m.set = .empty) (hview : ∀ k, (db.view s k).OfKind k)
    (hpending : ∀ k, db.pendingLoads.get k = none)
    (hload : Workspace.load p (m, db) = (.ok (), m', db')) :
    ∃ p', m'.plan = some p' ∧ p'.mutating = p.mutating
      ∧ p'.entries.map Entry.unloaded = p.entries ∧ (∀ e ∈ p'.entries, e.isLoaded = true)
      ∧ Executed (db.view s) p'.entries m'.set := by
  have hfresh := Plan.fresh_of_build hbuild
  have hstart : Running s (db.view s) [] (m.set, db) := by
    refine ⟨⟨by simp, ?_, ?_⟩, by simp, rfl, hpending⟩
    · intro k i
      simp [hset, WorkingSet.contains, WorkingSet.find?, WorkingSet.partition, WorkingSet.empty]
    · intro k i a ha
      simp [hset, WorkingSet.find?, WorkingSet.partition, WorkingSet.empty] at ha
  simp only [Workspace.load] at hload
  split at hload
  · cases hload
  · rename_i es w db₁ hrun
    rw [hsession] at hrun
    obtain ⟨hmap, hdone⟩ := runEntries_ok hstart hview hfresh (Plan.plain_of_build hbuild) hrun
    split at hload
    · cases hload
    · obtain ⟨-, hload⟩ := Prod.mk.inj hload
      obtain ⟨rfl, rfl⟩ := Prod.mk.inj hload
      refine ⟨_, rfl, rfl, ?_, ?_, hdone.executed⟩
      · rw [hmap, List.nil_append]
        refine (List.map_congr_left fun e he => ?_).trans (List.map_id _)
        rw [Entry.unloaded, ← hfresh e he]
        rfl
      · intro e he
        rw [Plan.Entry.isLoaded, hdone.executed.found e he]
        rfl

/-- The products of active purchases are loaded through the link between the two. -/
theorem products_of_purchase_loaded :
    ∃ db p m' db', db = (Database.empty.seed (.product ⟨.sequential 3, "Widget", "W-1", 10, 250⟩)).seed
        (.purchase ⟨.sequential 2, .sequential 1, .active, [⟨.sequential 3, 1⟩]⟩)
      ∧ Plan.build .standard false [.load .purchase, .fieldEquals "state" (.text "ACTIVE"),
          .load .product, .viaLink none] = .ok p
      ∧ Workspace.load p (create (Database.session 1) .standard true, db) = (.ok (), m', db')
      ∧ (∃ p', m'.plan = some p' ∧ Executed (db.view 1) p'.entries m'.set)
      ∧ m'.set.find? .product (.sequential 3)
          = some (.product ⟨.sequential 3, "Widget", "W-1", 10, 250⟩) := by
  have hbuild : Plan.build .standard false [.load .purchase, .fieldEquals "state" (.text "ACTIVE"),
      .load .product, .viaLink none]
    = .ok ⟨[⟨.purchase, ⟨[.equals "state" (.text "ACTIVE")], none⟩, .noLock, none, none, none, none, none⟩,
        ⟨.product, ⟨[.previous "entity_id" 0 .productsOfPurchase], none⟩, .noLock, none, none, none,
          some 0, none⟩], false⟩ := rfl
  generalize hp : Plan.mk _ false = p at hbuild
  generalize hdb : (Database.empty.seed (.product ⟨.sequential 3, "Widget", "W-1", 10, 250⟩)).seed
    (.purchase ⟨.sequential 2, .sequential 1, .active, [⟨.sequential 3, 1⟩]⟩) = db
  have hok : (Workspace.load p (create (Database.session 1) .standard true, db)).1.isOk = true := by
    subst hp hdb
    decide +kernel
  have hfound : (Workspace.load p (create (Database.session 1) .standard true, db)).2.1.set.find?
      .product (.sequential 3) = some (.product ⟨.sequential 3, "Widget", "W-1", 10, 250⟩) := by
    subst hp hdb
    decide +kernel
  have hsound : db.Sound := by
    rw [← hdb]
    exact (Database.sound_empty.seed _).seed _
  have hidle : db.Idle := by
    rw [← hdb]
    exact fun _ => rfl
  have hview : ∀ k, (db.view 1 k).OfKind k := by
    intro k i row hrow
    rw [hidle.find?_view] at hrow
    exact hsound k i row hrow
  have hpending : ∀ k, db.pendingLoads.get k = none := by
    rw [← hdb]
    exact fun k => PerKind.get_fill none k
  rcases hload : Workspace.load p (create (Database.session 1) .standard true, db) with
    ⟨f | ⟨⟩, m', db'⟩
  · rw [hload] at hok
    cases hok
  · rw [hload] at hfound
    obtain ⟨p', hplan, -, -, -, hexecuted⟩ := load_means hbuild rfl rfl hview hpending hload
    exact ⟨db, p, m', db', rfl, hbuild, hload, ⟨p', hplan, hexecuted⟩, hfound⟩

end Workspace

end Stockroom
