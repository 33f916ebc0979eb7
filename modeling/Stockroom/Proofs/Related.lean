import Stockroom.Proofs.Acceptance
import Stockroom.Proofs.Stopping

/-!
# Loading what is related

A purchase points at its customer and at the products of its items (`Entity.Relates`). An entry that
follows a link says so in values: the values an extractor reads out of the entities of an earlier entry are
compared with a field of the rows. Rows spell an identity in one way, so the two agree
(`Entity.relates_iff`), and what such an entry means are the entities related to those its source found, each
once and in ascending order of identity (`Plan.mem_meant_of_link`).

What a plan means is what it loads, also into a workspace that holds something already
(`Workspace.load_recalls`). So chains of links load what is related, step by step
(`Workspace.load_related`): repeated and shared identities come once, and those of entities that are not
there not at all. That every load gets through is said of the sort of `Database.load`, as entries may also
sort by a key that does not rank their rows (`Sorter`).
-/

namespace Stockroom

/-! ## Related entities -/

namespace Entity

/-- A purchase is related to its customer, and to the products of its items. -/
inductive Relates : Entity → Entity → Prop where
  | owner {c : Customer} {u : Purchase} (h : u.customer = c.ident) : Relates (.customer c) (.purchase u)
  | owned {c : Customer} {u : Purchase} (h : u.customer = c.ident) : Relates (.purchase u) (.customer c)
  | product {u : Purchase} {t : Product} (h : ∃ item ∈ u.items, item.product = t.ident) :
      Relates (.purchase u) (.product t)

theorem relates_owner {c : Customer} {u : Purchase} :
    Relates (.customer c) (.purchase u) ↔ u.customer = c.ident := ⟨fun | .owner h => h, .owner⟩

theorem relates_owned {c : Customer} {u : Purchase} :
    Relates (.purchase u) (.customer c) ↔ u.customer = c.ident := ⟨fun | .owned h => h, .owned⟩

theorem relates_product {u : Purchase} {t : Product} :
    Relates (.purchase u) (.product t) ↔ ∃ item ∈ u.items, item.product = t.ident :=
  ⟨fun | .product h => h, .product⟩

/-- What a link compares holds of related entities and of no others. -/
theorem relates_iff {a b : Entity} {link : Link} (h : Link.between? a.kind b.kind = some link) :
    (b.toRow.field? link.field).any (fun v => (link.extractor.values a).any (· == v)) = true
      ↔ a.Relates b := by
  cases a <;> cases b <;> cases h
  case customer.purchase c u =>
    have hfield : (Entity.purchase u).toRow.field? "customer_id" = some u.customer.toValue := rfl
    rw [hfield, Option.any_some, Ident.any_beq_toValue, relates_owner]
    simp only [Extractor.ownIdent, List.mem_singleton, Ident.toValue_inj, ident]
  case purchase.customer u c =>
    rw [field?_toRow, Option.any_some, Ident.any_beq_toValue, relates_owned]
    simp only [Extractor.customerOfPurchase, List.mem_singleton, Ident.toValue_inj, ident, eq_comm]
  case purchase.product u t =>
    rw [field?_toRow, Option.any_some, Ident.any_beq_toValue, relates_product]
    simp only [Extractor.productsOfPurchase, Ident.toValue_mem_map, ident]
    rw [Purchase.products, List.mem_map]

end Entity

namespace Plan

variable {view : Kind → Table Value} {es : List Entry} {e : Entry} {c : Criterion}

/-! ## Entries with one criterion -/

/-- An entry with one criterion, which asks neither for an order nor for a window. -/
structure Entry.Plainly (c : Criterion) (e : Entry) : Prop where
  chain : e.criteria.chain = [c]
  sortKey : e.sortKey = none
  limit : e.limit = none
  offset : e.offset = none

theorem Entry.Plainly.meant_eq (h : e.Plainly c) (es : List Entry) :
    e.meant view es = ((view e.kind).entries.filter fun r => holds view es c r.2).map (·.1) := by
  have hjoined : joined e.criteria.joiner [holds view es c] = holds view es c := by
    funext row
    cases hjoiner : e.criteria.joiner with
    | none => simp [joined]
    | some j => cases j <;> simp [joined]
  rw [Entry.meant, h.chain, h.sortKey, h.limit, h.offset, List.map_singleton, hjoined]
  rfl

/-- It means identities each once and in ascending order. -/
theorem Entry.Plainly.ascending (h : e.Plainly c) (es : List Entry) :
    (e.meant view es).Pairwise (· < ·) := by
  rw [h.meant_eq, List.pairwise_map]
  exact (view e.kind).pairwise_filter_entries _

theorem Entry.Plainly.mem_meant (h : e.Plainly c) (hview : (view e.kind).OfKind e.kind) {i : Ident} :
    i ∈ e.meant view es ↔ ∃ a, shown? view e.kind i = some a ∧ holds view es c a.toRow = true := by
  rw [h.meant_eq, List.mem_map]
  constructor
  · rintro ⟨⟨j, row⟩, hr, rfl⟩
    obtain ⟨hmem, hholds⟩ := List.mem_filter.mp hr
    obtain ⟨a, ha, -, rfl⟩ := (find?_eq_some_iff hview).mp (Table.mem_entries_iff.mp hmem)
    exact ⟨a, ha, hholds⟩
  · rintro ⟨a, ha, hholds⟩
    have hfind := (find?_eq_some_iff hview).mpr ⟨a, ha, ident_of_shown? hview ha, rfl⟩
    exact ⟨(i, a.toRow), List.mem_filter.mpr ⟨Table.mem_entries_iff.mpr hfind, hholds⟩, rfl⟩

theorem Entry.Plainly.of_unloaded (h : e.unloaded.Plainly c) : e.Plainly c :=
  ⟨h.chain, h.sortKey, h.limit, h.offset⟩

/-- An entry that asks for identities means those that are there. -/
theorem mem_meant_of_lookup {is : List Ident} (h : e.Plainly (.isIn "entity_id" (is.map Ident.toValue)))
    (hview : (view e.kind).OfKind e.kind) {i : Ident} :
    i ∈ e.meant view es ↔ i ∈ is ∧ (view e.kind).contains i = true := by
  rw [h.mem_meant hview, contains_iff hview, ← exists_and_left]
  refine exists_congr fun a => ?_
  rw [and_comm]
  refine and_congr_left fun ha => ?_
  rw [holds, Criterion.isIn, a.field?_toRow, Option.any_some, valuesOf, Ident.any_beq_toValue,
    Ident.toValue_mem_map, ident_of_shown? hview ha]

/-- An entry that follows a link means the entities related to those its source found. -/
theorem mem_meant_of_link {e₀ : Entry} {j : Nat} {link : Link} (hj : es[j]? = some e₀)
    (hlink : Link.between? e₀.kind e.kind = some link)
    (h : e.Plainly (.previous link.field j link.extractor)) (hview : (view e.kind).OfKind e.kind)
    {i : Ident} :
    i ∈ e.meant view es ↔ ∃ b, shown? view e.kind i = some b
      ∧ ∃ l ∈ e₀.result.getD [], ∃ a, shown? view e₀.kind l = some a ∧ a.Relates b := by
  rw [h.mem_meant hview]
  refine exists_congr fun b => and_congr_right fun hb => ?_
  have hvalues : valuesOf view es (.previous link.field j link.extractor)
      = (e₀.named view).flatMap link.extractor.values := by
    simp [valuesOf, Criterion.previous, hj]
  -- the values of all entities together match if those of one of them do
  have hone : holds view es (.previous link.field j link.extractor) b.toRow
      = (e₀.named view).any fun a =>
          (b.toRow.field? link.field).any fun v => (link.extractor.values a).any (· == v) := by
    rw [holds, hvalues, Criterion.previous]
    cases b.toRow.field? link.field <;> simp
  have hrelated : ∀ l a, shown? view e₀.kind l = some a →
      ((b.toRow.field? link.field).any (fun v => (link.extractor.values a).any (· == v)) = true
        ↔ a.Relates b) := by
    intro l a ha
    refine Entity.relates_iff ?_
    rw [kind_of_shown? ha, kind_of_shown? hb]
    exact hlink
  rw [hone, List.any_eq_true]
  constructor
  · rintro ⟨a, hnamed, hmatch⟩
    obtain ⟨l, hl, ha⟩ := List.mem_filterMap.mp hnamed
    exact ⟨l, hl, a, ha, (hrelated l a ha).mp hmatch⟩
  · rintro ⟨l, hl, a, ha, hrelates⟩
    exact ⟨a, List.mem_filterMap.mpr ⟨l, hl, ha⟩, (hrelated l a ha).mpr hrelates⟩

/-! ## Entries of a description -/

variable {o : LockOrder} {mutating : Bool} {calls : List Call} {p : Plan} {kinds : List Kind}
  {σ : Stanza} {σs : List Stanza} {n : Nat}

/-- The plan that is built of a description has the entries of its stanzas, which are linked. -/
theorem entries_of_build (h : build o mutating calls = .ok p) :
    LinkedFrom [] (stanzas calls) ∧ p.entries = entriesFrom [] (stanzas calls) := by
  obtain ⟨herror, hdrafts⟩ := read_calls calls
  have hnone : (calls.foldl Drafting.call .start).error = none := by
    cases hremembered : (calls.foldl Drafting.call .start).error with
    | none => rfl
    | some e => simp [build, ofDrafting, hremembered] at h
  have hlinked := (herror.mp hnone).2
  have haccepted := (build_ok h).2
  have hkinds : ([] : List Entry).map Entry.kind = [] := rfl
  rw [hdrafts hnone, acceptDrafts_draftsFrom_iff hkinds (by simp) hlinked] at haccepted
  exact ⟨hlinked, haccepted.2.2⟩

/-- The kinds of the stanzas before the `n`-th. -/
def kindsBefore (σs : List Stanza) (n : Nat) : List Kind := (σs.take n).map Stanza.kind

theorem getElem?_entriesFrom (kinds : List Kind) (σs : List Stanza) (n : Nat) :
    (entriesFrom kinds σs)[n]? = σs[n]?.map fun σ => σ.entry (kinds ++ kindsBefore σs n) := by
  induction σs generalizing kinds n with
  | nil => rfl
  | cons σ σs ih =>
      cases n with
      | zero => simp [entriesFrom, kindsBefore]
      | succ n =>
          rw [entriesFrom, List.getElem?_cons_succ, List.getElem?_cons_succ, ih]
          simp [kindsBefore]

theorem LinkedFrom.get (h : LinkedFrom kinds σs) (hn : σs[n]? = some σ) :
    σ.Linked (kinds ++ kindsBefore σs n) := by
  induction σs generalizing kinds n with
  | nil => cases hn
  | cons σ' σs ih =>
      obtain ⟨hσ', hσs⟩ := h
      cases n with
      | zero =>
          obtain rfl := Option.some.inj hn
          simpa [kindsBefore] using hσ'
      | succ n => simpa [kindsBefore] using ih hσs hn

/-- A stanza that asks for identities and nothing else. -/
theorem Stanza.plainly_entry_identIn (kinds : List Kind) (k : Kind) (is : List Ident) :
    (Stanza.entry kinds ⟨k, [.identIn is]⟩).Plainly (.isIn "entity_id" (is.map Ident.toValue)) :=
  ⟨rfl, rfl, rfl, rfl⟩

/-- A stanza that follows a link and says nothing else. -/
theorem Stanza.plainly_entry_viaLink {kinds : List Kind} {k : Kind} {a : Option Nat}
    (h : Stanza.Linked kinds ⟨k, [.viaLink a]⟩) :
    ∃ k' link, kinds[Call.sourceAt kinds.length a]? = some k' ∧ Link.between? k' k = some link
      ∧ (Stanza.entry kinds ⟨k, [.viaLink a]⟩).Plainly
          (.previous link.field (Call.sourceAt kinds.length a) link.extractor) := by
  obtain ⟨k', hk', hsome⟩ := h (.viaLink a) (List.mem_singleton.mpr rfl)
  obtain ⟨link, hlink⟩ := Option.isSome_iff_exists.mp hsome
  refine ⟨k', link, hk', hlink, ?_, rfl, rfl, rfl⟩
  simp [Stanza.entry, Stanza.terms, Call.term?, hk', hlink]

end Plan

/-! ## Loads -/

namespace Workspace

open Plan

variable {view : Kind → Table Value} {s : Nat} {m m' : Workspace Database} {db db' : Database} {p : Plan}
  {es : List Plan.Entry} {o : LockOrder} {mutating : Bool} {calls : List Plan.Call}

/-- A plan was loaded: it is the active one, with the results that its entries mean, and the working set
shows what they found as the view does, and is otherwise as before. -/
structure Loaded (view : Kind → Table Value) (p : Plan) (m m' : Workspace Database)
    (es : List Plan.Entry) : Prop where
  plan : m'.plan = some { p with entries := es }
  entries : es.map Entry.unloaded = p.entries
  results : ∀ e ∈ es, e.result = some (e.meant view es)
  set : ∀ k i, m'.set.find? k i = if ∃ e ∈ es, e.kind = k ∧ i ∈ e.result.getD [] then shown? view k i
    else m.set.find? k i

/-- What a load recalls is what its plan means, also if the working set was not empty. -/
theorem load_recalls (hbuild : Plan.build o mutating calls = .ok p)
    (hsession : m.session = Database.session s) (hview : ∀ k, (db.view s k).OfKind k)
    (hload : load p (m, db) = (.ok (), m', db')) : ∃ es, Loaded (db.view s) p m m' es := by
  have hfresh := Plan.fresh_of_build hbuild
  have hstart : Recalling s (db.view s) [] (m.set, db) := ⟨⟨by simp, by simp⟩, by simp, rfl⟩
  simp only [load, hsession] at hload
  split at hload
  · cases hload
  · rename_i es w db₁ hrun
    obtain ⟨hrecalling, -, done, rfl, hmap, hfind⟩ :=
      runEntries_recalling hstart hview hfresh (Plan.plain_of_build hbuild) hrun
    split at hload
    · cases hload
    · obtain ⟨rfl, rfl⟩ := Prod.mk.inj (Prod.mk.inj hload).2
      refine ⟨es, rfl, ?_, hrecalling.recalled.found, hfind⟩
      rw [hmap]
      refine (List.map_congr_left fun e he => ?_).trans (List.map_id _)
      rw [Entry.unloaded, ← hfresh e he]
      rfl

theorem not_fails {q : Query} {w w' : WorkingSet} {f : Failure} (hview : (db.view s q.kind).OfKind q.kind)
    (hpending : db.pendingLoads.get q.kind = none) : ¬ q.Fails s false w db f w' db' := by
  intro h
  cases h with
  | contended _ hsome =>
      rw [hpending] at hsome
      cases hsome
  | undecodable _ _ hrow hnone =>
      obtain ⟨es, hdecode, -⟩ := hview.decode_entries fun r hr => Table.mem_of_mem_pick hr
      rw [← Table.select_eq_pick q, Database.decode_undecodable hrow hnone] at hdecode
      cases hdecode
  | missed _ hstrict => cases hstrict

/-- A load gets through if it is not strict, no failure is pending, and the mode is right. -/
theorem exists_load (hbuild : Plan.build o mutating calls = .ok p)
    (hsession : m.session = Database.session s) (hstrict : m.strict = false)
    (hmode : m.readOnly ≠ p.mutating) (hview : ∀ k, (db.view s k).OfKind k)
    (hpending : ∀ k, db.pendingLoads.get k = none) : ∃ m' db', load p (m, db) = (.ok (), m', db') := by
  have hfresh := Plan.fresh_of_build hbuild
  have hbackward : ∀ n (e : Plan.Entry), p.entries[n]? = some e → ∀ j ∈ e.criteria.sources, j < n :=
    fun n e hn => (Plan.wellFormed_of_build hbuild n e hn).backward
  have hstart : Reaches s m.strict p.entries m.set db [] p.entries m.set db := .start
  rcases hstart.fails_or_ends hfresh hbackward with ⟨i, f, w, db', hfails⟩ | ⟨es, w, db', hreaches⟩
  · obtain ⟨hreaches, hq, hfails⟩ := hfails
    obtain ⟨-, -, events, -, rfl⟩ := hreaches.trace hfresh
    rw [hstrict] at hfails
    exact absurd hfails (not_fails (hview _) (hpending _))
  · exact ⟨_, db', (load_of_ends hsession hfresh hreaches).trans (if_neg hmode)⟩

variable {n : Nat} {σ : Stanza}

/-- The entry of a stanza, as it is loaded. -/
theorem Loaded.entry (h : Loaded view p m m' es) (hbuild : Plan.build o mutating calls = .ok p)
    (hn : (stanzas calls)[n]? = some σ) :
    ∃ e, es[n]? = some e ∧ e.unloaded = σ.entry (kindsBefore (stanzas calls) n)
      ∧ e.result = some (e.meant view es) := by
  have hentry := getElem?_entriesFrom [] (stanzas calls) n
  rw [← (entries_of_build hbuild).2, ← h.entries, List.getElem?_map, hn, Option.map_some,
    List.nil_append] at hentry
  obtain ⟨e, he, hunloaded⟩ := Option.map_eq_some_iff.mp hentry
  exact ⟨e, he, hunloaded, h.results e (List.mem_of_getElem? he)⟩

/-- What was loaded for identities alone. -/
theorem Loaded.lookup (h : Loaded view p m m' es) (hbuild : Plan.build o mutating calls = .ok p)
    (hview : ∀ k, (view k).OfKind k) {k : Kind} {is : List Ident}
    (hn : (stanzas calls)[n]? = some ⟨k, [.identIn is]⟩) :
    ∃ e found, es[n]? = some e ∧ e.kind = k ∧ e.result = some found ∧ found.Pairwise (· < ·)
      ∧ ∀ i, i ∈ found ↔ i ∈ is ∧ (view k).contains i = true := by
  obtain ⟨e, he, hunloaded, hresult⟩ := h.entry hbuild hn
  have hkind : e.kind = k := congrArg Plan.Entry.kind hunloaded
  have hplainly := (hunloaded ▸ Stanza.plainly_entry_identIn _ k is).of_unloaded
  refine ⟨e, _, he, hkind, hresult, hplainly.ascending es, fun i => ?_⟩
  rw [mem_meant_of_lookup hplainly (hview e.kind), hkind]

/-- What was loaded by following a link, from an entry before. -/
theorem Loaded.link (h : Loaded view p m m' es) (hbuild : Plan.build o mutating calls = .ok p)
    (hview : ∀ k, (view k).OfKind k) {k : Kind} {a : Option Nat}
    (hn : (stanzas calls)[n]? = some ⟨k, [.viaLink a]⟩) :
    ∃ e₀ e found, Call.sourceAt n a < n ∧ es[Call.sourceAt n a]? = some e₀
      ∧ (Link.between? e₀.kind k).isSome ∧ es[n]? = some e ∧ e.kind = k ∧ e.result = some found
      ∧ found.Pairwise (· < ·)
      ∧ ∀ i, i ∈ found ↔ ∃ b, shown? view k i = some b
        ∧ ∃ l ∈ e₀.result.getD [], ∃ a, shown? view e₀.kind l = some a ∧ a.Relates b := by
  obtain ⟨e, he, hunloaded, hresult⟩ := h.entry hbuild hn
  have hkind : e.kind = k := congrArg Plan.Entry.kind hunloaded
  have hlength : (kindsBefore (stanzas calls) n).length = n := by
    have hlt := (List.getElem?_eq_some_iff.mp hn).1
    rw [kindsBefore, List.length_map, List.length_take, Nat.min_eq_left (Nat.le_of_lt hlt)]
  have hlinked := (entries_of_build hbuild).1.get hn
  rw [List.nil_append] at hlinked
  obtain ⟨k', link, hk', hlink, hplainly⟩ := Stanza.plainly_entry_viaLink hlinked
  rw [hlength] at hk' hplainly
  have hplainly := (hunloaded ▸ hplainly).of_unloaded
  -- the source has the kind of its stanza
  have hlt := (List.getElem?_eq_some_iff.mp hk').1
  rw [hlength] at hlt
  rw [kindsBefore, List.getElem?_map, List.getElem?_take, if_pos hlt] at hk'
  obtain ⟨σ₀, hσ₀, rfl⟩ := Option.map_eq_some_iff.mp hk'
  obtain ⟨e₀, he₀, hunloaded₀, -⟩ := h.entry hbuild hσ₀
  have hkind₀ : e₀.kind = σ₀.kind := congrArg Plan.Entry.kind hunloaded₀
  rw [← hkind₀] at hlink
  refine ⟨e₀, e, _, hlt, he₀, by rw [hlink]; rfl, he, hkind, hresult, hplainly.ascending es, fun i => ?_⟩
  rw [← hkind] at hlink ⊢
  exact mem_meant_of_link he₀ hlink hplainly (hview e.kind)

/-! ## What the links of the shop lead to -/

section

variable (hview : ∀ k, (view k).OfKind k) {is : List Ident} {i : Ident}

include hview

theorem linked_purchase_iff :
    (∃ b, shown? view .purchase i = some b
        ∧ ∃ l ∈ is, ∃ a, shown? view .customer l = some a ∧ a.Relates b)
      ↔ ∃ u : Purchase, shown? view .purchase i = some (.purchase u) ∧ u.customer ∈ is
        ∧ (view .customer).contains u.customer = true := by
  simp only [contains_iff (hview .customer)]
  constructor
  · rintro ⟨b, hb, l, hl, a, ha, hrelates⟩
    cases hrelates with
    | @owner c u h =>
        obtain rfl : u.customer = l := h.trans (ident_of_shown? (hview .customer) ha)
        exact ⟨u, hb, hl, _, ha⟩
    | owned | product => cases kind_of_shown? ha
  · rintro ⟨u, hu, hl, a, ha⟩
    cases a with
    | customer c =>
        exact ⟨_, hu, _, hl, _, ha, .owner (ident_of_shown? (hview .customer) ha).symm⟩
    | purchase | product => cases kind_of_shown? ha

theorem linked_customer_iff :
    (∃ b, shown? view .customer i = some b
        ∧ ∃ l ∈ is, ∃ a, shown? view .purchase l = some a ∧ a.Relates b)
      ↔ (view .customer).contains i = true
        ∧ ∃ l ∈ is, ∃ u : Purchase, shown? view .purchase l = some (.purchase u) ∧ u.customer = i := by
  rw [contains_iff (hview .customer)]
  constructor
  · rintro ⟨b, hb, l, hl, a, ha, hrelates⟩
    cases hrelates with
    | owned h => exact ⟨⟨_, hb⟩, l, hl, _, ha, h.trans (ident_of_shown? (hview .customer) hb)⟩
    | owner => cases kind_of_shown? ha
    | product => cases kind_of_shown? hb
  · rintro ⟨⟨b, hb⟩, l, hl, u, hu, rfl⟩
    cases b with
    | customer c => exact ⟨_, hb, l, hl, _, hu, .owned (ident_of_shown? (hview .customer) hb).symm⟩
    | purchase | product => cases kind_of_shown? hb

theorem linked_product_iff :
    (∃ b, shown? view .product i = some b
        ∧ ∃ l ∈ is, ∃ a, shown? view .purchase l = some a ∧ a.Relates b)
      ↔ (view .product).contains i = true
        ∧ ∃ l ∈ is, ∃ u : Purchase, shown? view .purchase l = some (.purchase u)
          ∧ ∃ item ∈ u.items, item.product = i := by
  rw [contains_iff (hview .product)]
  constructor
  · rintro ⟨b, hb, l, hl, a, ha, hrelates⟩
    cases hrelates with
    | @product u t h =>
        obtain rfl : t.ident = i := ident_of_shown? (hview .product) hb
        exact ⟨⟨_, hb⟩, l, hl, u, ha, h⟩
    | owner => cases kind_of_shown? ha
    | owned => cases kind_of_shown? hb
  · rintro ⟨⟨b, hb⟩, l, hl, u, hu, h⟩
    cases b with
    | product t =>
        obtain rfl : t.ident = i := ident_of_shown? (hview .product) hb
        exact ⟨_, hb, l, hl, _, hu, .product h⟩
    | customer | purchase => cases kind_of_shown? hb

end

/-- Chains of links load exactly what is related.

The session sees rows of entities only, each under its own identity, and the workspace is not strict. From
customers that are asked for by identity, the purchases of those that are there are loaded, and the products
of these purchases that are there. From purchases that were loaded, in whatever way, the customers that own
one of them are loaded. All come once and in ascending order of identity. The load gets through if no
failure is pending and the mode is right. -/
theorem load_related (hsession : m.session = Database.session s) (hstrict : m.strict = false)
    (hview : ∀ k, (db.view s k).OfKind k) :
    (∀ (o : LockOrder) (mutating : Bool) (calls : List Plan.Call) (p : Plan),
        Plan.build o mutating calls = .ok p → m.readOnly ≠ mutating →
        (∀ k, db.pendingLoads.get k = none) → ∃ m' db', load p (m, db) = (.ok (), m', db'))
      ∧ (∀ (o : LockOrder) (cs : List Ident) (a b : Option Nat) (p : Plan) (m' : Workspace Database)
          (db' : Database),
        Plan.build o false [.load .customer, .identIn cs, .load .purchase, .viaLink a,
          .load .product, .viaLink b] = .ok p →
        load p (m, db) = (.ok (), m', db') →
        ∃ es customers purchases products, Loaded (db.view s) p m m' es
          ∧ es.map Plan.Entry.result = [some customers, some purchases, some products]
          ∧ (∀ i, i ∈ customers ↔ i ∈ cs ∧ (db.view s .customer).contains i = true)
          ∧ (∀ i, i ∈ purchases ↔ ∃ u : Purchase, shown? (db.view s) .purchase i = some (.purchase u)
            ∧ u.customer ∈ cs ∧ (db.view s .customer).contains u.customer = true)
          ∧ (∀ i, i ∈ products ↔ (db.view s .product).contains i = true
            ∧ ∃ l ∈ purchases, ∃ u : Purchase, shown? (db.view s) .purchase l = some (.purchase u)
              ∧ ∃ item ∈ u.items, item.product = i)
          ∧ customers.Pairwise (· < ·) ∧ purchases.Pairwise (· < ·) ∧ products.Pairwise (· < ·))
      ∧ ∀ (o : LockOrder) (calls : List Plan.Call) (p : Plan) (n : Nat) (a : Option Nat)
          (m' : Workspace Database) (db' : Database),
        Plan.build o false calls = .ok p → (stanzas calls)[n]? = some ⟨.customer, [.viaLink a]⟩ →
        load p (m, db) = (.ok (), m', db') →
        ∃ es e₀ e purchases customers, Loaded (db.view s) p m m' es
          ∧ es[Call.sourceAt n a]? = some e₀ ∧ e₀.kind = .purchase ∧ e₀.result = some purchases
          ∧ es[n]? = some e ∧ e.kind = .customer ∧ e.result = some customers
          ∧ (∀ i, i ∈ customers ↔ (db.view s .customer).contains i = true
            ∧ ∃ l ∈ purchases, ∃ u : Purchase, shown? (db.view s) .purchase l = some (.purchase u)
              ∧ u.customer = i)
          ∧ customers.Pairwise (· < ·) := by
  refine ⟨?_, ?_, ?_⟩
  · intro o mutating calls p hbuild hmode hpending
    rw [← (build_ok hbuild).1] at hmode
    exact exists_load hbuild hsession hstrict hmode hview hpending
  · intro o cs a b p m' db' hbuild hload
    obtain ⟨es, hloaded⟩ := load_recalls hbuild hsession hview hload
    generalize hcalls : [Plan.Call.load .customer, .identIn cs, .load .purchase, .viaLink a,
      .load .product, .viaLink b] = calls at hbuild
    have hstanzas : stanzas calls
        = [⟨.customer, [.identIn cs]⟩, ⟨.purchase, [.viaLink a]⟩, ⟨.product, [.viaLink b]⟩] := by
      rw [← hcalls]
      rfl
    obtain ⟨c, customers, hc, hckind, hcresult, hcasc, hcmem⟩ :=
      hloaded.lookup hbuild hview (show (stanzas calls)[0]? = some _ by rw [hstanzas]; rfl)
    obtain ⟨c', u, purchases, hclt, hc', -, hu, hukind, huresult, huasc, humem⟩ :=
      hloaded.link hbuild hview (show (stanzas calls)[1]? = some _ by rw [hstanzas]; rfl)
    obtain ⟨u', t, products, hult, hu', hlink, ht, -, htresult, htasc, htmem⟩ :=
      hloaded.link hbuild hview (show (stanzas calls)[2]? = some _ by rw [hstanzas]; rfl)
    -- the purchases are read from the customers, which no product is linked to
    rw [Nat.lt_one_iff.mp hclt] at hc'
    obtain rfl := Option.some.inj (hc.symm.trans hc')
    have hsource : Call.sourceAt 2 b = 1 := by
      rcases Nat.lt_succ_iff_lt_or_eq.mp hult with hzero | hone
      · rw [Nat.lt_one_iff.mp hzero] at hu'
        obtain rfl := Option.some.inj (hc.symm.trans hu')
        rw [hckind] at hlink
        cases hlink
      · exact hone
    rw [hsource] at hu'
    obtain rfl := Option.some.inj (hu.symm.trans hu')
    rw [hckind, hcresult] at humem
    rw [hukind, huresult] at htmem
    refine ⟨es, customers, purchases, products, hloaded, ?_, hcmem, fun i => ?_, fun i => ?_, hcasc, huasc,
      htasc⟩
    · have hlength : es.length = 3 := by
        rw [← List.length_map Entry.unloaded, hloaded.entries, (entries_of_build hbuild).2, hstanzas]
        rfl
      obtain ⟨e₀, e₁, e₂, rfl⟩ := List.length_eq_three.mp hlength
      obtain rfl := Option.some.inj hc
      obtain rfl := Option.some.inj hu
      obtain rfl := Option.some.inj ht
      simp only [List.map_cons, List.map_nil, hcresult, huresult, htresult]
    · refine ((humem i).trans (linked_purchase_iff hview)).trans (exists_congr fun u => ?_)
      rw [Option.getD_some, hcmem, and_assoc, and_self]
    · exact (htmem i).trans (linked_product_iff hview)
  · intro o calls p n a m' db' hbuild hn hload
    obtain ⟨es, hloaded⟩ := load_recalls hbuild hsession hview hload
    obtain ⟨e₀, e, customers, -, he₀, hlink, he, hkind, hresult, hascending, hmem⟩ :=
      hloaded.link hbuild hview hn
    have hkind₀ : e₀.kind = .purchase := by
      cases hk : e₀.kind with
      | purchase => rfl
      | customer | product =>
          rw [hk] at hlink
          cases hlink
    obtain ⟨purchases, hpurchases⟩ : ∃ purchases, e₀.result = some purchases :=
      ⟨_, hloaded.results e₀ (List.mem_of_getElem? he₀)⟩
    refine ⟨es, e₀, e, purchases, customers, hloaded, he₀, hkind₀, hpurchases, he, hkind, hresult,
      fun i => ?_, hascending⟩
    rw [hmem, hkind₀, hpurchases]
    exact linked_customer_iff hview

/-! ## A purchase of widgets -/

/-- A store with a purchase of two times the one product there is, and of one that is not there. -/
def widgetStore : Database :=
  ([.customer ⟨.sequential 1, "Ada", "ada@example.org"⟩,
    .purchase ⟨.sequential 2, .sequential 1, .active,
      [⟨.sequential 3, 1⟩, ⟨.sequential 4, 5⟩, ⟨.sequential 3, 2⟩]⟩,
    .product ⟨.sequential 3, "Widget", "W-1", 10, 250⟩] : List Entity).foldl Database.seed .empty

theorem ofKind_widgetStore (k : Kind) : (widgetStore.view 1 k).OfKind k :=
  (((Database.sound_empty.seed _).seed _).seed _).ofKind_view (fun _ => rfl) 1 k

/-- A read-only workspace that accepts that something is missing. -/
def lenient : Workspace Database := { create (Database.session 1) .standard true with strict := false }

/-- The widget is loaded through the customer of its purchase, once. -/
theorem widget_of_customer_loaded :
    ∃ p m' db' es, Plan.build .standard false [.load .customer, .identIn [.sequential 1],
          .load .purchase, .viaLink none, .load .product, .viaLink (some 1)] = .ok p
      ∧ load p (lenient, widgetStore) = (.ok (), m', db')
      ∧ Loaded (widgetStore.view 1) p lenient m' es
      ∧ es.map Plan.Entry.result = [some [.sequential 1], some [.sequential 2], some [.sequential 3]] := by
  have hbuild : Plan.build .standard false [.load .customer, .identIn [.sequential 1],
      .load .purchase, .viaLink none, .load .product, .viaLink (some 1)]
    = .ok ⟨[.ofIdents .customer [Ident.toValue (.sequential 1)],
        ⟨.purchase, ⟨[.previous "customer_id" 0 .ownIdent], none⟩, .noLock, none, none, none, some 0, none⟩,
        ⟨.product, ⟨[.previous "entity_id" 1 .productsOfPurchase], none⟩, .noLock, none, none, none,
          some 1, none⟩], false⟩ := rfl
  generalize hp : Plan.mk _ false = p at hbuild
  have hresults : (load p (lenient, widgetStore)).2.1.plan.map
        (fun p => p.entries.map Plan.Entry.result)
      = some [some [.sequential 1], some [.sequential 2], some [.sequential 3]] := by
    subst hp
    decide +kernel
  have hpending : ∀ k, widgetStore.pendingLoads.get k = none := fun k => PerKind.get_fill none k
  obtain ⟨hgets, hchain, -⟩ :=
    load_related (show lenient.session = Database.session 1 from rfl) rfl ofKind_widgetStore
  obtain ⟨m', db', hload⟩ := hgets _ _ _ p hbuild (by decide) hpending
  obtain ⟨es, -, -, -, hloaded, -⟩ := hchain _ _ _ _ p m' db' hbuild hload
  rw [hload, hloaded.plan] at hresults
  exact ⟨p, m', db', es, hbuild, hload, hloaded, Option.some.inj hresults⟩

end Workspace

end Stockroom
