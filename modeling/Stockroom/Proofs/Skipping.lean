import Stockroom.Proofs.Answering

/-!
# The queries that are skipped

A query that lacks the values to match anything is not put to the store. No row satisfies such a query,
so nothing is lost. No other query is skipped in vain either: the row that holds the first value of every
term satisfies it (`Query.accepts_sample`), unless all the terms are asked for at once and some of them
ask for the same field, where one row need not do for both.
-/

namespace Stockroom

/-! ## Fields of a record -/

namespace Value

/-- A field that is placed is the one found under its name, and none but it is touched. -/
theorem field?_placeField (name other : String) (v : Value) (fields : List (String × Value)) :
    (record (placeField other v fields)).field? name
      = if other = name then some v else (record fields).field? name := by
  induction fields with
  | nil => by_cases h : other = name <;> simp [placeField, field?, h]
  | cons f fields ih =>
      obtain ⟨first, w⟩ := f
      by_cases hfront : other < first
      · rw [placeField, if_pos hfront]
        by_cases h : other = name <;> simp [field?, h]
      · rw [placeField, if_neg hfront]
        by_cases hreplaced : other = first
        · rw [if_pos hreplaced, ← hreplaced]
          by_cases h : other = name <;> simp [field?, h]
        · rw [if_neg hreplaced]
          by_cases h : first = name
          · subst h
            simp [field?, hreplaced]
          · simpa [field?, h] using ih

/-- A later field replaces an earlier one of its name. -/
theorem field?_ofFields_concat (name : String) (fields : List (String × Value))
    (f : String × Value) :
    (ofFields (fields ++ [f])).field? name
      = if f.1 = name then some f.2 else (ofFields fields).field? name := by
  rw [ofFields, List.foldl_append]
  exact field?_placeField name f.1 f.2 _

/-- Of fields with different names each is found. -/
theorem field?_ofFields {f : String × Value} {fields : List (String × Value)} (hf : f ∈ fields)
    (hnames : (fields.map Prod.fst).Nodup) : (ofFields fields).field? f.1 = some f.2 := by
  induction fields using List.reverseRecOn with
  | nil => cases hf
  | append_singleton fields g ih =>
      rw [List.map_append, List.map_singleton, List.nodup_append] at hnames
      obtain ⟨hnames, -, hapart⟩ := hnames
      rw [field?_ofFields_concat]
      rcases List.mem_append.mp hf with hf | hf
      · have hne : f.1 ≠ g.1 := hapart _ (List.mem_map_of_mem hf) _ (List.mem_singleton_self _)
        rw [if_neg hne.symm, ih hf hnames]
      · rw [List.mem_singleton.mp hf, if_pos rfl]

end Value

namespace Query

variable {q : Query}

/-! ## A row that satisfies a query -/

/-- The field a term asks for, with the first of its values. -/
def Term.first? (t : Term) : Option (String × Value) := t.values.head?.map (t.field, ·)

/-- The record that holds the first value of every term; where terms ask for one field, that of the
last of them. -/
def sample (q : Query) : Value := .ofFields (q.terms.filterMap Term.first?)

theorem Term.exists_first? {t : Term} (h : t.values.isEmpty = false) : ∃ f, t.first? = some f := by
  cases hvalues : t.values with
  | nil => simp [hvalues] at h
  | cons v vs => exact ⟨(t.field, v), by simp [first?, hvalues]⟩

/-- A row satisfies a term if it holds the first of its values. -/
theorem Term.accepts_of_first? {t : Term} {f : String × Value} {row : Value}
    (hfirst : t.first? = some f) (hrow : row.field? f.1 = some f.2) : t.accepts row = true := by
  obtain ⟨v, hv, rfl⟩ := Option.map_eq_some_iff.mp hfirst
  have hmem : v ∈ t.values := List.mem_of_mem_head? hv
  rw [accepts, hrow]
  dsimp only
  cases t.operator with
  | isIn => exact List.any_eq_true.mpr ⟨v, hmem, beq_self_eq_true v⟩
  | equals => simp [hv]

theorem Term.field_of_first? {t : Term} {f : String × Value} (h : t.first? = some f) :
    f.1 = t.field := by
  obtain ⟨v, -, rfl⟩ := Option.map_eq_some_iff.mp h
  rfl

/-- Terms that ask for different fields fill different fields. -/
theorem nodup_filterMap_first? {ts : List Term} (h : (ts.map Term.field).Nodup) :
    ((ts.filterMap Term.first?).map Prod.fst).Nodup := by
  rw [List.Nodup, List.pairwise_map] at h ⊢
  refine h.filterMap _ fun t t' hne f hf f' hf' => ?_
  rw [Term.field_of_first? hf, Term.field_of_first? hf']
  exact hne

theorem accepts_sample_of_or (hjoiner : q.joiner = some .or) (h : q.isUnsatisfiable = false) :
    q.accepts q.sample = true := by
  have hsome : ∃ t ∈ q.terms, t.values.isEmpty = false := by
    simpa [isUnsatisfiable, hjoiner] using h
  obtain ⟨t, ht, hvalues⟩ := hsome
  obtain ⟨f, hf⟩ := Term.exists_first? hvalues
  have hmem : f ∈ q.terms.filterMap Term.first? := List.mem_filterMap.mpr ⟨t, ht, hf⟩
  -- whatever is placed last is found, so the term it is from is satisfied
  obtain ⟨fields, last, hfields⟩ :=
    (List.eq_nil_or_concat (q.terms.filterMap Term.first?)).resolve_left (List.ne_nil_of_mem hmem)
  have hlast : last ∈ q.terms.filterMap Term.first? := by simp [hfields]
  obtain ⟨t', ht', hfirst⟩ := List.mem_filterMap.mp hlast
  have hrow : q.sample.field? last.1 = some last.2 := by
    rw [sample, hfields, List.concat_eq_append, Value.field?_ofFields_concat, if_pos rfl]
  rw [accepts, hjoiner]
  exact List.any_eq_true.mpr ⟨t', ht', Term.accepts_of_first? hfirst hrow⟩

theorem accepts_sample_of_nodup (hjoiner : q.joiner ≠ some .or) (h : q.isUnsatisfiable = false)
    (hfields : (q.terms.map Term.field).Nodup) : q.accepts q.sample = true := by
  have hvalues : ∀ t ∈ q.terms, t.values.isEmpty = false := by
    unfold isUnsatisfiable at h
    split at h
    · contradiction
    · simpa using h
    · simpa using h
  have hterm : ∀ t ∈ q.terms, t.accepts q.sample = true := by
    intro t ht
    obtain ⟨f, hf⟩ := Term.exists_first? (hvalues t ht)
    have hmem : f ∈ q.terms.filterMap Term.first? := List.mem_filterMap.mpr ⟨t, ht, hf⟩
    exact Term.accepts_of_first? hf
      (Value.field?_ofFields hmem (nodup_filterMap_first? hfields))
  unfold accepts
  split
  · contradiction
  · exact List.all_eq_true.mpr hterm
  · exact List.all_eq_true.mpr hterm

/-- If the terms do not lack values, the sample satisfies one of them, and if no field is asked for
twice, all of them. -/
theorem accepts_sample (h : q.isUnsatisfiable = false)
    (hshape : q.joiner = some .or ∨ (q.terms.map Term.field).Nodup) : q.accepts q.sample = true := by
  by_cases hjoiner : q.joiner = some .or
  · exact accepts_sample_of_or hjoiner h
  · exact accepts_sample_of_nodup hjoiner h (hshape.resolve_left hjoiner)

/-! ## What a skip saves -/

/-- A store with no failure pending gives nothing to a query that is skipped. -/
theorem load_of_isUnsatisfiable {s : Nat} {db : Database} (h : q.isUnsatisfiable = true)
    (hpending : db.pendingLoads.get q.kind = none) :
    ((Database.session s).load q db).1 = .ok [] := by
  rw [Database.session_load, Database.load_result hpending, Table.select_eq_pick,
    Table.pick_eq_nil (accepts_of_isUnsatisfiable h)]
  rfl

/-- The skip of queries is exact. If a query is skipped, no row satisfies it, and where no failure is
pending the store would have given nothing as well. If it is not, some record satisfies it, provided that
its terms are joined by `or` or ask for different fields. -/
theorem skip_exact (q : Query) :
    (q.isUnsatisfiable = true → (∀ row, q.accepts row = false)
        ∧ ∀ s db, Workspace.fetch (Database.session s) q db = (.ok [], db)
          ∧ (db.pendingLoads.get q.kind = none →
              ((Database.session s).load q db).1
                = (Workspace.fetch (Database.session s) q db).1))
      ∧ (q.isUnsatisfiable = false →
          q.joiner = some .or ∨ (q.terms.map Term.field).Nodup →
            ∃ fields, q.accepts (.ofFields fields) = true) := by
  refine ⟨fun h => ⟨accepts_of_isUnsatisfiable h, fun s db => ?_⟩, fun h hshape =>
    ⟨_, accepts_sample h hshape⟩⟩
  have hfetch : Workspace.fetch (Database.session s) q db = (.ok [], db) := by
    rw [Workspace.fetch, if_pos h]
  refine ⟨hfetch, fun hpending => ?_⟩
  rw [hfetch]
  exact load_of_isUnsatisfiable h hpending

/-- The active purchases of customers, none of whom was found. -/
def activePurchases (joiner : Joiner) : Query :=
  ⟨.purchase, [⟨"customer_id", .isIn, [], true⟩, ⟨"state", .equals, [.text "ACTIVE"], false⟩],
    some joiner, .noLock, none, none, none⟩

/-- With no customer found, the active purchases of those found are not looked for; purchases that are
active or of one of those are. -/
theorem active_purchases_skipped :
    (∀ row, (activePurchases .and).accepts row = false)
      ∧ ((Database.session 1).load (activePurchases .and) .empty).1
        = (Workspace.fetch (Database.session 1) (activePurchases .and) .empty).1
      ∧ ∃ fields, (activePurchases .or).accepts (.ofFields fields) = true := by
  obtain ⟨hnone, hskip⟩ := (skip_exact (activePurchases .and)).1 rfl
  exact ⟨hnone, (hskip 1 .empty).2 rfl, (skip_exact (activePurchases .or)).2 rfl (Or.inl rfl)⟩

end Query

end Stockroom
