import Stockroom.Proofs.Delta
import Stockroom.Proofs.Edit
import Stockroom.Proofs.Rows

/-!
# The net effect of edits

What changed since the baseline is found by comparing rows, so how a working set came to be what it is
plays no part. An entity is reported as created, updated or deleted exactly if it is so between the
baseline and now; whatever was taken back, or taken out and put again alike, is not reported
(`WorkingSet.changes_net_effect`).

For tables of rows this is what a delta between them says of each identity
(`Delta.kindOf?_between`, `Delta.nodup_idents_between`), and carried out on the first table it leads to
the second (`Delta.applyTo_between`). For entities it needs that different entities have different rows,
whatever their kinds, since a change in place may put an entity of another kind under an identity.
-/

namespace Stockroom

/-! ## Deltas between tables -/

theorem Table.ext_find?_iff {α : Type} {s t : Table α} : s = t ↔ ∀ i, s.find? i = t.find? i :=
  ⟨fun h _ => h ▸ rfl, Table.ext_find?⟩

theorem Changes.mem_kinds {c : Changes} {k : Kind} : k ∈ c.kinds ↔ (c.get k).isEmpty = false := by
  simp [kinds, Kind.mem_all]

/-- How what is kept under an identity changes from one thing to another, if it does. -/
def ChangeKind.of? {α : Type} [DecidableEq α] : (before after : Option α) → Option ChangeKind
  | none, none => none
  | none, some _ => some .created
  | some _, none => some .deleted
  | some a, some b => if a = b then none else some .updated

theorem ChangeKind.of?_map {α β : Type} [DecidableEq α] [DecidableEq β] {f : α → β}
    (hf : ∀ a b, f a = f b ↔ a = b) (before after : Option α) :
    of? (before.map f) (after.map f) = of? before after := by
  cases before with
  | none => cases after <;> rfl
  | some a =>
      cases after with
      | none => rfl
      | some b => simp only [Option.map_some, of?, hf]

namespace Delta

variable {before after : Table Value} {i : Ident}

/-- The identities the delta names, list by list. -/
def idents (d : Delta) : List Ident :=
  d.created.map KeyedRow.ident ++ d.updated.map RowUpdate.ident ++ d.deleted.map KeyedRow.ident

/-- A table with the changes of a delta carried out on it. -/
def applyTo (d : Delta) (t : Table Value) : Table Value :=
  d.writes.foldl (fun t e => Writes.write t e.1 e.2) t

theorem find?_applyTo (d : Delta) (t : Table Value) (i : Ident) :
    (d.applyTo t).find? i = (d.lastWrite? i).getD (t.find? i) := by
  have general : ∀ (es : List (Ident × Option Value)) (t : Table Value),
      (es.foldl (fun t e => Writes.write t e.1 e.2) t).find? i
        = (Table.lookup i es.reverse).getD (t.find? i) := by
    intro es
    induction es with
    | nil => exact fun _ => rfl
    | cons e es ih =>
        intro t
        rw [List.foldl_cons, ih, List.reverse_cons, Table.lookup_append, Writes.find?_write,
          Option.getD_or]
        congr 1
        simp only [Table.lookup]
        split <;> rfl
  exact general d.writes t

/-- The delta between two tables leads from one to the other. -/
theorem applyTo_between (before after : Table Value) :
    (between before after).applyTo before = after := by
  refine Table.ext_find? fun i => ?_
  rw [find?_applyTo, lastWrite?_between]
  split
  · rename_i heq
    exact heq
  · rfl

theorem isEmpty_between_iff : (between before after).isEmpty = true ↔ before = after := by
  constructor
  · intro h
    obtain ⟨hc, hu, hd⟩ := isEmpty_iff.mp h
    have hnone : (between before after).writes = [] := by simp [writes, hc, hu, hd]
    refine Table.ext_find? fun i => Classical.byContradiction fun hne => ?_
    have hmem := mem_writes_between.mpr ⟨hne, rfl⟩
    rw [hnone] at hmem
    cases hmem
  · rintro rfl
    refine isEmpty_iff.mpr ⟨?_, ?_, ?_⟩
    · exact List.eq_nil_iff_forall_not_mem.mpr fun r hr => by
        obtain ⟨hb, ha⟩ := mem_created_between.mp hr
        rw [hb] at ha
        cases ha
    · exact List.eq_nil_iff_forall_not_mem.mpr fun u hu => by
        obtain ⟨hb, ha, hne⟩ := mem_updated_between.mp hu
        exact hne (Option.some.inj (hb.symm.trans ha))
    · exact List.eq_nil_iff_forall_not_mem.mpr fun r hr => by
        obtain ⟨hb, ha⟩ := mem_deleted_between.mp hr
        rw [hb] at ha
        cases ha

theorem mem_map_created_between :
    i ∈ (between before after).created.map KeyedRow.ident ↔
      before.find? i = none ∧ (after.find? i).isSome := by
  rw [List.mem_map, Option.isSome_iff_exists]
  constructor
  · rintro ⟨r, hr, rfl⟩
    obtain ⟨hb, ha⟩ := mem_created_between.mp hr
    exact ⟨hb, _, ha⟩
  · rintro ⟨hb, row, ha⟩
    exact ⟨⟨i, row⟩, mem_created_between.mpr ⟨hb, ha⟩, rfl⟩

theorem mem_map_updated_between :
    i ∈ (between before after).updated.map RowUpdate.ident ↔
      (before.find? i).isSome ∧ (after.find? i).isSome ∧ before.find? i ≠ after.find? i := by
  rw [List.mem_map, Option.isSome_iff_exists, Option.isSome_iff_exists]
  constructor
  · rintro ⟨u, hu, rfl⟩
    obtain ⟨hb, ha, hne⟩ := mem_updated_between.mp hu
    exact ⟨⟨_, hb⟩, ⟨_, ha⟩, by rw [hb, ha]; simpa using hne⟩
  · rintro ⟨⟨old, hb⟩, ⟨row, ha⟩, hne⟩
    have hrow : old ≠ row := fun heq => hne (by rw [hb, ha, heq])
    exact ⟨⟨i, old, row⟩, mem_updated_between.mpr ⟨hb, ha, hrow⟩, rfl⟩

theorem mem_map_deleted_between :
    i ∈ (between before after).deleted.map KeyedRow.ident ↔
      (before.find? i).isSome ∧ after.find? i = none := by
  rw [List.mem_map, Option.isSome_iff_exists]
  constructor
  · rintro ⟨r, hr, rfl⟩
    obtain ⟨hb, ha⟩ := mem_deleted_between.mp hr
    exact ⟨⟨_, hb⟩, ha⟩
  · rintro ⟨⟨row, hb⟩, ha⟩
    exact ⟨⟨i, row⟩, mem_deleted_between.mpr ⟨hb, ha⟩, rfl⟩

theorem kindOf?_eq (d : Delta) (i : Ident) :
    d.kindOf? i = if i ∈ d.created.map KeyedRow.ident then some .created
      else if i ∈ d.updated.map RowUpdate.ident then some .updated
      else if i ∈ d.deleted.map KeyedRow.ident then some .deleted
      else none := by
  simp only [kindOf?, List.any_eq_true, decide_eq_true_eq, List.mem_map]

/-- What the delta between two tables says of an identity is how its row changes. -/
theorem kindOf?_between (before after : Table Value) (i : Ident) :
    (between before after).kindOf? i = ChangeKind.of? (before.find? i) (after.find? i) := by
  rw [kindOf?_eq]
  simp only [mem_map_created_between, mem_map_updated_between, mem_map_deleted_between]
  cases before.find? i with
  | none => cases after.find? i <;> simp [ChangeKind.of?]
  | some old =>
      cases after.find? i with
      | none => simp [ChangeKind.of?]
      | some row => by_cases heq : old = row <;> simp [ChangeKind.of?, heq]

/-- No identity comes twice, neither in one list nor in two. -/
theorem nodup_idents_between (before after : Table Value) :
    (between before after).idents.Nodup := by
  obtain ⟨hcreated, hupdated, hdeleted⟩ := ascending_between before after
  have hnodup : ∀ {ρ : Type} {key : ρ → Ident} {rs : List ρ},
      rs.Pairwise (fun a b => key a < key b) → (rs.map key).Nodup := by
    intro ρ key rs hrs
    exact List.pairwise_map.mpr (hrs.imp fun hlt => Ident.ne_of_lt hlt)
  refine List.nodup_append.mpr ⟨List.nodup_append.mpr ⟨hnodup hcreated, hnodup hupdated, ?_⟩,
    hnodup hdeleted, ?_⟩
  · rintro i hc _ hu rfl
    rw [mem_map_created_between] at hc
    rw [mem_map_updated_between, hc.1] at hu
    cases hu.1
  · rintro i hcu _ hd rfl
    rw [mem_map_deleted_between] at hd
    rcases List.mem_append.mp hcu with hc | hu
    · rw [mem_map_created_between, hd.2] at hc
      cases hc.2
    · rw [mem_map_updated_between, hd.2] at hu
      cases hu.2.1

end Delta

/-! ## Changes of a working set -/

namespace WorkingSet

/-- Changes are what an earlier and a later working set come to, whatever happened in between. -/
structure NetEffect (before after : WorkingSet) (c : Changes) : Prop where
  created : ∀ k r, r ∈ (c.get k).created ↔ before.find? k r.ident = none
    ∧ ∃ e, after.find? k r.ident = some e ∧ r.row = e.toRow
  updated : ∀ k u, u ∈ (c.get k).updated ↔ ∃ e e', before.find? k u.ident = some e
    ∧ after.find? k u.ident = some e' ∧ e ≠ e' ∧ u.before = e.toRow ∧ u.after = e'.toRow
  deleted : ∀ k r, r ∈ (c.get k).deleted ↔ after.find? k r.ident = none
    ∧ ∃ e, before.find? k r.ident = some e ∧ r.row = e.toRow
  kindOf : ∀ k i, (c.get k).kindOf? i = ChangeKind.of? (before.find? k i) (after.find? k i)
  /-- No identity is in two lists, or twice in one. -/
  once : ∀ k, (c.get k).idents.Nodup
  ascending : ∀ k, (c.get k).Ascending
  kinds : ∀ k, k ∈ c.kinds ↔ ∃ i, before.find? k i ≠ after.find? k i
  applied : ∀ k, (c.get k).applyTo (before.capture.rows k) = after.capture.rows k

theorem netEffect_changesTo (before after : WorkingSet) :
    NetEffect before after (before.capture.changesTo after.capture) := by
  have hget : ∀ k, (before.capture.changesTo after.capture).get k
      = .between (before.capture.rows k) (after.capture.rows k) := fun k => PerKind.get_tabulate _ _
  have hbefore : ∀ k i, (before.capture.rows k).find? i = (before.find? k i).map Entity.toRow :=
    before.find?_capture
  have hafter : ∀ k i, (after.capture.rows k).find? i = (after.find? k i).map Entity.toRow :=
    after.find?_capture
  refine ⟨?_, ?_, ?_, ?_, ?_, ?_, ?_, ?_⟩
  · intro k r
    rw [hget, Delta.mem_created_between, hbefore, hafter, Option.map_eq_none_iff,
      Option.map_eq_some_iff]
    simp only [eq_comm]
  · intro k u
    rw [hget, Delta.mem_updated_between, hbefore, hafter, Option.map_eq_some_iff,
      Option.map_eq_some_iff]
    constructor
    · rintro ⟨⟨e, he, hb⟩, ⟨e', he', ha⟩, hne⟩
      refine ⟨e, e', he, he', ?_, hb.symm, ha.symm⟩
      rintro rfl
      exact hne (hb.symm.trans ha)
    · rintro ⟨e, e', he, he', hne, hb, ha⟩
      refine ⟨⟨e, he, hb.symm⟩, ⟨e', he', ha.symm⟩, ?_⟩
      rw [hb, ha]
      exact fun hrow => hne (Entity.toRow_inj.mp hrow)
  · intro k r
    rw [hget, Delta.mem_deleted_between, hbefore, hafter, Option.map_eq_none_iff,
      Option.map_eq_some_iff, and_comm]
    simp only [eq_comm]
  · intro k i
    rw [hget, Delta.kindOf?_between, hbefore, hafter,
      ChangeKind.of?_map fun _ _ => Entity.toRow_inj]
  · intro k
    rw [hget]
    exact Delta.nodup_idents_between _ _
  · intro k
    rw [hget]
    exact Delta.ascending_between _ _
  · intro k
    rw [Changes.mem_kinds, hget, Bool.eq_false_iff, ne_eq, Delta.isEmpty_between_iff,
      Table.ext_find?_iff, Classical.not_forall]
    simp only [hbefore, hafter, Option.map_inj_right fun _ _ => Entity.toRow_inj.mp]
  · intro k
    rw [hget]
    exact Delta.applyTo_between _ _

theorem changes_of_baseline {w : WorkingSet} {B : Snapshot} (hbaseline : w.baseline = some B)
    (hpresave : w.presave = none) : w.changes = .ok (B.changesTo w.capture) := by
  simp only [changes, hbaseline, hpresave, Option.getD_none]

/-- Changes depend on the net effect only.

A first snapshot is taken, and it can be. Whatever edits follow, short of a second snapshot, the changes
reported are those between the working set as it was then and as it is. -/
theorem changes_net_effect {w : WorkingSet} {edits : List Edit} (hbaseline : w.baseline = none)
    (hpresave : w.presave = none) (hedits : .takeSnapshot ∉ edits) :
    ∃ w₁ c, w.takeSnapshot = .ok w₁ ∧ (w₁.after edits).baseline = some w.capture
      ∧ (w₁.after edits).changes = .ok c ∧ NetEffect w (w₁.after edits) c := by
  have htake := takeSnapshot_first hbaseline hpresave
  obtain ⟨hbaseline', hpresave'⟩ :=
    snapshots_after { w with baseline := some w.capture } hedits
  exact ⟨_, _, htake, hbaseline', changes_of_baseline hbaseline' (hpresave'.trans hpresave),
    netEffect_changesTo _ _⟩

/-- A product is taken out and put again alike, a customer is changed in place. -/
theorem reput_product_unreported :
    ∃ w w₁ c, w = (empty.insert (.product ⟨.sequential 0, "Widget", "W-1", 10, 250⟩)).insert
          (.customer ⟨.sequential 1, "Ada", "a@b"⟩)
      ∧ w.takeSnapshot = .ok w₁
      ∧ (w₁.after [.put .product (.product ⟨.sequential 0, "Widget", "W-1", 10, 250⟩),
          .delete .product (.sequential 0),
          .modify .customer (.sequential 1) fun _ => .customer ⟨.sequential 1, "Ada", "ada@b"⟩]
          ).changes = .ok c
      ∧ (c.get .product).kindOf? (.sequential 0) = none
      ∧ (c.get .customer).kindOf? (.sequential 1) = some .updated := by
  obtain ⟨w₁, c, htake, -, hchanges, hnet⟩ := changes_net_effect
    (w := (empty.insert (.product ⟨.sequential 0, "Widget", "W-1", 10, 250⟩)).insert
      (.customer ⟨.sequential 1, "Ada", "a@b"⟩)) rfl rfl
    (show Edit.takeSnapshot ∉
      [.put .product (.product ⟨.sequential 0, "Widget", "W-1", 10, 250⟩),
        .delete .product (.sequential 0),
        .modify .customer (.sequential 1) fun _ => .customer ⟨.sequential 1, "Ada", "ada@b"⟩]
      by simp)
  obtain rfl := Except.ok.inj htake
  refine ⟨_, _, c, rfl, htake, hchanges, ?_, ?_⟩
  · rw [hnet.kindOf]
    rfl
  · rw [hnet.kindOf]
    rfl

end WorkingSet

end Stockroom
