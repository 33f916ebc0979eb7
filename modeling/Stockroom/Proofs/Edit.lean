import Stockroom.WorkingSet

/-!
# Editing a working set

Whoever holds a working set can change it by a handful of operations, and reading it changes nothing.
`WorkingSet.edit` is what each of them leaves behind, whether it succeeds or not. Two things are known
of a working set after any edits:

- a baseline stays. The only edit that touches the snapshots is taking one, and with a baseline taken
  that fills the second and last place (`tracks_edit`);
- as long as changes in place keep the kind and the identity of an entity, every entity is under its
  own (`coherent_edit`), and so are the rows of a snapshot.
-/

namespace Stockroom

namespace WorkingSet

inductive Edit where
  | put (k : Kind) (e : Entity)
  | putMany (k : Kind) (es : List Entity)
  | insert (e : Entity)
  | modify (k : Kind) (i : Ident) (f : Entity → Entity)
  | delete (k : Kind) (i : Ident)
  | deleteMany (k : Kind) (is : List Ident)
  | remove (k : Kind) (i : Ident)
  | takeSnapshot

/-- The working set an edit leaves behind, whatever it answers. -/
def edit (w : WorkingSet) : Edit → WorkingSet
  | .put k e => ((w.put k e).toOption).getD w
  | .putMany k es => (putMany k es w).2
  | .insert e => w.insert e
  | .modify k i f => ((w.modify k i f).toOption).getD w
  | .delete k i => ((w.delete k i).toOption.map Prod.snd).getD w
  | .deleteMany k is => (deleteMany k is w).2
  | .remove k i => (removeOfKind k i w).2
  | .takeSnapshot => (w.takeSnapshot.toOption).getD w

/-- The working set after a history of edits, latest first. -/
def after (w : WorkingSet) : List Edit → WorkingSet
  | [] => w
  | ed :: past => (w.after past).edit ed

/-- A change in place keeps the kind and the identity of the entity it changes. -/
def Edit.Keeps (w : WorkingSet) : Edit → Prop
  | .modify k i f => ∀ e, w.find? k i = some e → (f e).kind = e.kind ∧ (f e).ident = e.ident
  | _ => True

/-! ## Looking up after a change -/

variable {w w' : WorkingSet} {k : Kind} {i : Ident}

theorem find?_setPartition (w : WorkingSet) (k l : Kind) (t : Table Entity) (i : Ident) :
    (w.setPartition k t).find? l i = if l = k then t.find? i else w.find? l i := by
  simp only [find?, partition, setPartition, PerKind.get_set]
  split <;> rfl

theorem find?_insert (w : WorkingSet) (e : Entity) (k : Kind) (i : Ident) :
    (w.insert e).find? k i
      = if k = e.kind ∧ i = e.ident then some e else w.find? k i := by
  rw [insert, find?_setPartition]
  by_cases hk : k = e.kind
  · subst hk
    simp only [if_true, true_and, Table.find?_insert]
    rfl
  · simp [hk]

theorem put_ok {e : Entity} (h : w.put k e = .ok w') : e.kind = k ∧ w' = w.insert e := by
  unfold put at h
  split at h
  · rename_i hk
    exact ⟨hk, (Except.ok.inj h).symm⟩
  · cases h

theorem modify_ok {f : Entity → Entity} (h : w.modify k i f = .ok w') :
    ∃ e, w.find? k i = some e
      ∧ w' = w.setPartition k ((w.partition k).insert i (f e)) := by
  unfold modify at h
  split at h
  · rename_i e he
    exact ⟨e, he, (Except.ok.inj h).symm⟩
  · cases h

theorem delete_ok {e : Entity} (h : w.delete k i = .ok (e, w')) :
    w.find? k i = some e ∧ w' = w.setPartition k ((w.partition k).erase i) := by
  unfold delete at h
  split at h
  · rename_i e' he
    obtain ⟨rfl, rfl⟩ := Prod.mk.inj (Except.ok.inj h)
    exact ⟨he, rfl⟩
  · cases h

/-- A snapshot holds the rows of the entities, each under the identity its entity is under. -/
theorem find?_capture (w : WorkingSet) (k : Kind) (i : Ident) :
    w.capture.find? k i = (w.find? k i).map Entity.toRow := by
  simp only [Snapshot.find?, Snapshot.rows, capture, PerKind.get_map, find?, partition]
  cases w.partitions.get k with
  | none => rfl
  | some t => exact Table.find?_map _ _ _

/-! ## What every edit does

Edits put entities, take entities out, change one in place or take a snapshot. A property that each of
these keeps survives any edit. -/

theorem putMany_induction {P : WorkingSet → Prop} (hinsert : ∀ w e, P w → P (w.insert e))
    (es : List Entity) (h : P w) : P (putMany k es w).2 := by
  induction es generalizing w with
  | nil => exact h
  | cons e es ih =>
      simp only [putMany]
      split
      · rename_i w' hput
        obtain ⟨-, rfl⟩ := put_ok hput
        exact ih (hinsert w e h)
      · exact h

theorem deleteEach_induction {P : WorkingSet → Prop}
    (herase : ∀ w k i, P w → P (w.setPartition k ((w.partition k).erase i)))
    (is : List Ident) (h : P w) : P (deleteEach k is w).2 := by
  induction is generalizing w with
  | nil => exact h
  | cons i is ih =>
      simp only [deleteEach]
      split
      · exact h
      · rename_i e w' hdelete
        obtain ⟨-, rfl⟩ := delete_ok hdelete
        have hrest := ih (herase w k i h)
        split
        · rename_i es w'' heq
          rw [heq] at hrest
          exact hrest
        · rename_i f w'' heq
          rw [heq] at hrest
          exact hrest

theorem edit_induction {P : WorkingSet → Prop} {ed : Edit}
    (hinsert : ∀ w e, P w → P (w.insert e))
    (herase : ∀ w k i, P w → P (w.setPartition k ((w.partition k).erase i)))
    (hmodify : ∀ k i f e, ed = .modify k i f → w.find? k i = some e →
      P (w.setPartition k ((w.partition k).insert i (f e))))
    (hsnapshot : ∀ w', ed = .takeSnapshot → w.takeSnapshot = .ok w' → P w')
    (h : P w) : P (w.edit ed) := by
  cases ed with
  | insert e => exact hinsert w e h
  | putMany k es => exact putMany_induction hinsert es h
  | put k e =>
      simp only [edit]
      cases hput : w.put k e with
      | ok w' =>
          obtain ⟨-, rfl⟩ := put_ok hput
          exact hinsert w e h
      | error f => exact h
  | modify k i f =>
      simp only [edit]
      cases hw' : w.modify k i f with
      | ok w' =>
          obtain ⟨e, he, rfl⟩ := modify_ok hw'
          exact hmodify k i f e rfl he
      | error f => exact h
  | delete k i =>
      simp only [edit]
      cases hdelete : w.delete k i with
      | ok r =>
          obtain ⟨-, hw'⟩ := delete_ok hdelete
          simp only [Except.toOption, Option.map_some, Option.getD_some, hw']
          exact herase w k i h
      | error f => exact h
  | remove k i =>
      simp only [edit, removeOfKind]
      split
      · exact h
      · rename_i e w' hdelete
        obtain ⟨-, rfl⟩ := delete_ok hdelete
        exact herase w k i h
  | deleteMany k is =>
      simp only [edit, deleteMany]
      split
      · exact deleteEach_induction herase is h
      · exact h
  | takeSnapshot =>
      simp only [edit]
      cases htake : w.takeSnapshot with
      | ok w' => exact hsnapshot w' rfl htake
      | error f => exact h

/-! ## The snapshots -/

/-- Taking a snapshot fills the first free place. -/
theorem takeSnapshot_cases (w : WorkingSet) :
    (w.baseline = none ∧ w.presave = none
        ∧ w.takeSnapshot = .ok { w with baseline := some w.capture })
      ∨ (w.baseline.isSome ∧ w.presave = none
        ∧ w.takeSnapshot = .ok { w with presave := some w.capture })
      ∨ (w.presave.isSome ∧ w.takeSnapshot = .error .snapshotsExhausted) := by
  unfold takeSnapshot
  cases hp : w.presave with
  | some p => simp
  | none =>
      cases hb : w.baseline with
      | none => simp
      | some b => simp

theorem takeSnapshot_first (hbaseline : w.baseline = none) (hpresave : w.presave = none) :
    w.takeSnapshot = .ok { w with baseline := some w.capture } := by
  simp only [takeSnapshot, hbaseline, hpresave]

/-- Taking a snapshot leaves the entities alone. -/
theorem takeSnapshot_partitions (h : w.takeSnapshot = .ok w') :
    w'.partitions = w.partitions := by
  rcases takeSnapshot_cases w with ⟨-, -, ht⟩ | ⟨-, -, ht⟩ | ⟨-, ht⟩
  · rw [ht] at h
    obtain rfl := Except.ok.inj h
    rfl
  · rw [ht] at h
    obtain rfl := Except.ok.inj h
    rfl
  · rw [ht] at h
    cases h

/-- Nothing but taking a snapshot touches the snapshots. -/
theorem snapshots_edit (w : WorkingSet) {ed : Edit} (h : ed ≠ .takeSnapshot) :
    (w.edit ed).baseline = w.baseline ∧ (w.edit ed).presave = w.presave :=
  edit_induction (P := fun w' => w'.baseline = w.baseline ∧ w'.presave = w.presave)
    (fun _ _ h => h) (fun _ _ _ h => h) (fun _ _ _ _ _ _ => ⟨rfl, rfl⟩)
    (fun _ hed _ => absurd hed h) ⟨rfl, rfl⟩

theorem snapshots_after (w : WorkingSet) {edits : List Edit} (h : .takeSnapshot ∉ edits) :
    (w.after edits).baseline = w.baseline ∧ (w.after edits).presave = w.presave := by
  induction edits with
  | nil => exact ⟨rfl, rfl⟩
  | cons ed past ih =>
      obtain ⟨hed, hpast⟩ := not_or.mp (mt List.mem_cons.mpr h)
      obtain ⟨hbaseline, hpresave⟩ := snapshots_edit (w.after past) (Ne.symm hed)
      obtain ⟨hbaseline', hpresave'⟩ := ih hpast
      exact ⟨hbaseline.trans hbaseline', hpresave.trans hpresave'⟩

/-- The working set has this baseline, or both snapshots are taken already. -/
def Tracks (B : Snapshot) (w : WorkingSet) : Prop := w.baseline = some B ∨ w.presave.isSome

theorem tracks_takeSnapshot {B : Snapshot} (h : Tracks B w) (ht : w.takeSnapshot = .ok w') :
    Tracks B w' := by
  rcases takeSnapshot_cases w with ⟨hb, hp, -⟩ | ⟨-, -, htake⟩ | ⟨-, htake⟩
  · simp [Tracks, hb, hp] at h
  · obtain rfl := Except.ok.inj (htake.symm.trans ht)
    exact Or.inr rfl
  · rw [htake] at ht
    cases ht

/-- A snapshot just taken is the baseline, unless both are taken now. -/
theorem tracks_capture (ht : w.takeSnapshot = .ok w') : Tracks w'.capture w' := by
  rcases takeSnapshot_cases w with ⟨-, -, htake⟩ | ⟨-, -, htake⟩ | ⟨-, htake⟩
  · obtain rfl := Except.ok.inj (htake.symm.trans ht)
    exact Or.inl rfl
  · obtain rfl := Except.ok.inj (htake.symm.trans ht)
    exact Or.inr rfl
  · rw [htake] at ht
    cases ht

/-- No edit replaces a baseline. -/
theorem tracks_edit {B : Snapshot} (h : Tracks B w) (ed : Edit) : Tracks B (w.edit ed) := by
  -- all edits but one leave both snapshots where they are
  refine edit_induction (fun _ _ h => h) (fun _ _ _ h => h) (fun _ _ _ _ _ _ => h) ?_ h
  intro w' _ ht
  exact tracks_takeSnapshot h ht

/-! ## Kinds and identities -/

/-- Every entity is under its own kind and identity. -/
def Coherent (w : WorkingSet) : Prop :=
  ∀ k i e, w.find? k i = some e → e.kind = k ∧ e.ident = i

theorem coherent_empty : Coherent empty := by
  intro k i e h
  simp [find?, partition, empty] at h

theorem Coherent.of_partitions (h : w.Coherent) (hw' : w'.partitions = w.partitions) :
    w'.Coherent := by
  intro k i e he
  refine h k i e ?_
  simpa only [find?, partition, hw'] using he

theorem Coherent.insert (h : w.Coherent) (e : Entity) : (w.insert e).Coherent := by
  intro k i e' he'
  rw [find?_insert] at he'
  split at he'
  · rename_i hki
    obtain rfl := Option.some.inj he'
    exact ⟨hki.1.symm, hki.2.symm⟩
  · exact h k i e' he'

theorem Coherent.erase (h : w.Coherent) (k : Kind) (i : Ident) :
    (w.setPartition k ((w.partition k).erase i)).Coherent := by
  intro l j e he
  rw [find?_setPartition] at he
  split at he
  · rename_i hlk
    subst hlk
    rw [Table.find?_erase] at he
    split at he
    · cases he
    · exact h l j e he
  · exact h l j e he

theorem Coherent.replace (h : w.Coherent) {e e' : Entity} (he : w.find? k i = some e)
    (hkind : e'.kind = e.kind) (hident : e'.ident = e.ident) :
    (w.setPartition k ((w.partition k).insert i e')).Coherent := by
  intro l j e'' he''
  rw [find?_setPartition] at he''
  split at he''
  · rename_i hlk
    subst hlk
    rw [Table.find?_insert] at he''
    split at he''
    · rename_i hji
      subst hji
      obtain rfl := Option.some.inj he''
      rw [hkind, hident]
      exact h l j e he
    · exact h l j e'' he''
  · exact h l j e'' he''

/-- Entities stay under their own kind and identity unless a change in place moves them. -/
theorem coherent_edit (h : w.Coherent) {ed : Edit} (hkeeps : ed.Keeps w) :
    (w.edit ed).Coherent := by
  refine edit_induction (fun w e h => h.insert e) (fun w k i h => h.erase k i) ?_ ?_ h
  · rintro k i f e rfl he
    obtain ⟨hkind, hident⟩ := hkeeps e he
    exact h.replace he hkind hident
  · intro w' _ ht
    exact h.of_partitions (takeSnapshot_partitions ht)

/-- The rows of a snapshot of such a working set are those of entities of their kind and identity. -/
theorem Coherent.capture (h : w.Coherent) {row : Value}
    (hrow : w.capture.find? k i = some row) :
    ∃ e : Entity, e.kind = k ∧ e.ident = i ∧ row = e.toRow := by
  rw [find?_capture] at hrow
  obtain ⟨e, he, rfl⟩ := Option.map_eq_some_iff.mp hrow
  obtain ⟨hk, hi⟩ := h k i e he
  exact ⟨e, hk, hi, rfl⟩

end WorkingSet

end Stockroom
