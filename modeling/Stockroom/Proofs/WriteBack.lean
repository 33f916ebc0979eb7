import Stockroom.Proofs.Course
import Stockroom.Proofs.Selecting

/-!
# Writing back

A commit that succeeds writes back the difference of two snapshots: the baseline, which is the working
set as it was when the unit was entered, and the working set as it is. Whatever happened in between -
edits, steps of other sessions - enters only through these two and through the committed rows the
difference is written over (`commit_writes`). The list the commit returns has exactly these changes
(`lists_inWriteOrder`), and tables whose rows are all rows of entities stay so.
-/

namespace Stockroom

/-! ## What is written, and what is returned -/

/-- The tables after are the tables before with the difference of two snapshots written over them. -/
structure WrittenBack (B L : Snapshot) (before after : PerKind (Table Value)) : Prop where
  written : ∀ k i row, L.find? k i = some row → B.find? k i ≠ some row →
    (after.get k).find? i = some row
  removed : ∀ k i row, B.find? k i = some row → L.find? k i = none →
    (after.get k).find? i = none
  untouched : ∀ k i, B.find? k i = L.find? k i →
    (after.get k).find? i = (before.get k).find? i

/-- The deltas are the difference of two snapshots: each kind at most once and never for nothing, and
every row that differs in exactly the list that says how. -/
structure Lists (B L : Snapshot) (deltas : List (Kind × Delta)) : Prop where
  once : (deltas.map Prod.fst).Nodup
  nonempty : ∀ k d, (k, d) ∈ deltas → d.isEmpty = false
  ascending : ∀ k d, (k, d) ∈ deltas → d.Ascending
  created : ∀ k r, (∃ d, (k, d) ∈ deltas ∧ r ∈ d.created) ↔
    B.find? k r.ident = none ∧ L.find? k r.ident = some r.row
  updated : ∀ k r, (∃ d, (k, d) ∈ deltas ∧ r ∈ d.updated) ↔
    B.find? k r.ident = some r.before ∧ L.find? k r.ident = some r.after ∧ r.before ≠ r.after
  deleted : ∀ k r, (∃ d, (k, d) ∈ deltas ∧ r ∈ d.deleted) ↔
    B.find? k r.ident = some r.row ∧ L.find? k r.ident = none

/-- Every committed row is the row of an entity of its kind and identity. -/
def Database.Sound (db : Database) : Prop :=
  ∀ k i row, (db.tables.get k).find? i = some row →
    ∃ e : Entity, e.kind = k ∧ e.ident = i ∧ row = e.toRow

theorem Database.sound_empty : Database.empty.Sound := by
  intro k i row hrow
  simp [Database.empty] at hrow

theorem Database.Sound.seed {db : Database} (h : db.Sound) (e : Entity) : (db.seed e).Sound := by
  intro k i row hrow
  rw [Database.find?_tables_seed] at hrow
  split at hrow
  · rename_i hki
    exact ⟨e, hki.1.symm, hki.2.symm, (Option.some.inj hrow).symm⟩
  · exact h k i row hrow

/-- Before any session has begun, every session sees the committed rows, which are rows of entities. -/
theorem Database.Sound.ofKind_view {db : Database} (h : db.Sound) (hidle : db.Idle) (s : Nat) (k : Kind) :
    (db.view s k).OfKind k := by
  intro i row hrow
  rw [hidle.find?_view] at hrow
  exact h k i row hrow

theorem WrittenBack.of_find? {B L : Snapshot} {before after : PerKind (Table Value)}
    (h : ∀ k i, (after.get k).find? i
      = if B.find? k i = L.find? k i then (before.get k).find? i else L.find? k i) :
    WrittenBack B L before after where
  written k i row hL hB := by
    rw [h, hL, if_neg hB]
  removed k i row hB hL := by
    rw [h, hB, hL]
    rfl
  untouched k i heq := by
    rw [h, if_pos heq]

/-- A row in the deltas is a row in the delta of its kind, which is there if it has one. -/
theorem exists_mem_inWriteOrder {c : Changes} {o : LockOrder} {k : Kind} {P : Delta → Prop}
    (hne : P (c.get k) → (c.get k).isEmpty = false) :
    (∃ d, (k, d) ∈ c.inWriteOrder o ∧ P d) ↔ P (c.get k) := by
  constructor
  · rintro ⟨d, hmem, hd⟩
    obtain ⟨rfl, -⟩ := Changes.mem_inWriteOrder.mp hmem
    exact hd
  · intro hd
    exact ⟨_, Changes.mem_inWriteOrder.mpr ⟨rfl, hne hd⟩, hd⟩

theorem lists_inWriteOrder (B L : Snapshot) (o : LockOrder) :
    Lists B L ((B.changesTo L).inWriteOrder o) := by
  have hget : ∀ k, (B.changesTo L).get k = .between (B.rows k) (L.rows k) :=
    fun k => PerKind.get_tabulate _ _
  refine ⟨Changes.nodup_inWriteOrder _ _, ?_, ?_, ?_, ?_, ?_⟩
  · intro k d hmem
    exact (Changes.mem_inWriteOrder.mp hmem).2
  · intro k d hmem
    rw [(Changes.mem_inWriteOrder.mp hmem).1, hget]
    exact Delta.ascending_between _ _
  · intro k r
    rw [exists_mem_inWriteOrder (P := fun d => r ∈ d.created), hget, Delta.mem_created_between]
    · rfl
    · exact fun hr => Delta.isEmpty_eq_false (Or.inl (List.ne_nil_of_mem hr))
  · intro k r
    rw [exists_mem_inWriteOrder (P := fun d => r ∈ d.updated), hget, Delta.mem_updated_between]
    · rfl
    · exact fun hr => Delta.isEmpty_eq_false (Or.inr (Or.inl (List.ne_nil_of_mem hr)))
  · intro k r
    rw [exists_mem_inWriteOrder (P := fun d => r ∈ d.deleted), hget, Delta.mem_deleted_between]
    · rfl
    · exact fun hr => Delta.isEmpty_eq_false (Or.inr (Or.inr (List.ne_nil_of_mem hr)))

namespace UnitOfWork

variable {s : Nat} {u u₁ u₂ u₃ : UnitOfWork Database} {db db₁ db₂ db₃ : Database}
  {deltas : List (Kind × Delta)}

/-! ## A commit, and the unit it ends -/

/-- What a commit that succeeds has written. It takes a baseline if there is none. -/
theorem commit_saves (h : Steady s (u, db)) (hcommit : commit (u, db) = (.ok deltas, u₁, db₁)) :
    ∃ B, B = u.workspace.set.baseline.getD u.workspace.set.capture
      ∧ u.workspace.set.presave = none
      ∧ u.workspace.policy.permit (B.changesTo u.workspace.set.capture) = .ok ()
      ∧ deltas = (B.changesTo u.workspace.set.capture).inWriteOrder u.workspace.order
      ∧ ∀ k i, (db₁.tables.get k).find? i
          = if B.find? k i = u.workspace.set.capture.find? k i then (db.tables.get k).find? i
            else u.workspace.set.capture.find? k i := by
  obtain ⟨-, -, -, -, -, m, mid, hsave, rfl⟩ := commit_ok h.session hcommit
  obtain ⟨hpresave, hpermit, hdeltas, hsaved⟩ := Workspace.save_ok hsave
  refine ⟨_, rfl, hpresave, hpermit, hdeltas, fun k i => ?_⟩
  rw [hdeltas, h.session] at hsaved
  exact Database.find?_published h.clear hsaved k i

/-- What a commit that succeeds has written, against the baseline of the unit. -/
theorem commit_writes {B : Snapshot} (h : Steady s (u, db)) (htracks : u.workspace.set.Tracks B)
    (hcommit : commit (u, db) = (.ok deltas, u₁, db₁)) :
    u.workspace.policy.permit (B.changesTo u.workspace.set.capture) = .ok ()
      ∧ deltas = (B.changesTo u.workspace.set.capture).inWriteOrder u.workspace.order
      ∧ ∀ k i, (db₁.tables.get k).find? i
          = if B.find? k i = u.workspace.set.capture.find? k i then (db.tables.get k).find? i
            else u.workspace.set.capture.find? k i := by
  obtain ⟨B', hB', hpresave, hwritten⟩ := commit_saves h hcommit
  -- a save succeeds only while the second snapshot is free, so the baseline is `B`
  have hbaseline : u.workspace.set.baseline = some B := by
    rcases htracks with hbaseline | htaken
    · exact hbaseline
    · rw [hpresave] at htaken
      cases htaken
  rw [hbaseline, Option.getD_some] at hB'
  rw [← hB']
  exact hwritten

section

variable {course : List Turn} (hsession : u.workspace.session = Database.session s)
  (henter : enter (u, db) = (.ok (), u₁, db₁)) (hapart : Apart s course)
  (hrun : after (u₁, db₁) course = (u₂, db₂))
  (hcommit : commit (u₂, db₂) = (.ok deltas, u₃, db₃))

include hsession henter hapart hrun hcommit

/-- What holds of a unit when it is entered and survives its edits holds of it when it commits. -/
theorem holds_at_commit {P : UnitOfWork Database → Prop} (hP : P u₁)
    (hedit : ∀ later ed past, course = later ++ .call (.edit ed) :: past →
      P (after (u₁, db₁) past).1 →
      P ((after (u₁, db₁) past).1.modifySet ((after (u₁, db₁) past).1.workspace.set.edit ed))) :
    Steady s (u₂, db₂) ∧ P u₂ := by
  have hentered := enter_ok hsession henter
  have hquiet := enter_quiet hsession db
  rw [henter] at hquiet
  have hstays := after_stays (hquiet.session.trans hsession) db₁ course
  rw [hrun] at hstays
  obtain ⟨hactive, hmode, -⟩ := commit_ok hstays.1 hcommit
  -- only a unit that may write commits, and one that may write has begun with nothing staged
  have hsteady : Steady s (u₁, db₁) :=
    ⟨hquiet.session.trans hsession,
      hentered.clear (hquiet.readOnly.symm.trans (hstays.2.symm.trans hmode))⟩
  have hsteady₂ := steady_after hsteady hapart
  have hafter := after_induction hsteady hapart hentered.phase hedit hP
  rw [hrun] at hafter hsteady₂
  rcases hafter with hphase | ⟨-, hP₂⟩
  · rw [hactive] at hphase
    cases hphase
  · exact ⟨hsteady₂, hP₂⟩

/-- The baseline of a unit that commits is its working set as it was entered. -/
theorem tracks_at_commit :
    Steady s (u₂, db₂) ∧ u₂.workspace.set.Tracks u₁.workspace.set.capture :=
  holds_at_commit hsession henter hapart hrun hcommit
    (P := fun v => v.workspace.set.Tracks u₁.workspace.set.capture)
    (enter_ok hsession henter).tracks fun _ ed _ _ hv => WorkingSet.tracks_edit hv ed

end

/-- Writing back is exact and clobbers nothing.

A unit is entered, takes any course of calls while the database is seeded and used by other
sessions, and commits. Then the committed rows are those before the commit with the difference of its
working set, from when it was entered to the commit, written over them, and the difference is what the
commit returns. If all committed rows were those of entities of their kind and identity and every change
in place kept these, all committed rows still are. -/
theorem commit_writes_back {course : List Turn}
    (hsession : u.workspace.session = Database.session s)
    (henter : enter (u, db) = (.ok (), u₁, db₁)) (hapart : Apart s course)
    (hrun : after (u₁, db₁) course = (u₂, db₂))
    (hcommit : commit (u₂, db₂) = (.ok deltas, u₃, db₃)) :
    WrittenBack u₁.workspace.set.capture u₂.workspace.set.capture db₂.tables db₃.tables
      ∧ Lists u₁.workspace.set.capture u₂.workspace.set.capture deltas
      ∧ (db₂.Sound → u.workspace.set.Coherent →
          (∀ later ed past, course = later ++ .call (.edit ed) :: past →
            ed.Keeps (after (u₁, db₁) past).1.workspace.set) →
          db₃.Sound) := by
  obtain ⟨hsteady, htracks⟩ := tracks_at_commit hsession henter hapart hrun hcommit
  obtain ⟨-, hdeltas, hrows⟩ := commit_writes hsteady htracks hcommit
  refine ⟨WrittenBack.of_find? hrows, ?_, ?_⟩
  · rw [hdeltas]
    exact lists_inWriteOrder _ _ _
  · intro hsound hcoherent hkeeps k i row hrow
    have hcoherent₂ := (holds_at_commit hsession henter hapart hrun hcommit
      (P := fun v => v.workspace.set.Coherent) ((enter_ok hsession henter).coherent hcoherent)
      fun later ed past heq hv => WorkingSet.coherent_edit hv (hkeeps later ed past heq)).2
    rw [hrows] at hrow
    split at hrow
    · exact hsound k i row hrow
    · exact hcoherent₂.capture hrow

/-- A unit inserts a product while another one is seeded. -/
theorem inserted_product_written_back :
    WrittenBack ⟨.fill none⟩
        ⟨⟨none, none, some (Table.empty.insert (.sequential 0)
          (Product.toRow ⟨.sequential 0, "Widget", "W-1", 10, 250⟩))⟩⟩
        ⟨.empty, .empty, Table.empty.insert (.sequential 1)
          (Product.toRow ⟨.sequential 1, "Gadget", "G-1", 4, 990⟩)⟩
        (commit (after (enter (forWriting 1, Database.empty)).2
          [.aside (.seed (.product ⟨.sequential 1, "Gadget", "G-1", 4, 990⟩)),
            .call (.edit (.insert (.product ⟨.sequential 0, "Widget", "W-1", 10, 250⟩)))]
          )).2.2.tables
      ∧ (commit (after (enter (forWriting 1, Database.empty)).2
          [.aside (.seed (.product ⟨.sequential 1, "Gadget", "G-1", 4, 990⟩)),
            .call (.edit (.insert (.product ⟨.sequential 0, "Widget", "W-1", 10, 250⟩)))]
          )).2.2.Sound := by
  obtain ⟨hwritten, -, hsound⟩ := commit_writes_back (u := forWriting 1) (s := 1) rfl
    (show enter (forWriting 1, Database.empty) = (.ok (), _, _) from rfl)
    (show Apart 1 [.aside (.seed (.product ⟨.sequential 1, "Gadget", "G-1", 4, 990⟩)),
      .call (.edit (.insert (.product ⟨.sequential 0, "Widget", "W-1", 10, 250⟩)))]
      by simp [Apart, Database.Step.session?])
    rfl rfl
  refine ⟨hwritten, hsound ?_ WorkingSet.coherent_empty ?_⟩
  · exact Database.sound_empty.seed (.product ⟨.sequential 1, "Gadget", "G-1", 4, 990⟩)
  · intro later ed past heq
    have hmem : Turn.call (.edit ed) ∈ later ++ .call (.edit ed) :: past := by simp
    rw [← heq] at hmem
    simp only [List.mem_cons, reduceCtorEq, Turn.call.injEq, Call.edit.injEq, List.not_mem_nil,
      false_or, or_false] at hmem
    subst hmem
    trivial

end UnitOfWork

end Stockroom
