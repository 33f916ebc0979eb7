import Stockroom.Proofs.WriteBack

/-!
# Which rows a commit may replace

The policy decides on the difference of two snapshots, not on the committed rows. A row that was in the
working set when the unit was entered is updated or deleted under an exclusive lock only. A row that was
not there counts as created whatever the store holds, and creations need no lock. So a committed row can
be replaced without a lock by putting an entity of its kind and identity that was never loaded, and this
is the only way; it can never be removed like that.
-/

namespace Stockroom

namespace UnitOfWork

variable {s : Nat} {u u₁ u₂ u₃ : UnitOfWork Database} {db db₁ db₂ db₃ : Database}
  {deltas : List (Kind × Delta)} {k : Kind} {i : Ident}

/-- A policy that has locks is the plan the unit was given. -/
theorem planned_of_policy (hlocks : u₂.workspace.plan.map Plan.locks = u.planned.map Plan.locks)
    (h : u₂.workspace.policy.LocksExclusively k) :
    ∃ p, u.planned = some p ∧ p.LocksExclusively k := by
  cases hplan : u₂.workspace.plan with
  | none =>
      obtain ⟨m, hmem, -⟩ := h
      simp [Workspace.policy, hplan, Plan.empty, Plan.locks] at hmem
  | some q =>
      rw [hplan, Option.map_some] at hlocks
      obtain ⟨p, hp, hpq⟩ := Option.map_eq_some_iff.mp hlocks.symm
      rw [Workspace.policy, hplan, Option.getD_some] at h
      exact ⟨p, hp, by rwa [Plan.LocksExclusively, hpq]⟩

/-- A row that both snapshots have and that differs, or that the later one lacks, is updated or deleted
in the difference. -/
theorem changed_of_baseline {B L : Snapshot} {row : Value} (hB : B.find? k i = some row)
    (hne : B.find? k i ≠ L.find? k i) :
    ((B.changesTo L).get k).updated ≠ [] ∨ ((B.changesTo L).get k).deleted ≠ [] := by
  rw [Snapshot.changesTo, PerKind.get_tabulate]
  cases hL : L.find? k i with
  | none =>
      have hmem : (⟨i, row⟩ : KeyedRow) ∈ (Delta.between (B.rows k) (L.rows k)).deleted :=
        Delta.mem_deleted_between.mpr ⟨hB, hL⟩
      exact Or.inr (List.ne_nil_of_mem hmem)
  | some row' =>
      have hrow : row ≠ row' := fun heq => hne (by rw [hB, hL, heq])
      have hmem : (⟨i, row, row'⟩ : RowUpdate) ∈ (Delta.between (B.rows k) (L.rows k)).updated :=
        Delta.mem_updated_between.mpr ⟨hB, hL, hrow⟩
      exact Or.inl (List.ne_nil_of_mem hmem)

/-- A committed row is replaced or removed under an exclusive lock on its kind, or it is replaced by the
row of an entity that was put into the working set after the unit was entered, where none of that kind
and identity had been. -/
theorem replaced_under_lock_or_put {course : List Turn} {old : Value}
    (hsession : u.workspace.session = Database.session s)
    (henter : enter (u, db) = (.ok (), u₁, db₁)) (hapart : Apart s course)
    (hrun : after (u₁, db₁) course = (u₂, db₂))
    (hcommit : commit (u₂, db₂) = (.ok deltas, u₃, db₃))
    (hbefore : (db₂.tables.get k).find? i = some old)
    (hafter : (db₃.tables.get k).find? i ≠ some old) :
    (∃ p, u.planned = some p ∧ p.LocksExclusively k)
      ∨ (u₁.workspace.set.find? k i = none
        ∧ ∃ e, u₂.workspace.set.find? k i = some e
          ∧ (db₃.tables.get k).find? i = some e.toRow) := by
  obtain ⟨hsteady, htracks⟩ := tracks_at_commit hsession henter hapart hrun hcommit
  obtain ⟨hpermit, -, hrows⟩ := commit_writes hsteady htracks hcommit
  have hne : u₁.workspace.set.capture.find? k i ≠ u₂.workspace.set.capture.find? k i := by
    intro heq
    rw [hrows, if_pos heq] at hafter
    exact hafter hbefore
  cases hB : u₁.workspace.set.capture.find? k i with
  | some row =>
      have hplan : u₂.workspace.plan = u₁.workspace.plan :=
        (holds_at_commit hsession henter hapart hrun hcommit
          (P := fun v => v.workspace.plan = u₁.workspace.plan) rfl fun _ _ _ _ hv => hv).2
      refine Or.inl (planned_of_policy ?_
        (Plan.locksExclusively_of_permit hpermit (changed_of_baseline hB hne)))
      rw [hplan]
      exact (enter_ok hsession henter).locks
  | none =>
      -- created, so all there is to say is what the row has become
      rw [WorkingSet.find?_capture, Option.map_eq_none_iff] at hB
      refine Or.inr ⟨hB, ?_⟩
      rw [hrows, if_neg hne, WorkingSet.find?_capture]
      cases he : u₂.workspace.set.find? k i with
      | some e => exact ⟨e, rfl, rfl⟩
      | none =>
          rw [WorkingSet.find?_capture, WorkingSet.find?_capture, hB, he] at hne
          exact absurd rfl hne

/-- A gadget that was never loaded is inserted over the committed lamp. -/
theorem inserted_over_committed :
    (commit (after (enter (forWriting 1,
          Database.empty.seed (.product ⟨.sequential 0, "Lamp", "LAMP-1", 10, 3499⟩))).2
        [.call (.edit (.insert (.product ⟨.sequential 0, "Gadget", "G-1", 4, 990⟩)))]
          )).1.isOk ∧
      ((commit (after (enter (forWriting 1,
          Database.empty.seed (.product ⟨.sequential 0, "Lamp", "LAMP-1", 10, 3499⟩))).2
        [.call (.edit (.insert (.product ⟨.sequential 0, "Gadget", "G-1", 4, 990⟩)))]
          )).2.2.tables.get .product).find? (.sequential 0)
        = some (Product.toRow ⟨.sequential 0, "Gadget", "G-1", 4, 990⟩) := by
  have h := replaced_under_lock_or_put (k := .product) (i := .sequential 0) (u := forWriting 1)
    (s := 1) rfl
    (show enter (forWriting 1,
        Database.empty.seed (.product ⟨.sequential 0, "Lamp", "LAMP-1", 10, 3499⟩))
      = (.ok (), _, _) from rfl)
    (show Apart 1 [.call (.edit (.insert (.product ⟨.sequential 0, "Gadget", "G-1", 4, 990⟩)))]
      by simp [Apart])
    rfl rfl rfl (show some (Product.toRow _) ≠ some (Product.toRow _) by simp [Product.toRow])
  obtain ⟨p, hp, -⟩ | ⟨-, e, hput, he⟩ := h
  · cases hp
  · obtain rfl : .product ⟨.sequential 0, "Gadget", "G-1", 4, 990⟩ = e := Option.some.inj hput
    exact ⟨rfl, he⟩

/-- The lock is not always there: under a plan that loads nothing, a committed product is replaced by
one of its identity. -/
theorem overwrite_without_lock :
    ¬ ∀ (s : Nat) (u u₁ u₂ u₃ : UnitOfWork Database) (db db₁ db₂ db₃ : Database)
        (course : List Turn) (deltas : List (Kind × Delta)) (k : Kind) (i : Ident) (old : Value),
      u.workspace.session = Database.session s → enter (u, db) = (.ok (), u₁, db₁) →
      Apart s course → after (u₁, db₁) course = (u₂, db₂) →
      commit (u₂, db₂) = (.ok deltas, u₃, db₃) →
      (db₂.tables.get k).find? i = some old → (db₃.tables.get k).find? i ≠ some old →
      ∃ p, u.planned = some p ∧ p.LocksExclusively k := by
  intro h
  obtain ⟨p, hp, m, hmem, -⟩ := h 1
    (create (Workspace.create (Database.session 1) .standard false) (some (Plan.empty true)) none)
    _ _ _ (Database.empty.seed (.product ⟨.sequential 0, "Lamp", "LAMP-1", 10, 3499⟩)) _ _ _
    [.call (.edit (.insert (.product ⟨.sequential 0, "Gadget", "G-1", 4, 990⟩)))] _
    .product (.sequential 0) _ rfl rfl (by simp [Apart]) rfl rfl rfl
    (show some (Product.toRow _) ≠ some (Product.toRow _) by simp [Product.toRow])
  obtain rfl := Option.some.inj hp
  cases hmem

end UnitOfWork

end Stockroom
