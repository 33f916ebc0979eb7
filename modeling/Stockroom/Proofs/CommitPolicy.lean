import Stockroom.Proofs.Building
import Stockroom.Proofs.Exclusion

/-!
# What a commit comes to

The commit of an active unit that may write is decided by three things: what changed since it was entered,
the locks of its plan, and the failures that are pending in the store. The policy comes first, kind after
kind as they are declared, and then the kinds that changed are saved in descending lock order
(`UnitOfWork.commit_decided`). The first that stands in the way decides what is reported; nothing behind
it happens.

A plan is asked for its first entry of a kind. That is the only one, since a plan made for changing
locks no kind twice (`Plan.Made.locksOnce`), and a unit that may write runs no other plans. So it does
not matter what else was done with the workspace before the unit was entered (`Workspace.Prepared`), as
long as no snapshot was taken.
-/

namespace Stockroom

/-! ## The first in a list -/

/-- The first member of a list that has a property. -/
def FirstIn {α : Type} (P : α → Prop) (xs : List α) (x : α) : Prop :=
  ∃ before behind, xs = before ++ x :: behind ∧ P x ∧ ∀ y ∈ before, ¬ P y

namespace FirstIn

variable {α : Type} {P Q : α → Prop} {xs : List α} {x y : α}

theorem head (h : P x) : FirstIn P (x :: xs) x := ⟨[], xs, rfl, h, by simp⟩

theorem tail (hy : ¬ P y) (h : FirstIn P xs x) : FirstIn P (y :: xs) x := by
  obtain ⟨before, behind, rfl, hx, hbefore⟩ := h
  refine ⟨y :: before, behind, rfl, hx, fun z hz => ?_⟩
  rcases List.mem_cons.mp hz with rfl | hz
  · exact hy
  · exact hbefore z hz

theorem congr (hPQ : ∀ x, P x ↔ Q x) (h : FirstIn P xs x) : FirstIn Q xs x := by
  obtain ⟨before, behind, rfl, hx, hbefore⟩ := h
  exact ⟨before, behind, rfl, (hPQ x).mp hx, fun z hz => mt (hPQ z).mpr (hbefore z hz)⟩

/-- The first among those that pass a test is the first that passes and has the property. -/
theorem of_filter {test : α → Bool} (h : FirstIn P (xs.filter test) x) :
    FirstIn (fun x => test x = true ∧ P x) xs x := by
  induction xs with
  | nil =>
      obtain ⟨before, behind, heq, -, -⟩ := h
      simp at heq
  | cons z zs ih =>
      by_cases hz : test z = true
      · rw [List.filter_cons_of_pos hz] at h
        obtain ⟨before, behind, heq, hx, hbefore⟩ := h
        cases before with
        | nil =>
            obtain ⟨rfl, -⟩ := List.cons.inj heq
            exact head ⟨hz, hx⟩
        | cons z' before =>
            obtain ⟨rfl, hrest⟩ := List.cons.inj heq
            refine tail (fun hPz => hbefore z (List.mem_cons_self ..) hPz.2) (ih ?_)
            exact ⟨before, behind, hrest, hx, fun y hy => hbefore y (List.mem_cons_of_mem _ hy)⟩
      · rw [List.filter_cons_of_neg hz] at h
        exact tail (fun hPz => hz hPz.1) (ih h)

end FirstIn

/-! ## The policy -/

namespace Plan

variable {p : Plan} {c : Changes} {d : Delta} {k : Kind}

/-- No kind is locked twice. -/
def LocksOnce (p : Plan) : Prop := (p.locks.map Prod.fst).Nodup

/-- A plan as plans are made: one that loads nothing, or a built one. -/
def Made (p : Plan) : Prop :=
  (∃ mutating, p = .empty mutating) ∨ ∃ o mutating calls, build o mutating calls = .ok p

theorem map_fst_locks (p : Plan) : p.locks.map Prod.fst = p.entries.map Entry.kind := List.map_map

theorem locksOnce_empty (mutating : Bool) : (empty mutating).LocksOnce := List.nodup_nil

theorem Made.locksOnce (h : p.Made) (hmutating : p.mutating = true) : p.LocksOnce := by
  rcases h with ⟨mutating, rfl⟩ | ⟨o, mutating, calls, hbuild⟩
  · exact locksOnce_empty mutating
  · obtain rfl : mutating = true := (build_ok hbuild).1.symm.trans hmutating
    rw [LocksOnce, map_fst_locks]
    refine (ascending_of_build hbuild).imp fun hlt heq => ?_
    rw [heq] at hlt
    exact Nat.lt_irrefl _ hlt

/-- Where no kind is locked twice, every entry is the one found for its kind. -/
theorem entryFor?_of_mem (h : p.LocksOnce) {e : Entry} (he : e ∈ p.entries) :
    p.entryFor? e.kind = some e := by
  obtain ⟨es, mutating⟩ := p
  have hkinds : (es.map Entry.kind).Nodup := by rwa [LocksOnce, map_fst_locks] at h
  have hmem : e ∈ es := he
  simp only [entryFor?]
  clear h he
  induction es with
  | nil => cases hmem
  | cons e' es ih =>
      obtain ⟨hfirst, hrest⟩ := List.nodup_cons.mp hkinds
      rcases List.mem_cons.mp hmem with rfl | hmem
      · simp
      · have hne : e'.kind ≠ e.kind := fun heq => hfirst (heq ▸ List.mem_map_of_mem hmem)
        rw [List.find?_cons_of_neg (by simpa using hne)]
        exact ih hrest hmem

/-- A plan for changing is against the changes of a kind exactly if rows are updated or deleted without
an exclusive lock. -/
theorem breach?_eq_none_iff (hmutating : p.mutating = true) (honce : p.LocksOnce) :
    p.breach? k d = none ↔ (d.updated ≠ [] ∨ d.deleted ≠ [] → p.LocksExclusively k) := by
  constructor
  · exact locksExclusively_of_breach?
  · intro h
    by_cases hchange : d.updated ≠ [] ∨ d.deleted ≠ []
    · obtain ⟨m, hm, hexclusive⟩ := h hchange
      obtain ⟨e, he, heq⟩ := List.mem_map.mp hm
      obtain ⟨rfl, rfl⟩ := Prod.mk.inj heq
      simp [breach?, hmutating, entryFor?_of_mem honce he, hexclusive]
    · obtain ⟨hu, hd⟩ := not_or.mp hchange
      simp [breach?, hmutating, Classical.not_not.mp hu, Classical.not_not.mp hd]

/-- The policy admits all changes, or reports the first kind whose changes it is against. -/
theorem permit_cases (p : Plan) (c : Changes) :
    (p.permit c = .ok () ∧ ∀ k, p.breach? k (c.get k) = none) ∨
      ∃ k b, p.permit c = .error (.policy k b)
        ∧ FirstIn (fun k => p.breach? k (c.get k) ≠ none) Kind.all k := by
  cases hpermit : p.permit c with
  | ok _ => exact Or.inl ⟨rfl, breach?_of_permit hpermit⟩
  | error e =>
      simp only [permit] at hpermit
      split at hpermit
      · rename_i e' hfirst
        obtain rfl := Except.error.inj hpermit
        obtain ⟨before, k, behind, hall, hk, hbefore⟩ := List.findSome?_eq_some_iff.mp hfirst
        obtain ⟨b, hb, rfl⟩ := Option.map_eq_some_iff.mp hk
        refine Or.inr ⟨k, b, rfl, before, behind, hall, by simp [hb], fun l hl => ?_⟩
        simpa using hbefore l hl
      · cases hpermit

end Plan

/-! ## Saving while failures are pending -/

namespace Database

variable {s : Nat} {k : Kind}

theorem save_of_pending {db : Database} {e : StoreError} (h : db.pendingSaves.get k = some e)
    (d : Delta) :
    save s k d db = (.error e, { db with pendingSaves := db.pendingSaves.set k none }) := by
  simp only [save, h]

theorem save_of_none_pending {db : Database} (h : db.pendingSaves.get k = none) (d : Delta) :
    ∃ db', save s k d db = (.ok (), db') ∧ db'.pendingSaves = db.pendingSaves := by
  simp only [save, h]
  exact ⟨_, rfl, rfl⟩

/-- Deltas are all saved, or the first of a kind with a failure pending is turned away, which uses up
that failure. -/
theorem session_save_cases (s : Nat) (deltas : List (Kind × Delta)) (db : Database) :
    (((session s).save deltas db).1 = .ok ()
        ∧ ∀ k ∈ deltas.map Prod.fst, db.pendingSaves.get k = none) ∨
      ∃ k e, ((session s).save deltas db).1 = .error e
        ∧ db.pendingSaves.get k = some e
        ∧ FirstIn (fun k => db.pendingSaves.get k ≠ none) (deltas.map Prod.fst) k
        ∧ ((session s).save deltas db).2.pendingSaves = db.pendingSaves.set k none := by
  induction deltas generalizing db with
  | nil => exact Or.inl ⟨rfl, by simp⟩
  | cons kd rest ih =>
      obtain ⟨k, d⟩ := kd
      rw [session_save_cons]
      cases hpending : db.pendingSaves.get k with
      | some e =>
          rw [save_of_pending hpending]
          exact Or.inr ⟨k, e, rfl, hpending, .head (by simp [hpending]), rfl⟩
      | none =>
          obtain ⟨db', hsave, hsame⟩ := save_of_none_pending (s := s) hpending d
          have hrest := ih db'
          rw [hsame] at hrest
          rw [hsave]
          rcases hrest with ⟨hok, hnone⟩ | ⟨l, e, herror, hl, hfirst, hafter⟩
          · refine Or.inl ⟨hok, fun l hl => ?_⟩
            rcases List.mem_cons.mp hl with rfl | hl
            · exact hpending
            · exact hnone l hl
          · exact Or.inr ⟨l, e, herror, hl, hfirst.tail (by simp [hpending]), hafter⟩

/-- Changes are all saved, or the first kind that changed and has a failure pending, in descending lock
order, is turned away. -/
theorem session_save_changes (s : Nat) (c : Changes) (o : LockOrder) (db : Database) :
    (((session s).save (c.inWriteOrder o) db).1 = .ok ()
        ∧ ∀ k, (c.get k).isEmpty = false → db.pendingSaves.get k = none) ∨
      ∃ k e, ((session s).save (c.inWriteOrder o) db).1 = .error e
        ∧ db.pendingSaves.get k = some e
        ∧ FirstIn (fun k => (c.get k).isEmpty = false ∧ db.pendingSaves.get k ≠ none) o.backward k
        ∧ ((session s).save (c.inWriteOrder o) db).2.pendingSaves = db.pendingSaves.set k none := by
  rcases session_save_cases s (c.inWriteOrder o) db with ⟨hok, hclear⟩ | ⟨k, e, herror, hk, hfirst, hafter⟩
  · refine Or.inl ⟨hok, fun k hchanged => hclear k ?_⟩
    exact List.mem_map.mpr ⟨(k, c.get k), Changes.mem_inWriteOrder.mpr ⟨rfl, hchanged⟩, rfl⟩
  · rw [Changes.map_fst_inWriteOrder] at hfirst
    exact Or.inr ⟨k, e, herror, hk, hfirst.of_filter.congr (by simp), hafter⟩

end Database

/-! ## Workspaces given to units -/

namespace Workspace

variable {s : Nat} {m m' : Workspace Database} {db : Database}

/-- A workspace of a session as it may be given to a unit of work: a new one, or one whose working set
was edited and that has run plans, but took no snapshot. -/
inductive Prepared (s : Nat) : Workspace Database → Prop where
  | new (order : LockOrder) (readOnly strict : Bool) :
      Prepared s { create (Database.session s) order readOnly with strict := strict }
  | edited {m : Workspace Database} (h : Prepared s m) {ed : WorkingSet.Edit}
      (hed : ed ≠ .takeSnapshot) : Prepared s { m with set := m.set.edit ed }
  | run {m : Workspace Database} (h : Prepared s m) {p : Plan} (hp : p.Made) (db : Database) :
      Prepared s (load p (m, db)).2.1

/-- The snapshots are still to be taken, and the active plan is made for the mode. -/
structure Ready (s : Nat) (m : Workspace Database) : Prop where
  session : m.session = Database.session s
  baseline : m.set.baseline = none
  presave : m.set.presave = none
  mode : ∀ p, m.plan = some p → p.mutating = !m.readOnly
  once : ∀ p, m.plan = some p → p.mutating = true → p.LocksOnce

theorem Ready.load (h : m.Ready s) {p : Plan} (hp : p.Made) (db : Database) :
    (load p (m, db)).2.1.Ready s := by
  have hloads := load_loads h.session p db
  rcases hload : Workspace.load p (m, db) with ⟨f | ⟨⟩, m', db'⟩
  · rw [hload] at hloads
    have hplan := load_error hload
    have hmode := hloads.readOnly
    refine ⟨hloads.session.trans h.session, hloads.fills.baseline.trans h.baseline,
      hloads.fills.presave.trans h.presave, fun q hq => ?_, fun q hq => ?_⟩
    · rw [hplan] at hq
      exact (h.mode q hq).trans (congrArg _ hmode.symm)
    · rw [hplan] at hq
      exact h.once q hq
  · rw [hload] at hloads
    obtain ⟨p', hplan, hlocks, hsame, hmode⟩ := load_ok h.session hload
    refine ⟨hloads.session.trans h.session, hloads.fills.baseline.trans h.baseline,
      hloads.fills.presave.trans h.presave, fun q hq => ?_, fun q hq hq' => ?_⟩
    · obtain rfl := Option.some.inj (hplan.symm.trans hq)
      rw [hsame, hmode, hloads.readOnly]
    · obtain rfl := Option.some.inj (hplan.symm.trans hq)
      rw [Plan.LocksOnce, hlocks]
      exact hp.locksOnce (hsame.symm.trans hq')

theorem Prepared.ready (h : m.Prepared s) : m.Ready s := by
  induction h with
  | new order readOnly strict => exact ⟨rfl, rfl, rfl, by simp [create], by simp [create]⟩
  | @edited m _ ed hed ih =>
      obtain ⟨hbaseline, hpresave⟩ := m.set.snapshots_edit hed
      exact ⟨ih.session, hbaseline.trans ih.baseline, hpresave.trans ih.presave, ih.mode, ih.once⟩
  | run _ hp db ih => exact ih.load hp db

/-- The policy of a workspace that may write is a plan for changing that locks no kind twice. -/
theorem Ready.policy (h : m.Ready s) (hwriting : m.readOnly = false) :
    m.policy.mutating = true ∧ m.policy.LocksOnce := by
  cases hplan : m.plan with
  | none =>
      rw [Workspace.policy, hplan, Option.getD_none, hwriting]
      exact ⟨rfl, Plan.locksOnce_empty _⟩
  | some p =>
      have hmutating : p.mutating = true := by rw [h.mode p hplan, hwriting, Bool.not_false]
      rw [Workspace.policy, hplan, Option.getD_some]
      exact ⟨hmutating, h.once p hplan hmutating⟩

end Workspace

namespace UnitOfWork

variable {s : Nat} {u u₁ u₂ : UnitOfWork Database} {db db₁ db₂ : Database} {B : Snapshot}

/-! ## The decision -/

/-- The changes of a kind are creations, or the plan has an exclusive lock on it. -/
def Covered (planned : Option Plan) (c : Changes) (k : Kind) : Prop :=
  (c.get k).updated ≠ [] ∨ (c.get k).deleted ≠ [] → ∃ p, planned = some p ∧ p.LocksExclusively k

/-- What a commit answers and leaves of the database, given the changes, the plan and the database
before. A commit that is refused has done nothing but roll back. -/
structure Decided (s : Nat) (o : LockOrder) (planned : Option Plan) (c : Changes) (db : Database)
    (r : Except Failure (List (Kind × Delta))) (db' : Database) : Prop where
  accepted : (∃ deltas, r = .ok deltas) ↔
    (∀ k, Covered planned c k) ∧ ∀ k, (c.get k).isEmpty = false → db.pendingSaves.get k = none
  refused : ¬ (∀ k, Covered planned c k) →
    ∃ k b, r = .error (.unit (.policy k b))
      ∧ FirstIn (fun k => ¬ Covered planned c k) Kind.all k
      ∧ db' = (Database.rollback s db).2
  failed : (∀ k, Covered planned c k) →
    ¬ (∀ k, (c.get k).isEmpty = false → db.pendingSaves.get k = none) →
    ∃ k e, r = .error (.ofStore e) ∧ db.pendingSaves.get k = some e
      ∧ FirstIn (fun k => (c.get k).isEmpty = false ∧ db.pendingSaves.get k ≠ none) o.backward k
      ∧ db'.pendingSaves = db.pendingSaves.set k none

namespace Decided

variable {o : LockOrder} {planned : Option Plan} {c : Changes} {k : Kind} {db' : Database}

theorem accept (hcovered : ∀ k, Covered planned c k)
    (hclear : ∀ k, (c.get k).isEmpty = false → db.pendingSaves.get k = none)
    (deltas : List (Kind × Delta)) : Decided s o planned c db (.ok deltas) db' where
  accepted := iff_of_true ⟨deltas, rfl⟩ ⟨hcovered, hclear⟩
  refused h := absurd hcovered h
  failed _ h := absurd hclear h

theorem refuse (hfirst : FirstIn (fun k => ¬ Covered planned c k) Kind.all k) (b : Breach) :
    Decided s o planned c db (.error (.unit (.policy k b))) (Database.rollback s db).2 where
  accepted := by
    obtain ⟨-, -, -, hk, -⟩ := hfirst
    exact iff_of_false (by simp) fun h => hk (h.1 k)
  refused _ := ⟨k, b, rfl, hfirst, rfl⟩
  failed h := by
    obtain ⟨-, -, -, hk, -⟩ := hfirst
    exact absurd (h k) hk

theorem fail {e : StoreError} (hcovered : ∀ k, Covered planned c k)
    (hk : db.pendingSaves.get k = some e)
    (hfirst : FirstIn (fun k => (c.get k).isEmpty = false ∧ db.pendingSaves.get k ≠ none) o.backward k)
    (hafter : db'.pendingSaves = db.pendingSaves.set k none) :
    Decided s o planned c db (.error (.ofStore e)) db' where
  accepted := by
    obtain ⟨-, -, -, ⟨hchanged, hpending⟩, -⟩ := hfirst
    exact iff_of_false (by simp) fun h => hpending (h.2 k hchanged)
  refused h := absurd hcovered h
  failed _ _ := ⟨k, e, rfl, hk, hfirst, hafter⟩

end Decided

theorem decided_of_baseline {planned : Option Plan} (hsession : u.workspace.session = Database.session s)
    (hactive : u.phase = .active) (hwriting : u.readOnly = false)
    (hbaseline : u.workspace.set.baseline = some B) (hpresave : u.workspace.set.presave = none)
    (hpolicy : u.workspace.policy.mutating = true ∧ u.workspace.policy.LocksOnce)
    (hlocks : ∀ k, u.workspace.policy.LocksExclusively k ↔
      ∃ p, planned = some p ∧ p.LocksExclusively k) (db : Database) :
    Decided s u.workspace.order planned (B.changesTo u.workspace.set.capture) db
      (commit (u, db)).1 (commit (u, db)).2.2 := by
  generalize hc : B.changesTo u.workspace.set.capture = c
  have hbreach : ∀ k, u.workspace.policy.breach? k (c.get k) = none ↔ Covered planned c k := fun k =>
    (Plan.breach?_eq_none_iff hpolicy.1 hpolicy.2).trans (imp_congr_right fun _ => hlocks k)
  obtain ⟨m, hsave⟩ := Workspace.save_eq hpresave db
  rw [hbaseline, Option.getD_some, hc, hsession] at hsave
  rw [commit_of_writing hsession hactive hwriting, hsave]
  rcases Plan.permit_cases u.workspace.policy c with ⟨hok, hnone⟩ | ⟨k, b, hrefused, hfirst⟩
  · have hcovered : ∀ k, Covered planned c k := fun k => (hbreach k).mp (hnone k)
    rw [hok]
    dsimp only
    have hcases := Database.session_save_changes s c u.workspace.order db
    rcases hst : (Database.session s).save (c.inWriteOrder u.workspace.order) db with ⟨r, db'⟩
    rw [hst] at hcases
    rcases hcases with ⟨rfl, hclear⟩ | ⟨k, e, rfl, hk, hfirst, hafter⟩
    · exact .accept hcovered hclear _
    · exact .fail hcovered hk hfirst hafter
  · rw [hrefused]
    exact .refuse (hfirst.congr fun k => not_congr (hbreach k)) b

/-! ## Units over prepared workspaces -/

/-- Entering a unit over a prepared workspace leaves the workspace prepared, but for the baseline. -/
theorem enter_prepared {m : Workspace Database} {plan : Option Plan} {onNowait : Option Failure}
    (hprepared : m.Prepared s) (hmade : ∀ p, plan = some p → p.Made)
    (henter : enter (create m plan onNowait, db) = (.ok (), u₁, db₁)) :
    ∃ m₁ : Workspace Database, m₁.Prepared s ∧ m₁.order = m.order ∧ m₁.readOnly = m.readOnly
      ∧ u₁.workspace = { m₁ with set := { m₁.set with baseline := some m₁.set.capture } } := by
  have hsession := hprepared.ready.session
  obtain ⟨m₁, w, hrun, htake, rfl⟩ := enter_ok_runs (u := create m plan onNowait) hsession henter
  have hloads := runPlan_loads (u := create m plan onNowait) hsession
    ((create m plan onNowait).started s db)
  rw [hrun] at hloads
  have hprepared₁ : m₁.Prepared s := by
    simp only [runPlan] at hrun
    split at hrun
    · obtain ⟨-, hrun⟩ := Prod.mk.inj hrun
      obtain ⟨rfl, -⟩ := Prod.mk.inj hrun
      exact hprepared
    · rename_i p hp
      have hload := hprepared.run (hmade p hp) ((create m plan onNowait).started s db)
      rwa [show Workspace.load p (m, (create m plan onNowait).started s db) = _ from hrun] at hload
  refine ⟨m₁, hprepared₁, hloads.order, hloads.readOnly, ?_⟩
  have hready := hprepared₁.ready
  rw [WorkingSet.takeSnapshot_first hready.baseline hready.presave] at htake
  obtain rfl := Except.ok.inj htake
  rfl

/-- Edits that take no snapshot change nothing of an active unit but the entities in its working
set. -/
theorem after_without_snapshot {course : List Turn} (h : Steady s (u₁, db₁)) (hapart : Apart s course)
    (hactive₁ : u₁.phase = .active) (hcourse : .call (.edit .takeSnapshot) ∉ course)
    (hrun : after (u₁, db₁) course = (u₂, db₂)) (hactive : u₂.phase = .active) :
    ∃ w, u₂.workspace = { u₁.workspace with set := w }
      ∧ w.baseline = u₁.workspace.set.baseline ∧ w.presave = u₁.workspace.set.presave := by
  have hafter := after_induction h hapart hactive₁ (P := fun v =>
    ∃ w, v.workspace = { u₁.workspace with set := w }
      ∧ w.baseline = u₁.workspace.set.baseline ∧ w.presave = u₁.workspace.set.presave) ?_
    ⟨u₁.workspace.set, rfl, rfl, rfl⟩
  · rw [hrun] at hafter
    rcases hafter with hphase | ⟨-, hw⟩
    · rw [hactive] at hphase
      cases hphase
    · exact hw
  · rintro later ed past rfl ⟨w, hw, hbaseline, hpresave⟩
    have hed : ed ≠ .takeSnapshot := by
      rintro rfl
      exact hcourse (by simp)
    obtain ⟨hbaseline', hpresave'⟩ := w.snapshots_edit hed
    refine ⟨w.edit ed, ?_, hbaseline'.trans hbaseline, hpresave'.trans hpresave⟩
    simp only [modifySet, hw]

/-- The policy has the locks of the plan the unit was given. -/
theorem locksExclusively_policy_iff {k : Kind}
    (hlocks : u₂.workspace.plan.map Plan.locks = u.planned.map Plan.locks) :
    u₂.workspace.policy.LocksExclusively k ↔ ∃ p, u.planned = some p ∧ p.LocksExclusively k := by
  refine ⟨planned_of_policy hlocks, ?_⟩
  rintro ⟨p, hp, hk⟩
  rw [hp, Option.map_some] at hlocks
  obtain ⟨q, hq, hqp⟩ := Option.map_eq_some_iff.mp hlocks
  rw [Workspace.policy, hq, Option.getD_some, Plan.LocksExclusively, hqp]
  exact hk

/-- The commit of an active unit that may write is decided by what changed since it was entered, the
locks of the plan it has run, and the failures that are pending by then. Whatever was done with the
workspace before and whatever edits were made in between, it only matters that no snapshot was taken. -/
theorem commit_decided {m : Workspace Database} {plan : Option Plan} {onNowait : Option Failure}
    {course : List Turn} (hprepared : m.Prepared s) (hwriting : m.readOnly = false)
    (hmade : ∀ p, plan = some p → p.Made)
    (henter : enter (create m plan onNowait, db) = (.ok (), u₁, db₁)) (hapart : Apart s course)
    (hcourse : .call (.edit .takeSnapshot) ∉ course) (hrun : after (u₁, db₁) course = (u₂, db₂))
    (hactive : u₂.phase = .active) :
    Decided s m.order (create m plan onNowait).planned
      (u₁.workspace.set.capture.changesTo u₂.workspace.set.capture) db₂
      (commit (u₂, db₂)).1 (commit (u₂, db₂)).2.2 := by
  have hsession := hprepared.ready.session
  obtain ⟨m₁, hprepared₁, horder, hmode, hworkspace⟩ := enter_prepared hprepared hmade henter
  have hready := hprepared₁.ready
  have hentered := enter_ok (u := create m plan onNowait) hsession henter
  have hsteady : Steady s (u₁, db₁) :=
    ⟨by rw [hworkspace]; exact hready.session, hentered.clear hwriting⟩
  obtain ⟨w, hw, hbaseline, hpresave⟩ :=
    after_without_snapshot hsteady hapart hentered.phase hcourse hrun hactive
  -- of the workspace, the course has changed the working set only
  have hpolicy : u₂.workspace.policy = m₁.policy := by
    rw [hw, hworkspace]
    rfl
  have hplan : u₂.workspace.plan = u₁.workspace.plan := by rw [hw]
  have horder₂ : u₂.workspace.order = m.order := by
    rw [hw, hworkspace]
    exact horder
  rw [← horder₂]
  refine decided_of_baseline ?_ hactive ?_ ?_ ?_ ?_ (fun k => ?_) db₂
  · rw [hw, hworkspace]
    exact hready.session
  · rw [readOnly, hw, hworkspace]
    exact hmode.trans hwriting
  · rw [hw, hbaseline, hworkspace]
    rfl
  · rw [hw, hpresave, hworkspace]
    exact hready.presave
  · rw [hpolicy]
    exact hready.policy (hmode.trans hwriting)
  · exact locksExclusively_policy_iff (by rw [hplan]; exact hentered.locks)

/-- A product is taken from under an exclusive lock, and a customer is inserted. The failure that is
pending for products is reported and used up. -/
theorem pending_failure_reported :
    ∃ p u₁ u₂ db₁ db₂,
      Plan.build .standard true [.load .product, .identIn [.sequential 0], .lock .exclusive] = .ok p
      ∧ enter (create (Workspace.create (Database.session 1) .standard false) (some p) none,
          Database.empty.seed (.product ⟨.sequential 0, "Lamp", "LAMP-1", 10, 3499⟩))
        = (.ok (), u₁, db₁)
      ∧ after (u₁, db₁) [.aside (.failNextSave .product (.backend "disk full")),
          .call (.edit (.insert (.customer ⟨.sequential 1, "Ada", "a@b"⟩))),
          .call (.edit (.modify .product (.sequential 0) fun _ =>
            .product ⟨.sequential 0, "Lamp", "LAMP-1", 8, 3499⟩))] = (u₂, db₂)
      ∧ (commit (u₂, db₂)).1.isOk = false
      ∧ (commit (u₂, db₂)).2.2.pendingSaves.get .product = none
      ∧ Decided 1 .standard (some p)
          (u₁.workspace.set.capture.changesTo u₂.workspace.set.capture) db₂
          (commit (u₂, db₂)).1 (commit (u₂, db₂)).2.2 := by
  have hbuild : Plan.build .standard true
      [.load .product, .identIn [.sequential 0], .lock .exclusive]
    = .ok ⟨[⟨.product, ⟨[.isIn "entity_id" [Ident.toValue (.sequential 0)]], none⟩, .exclusive,
        none, none, none, none, none⟩], true⟩ := rfl
  generalize hp : Plan.mk _ true = p at hbuild
  generalize hcourse : [Turn.aside (.failNextSave .product (.backend "disk full")),
    .call (.edit (.insert (.customer ⟨.sequential 1, "Ada", "a@b"⟩))),
    .call (.edit (.modify .product (.sequential 0) fun _ =>
      .product ⟨.sequential 0, "Lamp", "LAMP-1", 8, 3499⟩))] = course
  rcases henter : enter (create (Workspace.create (Database.session 1) .standard false) (some p) none,
    Database.empty.seed (.product ⟨.sequential 0, "Lamp", "LAMP-1", 10, 3499⟩)) with ⟨r, u₁, db₁⟩
  rcases hrun : after (u₁, db₁) course with ⟨u₂, db₂⟩
  have hsteps : ∀ st, enter (create (Workspace.create (Database.session 1) .standard false) (some p)
        none, Database.empty.seed (.product ⟨.sequential 0, "Lamp", "LAMP-1", 10, 3499⟩)) = st →
      st.1 = .ok () ∧ (after st.2 course).1.phase = .active
        ∧ (commit (after st.2 course)).1.isOk = false
        ∧ (commit (after st.2 course)).2.2.pendingSaves.get .product = none := by
    rintro _ rfl
    subst hp hcourse
    exact ⟨rfl, by decide +kernel, by decide +kernel, by decide +kernel⟩
  obtain ⟨hentered, hactive, hcommit⟩ := hsteps _ henter
  obtain rfl : r = .ok () := hentered
  rw [hrun] at hactive hcommit
  have hapart : Apart 1 course ∧ .call (.edit .takeSnapshot) ∉ course := by
    subst hcourse
    simp [Apart, Database.Step.session?]
  refine ⟨p, u₁, u₂, db₁, db₂, hbuild, henter, hrun, hcommit.1, hcommit.2, ?_⟩
  exact commit_decided (.new .standard false true) rfl
    (fun q hq => Option.some.inj hq ▸ Or.inr ⟨_, _, _, hbuild⟩) henter hapart.1 hapart.2 hrun hactive

end UnitOfWork

end Stockroom
