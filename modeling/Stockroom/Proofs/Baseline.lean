import Stockroom.Proofs.NetEffect
import Stockroom.Proofs.WriteBack

/-!
# The baseline of a save

A workspace without a unit of work around it takes its baseline when it is told to. What it saves from
then on is the difference between that snapshot and the working set as it is, however many calls lie
between, and which snapshot that is can be read off the calls alone: it is the first one taken
(`Workspace.firstSnapshot?`, `Workspace.kept_after`).

A save takes a snapshot as well, before it asks what changed, and the first snapshot is the baseline
whoever takes it. So a save without a baseline becomes its own: it succeeds with no changes and stages
nothing, and later saves start from there. `Workspace.save_since_baseline` says both, and
`Workspace.lamp_lost_without_baseline` is an edit lost that way.
-/

namespace Stockroom

/-! ## Nothing has changed -/

theorem Snapshot.isEmpty_changesTo_self (B : Snapshot) (k : Kind) :
    ((B.changesTo B).get k).isEmpty = true := by
  rw [changesTo, PerKind.get_tabulate]
  exact Delta.isEmpty_between_iff.mpr rfl

theorem Changes.inWriteOrder_of_isEmpty {c : Changes} (h : ∀ k, (c.get k).isEmpty = true)
    (o : LockOrder) : c.inWriteOrder o = [] := by
  simp [inWriteOrder, h]

/-- Every plan permits to change nothing. -/
theorem Plan.permit_of_isEmpty {c : Changes} (h : ∀ k, (c.get k).isEmpty = true) (p : Plan) :
    p.permit c = .ok () := by
  have hnone : ∀ k, p.breach? k (c.get k) = none := fun k => by rw [breach?, if_pos (h k)]
  rw [permit, List.findSome?_eq_none_iff.mpr fun k _ => by rw [hnone k]; rfl]

namespace Workspace

/-! ## Calls -/

/-- What is asked of a workspace, and what happens to its database aside from that. -/
inductive Call where
  | load (p : Plan)
  | edit (ed : WorkingSet.Edit)
  | takeBaseline
  | save
  | aside (st : Database.Step)

/-- The workspace and the database a call leaves behind, whatever it answers. -/
def call (st : Workspace Database × Database) : Call → Workspace Database × Database
  | .load p => (load p st).2
  | .edit ed => ({ st.1 with set := st.1.set.edit ed }, st.2)
  | .takeBaseline => ((st.1.takeSnapshot.toOption).getD st.1, st.2)
  | .save => (save st).2
  | .aside a => (st.1, st.2.step a)

/-- What a history of calls leaves behind, latest first. -/
def after (st : Workspace Database × Database) : List Call → Workspace Database × Database
  | [] => st
  | c :: past => call (after st past) c

/-- The calls that take a snapshot. Saving is one of them. -/
def Call.takesSnapshot : Call → Bool
  | .takeBaseline | .edit .takeSnapshot | .save => true
  | _ => false

/-- The first snapshot that the calls of a history took. -/
def firstSnapshot? (st : Workspace Database × Database) : List Call → Option Snapshot
  | [] => none
  | c :: past =>
    (firstSnapshot? st past).or
      (if c.takesSnapshot then some (after st past).1.set.capture else none)

/-! ## What every call keeps -/

/-- The workspace is on its session, writes in its order, and has as its baseline the first snapshot
there was. -/
structure Kept (s : Nat) (o : LockOrder) (first : Option Snapshot) (m : Workspace Database) :
    Prop where
  session : m.session = Database.session s
  order : m.order = o
  baseline : m.set.baseline = first
  presave : first = none → m.set.presave = none

variable {s : Nat} {o : LockOrder} {first : Option Snapshot} {m m' : Workspace Database}
  {db db' : Database}

theorem takeSnapshot_getD (m : Workspace Database) :
    (m.takeSnapshot.toOption).getD m = { m with set := m.set.edit .takeSnapshot } := by
  rw [takeSnapshot, WorkingSet.edit]
  cases m.set.takeSnapshot with
  | error e => rfl
  | ok w => rfl

/-- All that saving does to a workspace is to take a snapshot. -/
theorem save_workspace (m : Workspace Database) (db : Database) :
    (save (m, db)).2.1 = { m with set := m.set.edit .takeSnapshot } := by
  rw [← takeSnapshot_getD]
  simp only [save]
  split
  · rename_i e htake
    rw [htake]
    rfl
  · rename_i m' htake
    rw [htake]
    split
    · rfl
    · split
      · rfl
      · split <;> rfl

theorem call_of_takesSnapshot {c : Call} (h : c.takesSnapshot = true)
    (st : Workspace Database × Database) :
    (call st c).1 = { st.1 with set := st.1.set.edit .takeSnapshot } := by
  cases c with
  | load p => cases h
  | aside a => cases h
  | takeBaseline => exact takeSnapshot_getD st.1
  | save => exact save_workspace st.1 st.2
  | edit ed =>
      cases ed with
      | takeSnapshot => rfl
      | _ => cases h

theorem Kept.edit (h : Kept s o first m) {ed : WorkingSet.Edit} (hed : ed ≠ .takeSnapshot) :
    Kept s o first { m with set := m.set.edit ed } := by
  obtain ⟨hbaseline, hpresave⟩ := m.set.snapshots_edit hed
  exact ⟨h.session, h.order, hbaseline.trans h.baseline,
    fun hnone => hpresave.trans (h.presave hnone)⟩

/-- A snapshot taken is the first one if there was none. -/
theorem Kept.takeSnapshot (h : Kept s o first m) :
    Kept s o (first.or (some m.set.capture)) { m with set := m.set.edit .takeSnapshot } := by
  cases first with
  | none =>
      have htake := WorkingSet.takeSnapshot_first h.baseline (h.presave rfl)
      refine ⟨h.session, h.order, ?_, fun hnone => by cases hnone⟩
      simp only [WorkingSet.edit, htake]
      rfl
  | some B =>
      refine ⟨h.session, h.order, ?_, fun hnone => by cases hnone⟩
      have hbaseline := h.baseline
      rcases m.set.takeSnapshot_cases with ⟨hb, -, -⟩ | ⟨-, -, htake⟩ | ⟨-, htake⟩
      · rw [hb] at hbaseline
        cases hbaseline
      · simp only [WorkingSet.edit, htake]
        exact hbaseline
      · simp only [WorkingSet.edit, htake]
        exact hbaseline

theorem Kept.call {st : Workspace Database × Database} (h : Kept s o first st.1) (c : Call) :
    Kept s o (first.or (if c.takesSnapshot then some st.1.set.capture else none)) (call st c).1 := by
  by_cases htakes : c.takesSnapshot = true
  · rw [if_pos htakes, call_of_takesSnapshot htakes]
    exact h.takeSnapshot
  · rw [if_neg htakes, Option.or_none]
    cases c with
    | takeBaseline => exact absurd rfl htakes
    | save => exact absurd rfl htakes
    | aside a => exact h
    | edit ed => exact h.edit fun hed => htakes (by rw [hed]; rfl)
    | load p =>
        have hloads := load_loads h.session p st.2
        exact ⟨hloads.session.trans h.session, hloads.order.trans h.order,
          hloads.fills.baseline.trans h.baseline,
          fun hnone => hloads.fills.presave.trans (h.presave hnone)⟩

/-- After any calls the baseline is the first snapshot they took. -/
theorem kept_after {st : Workspace Database × Database} (h : Kept s o none st.1)
    (history : List Call) : Kept s o (firstSnapshot? st history) (after st history).1 := by
  induction history with
  | nil => exact h
  | cons c past ih => exact ih.call c

theorem kept_create (s : Nat) (o : LockOrder) (readOnly strict : Bool) :
    Kept s o none { create (Database.session s) o readOnly with strict := strict } :=
  ⟨rfl, rfl, rfl, fun _ => rfl⟩

/-! ## What a save returns and stages -/

/-- A save has returned and staged the difference of two snapshots: it lists every row that differs,
kind after kind in the order of writing, has staged the later of each, and nothing else. -/
structure Saved (s : Nat) (o : LockOrder) (B L : Snapshot) (deltas : List (Kind × Delta))
    (db db' : Database) : Prop where
  lists : Lists B L deltas
  ordered : (deltas.map Prod.fst).Sublist o.backward
  staged : ∀ k i, ((db'.staged s).get k).find? i
    = if B.find? k i = L.find? k i then ((db.staged s).get k).find? i else some (L.find? k i)
  foreign : ∀ t, t ≠ s → db'.staged t = db.staged t
  tables : db'.tables = db.tables

theorem Kept.saved {B : Snapshot} {deltas : List (Kind × Delta)} (h : Kept s o (some B) m)
    (hsave : save (m, db) = (.ok deltas, m', db')) : Saved s o B m.set.capture deltas db db' := by
  obtain ⟨-, -, hdeltas, hsaved⟩ := save_ok hsave
  rw [h.baseline, Option.getD_some, h.order] at hdeltas
  subst hdeltas
  rw [h.session] at hsaved
  have hruns := Database.session_save_runs s ((B.changesTo m.set.capture).inWriteOrder o) db
  rw [hsaved] at hruns
  refine ⟨lists_inWriteOrder B _ o, ?_, Database.find?_staged_changesTo hsaved,
    fun t ht => hruns.staged_of_ne ht, hruns.tables⟩
  rw [Changes.map_fst_inWriteOrder]
  exact List.filter_sublist

/-- Without a baseline a save takes one and finds nothing changed since. -/
theorem Kept.save_unchanged (h : Kept s o none m) (db : Database) :
    save (m, db)
      = (.ok [], { m with set := { m.set with baseline := some m.set.capture } }, db) := by
  have hempty := m.set.capture.isEmpty_changesTo_self
  have hset := save_workspace m db
  obtain ⟨m', hsave⟩ := save_eq (h.presave rfl) db
  rw [h.baseline, Option.getD_none, Plan.permit_of_isEmpty hempty,
    Changes.inWriteOrder_of_isEmpty hempty] at hsave
  have hsaved : save (m, db) = (.ok [], m', db) := hsave
  rw [hsaved] at hset ⊢
  obtain rfl : m' = { m with set := m.set.edit .takeSnapshot } := hset
  rw [WorkingSet.edit, WorkingSet.takeSnapshot_first h.baseline (h.presave rfl)]
  rfl

/-- Once a snapshot was taken, every save that succeeds has returned and staged exactly the difference
between the first one and the working set as it is. Until then a save returns no changes and touches
nothing, and the working set as it is becomes the baseline. -/
theorem save_since_baseline (s : Nat) (o : LockOrder) (readOnly strict : Bool) (db₀ : Database)
    (history : List Call) :
    let start := ({ create (Database.session s) o readOnly with strict := strict }, db₀)
    let st := after start history
    (∀ B, firstSnapshot? start history = some B →
        ∀ deltas m db, save st = (.ok deltas, m, db) →
          Saved s o B st.1.set.capture deltas st.2 db)
      ∧ (firstSnapshot? start history = none →
        save st = (.ok [],
          { st.1 with set := { st.1.set with baseline := some st.1.set.capture } }, st.2)) := by
  intro start st
  have hkept : Kept s o (firstSnapshot? start history) st.1 :=
    kept_after (kept_create s o readOnly strict) history
  constructor
  · intro B hfirst deltas m db hsave
    rw [hfirst] at hkept
    exact hkept.saved hsave
  · intro hnone
    rw [hnone] at hkept
    exact hkept.save_unchanged st.2

/-! ## A lamp, with a baseline and without -/

/-- A lamp put in after the baseline is saved. -/
theorem lamp_saved_since_baseline :
    ∃ lamp history deltas m db,
      lamp = Product.mk (.sequential 0) "Lamp" "LAMP-1" 10 3499
        ∧ history = [.edit (.insert (.product lamp)), .takeBaseline]
        ∧ save (after (create (Database.session 1) .standard false, .empty) history)
          = (.ok deltas, m, db)
        ∧ deltas = [(.product, ⟨[⟨.sequential 0, lamp.toRow⟩], [], []⟩)]
        ∧ Saved 1 .standard ⟨.fill none⟩
            (after (create (Database.session 1) .standard false, .empty) history).1.set.capture
            deltas .empty db := by
  refine ⟨_, _, _, _, _, rfl, rfl, rfl, rfl, ?_⟩
  exact (save_since_baseline 1 .standard false true .empty
    [.edit (.insert (.product ⟨.sequential 0, "Lamp", "LAMP-1", 10, 3499⟩)), .takeBaseline]).1
    _ rfl _ _ _ rfl

/-- A lamp put in and saved without a baseline is not: the save succeeds, with nothing returned and
nothing staged, and so does another one. -/
theorem lamp_lost_without_baseline :
    ∃ lamp history st,
      lamp = Product.mk (.sequential 0) "Lamp" "LAMP-1" 10 3499
        ∧ history = [.edit (.insert (.product lamp))]
        ∧ st = after (create (Database.session 1) .standard false, .empty) history
        ∧ firstSnapshot? (create (Database.session 1) .standard false, .empty) history = none
        ∧ st.1.set.find? .product (.sequential 0) = some (.product lamp)
        ∧ (save st).1 = .ok []
        ∧ (save st).1 ≠ .error (.unit .snapshotMissing)
        ∧ (save (save st).2).1 = .ok []
        ∧ (((save (save st).2).2.2.staged 1).get .product).find? (.sequential 0) = none := by
  refine ⟨_, _, _, rfl, rfl, rfl, rfl, rfl, rfl, ?_, rfl, rfl⟩
  intro h
  cases h

end Workspace

end Stockroom
