import Stockroom.Proofs.Priorities
import Stockroom.Proofs.Protocol
import Stockroom.Proofs.WriteBack

/-!
# The order of writing

Changes are written kind after kind, by descending priority. Every kind that changed is written, once and
with all of its delta (`Changes.Ordered`): a lock order lists every kind, so walking it backward meets each
kind that changed, and leaves nothing behind if each delta is moved out of the changes when its kind is met
(`Changes.moveOut_backward`).

A save that succeeds has recorded exactly what it was given to save, delta after delta
(`Database.log_session_save`), and between its entering and its commit a unit records nothing
(`UnitOfWork.log_after_of_active`). So what the session of a unit has recorded, once it is committed, can
be told from the list that the commit returns (`UnitOfWork.saved_by_descending_priority`).
-/

namespace Stockroom

/-! ## Changes by descending priority -/

theorem LockOrder.pairwise_backward (o : LockOrder) :
    o.backward.Pairwise fun k l => o.priority l < o.priority k :=
  List.pairwise_reverse.mpr (o.pairwise_arrange Kind.nodup_all)

theorem Delta.eq_empty_of_isEmpty {d : Delta} (h : d.isEmpty = true) : d = .empty := by
  obtain ⟨hcreated, hupdated, hdeleted⟩ := isEmpty_iff.mp h
  obtain ⟨created, updated, deleted⟩ := d
  obtain rfl : created = [] := hcreated
  obtain rfl : updated = [] := hupdated
  obtain rfl : deleted = [] := hdeleted
  rfl

namespace Changes

/-- A list has each kind that changed once, with its delta as it is, and by descending priority. -/
structure Ordered (o : LockOrder) (c : Changes) (deltas : List (Kind × Delta)) : Prop where
  count : ∀ k, (deltas.map Prod.fst).count k = if (c.get k).isEmpty then 0 else 1
  unchanged : ∀ k d, (k, d) ∈ deltas → d = c.get k
  descending : deltas.Pairwise fun a b => o.priority b.1 < o.priority a.1

theorem ordered_inWriteOrder (o : LockOrder) (c : Changes) : c.Ordered o (c.inWriteOrder o) where
  count k := by
    have hmem : k ∈ (c.inWriteOrder o).map Prod.fst ↔ (c.get k).isEmpty = false := by
      simp [map_fst_inWriteOrder, o.mem_backward k]
    rw [(nodup_inWriteOrder c o).count]
    cases hempty : (c.get k).isEmpty <;> simp [hmem, hempty]
  unchanged k d hmem := (mem_inWriteOrder.mp hmem).1
  descending := by
    rw [← List.pairwise_map (f := Prod.fst) (R := fun k l => o.priority l < o.priority k),
      map_fst_inWriteOrder]
    exact o.pairwise_backward.sublist List.filter_sublist

/-! ## Moving deltas out of changes -/

/-- Meets kinds one after the other and moves the delta of each that changed out of the changes. Gives
what was moved out and what is left. -/
def moveOut : List Kind → Changes → List (Kind × Delta) × Changes
  | [], c => ([], c)
  | k :: ks, c =>
    if (c.get k).isEmpty then moveOut ks c
    else
      let (deltas, left) := moveOut ks (c.set k .empty)
      ((k, c.get k) :: deltas, left)

/-- Of kinds that do not repeat, those that changed are moved out, in the order in which they are met. -/
theorem moved_moveOut {ks : List Kind} (hks : ks.Nodup) (c : Changes) :
    (moveOut ks c).1 = (ks.filter fun k => !(c.get k).isEmpty).map fun k => (k, c.get k) := by
  induction ks generalizing c with
  | nil => rfl
  | cons k ks ih =>
      obtain ⟨hk, hks⟩ := List.nodup_cons.mp hks
      rw [moveOut]
      cases hempty : (c.get k).isEmpty with
      | true => simp [hempty, ih hks]
      | false =>
          -- what is moved out for one kind is not missed at the others
          have hrest : ∀ l ∈ ks, PerKind.get (c.set k .empty) l = c.get l := by
            intro l hl
            rw [PerKind.get_set, if_neg]
            rintro rfl
            exact hk hl
          have hfilter : (ks.filter fun l => !(PerKind.get (c.set k .empty) l).isEmpty)
              = ks.filter fun l => !(c.get l).isEmpty :=
            List.filter_congr fun l hl => by rw [hrest l hl]
          have hmap := List.map_congr_left (l := ks.filter fun l => !(c.get l).isEmpty)
            fun l hl => congrArg (Prod.mk l) (hrest l (List.mem_filter.mp hl).1)
          simp [hempty, ih hks, hfilter, hmap]

/-- Nothing is left for a kind that was met, and all of it for any other. -/
theorem left_moveOut (ks : List Kind) (c : Changes) (l : Kind) :
    (moveOut ks c).2.get l = if l ∈ ks then .empty else c.get l := by
  induction ks generalizing c with
  | nil => rfl
  | cons k ks ih =>
      rw [moveOut]
      split
      · rename_i hempty
        rw [ih]
        by_cases hl : l = k
        · subst hl
          simp [Delta.eq_empty_of_isEmpty hempty]
        · simp [hl]
      · dsimp only
        rw [ih, PerKind.get_set]
        by_cases hl : l = k <;> simp [hl]

/-- Walking a lock order backward moves out all changes in the order of writing. -/
theorem moveOut_backward (o : LockOrder) (c : Changes) :
    moveOut o.backward c = (c.inWriteOrder o, .fill .empty) := by
  refine Prod.ext (moved_moveOut o.nodup_backward c) (PerKind.ext_get fun l => ?_)
  rw [left_moveOut, if_pos (o.mem_backward l), PerKind.get_fill]

end Changes

/-- The kinds of a table, kept in order row after row, are those of the lock order it describes. -/
theorem LockOrder.order_of_ofTable {rows : List (Kind × Nat)} {o : LockOrder}
    (h : ofTable rows = .ok o) : Register.order rows = .ok o.forward := by
  rw [Register.order_eq]
  rw [ofTable] at h
  cases hrows : ofRows rows with
  | ok o' =>
      rw [hrows] at h
      obtain rfl : o' = o := Except.ok.inj h
      rfl
  | error fault =>
      rw [hrows] at h
      cases h

/-! ## What saving records -/

/-- The event that records the save of a delta. -/
def Event.ofDelta (s : Nat) (kd : Kind × Delta) : Event :=
  .saved s kd.1 kd.2.created.length kd.2.updated.length kd.2.deleted.length

namespace Database

variable {s : Nat} {db db' : Database}

theorem log_save {k : Kind} {d : Delta} (h : save s k d db = (.ok (), db')) :
    db'.log s = db.log s ++ [.ofDelta s (k, d)] := by
  unfold save at h
  split at h
  · cases h
  · obtain ⟨-, rfl⟩ := Prod.mk.inj h
    exact log_record_self rfl _

theorem log_session_save {deltas : List (Kind × Delta)}
    (h : (session s).save deltas db = (.ok (), db')) :
    db'.log s = db.log s ++ deltas.map (Event.ofDelta s) := by
  induction deltas generalizing db with
  | nil =>
      obtain ⟨-, rfl⟩ := Prod.mk.inj h
      exact (List.append_nil _).symm
  | cons kd rest ih =>
      obtain ⟨k, d⟩ := kd
      rw [session_save_cons] at h
      split at h
      · rename_i mid hsave
        rw [ih h, log_save hsave, List.map_cons, List.append_assoc, List.singleton_append]
      · cases h

end Database

/-! ## What a unit records until it commits -/

theorem Phase.Moves.ne_notEntered {p p' : Phase} (h : p.Moves p') : p' ≠ .notEntered := by
  cases h <;> simp

namespace UnitOfWork

variable {s : Nat} {readOnly : Bool} {c : Call} {p p' : Phase} {new : List Event}
  {u u₁ u₂ u₃ : UnitOfWork Database} {db db₁ db₂ db₃ : Database} {deltas : List (Kind × Delta)}

/-- A unit that has been entered and stays active adds nothing. -/
theorem Adds.of_active (h : Adds s readOnly c p p' new) (hp : p ≠ .notEntered) (hp' : p' = .active) :
    p = .active ∧ new = [] := by
  cases h with
  | nothing => exact ⟨hp', rfl⟩
  | entered _ => exact absurd rfl hp
  | _ => cases hp'

theorem log_after_of_active {course : List Turn} (h : u.workspace.session = Database.session s)
    (hactive : u.phase = .active) (hapart : Apart s course) (db : Database) :
    (after (u, db) course).1.phase ≠ .notEntered
      ∧ ((after (u, db) course).1.phase = .active → (after (u, db) course).2.log s = db.log s) := by
  induction course with
  | nil => exact ⟨by rw [after, hactive]; simp, fun _ => rfl⟩
  | cons t past ih =>
      obtain ⟨hentered, hlog⟩ := ih hapart.tail
      cases t with
      | aside step =>
          refine ⟨hentered, fun hstill => ?_⟩
          rw [← hlog hstill]
          exact Database.log_step_of_foreign (hapart step (List.mem_cons_self ..)) _
      | call c =>
          obtain ⟨new, hadds, hnew⟩ := adds_call (after_stays h db past).1 c
          constructor
          · intro hphase
            rcases hadds.moves with hsame | hmoves
            · exact hentered (hsame.symm.trans hphase)
            · exact hmoves.ne_notEntered hphase
          · intro hstill
            obtain ⟨hbefore, rfl⟩ := hadds.of_active hentered hstill
            rw [← hlog hbefore, ← List.append_nil ((after (u, db) past).2.log s)]
            exact hnew

/-- A unit that was entered has started and loaded, and keeps its lock order. -/
theorem loads_of_enter (h : u.workspace.session = Database.session s)
    (henter : enter (u, db) = (.ok (), u₁, db₁)) :
    (u.started s db).Runs (Database.Step.IsLoad s) db₁ ∧ u₁.workspace.order = u.workspace.order := by
  obtain ⟨m, w, hrun, -, rfl⟩ := enter_ok_runs h henter
  have hloads := runPlan_loads h (u.started s db)
  rw [hrun] at hloads
  exact ⟨hloads.fills.runs, hloads.order⟩

theorem log_of_commit (h : u.workspace.session = Database.session s)
    (hcommit : commit (u, db) = (.ok deltas, u₁, db₁)) :
    db₁.log s = db.log s ++ deltas.map (Event.ofDelta s) ++ [.committed s] := by
  obtain ⟨-, -, -, -, -, m, mid, hsave, rfl⟩ := commit_ok h hcommit
  obtain ⟨-, -, -, hsaved⟩ := Workspace.save_ok hsave
  rw [h] at hsaved
  rw [Database.log_commit, Database.log_session_save hsaved]

section

variable {course : List Turn} (hsession : u.workspace.session = Database.session s)
  (henter : enter (u, db) = (.ok (), u₁, db₁)) (hapart : Apart s course)
  (hrun : after (u₁, db₁) course = (u₂, db₂))
  (hcommit : commit (u₂, db₂) = (.ok deltas, u₃, db₃))

include hsession henter hapart hrun hcommit

/-- What a unit returns that commits are the changes since it was entered, in its order of writing. -/
theorem deltas_of_commit : deltas
    = (u₁.workspace.set.capture.changesTo u₂.workspace.set.capture).inWriteOrder
        u.workspace.order := by
  have hentered := enter_ok hsession henter
  have horder := (loads_of_enter hsession henter).2
  obtain ⟨hsteady, htracks, horder₂⟩ := holds_at_commit hsession henter hapart hrun hcommit
    (P := fun v => v.workspace.set.Tracks u₁.workspace.set.capture
      ∧ v.workspace.order = u.workspace.order)
    ⟨hentered.tracks, horder⟩ fun _ ed _ _ hv => ⟨WorkingSet.tracks_edit hv.1 ed, hv.2⟩
  rw [← horder₂]
  exact (commit_writes hsteady htracks hcommit).2.1

/-- All that a unit that commits has recorded. -/
theorem log_of_committed : ∃ loads, (∀ e ∈ loads, e.IsLoaded)
    ∧ db₃.log s
      = db.log s ++ (.begun s :: loads ++ deltas.map (Event.ofDelta s) ++ [.committed s]) := by
  have hquiet := enter_quiet hsession db
  rw [henter] at hquiet
  have hsession₁ : u₁.workspace.session = Database.session s := hquiet.session.trans hsession
  have hstays := after_stays hsession₁ db₁ course
  rw [hrun] at hstays
  obtain ⟨hactive, hwriting, -⟩ := commit_ok hstays.1 hcommit
  have hmode : u.readOnly = false := hquiet.readOnly.symm.trans (hstays.2.symm.trans hwriting)
  have hsame := (log_after_of_active hsession₁ (enter_ok hsession henter).phase hapart db₁).2
  rw [hrun] at hsame
  obtain ⟨loads, hloaded, hlog⟩ :=
    Database.records_of_loads (loads_of_enter hsession henter).1
  refine ⟨loads, hloaded, ?_⟩
  rw [log_of_commit hstays.1 hcommit, hsame hactive, hlog, log_started, hmode]
  simp [mark]

end

/-- Saving is complete and goes by descending priority.

In whatever way a table of priorities describes a lock order, walking that order backward moves every
delta out of any changes, each kind that changed once, by descending priority, and leaves nothing behind.
So a unit that commits returns all that changed since it was entered in that order, and what its session
has recorded of it is its begin, loads, the save of each delta returned, in the order returned, and its
commit. -/
theorem saved_by_descending_priority (o : LockOrder) :
    (∀ c : Changes, c.Ordered o (c.inWriteOrder o)
        ∧ ∀ rows, LockOrder.ofTable rows = .ok o →
          (LockOrder.Register.order rows).map (fun ks => Changes.moveOut ks.reverse c)
            = .ok (c.inWriteOrder o, .fill .empty))
      ∧ ∀ {s : Nat} {u u₁ u₂ u₃ : UnitOfWork Database} {db db₁ db₂ db₃ : Database}
          {deltas : List (Kind × Delta)} {course : List Turn},
        u.workspace.session = Database.session s → u.workspace.order = o →
        enter (u, db) = (.ok (), u₁, db₁) → Apart s course →
        after (u₁, db₁) course = (u₂, db₂) → commit (u₂, db₂) = (.ok deltas, u₃, db₃) →
          (u₁.workspace.set.capture.changesTo u₂.workspace.set.capture).Ordered o deltas
            ∧ ∃ loads, (∀ e ∈ loads, e.IsLoaded)
              ∧ db₃.log s = db.log s
                ++ (.begun s :: loads ++ deltas.map (Event.ofDelta s) ++ [.committed s]) := by
  refine ⟨fun c => ⟨c.ordered_inWriteOrder o, fun rows hrows => ?_⟩, ?_⟩
  · rw [LockOrder.order_of_ofTable hrows]
    exact congrArg Except.ok (c.moveOut_backward o)
  · intro s u u₁ u₂ u₃ db db₁ db₂ db₃ deltas course hsession horder henter hapart hrun hcommit
    refine ⟨?_, log_of_committed hsession henter hapart hrun hcommit⟩
    rw [deltas_of_commit hsession henter hapart hrun hcommit, horder]
    exact Changes.ordered_inWriteOrder o _

/-- A lock order that locks products first and customers last, from a table with gaps. -/
def productsFirst : LockOrder where
  priorities := ⟨30, 20, 10⟩
  injective := by intro k l; cases k <;> cases l <;> simp [PerKind.get]

/-- Where products are locked first, a customer inserted along with a product is written before it. -/
theorem customer_saved_before_product :
    ∃ u u₁ u₂ u₃ db₁ db₂ db₃ deltas,
      LockOrder.ofTable [(.product, 10), (.customer, 30), (.purchase, 20)] = .ok productsFirst
      ∧ u = create (Workspace.create (Database.session 1) productsFirst false) none none
      ∧ enter (u, .empty) = (.ok (), u₁, db₁)
      ∧ after (u₁, db₁)
          [.call (.edit (.insert (.product ⟨.sequential 0, "Lamp", "LAMP-1", 10, 3499⟩))),
            .call (.edit (.insert (.customer ⟨.sequential 1, "Ada", "a@b"⟩)))] = (u₂, db₂)
      ∧ commit (u₂, db₂) = (.ok deltas, u₃, db₃)
      ∧ (u₁.workspace.set.capture.changesTo u₂.workspace.set.capture).Ordered productsFirst deltas
      ∧ deltas.map Prod.fst = [.customer, .product]
      ∧ db₃.log 1
        = [.begun 1, .saved 1 .customer 1 0 0, .saved 1 .product 1 0 0, .committed 1] := by
  generalize hu : create (Workspace.create (Database.session 1) productsFirst false) none none = u
  generalize hcourse :
    [Turn.call (.edit (.insert (.product ⟨.sequential 0, "Lamp", "LAMP-1", 10, 3499⟩))),
      .call (.edit (.insert (.customer ⟨.sequential 1, "Ada", "a@b"⟩)))] = course
  rcases henter : enter (u, .empty) with ⟨r, u₁, db₁⟩
  rcases hrun : after (u₁, db₁) course with ⟨u₂, db₂⟩
  rcases hcommit : commit (u₂, db₂) with ⟨r', u₃, db₃⟩
  have hsteps : ∀ st, enter (u, .empty) = st → st.1 = .ok ()
      ∧ ∃ deltas, (commit (after st.2 course)).1 = .ok deltas
        ∧ deltas.map Prod.fst = [.customer, .product]
        ∧ (commit (after st.2 course)).2.2.log 1
          = [.begun 1, .saved 1 .customer 1 0 0, .saved 1 .product 1 0 0, .committed 1] := by
    rintro _ rfl
    subst hu hcourse
    exact ⟨rfl, _, rfl, rfl, rfl⟩
  obtain ⟨hentered, deltas, hdeltas, hkinds, hlog⟩ := hsteps _ henter
  rw [hrun, hcommit] at hdeltas hlog
  obtain rfl : r = .ok () := hentered
  obtain rfl : r' = .ok deltas := hdeltas
  have hapart : Apart 1 course := by
    subst hcourse
    simp [Apart]
  have hsaved := (saved_by_descending_priority productsFirst).2 (by rw [← hu]; rfl)
    (by rw [← hu]; rfl) henter hapart hrun hcommit
  exact ⟨u, u₁, u₂, u₃, db₁, db₂, db₃, deltas, rfl, rfl, henter, hrun, hcommit, hsaved.1, hkinds, hlog⟩

end UnitOfWork

end Stockroom
