import Stockroom.Proofs.Calls

/-!
# The course of a unit of work

A unit of work takes its calls in any order, and between them the database takes steps of its own:
seeds, arranged failures, other sessions. A course is the list of these turns, **latest first**
(`UnitOfWork.after`). Between the turns of a course the session has nothing staged (`steady_after`), so
the one call that does change rows starts from an empty staging area.
-/

namespace Stockroom

namespace UnitOfWork

/-! ## Turns -/

/-- A turn is a call of the unit, or a step the database takes aside from it. -/
inductive Turn where
  | call (c : Call)
  | aside (st : Database.Step)

def Turn.take (t : Turn) (st : UnitOfWork Database × Database) : UnitOfWork Database × Database :=
  match t with
  | .call c => UnitOfWork.call c st
  | .aside step => (st.1, st.2.step step)

/-- The unit and the database after a course. -/
def after (st : UnitOfWork Database × Database) : List Turn → UnitOfWork Database × Database
  | [] => st
  | t :: past => t.take (after st past)

/-- The steps aside are not those of a session. -/
def Apart (s : Nat) (course : List Turn) : Prop :=
  ∀ st, Turn.aside st ∈ course → st.session? ≠ some s

theorem Apart.tail {s : Nat} {t : Turn} {past : List Turn} (h : Apart s (t :: past)) :
    Apart s past := fun st hmem => h st (List.mem_cons_of_mem _ hmem)

/-- A unit without a plan that may write, not yet entered. -/
def forWriting (s : Nat) : UnitOfWork Database :=
  create (Workspace.create (Database.session s) .standard false) none none

variable {s : Nat} {u : UnitOfWork Database} {db : Database}

/-! ## The session between turns -/

theorem after_stays (h : u.workspace.session = Database.session s) (db : Database)
    (course : List Turn) :
    (after (u, db) course).1.workspace.session = Database.session s
      ∧ (after (u, db) course).1.readOnly = u.readOnly := by
  induction course with
  | nil => exact ⟨h, rfl⟩
  | cons t past ih =>
      cases t with
      | aside step => exact ih
      | call c =>
          obtain ⟨hsession, hro⟩ := call_stays ih.1 c
          exact ⟨hsession, hro.trans ih.2⟩

/-- The unit is on the session, which has nothing staged. -/
structure Steady (s : Nat) (st : UnitOfWork Database × Database) : Prop where
  session : st.1.workspace.session = Database.session s
  clear : st.2.staged s = .fill .empty

theorem steady_call {st : UnitOfWork Database × Database} (h : Steady s st) (c : Call) :
    Steady s (call c st) := by
  refine ⟨(call_stays h.session c).1, ?_⟩
  obtain ⟨u, db⟩ := st
  by_cases hc : c = .commit → ∀ deltas, (commit (u, db)).1 ≠ .ok deltas
  · rcases (call_quiet h.session hc).staged with hclear | hsame
    · exact hclear
    · exact hsame.trans h.clear
  · obtain ⟨rfl, deltas, u', db', hcommit⟩ := committed_of_not_quiet hc
    obtain ⟨-, -, -, -, -, m, mid, -, rfl⟩ := commit_ok h.session hcommit
    simp only [call, hcommit]
    simp [Database.commit_staged]

theorem steady_take {st : UnitOfWork Database × Database} {t : Turn} (h : Steady s st)
    (ht : ∀ step, t = .aside step → step.session? ≠ some s) : Steady s (t.take st) := by
  cases t with
  | call c => exact steady_call h c
  | aside step =>
      exact ⟨h.session, (Database.staged_step_of_foreign (ht step rfl)).trans h.clear⟩

/-- Between the turns of a course the session has nothing staged. -/
theorem steady_after {st : UnitOfWork Database × Database} {course : List Turn}
    (h : Steady s st) (hapart : Apart s course) : Steady s (after st course) := by
  induction course with
  | nil => exact h
  | cons t past ih =>
      refine steady_take (ih hapart.tail) fun step ht => hapart step ?_
      rw [ht]
      exact List.mem_cons_self ..

/-! ## An active unit -/

/-- What every edit of the working set keeps holds as long as the unit is active. -/
theorem after_induction {P : UnitOfWork Database → Prop} {course : List Turn}
    (h : Steady s (u, db)) (hapart : Apart s course) (hactive : u.phase = .active)
    (hedit : ∀ later ed past, course = later ++ .call (.edit ed) :: past →
      P (after (u, db) past).1 →
      P ((after (u, db) past).1.modifySet ((after (u, db) past).1.workspace.set.edit ed)))
    (hu : P u) :
    (after (u, db) course).1.phase = .exhausted
      ∨ ((after (u, db) course).1.phase = .active ∧ P (after (u, db) course).1) := by
  induction course with
  | nil => exact Or.inr ⟨hactive, hu⟩
  | cons t past ih =>
      have hpast := ih hapart.tail fun later ed past' heq =>
        hedit (t :: later) ed past' (by rw [heq]; rfl)
      have hsteady := steady_after h hapart.tail
      have hlast : ∀ ed, t = .call (.edit ed) → _ := fun ed ht =>
        hedit [] ed past (by rw [ht]; rfl)
      rw [after]
      rcases hst : after (u, db) past with ⟨v, mid⟩
      rw [hst] at hpast hsteady hlast
      cases t with
      | aside step => exact hpast
      | call c =>
          rcases hpast with hphase | ⟨hphase, hv⟩
          · exact Or.inl (call_of_exhausted hphase c)
          · rcases call_of_active c hsteady.session hphase mid with
              hend | ⟨ed, rfl, hcall⟩ | hcall
            · exact Or.inl hend
            · refine Or.inr ?_
              simp only [Turn.take, hcall]
              exact ⟨hphase, hlast ed rfl hv⟩
            · refine Or.inr ?_
              simp only [Turn.take, hcall]
              exact ⟨hphase, hv⟩

end UnitOfWork

end Stockroom
