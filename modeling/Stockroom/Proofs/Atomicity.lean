import Stockroom.Proofs.Course

/-!
# A unit of work is all or nothing

A unit that never commits leaves no trace. Entering may fail at any entry of its plan, and committing
after some kinds are already staged, and failures may be arranged for any load and any save; the unit may
also be rolled back, closed or dropped, in any order. Whatever it does, each of its calls is a run of
steps none of which commits (`tables_along_call`), and what these have staged is gone between the calls.
-/

namespace Stockroom

namespace UnitOfWork

variable {s : Nat} {u : UnitOfWork Database} {db : Database}

/-- No commit of a course has succeeded. -/
def NeverCommits (st : UnitOfWork Database × Database) (course : List Turn) : Prop :=
  ∀ later past, course = later ++ .call .commit :: past →
    ∀ deltas, (commit (after st past)).1 ≠ .ok deltas

/-- The committed rows stay what they are from one step of a call to the next, unless the call is a
commit that succeeds. -/
theorem tables_along_call {st : UnitOfWork Database × Database} {c : Call}
    (h : st.1.workspace.session = Database.session s)
    (hc : c = .commit → ∀ deltas, (commit st).1 ≠ .ok deltas) :
    ∃ steps, (call c st).2 = st.2.after steps
      ∧ ∀ todo done, steps = todo ++ done → (st.2.after done).tables = st.2.tables := by
  obtain ⟨steps, hsilent, heq⟩ := (call_quiet h hc).runs
  refine ⟨steps, heq, fun todo done hsteps => ?_⟩
  refine Database.tables_after_of_silent (s := s) fun st' hmem => hsilent st' ?_
  rw [hsteps]
  exact List.mem_append_right _ hmem

/-- Dropping a unit commits nothing and stages nothing. -/
theorem drop_quiet (h : u.workspace.session = Database.session s) (running : Bool)
    (db : Database) : Quiet s (u, db) (u.exhaust, u.drop running db) := by
  unfold drop
  split
  · exact rollbackTransaction_quiet h db
  · exact Quiet.of_unit s db rfl rfl

/-- What a course leaves of a unit that started in a given state and did not commit. -/
structure LeavesNoTrace (s : Nat) (st : UnitOfWork Database × Database) (course : List Turn) :
    Prop where
  /-- No step of a call changes a committed row. -/
  call : ∀ later c past, course = later ++ .call c :: past →
    ∃ steps, (call c (after st past)).2 = (after st past).2.after steps
      ∧ ∀ todo done, steps = todo ++ done →
        ((after st past).2.after done).tables = (after st past).2.tables
  /-- Nor does dropping the unit, whether or not there is something to run its rollback. -/
  drop : ∀ running, ((after st course).1.drop running (after st course).2).tables
    = (after st course).2.tables
  /-- A session that had nothing staged has nothing staged. -/
  staged : st.2.staged s = .fill .empty →
    (after st course).2.staged s = .fill .empty
      ∧ ∀ running, ((after st course).1.drop running (after st course).2).staged s = .fill .empty
  /-- An error from entering has ended the unit, unless it came out of turn. -/
  enter : ∀ later past f, course = later ++ .call .enter :: past →
    (enter (after st past)).1 = .error f →
    f ≠ .unit .notEntered → f ≠ .unit .alreadyEntered →
    (enter (after st past)).2.1.phase = .exhausted
  /-- So has an error from committing. -/
  commit : ∀ later past f, course = later ++ .call .commit :: past →
    (commit (after st past)).1 = .error f →
    f ≠ .unit .notEntered → f ≠ .unit .alreadyEntered →
    (commit (after st past)).2.1.phase = .exhausted

/-- A unit that never commits leaves no trace, whatever course it takes while other sessions use the
database and any loads and saves are made to fail. -/
theorem no_trace_without_commit {w : Workspace Database} {plan : Option Plan}
    {onNowait : Option Failure} {course : List Turn} (hsession : w.session = Database.session s)
    (hapart : Apart s course) (hnever : NeverCommits (create w plan onNowait, db) course) :
    LeavesNoTrace s (create w plan onNowait, db) course := by
  have hstays : ∀ past, (after (create w plan onNowait, db) past).1.workspace.session
      = Database.session s :=
    fun past => (after_stays (u := create w plan onNowait) hsession db past).1
  refine ⟨?_, ?_, ?_, ?_, ?_⟩
  · intro later c past heq
    exact tables_along_call (hstays past) fun hc => hnever later past (hc ▸ heq)
  · intro running
    exact (drop_quiet (hstays course) running _).runs.tables
  · intro hfresh
    have hsteady : Steady s (create w plan onNowait, db) := ⟨hsession, hfresh⟩
    have hclear := (steady_after hsteady hapart).clear
    refine ⟨hclear, fun running => ?_⟩
    rcases (drop_quiet (hstays course) running _).staged with hdropped | hsame
    · exact hdropped
    · exact hsame.trans hclear
  · intro later past f _ herror _ halready
    rcases enter_error (hstays past) (Prod.ext herror rfl) with rfl | hphase
    · exact absurd rfl halready
    · exact hphase
  · intro later past f _ herror hnot _
    rcases (commit_error (hstays past) (Prod.ext herror rfl)).2 with ⟨-, rfl⟩ | hphase
    · exact absurd rfl hnot
    · exact hphase

/-- A product is staged when the save of a customer is made to fail. -/
theorem no_trace_of_failed_save :
    (after (forWriting 1, Database.empty)
        [.call .commit, .aside (.failNextSave .customer (.backend "disk full")),
          .call (.edit (.insert (.customer ⟨.sequential 1, "Ada", "a@b"⟩))),
          .call (.edit (.insert (.product ⟨.sequential 0, "Lamp", "LAMP-1", 10, 3499⟩))),
          .call .enter]).2.staged 1 = .fill .empty
      ∧ (after (forWriting 1, Database.empty)
        [.call .commit, .aside (.failNextSave .customer (.backend "disk full")),
          .call (.edit (.insert (.customer ⟨.sequential 1, "Ada", "a@b"⟩))),
          .call (.edit (.insert (.product ⟨.sequential 0, "Lamp", "LAMP-1", 10, 3499⟩))),
          .call .enter]).1.phase = .exhausted := by
  have h := no_trace_without_commit (s := 1)
    (w := Workspace.create (Database.session 1) .standard false)
    (show (Workspace.create (Database.session 1) .standard false).session = _ from rfl)
    (show Apart 1 [.call .commit, .aside (.failNextSave .customer (.backend "disk full")),
      .call (.edit (.insert (.customer ⟨.sequential 1, "Ada", "a@b"⟩))),
      .call (.edit (.insert (.product ⟨.sequential 0, "Lamp", "LAMP-1", 10, 3499⟩))),
      .call .enter] by simp [Apart, Database.Step.session?])
    (show NeverCommits (forWriting 1, Database.empty) _ from ?_)
  · exact ⟨(h.staged rfl).1, h.commit [] _ _ rfl rfl (by simp [Failure.ofStore])
      (by simp [Failure.ofStore])⟩
  · intro later past heq deltas hok
    cases later with
    | nil =>
        obtain ⟨-, rfl⟩ := List.cons.inj heq
        have herror : Except.error (Failure.store "disk full") = .ok deltas := hok
        cases herror
    | cons t later =>
        obtain ⟨-, htail⟩ := List.cons.inj heq
        have hmem : Turn.call .commit ∈ later ++ .call .commit :: past := by simp
        rw [show later ++ .call .commit :: past = _ from htail.symm] at hmem
        simp at hmem

end UnitOfWork

end Stockroom
