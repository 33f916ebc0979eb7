import Stockroom.Proofs.Saving
import Stockroom.UnitOfWork

/-!
# The calls of a unit of work

What each call of a unit of work on a session of a database can come to. Every call but a commit that
succeeds is quiet (`call_quiet`): its steps are steps of the session short of committing, and what they
have staged is gone when it returns. A call that fails to enter or to commit ends the unit, unless it
came out of turn (`enter_error`, `commit_error`), and an active unit is either ended by a call, or has
its working set edited, or stays as it is (`call_of_active`).
-/

namespace Stockroom

namespace UnitOfWork

/-- A call of a unit of work that can change something. -/
inductive Call where
  | enter
  | commit
  | rollback
  | close
  | edit (ed : WorkingSet.Edit)
  | freshIdent (k : Kind)

/-- What a call leaves behind, whatever it answers. -/
def call (c : Call) (st : UnitOfWork Database × Database) : UnitOfWork Database × Database :=
  match c with
  | .enter => (enter st).2
  | .commit => (commit st).2
  | .rollback => (rollback st).2
  | .close => (close st).2
  | .edit ed =>
    match st.1.resources with
    | .ok w => (st.1.modifySet (w.edit ed), st.2)
    | .error _ => st
  | .freshIdent k => (freshIdent k st).2

/-! ## Quiet calls -/

variable {s : Nat} {u u' : UnitOfWork Database} {db db' : Database}

/-- Nothing was committed, and the session has nothing more staged than before. -/
structure Quiet (s : Nat) (st st' : UnitOfWork Database × Database) : Prop where
  session : st'.1.workspace.session = st.1.workspace.session
  readOnly : st'.1.readOnly = st.1.readOnly
  runs : st.2.Runs (Database.Step.Silent s) st'.2
  staged : st'.2.staged s = .fill .empty ∨ st'.2.staged s = st.2.staged s

theorem Quiet.refl (s : Nat) (st : UnitOfWork Database × Database) : Quiet s st st :=
  ⟨rfl, rfl, Database.Runs.refl _ _, Or.inr rfl⟩

theorem Quiet.trans {st st' st'' : UnitOfWork Database × Database} (h : Quiet s st st')
    (h' : Quiet s st' st'') : Quiet s st st'' where
  session := h'.session.trans h.session
  readOnly := h'.readOnly.trans h.readOnly
  runs := h.runs.trans h'.runs
  staged := by
    rcases h'.staged with hclear | hsame
    · exact Or.inl hclear
    · rw [hsame]
      exact h.staged

/-- A call that leaves the database alone, the session and the mode too. -/
theorem Quiet.of_unit (s : Nat) (db : Database) (hsession : u'.workspace.session = u.workspace.session)
    (hro : u'.readOnly = u.readOnly) : Quiet s (u, db) (u', db) :=
  ⟨hsession, hro, Database.Runs.refl _ _, Or.inr rfl⟩

/-- The database once the transaction is started, if the unit has one. -/
def started (s : Nat) (u : UnitOfWork Database) (db : Database) : Database :=
  if u.readOnly then db else (Database.start s db).2

theorem startTransaction_eq (h : u.workspace.session = Database.session s) (db : Database) :
    u.startTransaction db = (.ok (), u.started s db) := by
  unfold startTransaction started
  rw [h]
  split <;> rfl

theorem rollbackTransaction_eq (h : u.workspace.session = Database.session s) (db : Database) :
    u.rollbackTransaction db = if u.readOnly then (.ok (), db) else Database.rollback s db := by
  unfold rollbackTransaction
  rw [h]
  rfl

theorem rollbackTransaction_quiet (h : u.workspace.session = Database.session s)
    (db : Database) : Quiet s (u, db) (u.exhaust, (u.rollbackTransaction db).2) := by
  rw [rollbackTransaction_eq h]
  split
  · exact Quiet.of_unit s db rfl rfl
  · exact ⟨rfl, rfl, Database.Runs.silent (.rollback s) rfl db,
      Or.inl (by simp [Database.rollback_staged])⟩

theorem abort_quiet (h : u.workspace.session = Database.session s) (db : Database) :
    Quiet s (u, db) (u.abort db) := by
  unfold abort
  split
  · exact rollbackTransaction_quiet h db
  · exact Quiet.of_unit s db rfl rfl

theorem abort_of_transaction (h : u.workspace.session = Database.session s)
    (hphase : u.phase = .active) (hro : u.readOnly = false) (db : Database) :
    u.abort db = (u.exhaust, (Database.rollback s db).2) := by
  simp only [abort, hphase, rollbackTransaction_eq h, hro, Bool.false_eq_true, if_false]

@[simp] theorem abort_phase (u : UnitOfWork Database) (db : Database) :
    (u.abort db).1.phase = .exhausted := by
  unfold abort
  split <;> rfl

theorem rollback_of_active (hactive : u.phase = .active) (db : Database) :
    (rollback (u, db)).2 = (u.exhaust, (u.rollbackTransaction db).2) := by
  simp only [rollback, checkActive, hactive]
  split
  · rename_i f db' hroll
    rw [hroll]
  · rename_i db' hroll
    rw [hroll]

theorem rollback_of_not_active (h : u.phase ≠ .active) (db : Database) :
    (rollback (u, db)).2 = (u, db) := by
  simp only [rollback, checkActive]
  cases hphase : u.phase with
  | notEntered => rfl
  | active => exact absurd hphase h
  | exhausted => rfl

theorem rollback_quiet (h : u.workspace.session = Database.session s) (db : Database) :
    Quiet s (u, db) (rollback (u, db)).2 := by
  by_cases hactive : u.phase = .active
  · rw [rollback_of_active hactive]
    exact rollbackTransaction_quiet h db
  · rw [rollback_of_not_active hactive]
    exact Quiet.refl s _

theorem close_quiet (h : u.workspace.session = Database.session s) (db : Database) :
    Quiet s (u, db) (close (u, db)).2 := by
  simp only [close]
  split
  · exact rollback_quiet h db
  · exact Quiet.of_unit s db rfl rfl

/-! ## Entering -/

/-- The plan a unit is given, or else the one its workspace has run. -/
def planned (u : UnitOfWork Database) : Option Plan := u.plan.or u.workspace.plan

/-- The run of the plan by itself, before the baseline is taken. -/
def runPlan (u : UnitOfWork Database) (db : Database) :
    Except Failure Unit × Workspace Database × Database :=
  match u.plan with
  | none => (.ok (), u.workspace, db)
  | some p => Workspace.load p (u.workspace, db)

theorem runPlan_loads (h : u.workspace.session = Database.session s) (db : Database) :
    Workspace.Loads s (u.workspace, db) (u.runPlan db).2 := by
  unfold runPlan
  split
  · exact Workspace.Loads.refl _
  · exact Workspace.load_loads h _ db

theorem runPlan_ok {m : Workspace Database} (h : u.workspace.session = Database.session s)
    (hrun : u.runPlan db = (.ok (), m, db')) :
    m.plan.map Plan.locks = u.planned.map Plan.locks := by
  unfold runPlan at hrun
  split at hrun
  · rename_i hp
    obtain ⟨-, hrun⟩ := Prod.mk.inj hrun
    obtain ⟨rfl, -⟩ := Prod.mk.inj hrun
    simp [planned, hp]
  · rename_i p hp
    obtain ⟨p', hp', hlocks, -, -⟩ := Workspace.load_ok h hrun
    simp [planned, hp, hp', hlocks]

theorem loadPlan_eq (u : UnitOfWork Database) (db : Database) :
    loadPlan (u, db) = match u.runPlan db with
      | (.error f, m, db) => (.error f, { u with workspace := m, plan := none }, db)
      | (.ok (), m, db) =>
        match m.takeSnapshot with
        | .error e => (.error (.unit e), { u with workspace := m, plan := none }, db)
        | .ok m => (.ok (), { u with workspace := m, plan := none }, db) := by
  simp only [loadPlan, runPlan]
  cases u.plan with
  | none =>
      dsimp only
      cases u.workspace.takeSnapshot <;> rfl
  | some p =>
      dsimp only
      rcases Workspace.load p (u.workspace, db) with ⟨_ | _, m, db'⟩
      · rfl
      · dsimp only
        cases m.takeSnapshot <;> rfl

/-- Running the plan loads into the workspace; if that succeeds, the working set gets a snapshot. -/
theorem loadPlan_cases (h : u.workspace.session = Database.session s) (db : Database) :
    (∃ f m db', loadPlan (u, db) = (.error f, { u with workspace := m, plan := none }, db')
        ∧ Workspace.Loads s (u.workspace, db) (m, db')) ∨
      (∃ m w db', loadPlan (u, db)
            = (.ok (), { u with workspace := { m with set := w }, plan := none }, db')
        ∧ Workspace.Loads s (u.workspace, db) (m, db')) := by
  have hloads := runPlan_loads h db
  rcases hrun : u.runPlan db with ⟨f | ⟨⟩, m, db'⟩
  · rw [hrun] at hloads
    exact Or.inl ⟨f, m, db', by rw [loadPlan_eq, hrun], hloads⟩
  · rw [hrun] at hloads
    cases htake : m.takeSnapshot with
    | error e =>
        refine Or.inl ⟨.unit e, m, db', ?_, hloads⟩
        rw [loadPlan_eq, hrun]
        simp only [htake]
    | ok m' =>
        obtain ⟨w, -, rfl⟩ := Workspace.takeSnapshot_ok htake
        refine Or.inr ⟨m, w, db', ?_, hloads⟩
        rw [loadPlan_eq, hrun]
        simp only [htake]

theorem loadPlan_quiet (h : u.workspace.session = Database.session s) (db : Database) :
    Quiet s (u, db) (loadPlan (u, db)).2 := by
  rcases loadPlan_cases h db with ⟨f, m, db', heq, hloads⟩ | ⟨m, w, db', heq, hloads⟩
  all_goals
    rw [heq]
    exact ⟨hloads.session, hloads.readOnly, hloads.fills.runs.mono Database.Step.IsLoad.silent,
      Or.inr (congrFun hloads.fills.runs.staged_of_loads s)⟩

theorem begin_eq (h : u.workspace.session = Database.session s) (db : Database) :
    begin (u, db) = loadPlan (u, u.started s db) := by
  simp only [begin, startTransaction_eq h]

/-- A unit that is entered starts its transaction and runs its plan; if that fails, it is aborted. -/
theorem enter_of_notEntered (h : u.workspace.session = Database.session s)
    (hphase : u.phase = .notEntered) :
    enter (u, db) = match loadPlan ({ u with phase := .active }, u.started s db) with
      | (.ok (), st) => (.ok (), st)
      | (.error f, u, db) => (.error (u.translate f), u.abort db) := by
  have hbegin : begin ({ u with phase := .active }, db)
      = loadPlan ({ u with phase := .active }, u.started s db) :=
    begin_eq (u := { u with phase := .active }) h db
  simp only [enter, hphase, hbegin]
  rcases loadPlan ({ u with phase := .active }, u.started s db) with ⟨_ | _, st⟩
  · rfl
  · rfl

theorem started_quiet (s : Nat) (u : UnitOfWork Database) (db : Database) :
    Quiet s (u, db) ({ u with phase := .active }, u.started s db) := by
  unfold started
  split
  · exact Quiet.of_unit s db rfl rfl
  · exact ⟨rfl, rfl, Database.Runs.silent (.start s) rfl db,
      Or.inl (by simp [Database.start_staged])⟩

theorem enter_quiet (h : u.workspace.session = Database.session s) (db : Database) :
    Quiet s (u, db) (enter (u, db)).2 := by
  cases hphase : u.phase with
  | active =>
      simp only [enter, hphase]
      exact Quiet.refl s _
  | exhausted =>
      simp only [enter, hphase]
      exact Quiet.refl s _
  | notEntered =>
      rw [enter_of_notEntered h hphase]
      have hload := loadPlan_quiet (u := { u with phase := .active }) h (u.started s db)
      have hquiet := (started_quiet s u db).trans hload
      split
      · rename_i st heq
        rw [heq] at hquiet
        exact hquiet
      · rename_i f u' db' heq
        rw [heq] at hquiet
        exact hquiet.trans (abort_quiet (hquiet.session.trans h) db')

/-- A unit that was entered has run its plan and taken a snapshot. -/
theorem enter_ok_runs (h : u.workspace.session = Database.session s)
    (henter : enter (u, db) = (.ok (), u', db')) :
    ∃ m w, u.runPlan (u.started s db) = (.ok (), m, db') ∧ m.set.takeSnapshot = .ok w
      ∧ u' = { u with phase := .active, workspace := { m with set := w }, plan := none } := by
  cases hphase : u.phase with
  | active => simp [enter, hphase] at henter
  | exhausted => simp [enter, hphase] at henter
  | notEntered =>
      have hsame : UnitOfWork.runPlan { u with phase := .active } = u.runPlan := rfl
      rw [enter_of_notEntered h hphase, loadPlan_eq, hsame] at henter
      rcases hrun : u.runPlan (u.started s db) with ⟨f | ⟨⟩, m, mid⟩
      · rw [hrun] at henter
        cases (Prod.mk.inj henter).1
      · rw [hrun] at henter
        cases htake : m.takeSnapshot with
        | error e =>
            simp only [htake] at henter
            cases (Prod.mk.inj henter).1
        | ok m' =>
            obtain ⟨w, hw, rfl⟩ := Workspace.takeSnapshot_ok htake
            simp only [htake] at henter
            obtain ⟨-, henter⟩ := Prod.mk.inj henter
            obtain ⟨rfl, rfl⟩ := Prod.mk.inj henter
            exact ⟨m, w, rfl, hw, rfl⟩

/-- What a unit is like once it is entered. -/
structure Entered (s : Nat) (u : UnitOfWork Database) (st : UnitOfWork Database × Database) :
    Prop where
  phase : st.1.phase = .active
  tracks : st.1.workspace.set.Tracks st.1.workspace.set.capture
  locks : st.1.workspace.plan.map Plan.locks = u.planned.map Plan.locks
  coherent : u.workspace.set.Coherent → st.1.workspace.set.Coherent
  clear : u.readOnly = false → st.2.staged s = .fill .empty

theorem enter_ok (h : u.workspace.session = Database.session s)
    (henter : enter (u, db) = (.ok (), u', db')) : Entered s u (u', db') := by
  obtain ⟨m, w, hrun, htake, rfl⟩ := enter_ok_runs h henter
  have hlocks : m.plan.map Plan.locks = u.planned.map Plan.locks := runPlan_ok h hrun
  have hloads := runPlan_loads h (u.started s db)
  rw [hrun] at hloads
  refine ⟨rfl, WorkingSet.tracks_capture htake, hlocks, fun hc => ?_, fun hro => ?_⟩
  · exact (hloads.fills.coherent hc).of_partitions (WorkingSet.takeSnapshot_partitions htake)
  · rw [congrFun hloads.fills.runs.staged_of_loads s]
    simp [started, hro, Database.start_staged]

/-- A unit that could not be entered the first time is exhausted. -/
theorem exhausted_of_enter_error {f : Failure} (h : u.workspace.session = Database.session s)
    (hphase : u.phase = .notEntered) (henter : enter (u, db) = (.error f, u', db')) :
    u'.phase = .exhausted := by
  rw [enter_of_notEntered h hphase] at henter
  split at henter
  · cases henter
  · rename_i f' v db₁ _
    obtain ⟨-, henter⟩ := Prod.mk.inj henter
    have hphase' := abort_phase v db₁
    rw [henter] at hphase'
    exact hphase'

/-- A unit that could not be entered is exhausted, unless it was entered before. -/
theorem enter_error {f : Failure} (h : u.workspace.session = Database.session s)
    (henter : enter (u, db) = (.error f, u', db')) :
    f = .unit .alreadyEntered ∨ u'.phase = .exhausted := by
  cases hphase : u.phase with
  | active =>
      simp only [enter, hphase, Prod.mk.injEq, Except.error.injEq] at henter
      exact Or.inl henter.1.symm
  | exhausted =>
      simp only [enter, hphase, Prod.mk.injEq] at henter
      exact Or.inr (by rw [← henter.2.1, hphase])
  | notEntered => exact Or.inr (exhausted_of_enter_error h hphase henter)

/-! ## Committing -/

/-- The commit of an active unit that may write: what is staged is published if the save succeeds, and
goes with the rollback if it fails. -/
theorem commit_of_writing (h : u.workspace.session = Database.session s) (hactive : u.phase = .active)
    (hro : u.readOnly = false) (db : Database) :
    commit (u, db) = match Workspace.save (u.workspace, db) with
      | (.error f, m, mid) =>
        (.error f, { u with workspace := m, phase := .exhausted }, (Database.rollback s mid).2)
      | (.ok deltas, m, mid) =>
        (.ok deltas, { u with workspace := m, phase := .exhausted }, (Database.commit s mid).2) := by
  have hkeeps := Workspace.save_keeps h db
  simp only [commit, checkActive, hactive, hro, saveAndCommit, Bool.false_eq_true, if_false]
  rcases hsave : Workspace.save (u.workspace, db) with ⟨f | deltas, m, mid⟩
  · rw [hsave] at hkeeps
    have habort := abort_of_transaction (u := { u with workspace := m })
      (hkeeps.session.trans h) hactive (hkeeps.readOnly.trans hro) mid
    rw [hactive] at habort
    simp only [habort]
    rfl
  · rw [hsave] at hkeeps
    have hsession : m.session = Database.session s := hkeeps.session.trans h
    simp only [hsession]
    rfl

/-- A commit that succeeds has saved and committed, and ends the unit. -/
theorem commit_ok {deltas : List (Kind × Delta)} (h : u.workspace.session = Database.session s)
    (hcommit : commit (u, db) = (.ok deltas, u', db')) :
    u.phase = .active ∧ u.readOnly = false ∧ u'.phase = .exhausted
      ∧ u'.workspace.session = u.workspace.session ∧ u'.readOnly = false
      ∧ ∃ m mid, Workspace.save (u.workspace, db) = (.ok deltas, m, mid)
        ∧ db' = (Database.commit s mid).2 := by
  cases hphase : u.phase with
  | notEntered => simp [commit, checkActive, hphase] at hcommit
  | exhausted => simp [commit, checkActive, hphase] at hcommit
  | active =>
      cases hro : u.readOnly with
      | true => simp [commit, checkActive, hphase, hro] at hcommit
      | false =>
          have hkeeps := Workspace.save_keeps h db
          rw [commit_of_writing h hphase hro] at hcommit
          rcases hsave : Workspace.save (u.workspace, db) with ⟨f | saved, m, mid⟩
          · rw [hsave] at hcommit
            cases (Prod.mk.inj hcommit).1
          · rw [hsave] at hkeeps hcommit
            obtain ⟨hdeltas, hcommit⟩ := Prod.mk.inj hcommit
            obtain ⟨rfl, rfl⟩ := Prod.mk.inj hcommit
            obtain rfl := Except.ok.inj hdeltas
            exact ⟨rfl, rfl, rfl, hkeeps.session, hkeeps.readOnly.trans hro, m, mid, rfl, rfl⟩

/-- A commit that fails ends the unit, if it was entered, and has changed no committed row. -/
theorem commit_error {f : Failure} (h : u.workspace.session = Database.session s)
    (hcommit : commit (u, db) = (.error f, u', db')) :
    Quiet s (u, db) (u', db')
      ∧ ((u.phase = .notEntered ∧ f = .unit .notEntered) ∨ u'.phase = .exhausted) := by
  cases hphase : u.phase with
  | notEntered =>
      simp only [commit, checkActive, hphase, Prod.mk.injEq, Except.error.injEq] at hcommit
      obtain ⟨rfl, rfl, rfl⟩ := hcommit
      exact ⟨Quiet.refl s _, Or.inl ⟨rfl, rfl⟩⟩
  | exhausted =>
      simp only [commit, checkActive, hphase, Prod.mk.injEq] at hcommit
      obtain ⟨-, rfl, rfl⟩ := hcommit
      exact ⟨Quiet.refl s _, Or.inr hphase⟩
  | active =>
      cases hro : u.readOnly with
      | true =>
          simp only [commit, checkActive, hphase, hro, if_true, Prod.mk.injEq] at hcommit
          obtain ⟨-, rfl, rfl⟩ := hcommit
          exact ⟨Quiet.of_unit s _ rfl rfl, Or.inr rfl⟩
      | false =>
          have hkeeps := Workspace.save_keeps h db
          rw [commit_of_writing h hphase hro] at hcommit
          rcases hsave : Workspace.save (u.workspace, db) with ⟨g | saved, m, mid⟩
          · rw [hsave] at hkeeps hcommit
            obtain ⟨-, hcommit⟩ := Prod.mk.inj hcommit
            obtain ⟨rfl, rfl⟩ := Prod.mk.inj hcommit
            have hrolled := Database.Runs.silent (s := s) (.rollback s) rfl mid
            refine ⟨⟨hkeeps.session, hkeeps.readOnly, hkeeps.runs.trans hrolled, Or.inl ?_⟩,
              Or.inr rfl⟩
            simp [Database.rollback_staged]
          · rw [hsave] at hcommit
            cases (Prod.mk.inj hcommit).1

/-! ## Any call -/

theorem session_freshIdent (s : Nat) (k : Kind) (db : Database) :
    (Database.session s).freshIdent k db = Database.freshIdent db := by
  simp [Session.freshIdent, Database.session, Database.repository]

theorem freshIdent_quiet (h : u.workspace.session = Database.session s) (k : Kind)
    (db : Database) :
    Quiet s (u, db) (freshIdent k (u, db)).2 ∧ (freshIdent k (u, db)).2.1 = u := by
  simp only [freshIdent, h, session_freshIdent]
  split
  · exact ⟨Quiet.refl s _, rfl⟩
  · exact ⟨⟨rfl, rfl, Database.Runs.silent .freshIdent trivial db, Or.inr rfl⟩, rfl⟩

/-- An edit of an active unit changes its working set and nothing else. -/
theorem call_edit (ed : WorkingSet.Edit) (hactive : u.phase = .active) (db : Database) :
    call (.edit ed) (u, db) = (u.modifySet (u.workspace.set.edit ed), db) := by
  simp [call, resources, checkActive, hactive, Except.map]

theorem call_edit_of_not_active (ed : WorkingSet.Edit) (h : u.phase ≠ .active) (db : Database) :
    call (.edit ed) (u, db) = (u, db) := by
  cases hphase : u.phase with
  | active => exact absurd hphase h
  | notEntered => simp [call, resources, checkActive, hphase, Except.map]
  | exhausted => simp [call, resources, checkActive, hphase, Except.map]

/-- Every call but a commit that succeeds is quiet. -/
theorem call_quiet {c : Call} (h : u.workspace.session = Database.session s)
    (hc : c = .commit → ∀ deltas, (commit (u, db)).1 ≠ .ok deltas) :
    Quiet s (u, db) (call c (u, db)) := by
  cases c with
  | enter => exact enter_quiet h db
  | rollback => exact rollback_quiet h db
  | close => exact close_quiet h db
  | freshIdent k => exact (freshIdent_quiet h k db).1
  | edit ed =>
      by_cases hactive : u.phase = .active
      · rw [call_edit ed hactive]
        exact Quiet.of_unit s db rfl rfl
      · rw [call_edit_of_not_active ed hactive]
        exact Quiet.refl s _
  | commit =>
      rcases hcommit : commit (u, db) with ⟨f | deltas, u', db'⟩
      · simp only [call, hcommit]
        exact (commit_error h hcommit).1
      · exact absurd (congrArg Prod.fst hcommit) (hc rfl deltas)

theorem committed_of_not_quiet {c : Call}
    (h : ¬ (c = .commit → ∀ deltas, (commit (u, db)).1 ≠ .ok deltas)) :
    c = .commit ∧ ∃ deltas u' db', commit (u, db) = (.ok deltas, u', db') := by
  obtain ⟨hc, hok⟩ := Classical.not_imp.mp h
  obtain ⟨deltas, hok⟩ := Classical.not_forall.mp hok
  exact ⟨hc, deltas, _, _, Prod.ext (Classical.not_not.mp hok) rfl⟩

/-- The unit stays on its session and in its mode. -/
theorem call_stays {st : UnitOfWork Database × Database}
    (h : st.1.workspace.session = Database.session s) (c : Call) :
    (call c st).1.workspace.session = Database.session s
      ∧ (call c st).1.readOnly = st.1.readOnly := by
  obtain ⟨u, db⟩ := st
  by_cases hc : c = .commit → ∀ deltas, (commit (u, db)).1 ≠ .ok deltas
  · have hquiet := call_quiet h hc
    exact ⟨hquiet.session.trans h, hquiet.readOnly⟩
  · obtain ⟨rfl, deltas, u', db', hcommit⟩ := committed_of_not_quiet hc
    obtain ⟨-, hro, -, hsession, hro', -⟩ := commit_ok h hcommit
    simp only [call, hcommit]
    exact ⟨hsession.trans h, hro'.trans hro.symm⟩

theorem call_of_exhausted {st : UnitOfWork Database × Database} (h : st.1.phase = .exhausted)
    (c : Call) : (call c st).1.phase = .exhausted := by
  obtain ⟨u, db⟩ := st
  have h : u.phase = .exhausted := h
  cases c with
  | close => simp [call, close, h, exhaust]
  | edit ed =>
      rw [call_edit_of_not_active ed (by simp [h])]
      exact h
  | _ => simp [call, enter, commit, rollback, freshIdent, checkActive, h]

/-- A call of an active unit ends it, edits its working set, or leaves it as it is. -/
theorem call_of_active (c : Call) (h : u.workspace.session = Database.session s)
    (hactive : u.phase = .active) (db : Database) :
    (call c (u, db)).1.phase = .exhausted
      ∨ (∃ ed, c = .edit ed ∧ (call c (u, db)).1 = u.modifySet (u.workspace.set.edit ed))
      ∨ (call c (u, db)).1 = u := by
  cases c with
  | enter => exact Or.inr (Or.inr (by simp [call, enter, hactive]))
  | freshIdent k => exact Or.inr (Or.inr (freshIdent_quiet h k db).2)
  | edit ed => exact Or.inr (Or.inl ⟨ed, rfl, by rw [call_edit ed hactive]⟩)
  | rollback =>
      refine Or.inl ?_
      simp only [call, rollback_of_active hactive]
      rfl
  | close =>
      refine Or.inl ?_
      simp only [call, close, hactive, rollback_of_active hactive]
      rfl
  | commit =>
      refine Or.inl ?_
      rcases hcommit : commit (u, db) with ⟨f | deltas, u', db'⟩
      · simp only [call, hcommit]
        rcases (commit_error h hcommit).2 with ⟨hphase, -⟩ | hphase
        · rw [hactive] at hphase
          cases hphase
        · exact hphase
      · simp only [call, hcommit]
        exact (commit_ok h hcommit).2.2.1

end UnitOfWork

end Stockroom
