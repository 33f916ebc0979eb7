import Stockroom.Proofs.Course
import Stockroom.Shop

/-!
# The transaction protocol

A unit of work starts at most one transaction and ends every one it starts. What its session has recorded
shows it (`UnitOfWork.Obeys`): nothing but loads in a read-only unit; otherwise nothing at all, or the
begin, the loads, and once the unit is over its saves and one commit or rollback.

What a call adds to the log is written down once, call by call, with the phase it leads from and to
(`UnitOfWork.Adds`). Every call adds something of this kind (`adds_call`), and whatever is added that way
keeps the log in order (`Adds.obeys`); so it is in order after any course.
-/

namespace Stockroom

/-! ## The log of a session -/

namespace Event

def IsLoaded : Event → Prop
  | .loaded .. => True
  | _ => False

def IsSaved : Event → Prop
  | .saved .. => True
  | _ => False

end Event

namespace Database

/-- What one session has recorded, in order. -/
def log (db : Database) (s : Nat) : List Event := db.events.filter fun e => e.session = s

variable {s : Nat} {db db' : Database}

theorem log_record_self {e : Event} (h : e.session = s) (db : Database) :
    (db.record e).log s = db.log s ++ [e] := by
  simp [log, record, List.filter_append, h]

theorem log_record_of_ne {e : Event} (h : e.session ≠ s) (db : Database) :
    (db.record e).log s = db.log s := by
  simp [log, record, List.filter_append, h]

/-- From one database to another a session records events of one sort. -/
def Records (P : Event → Prop) (s : Nat) (db db' : Database) : Prop :=
  ∃ es, (∀ e ∈ es, P e) ∧ db'.log s = db.log s ++ es

variable {P : Event → Prop}

theorem Records.refl (P : Event → Prop) (s : Nat) (db : Database) : Records P s db db :=
  ⟨[], fun _ he => absurd he List.not_mem_nil, (List.append_nil _).symm⟩

theorem Records.trans {db'' : Database} (h : Records P s db db') (h' : Records P s db' db'') :
    Records P s db db'' := by
  obtain ⟨es, hes, hlog⟩ := h
  obtain ⟨es', hes', hlog'⟩ := h'
  refine ⟨es ++ es', fun e he => ?_, by rw [hlog', hlog, List.append_assoc]⟩
  exact (List.mem_append.mp he).elim (hes e) (hes' e)

theorem Records.record {e : Event} (hP : P e) (hs : e.session = s) (db : Database) :
    Records P s db (db.record e) := by
  refine ⟨[e], fun e' he' => ?_, log_record_self hs db⟩
  exact List.mem_singleton.mp he' ▸ hP

/-- A load records itself, or nothing if it fails. -/
theorem records_load (s : Nat) (k : Kind) (q : Query) (db : Database) :
    Records Event.IsLoaded s db (load s k q db).2 := by
  unfold load
  split
  · exact Records.refl _ s db
  · split
    · exact Records.refl _ s db
    · exact Records.record trivial rfl db

/-- A save records itself, or nothing if it fails. -/
theorem records_save (s : Nat) (k : Kind) (d : Delta) (db : Database) :
    Records Event.IsSaved s db (save s k d db).2 := by
  unfold save
  split
  · exact Records.refl _ s db
  · -- staging by itself records nothing
    let staged := db.setStaged s ((db.staged s).set k (((db.staged s).get k).stage d))
    have hsaved : Event.IsSaved (.saved s k d.created.length d.updated.length d.deleted.length) :=
      trivial
    exact Records.record hsaved rfl staged

theorem log_start (s : Nat) (db : Database) :
    (start s db).2.log s = db.log s ++ [.begun s] := log_record_self rfl _

theorem log_commit (s : Nat) (db : Database) :
    (commit s db).2.log s = db.log s ++ [.committed s] := log_record_self rfl _

theorem log_rollback (s : Nat) (db : Database) :
    (rollback s db).2.log s = db.log s ++ [.rolledBack s] := log_record_self rfl _

theorem records_of_loads (h : Runs (Step.IsLoad s) db db') : Records Event.IsLoaded s db db' := by
  obtain ⟨history, hload, rfl⟩ := h
  induction history with
  | nil => exact Records.refl _ s db
  | cons st past ih =>
      have hpast := ih fun st' hmem => hload st' (List.mem_cons_of_mem _ hmem)
      have hst := hload st (List.mem_cons_self ..)
      cases st with
      | load t k q =>
          obtain rfl : t = s := hst
          exact hpast.trans (records_load t k q _)
      | _ => exact hst.elim

theorem records_session_save (s : Nat) (deltas : List (Kind × Delta)) (db : Database) :
    Records Event.IsSaved s db ((session s).save deltas db).2 := by
  induction deltas generalizing db with
  | nil => exact Records.refl _ s db
  | cons kd rest ih =>
      obtain ⟨k, d⟩ := kd
      have hfirst := records_save s k d db
      rw [session_save_cons]
      split
      · rename_i mid hsave
        rw [hsave] at hfirst
        exact hfirst.trans (ih mid)
      · rename_i f mid hsave
        rw [hsave] at hfirst
        exact hfirst

/-- Only the steps of a session are in its log. -/
theorem log_step_of_foreign {st : Step} (h : st.session? ≠ some s) (db : Database) :
    (db.step st).log s = db.log s := by
  have hne : ∀ {t}, st.session? = some t → t ≠ s := fun ht hts => h (hts ▸ ht)
  cases st with
  | seed e | failNextLoad k c | failNextSave k e | openSession | freshIdent => rfl
  | start t | commit t | rollback t => exact log_record_of_ne (hne rfl) _
  | load t k q =>
      simp only [step, load]
      split
      · rfl
      · split
        · rfl
        · exact log_record_of_ne (hne rfl) db
  | save t k d =>
      simp only [step, save]
      split
      · rfl
      · exact log_record_of_ne (hne rfl) _

/-- A session that nobody has used has recorded nothing. -/
theorem log_after_of_foreign {past : List Step} (h : ∀ st ∈ past, st.session? ≠ some s)
    (db : Database) : (db.after past).log s = db.log s := by
  induction past with
  | nil => rfl
  | cons st past ih =>
      rw [after, log_step_of_foreign (h st (List.mem_cons_self ..))]
      exact ih fun st' hmem => h st' (List.mem_cons_of_mem _ hmem)

end Database

/-! ## What a call adds -/

/-- The phases a unit goes through. -/
inductive Phase.Moves : Phase → Phase → Prop
  | enter : Moves .notEntered .active
  | finish : Moves .active .exhausted
  | giveUp : Moves .notEntered .exhausted

namespace UnitOfWork

/-- An event of the transaction, which a read-only unit does not have. -/
def mark (readOnly : Bool) (e : Event) : List Event := if readOnly then [] else [e]

/-- What a call can add to the log, with the phases it leads from and to. -/
inductive Adds (s : Nat) (readOnly : Bool) : Call → Phase → Phase → List Event → Prop
  | nothing (c : Call) (p : Phase) : Adds s readOnly c p p []
  | entered {loads : List Event} (h : ∀ e ∈ loads, e.IsLoaded) :
      Adds s readOnly .enter .notEntered .active (mark readOnly (.begun s) ++ loads)
  | failedToEnter {loads : List Event} (h : ∀ e ∈ loads, e.IsLoaded) :
      Adds s readOnly .enter .notEntered .exhausted
        (mark readOnly (.begun s) ++ loads ++ mark readOnly (.rolledBack s))
  | committed {saves : List Event} (h : ∀ e ∈ saves, e.IsSaved) (hro : readOnly = false) :
      Adds s readOnly .commit .active .exhausted (saves ++ [.committed s])
  | failedToCommit {saves : List Event} (h : ∀ e ∈ saves, e.IsSaved) (hro : readOnly = false) :
      Adds s readOnly .commit .active .exhausted (saves ++ [.rolledBack s])
  | refusedToCommit (hro : readOnly = true) : Adds s readOnly .commit .active .exhausted []
  | rolledBack : Adds s readOnly .rollback .active .exhausted (mark readOnly (.rolledBack s))
  | closed : Adds s readOnly .close .active .exhausted (mark readOnly (.rolledBack s))
  | closedUnused : Adds s readOnly .close .notEntered .exhausted []

/-- The log of a session by the mode and the phase of its unit. -/
def Obeys (s : Nat) : (readOnly : Bool) → Phase → List Event → Prop
  | true, _, log => ∀ e ∈ log, e.IsLoaded
  | false, .notEntered, log => log = []
  | false, .active, log => ∃ loads, (∀ e ∈ loads, e.IsLoaded) ∧ log = .begun s :: loads
  | false, .exhausted, log => log = [] ∨ ∃ loads saves last, (∀ e ∈ loads, e.IsLoaded)
      ∧ (∀ e ∈ saves, e.IsSaved) ∧ (last = .committed s ∨ last = .rolledBack s)
      ∧ log = .begun s :: (loads ++ saves ++ [last])

variable {s : Nat} {readOnly : Bool} {c : Call} {p p' : Phase} {log new : List Event}

theorem Adds.moves (h : Adds s readOnly c p p' new) : p' = p ∨ p.Moves p' := by
  cases h with
  | nothing => exact Or.inl rfl
  | entered _ => exact Or.inr .enter
  | failedToEnter _ | closedUnused => exact Or.inr .giveUp
  | _ => exact Or.inr .finish

/-- Only a commit saves. -/
theorem Adds.not_isSaved (h : Adds s readOnly c p p' new) (hc : c ≠ .commit) :
    ∀ e ∈ new, ¬ e.IsSaved := by
  have hmark : ∀ e : Event, ¬ e.IsSaved → ∀ e' ∈ mark readOnly e, ¬ e'.IsSaved := by
    intro e he e' hmem
    unfold mark at hmem
    split at hmem
    · cases hmem
    · exact List.mem_singleton.mp hmem ▸ he
  have hloaded : ∀ e : Event, e.IsLoaded → ¬ e.IsSaved := by
    intro e he
    cases e with
    | loaded => exact id
    | _ => exact he.elim
  intro e he
  cases h with
  | nothing | closedUnused => cases he
  | entered hloads =>
      rcases List.mem_append.mp he with he | he
      · exact hmark _ id e he
      · exact hloaded e (hloads e he)
  | failedToEnter hloads =>
      rcases List.mem_append.mp he with he | he
      · rcases List.mem_append.mp he with he | he
        · exact hmark _ id e he
        · exact hloaded e (hloads e he)
      · exact hmark _ id e he
  | rolledBack | closed => exact hmark _ id e he
  | committed | failedToCommit | refusedToCommit => exact absurd rfl hc

/-- The log of an active unit with more saves and the end of the transaction behind it. -/
theorem obeys_of_end {saves : List Event} {last : Event} (h : Obeys s false .active log)
    (hsaves : ∀ e ∈ saves, e.IsSaved) (hlast : last = .committed s ∨ last = .rolledBack s) :
    Obeys s false .exhausted (log ++ (saves ++ [last])) := by
  obtain ⟨loads, hloads, rfl⟩ := h
  exact Or.inr ⟨loads, saves, last, hloads, hsaves, hlast, by simp⟩

/-- What a call adds keeps the log in order. -/
theorem Adds.obeys (h : Adds s readOnly c p p' new) (hlog : Obeys s readOnly p log) :
    Obeys s readOnly p' (log ++ new) := by
  cases readOnly with
  | true =>
      have hnew : ∀ e ∈ new, e.IsLoaded := by
        cases h with
        | entered hloads => simpa [mark] using hloads
        | failedToEnter hloads => simpa [mark] using hloads
        | committed _ hro | failedToCommit _ hro => cases hro
        | _ => simp [mark]
      have hlog : ∀ e ∈ log, e.IsLoaded := hlog
      intro e he
      exact (List.mem_append.mp he).elim (hlog e) (hnew e)
  | false =>
      cases h with
      | nothing => rwa [List.append_nil]
      | entered hloads =>
          obtain rfl : log = [] := hlog
          exact ⟨_, hloads, by simp [mark]⟩
      | failedToEnter hloads =>
          obtain rfl : log = [] := hlog
          exact Or.inr ⟨_, [], _, hloads, by simp, Or.inr rfl, by simp [mark]⟩
      | committed hsaves _ => exact obeys_of_end hlog hsaves (Or.inl rfl)
      | failedToCommit hsaves _ => exact obeys_of_end hlog hsaves (Or.inr rfl)
      | refusedToCommit hro => cases hro
      | rolledBack | closed =>
          have hnone : ∀ e ∈ ([] : List Event), e.IsSaved := by simp
          exact obeys_of_end hlog hnone (Or.inr rfl)
      | closedUnused =>
          obtain rfl : log = [] := hlog
          exact Or.inl rfl

/-! ## Every call adds something of this kind -/

variable {u : UnitOfWork Database} {db : Database}

theorem log_started (s : Nat) (u : UnitOfWork Database) (db : Database) :
    (u.started s db).log s = db.log s ++ mark u.readOnly (.begun s) := by
  unfold started mark
  split
  · exact (List.append_nil _).symm
  · exact Database.log_start s db

theorem log_rollbackTransaction (h : u.workspace.session = Database.session s) (db : Database) :
    (u.rollbackTransaction db).2.log s = db.log s ++ mark u.readOnly (.rolledBack s) := by
  rw [rollbackTransaction_eq h]
  unfold mark
  split
  · exact (List.append_nil _).symm
  · exact Database.log_rollback s db

/-- A call adds these events to the log and leads from phase to phase as `Adds` says. -/
def CallAdds (s : Nat) (c : Call) (st st' : UnitOfWork Database × Database) : Prop :=
  ∃ new, Adds s st.1.readOnly c st.1.phase st'.1.phase new ∧ st'.2.log s = st.2.log s ++ new

theorem CallAdds.of_phases {st st' : UnitOfWork Database × Database} (hfrom : st.1.phase = p)
    (hto : st'.1.phase = p') (hadds : Adds s st.1.readOnly c p p' new)
    (hlog : st'.2.log s = st.2.log s ++ new) : CallAdds s c st st' := by
  subst hfrom hto
  exact ⟨new, hadds, hlog⟩

theorem callAdds_nothing (s : Nat) (c : Call) (st : UnitOfWork Database × Database) :
    CallAdds s c st st := ⟨[], .nothing c _, (List.append_nil _).symm⟩

theorem adds_enter (h : u.workspace.session = Database.session s) (db : Database) :
    CallAdds s .enter (u, db) (enter (u, db)).2 := by
  cases hphase : u.phase with
  | active =>
      simp only [enter, hphase]
      exact callAdds_nothing s _ _
  | exhausted =>
      simp only [enter, hphase]
      exact callAdds_nothing s _ _
  | notEntered =>
      rw [enter_of_notEntered h hphase]
      rcases loadPlan_cases (u := { u with phase := .active }) h (u.started s db) with
        ⟨f, m, db', heq, hloads⟩ | ⟨m, w, db', heq, hloads⟩
      · obtain ⟨loads, hloaded, hlog⟩ := Database.records_of_loads hloads.fills.runs
        rw [log_started] at hlog
        rw [heq]
        have hmode : m.readOnly = u.readOnly := hloads.readOnly
        refine CallAdds.of_phases hphase rfl (.failedToEnter hloaded) ?_
        change (rollbackTransaction ⟨m, none, .active, u.onNowait⟩ db').2.log s = _
        rw [log_rollbackTransaction (hloads.session.trans h), hlog]
        simp [readOnly, hmode]
      · obtain ⟨loads, hloaded, hlog⟩ := Database.records_of_loads hloads.fills.runs
        rw [log_started] at hlog
        rw [heq]
        refine CallAdds.of_phases hphase rfl (.entered hloaded) ?_
        rw [hlog, List.append_assoc]

/-- Saving records the saves, up to the first that fails. -/
theorem records_workspace_save {m : Workspace Database} (h : m.session = Database.session s)
    (db : Database) :
    Database.Records Event.IsSaved s db (Workspace.save (m, db)).2.2 := by
  have hnone := Database.Records.refl Event.IsSaved s db
  simp only [Workspace.save]
  split
  · exact hnone
  · rename_i m₁ htake
    obtain ⟨w, -, rfl⟩ := Workspace.takeSnapshot_ok htake
    split
    · exact hnone
    · rename_i changes _
      split
      · exact hnone
      · have hsaves := Database.records_session_save s (changes.inWriteOrder m.order) db
        rw [← h] at hsaves
        split
        · rename_i f db' hsave
          rw [hsave] at hsaves
          exact hsaves
        · rename_i db' hsave
          rw [hsave] at hsaves
          exact hsaves

theorem adds_commit (h : u.workspace.session = Database.session s) (db : Database) :
    CallAdds s .commit (u, db) (commit (u, db)).2 := by
  cases hphase : u.phase with
  | notEntered =>
      simp only [commit, checkActive, hphase]
      exact callAdds_nothing s _ _
  | exhausted =>
      simp only [commit, checkActive, hphase]
      exact callAdds_nothing s _ _
  | active =>
      cases hro : u.readOnly with
      | true =>
          simp only [commit, checkActive, hphase, hro, if_true]
          exact CallAdds.of_phases hphase rfl (.refusedToCommit hro) (List.append_nil _).symm
      | false =>
          obtain ⟨saves, hsaves, hlog⟩ := records_workspace_save h db
          rw [commit_of_writing h hphase hro]
          rcases hsave : Workspace.save (u.workspace, db) with ⟨f | deltas, m, mid⟩
          · rw [hsave] at hlog
            refine CallAdds.of_phases hphase rfl (.failedToCommit hsaves hro) ?_
            change (Database.rollback s mid).2.log s = _
            rw [Database.log_rollback, hlog, List.append_assoc]
          · rw [hsave] at hlog
            refine CallAdds.of_phases hphase rfl (.committed hsaves hro) ?_
            change (Database.commit s mid).2.log s = _
            rw [Database.log_commit, hlog, List.append_assoc]

theorem adds_rollback (h : u.workspace.session = Database.session s) (db : Database) :
    CallAdds s .rollback (u, db) (rollback (u, db)).2 := by
  by_cases hactive : u.phase = .active
  · rw [rollback_of_active hactive]
    exact CallAdds.of_phases hactive rfl .rolledBack (log_rollbackTransaction h db)
  · rw [rollback_of_not_active hactive]
    exact callAdds_nothing s _ _

theorem adds_close (h : u.workspace.session = Database.session s) (db : Database) :
    CallAdds s .close (u, db) (close (u, db)).2 := by
  cases hphase : u.phase with
  | active =>
      simp only [close, hphase, rollback_of_active hphase]
      exact CallAdds.of_phases hphase rfl .closed (log_rollbackTransaction h db)
  | notEntered =>
      simp only [close, hphase]
      exact CallAdds.of_phases hphase rfl .closedUnused (List.append_nil _).symm
  | exhausted =>
      simp only [close, hphase]
      exact CallAdds.of_phases hphase rfl (.nothing _ _) (List.append_nil _).symm

theorem adds_call {st : UnitOfWork Database × Database}
    (h : st.1.workspace.session = Database.session s) (c : Call) : CallAdds s c st (call c st) := by
  obtain ⟨u, db⟩ := st
  cases c with
  | enter => exact adds_enter h db
  | commit => exact adds_commit h db
  | rollback => exact adds_rollback h db
  | close => exact adds_close h db
  | edit ed =>
      by_cases hactive : u.phase = .active
      · rw [call_edit ed hactive]
        exact ⟨[], .nothing _ _, (List.append_nil _).symm⟩
      · rw [call_edit_of_not_active ed hactive]
        exact callAdds_nothing s _ _
  | freshIdent k =>
      have hlog : (freshIdent k (u, db)).2.2.log s = db.log s := by
        simp only [freshIdent]
        split
        · rfl
        · rw [h, session_freshIdent]
          rfl
      refine CallAdds.of_phases rfl (congrArg phase (freshIdent_quiet h k db).2) (.nothing _ _) ?_
      rw [List.append_nil]
      exact hlog

/-! ## What a call answers -/

/-- The failure an answer reports, if it does. -/
def failureOf? {α : Type} : Except Failure α → Option Failure
  | .ok _ => none
  | .error f => some f

/-- The failure a call answers with, if it fails. An edit needs the working set first. -/
def failure? (c : Call) (st : UnitOfWork Database × Database) : Option Failure :=
  match c with
  | .enter => failureOf? (enter st).1
  | .commit => failureOf? (commit st).1
  | .rollback => failureOf? (rollback st).1
  | .close => failureOf? (close st).1
  | .edit _ => failureOf? (st.1.resources.mapError .unit)
  | .freshIdent k => failureOf? ((freshIdent k st).1.mapError .unit)

/-- A call is refused for a reason and changes nothing. -/
def Refuses (c : Call) (st : UnitOfWork Database × Database) (e : UnitError) : Prop :=
  failure? c st = some (.unit e) ∧ call c st = st

/-- Nothing can be read off the unit, for a reason. -/
def Unreadable (u : UnitOfWork Database) (e : UnitError) : Prop :=
  u.resources = .error e ∧ u.activePlan = .error e

theorem unreadable_of_checkActive {e : UnitError} (h : u.checkActive = .error e) :
    u.Unreadable e := by
  constructor
  · simp only [resources, h, Except.map]
  · simp only [activePlan, h, Except.map]

/-- Apart from entering and closing, whatever needs an active unit refuses any other. -/
theorem refuses_of_checkActive {e : UnitError} (h : u.checkActive = .error e) (hc : c ≠ .enter)
    (hc' : c ≠ .close) (db : Database) : Refuses c (u, db) e := by
  cases c with
  | enter => exact absurd rfl hc
  | close => exact absurd rfl hc'
  | commit => simp [Refuses, failure?, failureOf?, call, commit, h]
  | rollback => simp [Refuses, failure?, failureOf?, call, rollback, h]
  | freshIdent k =>
      have hanswer : freshIdent k (u, db) = (.error e, u, db) := by
        simp only [freshIdent, h]
      simp only [Refuses, failure?, call, hanswer]
      exact ⟨rfl, trivial⟩
  | edit ed =>
      have hanswer : u.resources = .error e := (unreadable_of_checkActive h).1
      simp only [Refuses, failure?, call, hanswer]
      exact ⟨rfl, trivial⟩

theorem checkActive_of_notEntered (h : u.phase = .notEntered) :
    u.checkActive = .error .notEntered := by
  simp only [checkActive, h]

theorem checkActive_of_exhausted (h : u.phase = .exhausted) :
    u.checkActive = .error .exhausted := by
  simp only [checkActive, h]

theorem refuses_enter_of_active (h : u.phase = .active) (db : Database) :
    Refuses .enter (u, db) .alreadyEntered := by
  simp [Refuses, failure?, failureOf?, call, enter, h]

theorem refuses_of_exhausted (h : u.phase = .exhausted) (hc : c ≠ .close) (db : Database) :
    Refuses c (u, db) .exhausted := by
  by_cases hc' : c = .enter
  · subst hc'
    simp [Refuses, failure?, failureOf?, call, enter, h]
  · exact refuses_of_checkActive (checkActive_of_exhausted h) hc' hc db

theorem close_of_exhausted (h : u.phase = .exhausted) (db : Database) :
    failure? .close (u, db) = none ∧ call .close (u, db) = (u, db) := by
  have hsame : u.exhaust = u := by
    unfold exhaust
    rw [← h]
  constructor
  · simp only [failure?, close, h]
    rfl
  · simp only [call, close, h, hsame]

/-- An exhausted unit does nothing more, whatever it is asked to do. -/
theorem after_of_exhausted {course : List Turn} (h : u.phase = .exhausted) (hapart : Apart s course)
    (db : Database) :
    (after (u, db) course).1 = u ∧ (after (u, db) course).2.log s = db.log s := by
  induction course with
  | nil => exact ⟨rfl, rfl⟩
  | cons t past ih =>
      obtain ⟨hunit, hlog⟩ := ih hapart.tail
      rw [after]
      rcases hst : after (u, db) past with ⟨v, mid⟩
      rw [hst] at hunit hlog
      obtain rfl : v = u := hunit
      cases t with
      | aside step =>
          refine ⟨rfl, ?_⟩
          change (mid.step step).log s = _
          rw [Database.log_step_of_foreign (hapart step (List.mem_cons_self ..))]
          exact hlog
      | call c =>
          have hsame : call c (v, mid) = (v, mid) := by
            by_cases hc : c = .close
            · subst hc
              exact (close_of_exhausted h mid).2
            · exact (refuses_of_exhausted h hc mid).2
          simp only [Turn.take, hsame]
          exact ⟨trivial, hlog⟩

/-! ## After any course -/

/-- What is true of a unit and its session after any course. -/
structure Protocol (s : Nat) (readOnly : Bool) (st : UnitOfWork Database × Database) : Prop where
  log : Obeys s readOnly st.1.phase (st.2.log s)
  /-- A unit that is dropped has ended its transaction once its rollback has run. -/
  dropped : Obeys s readOnly .exhausted ((st.1.drop true st.2).log s)
  /-- Where nothing is left to run the rollback, the drop does nothing. -/
  abandoned : st.1.drop false st.2 = st.2
  moves : ∀ c, (call c st).1.phase = st.1.phase ∨ st.1.phase.Moves (call c st).1.phase
  /-- Calls append to the log, and saves come from a commit only. -/
  appends : ∀ c, ∃ new, (call c st).2.log s = st.2.log s ++ new
    ∧ (c ≠ .commit → ∀ e ∈ new, ¬ e.IsSaved)
  notEntered : st.1.phase = .notEntered → st.1.Unreadable .notEntered
    ∧ ∀ c, c ≠ .enter → c ≠ .close → Refuses c st .notEntered
  active : st.1.phase = .active → Refuses .enter st .alreadyEntered
  exhausted : st.1.phase = .exhausted → st.1.Unreadable .exhausted
    ∧ (∀ c, c ≠ .close → Refuses c st .exhausted)
    ∧ failure? .close st = none
  ended : st.1.phase = .exhausted → ∀ later, Apart s later →
    (after st later).1.phase = .exhausted
      ∧ (after st later).2.log s = st.2.log s
      ∧ ∀ running, ((after st later).1.drop running (after st later).2).log s = st.2.log s

theorem obeys_after {course : List Turn} (h : u.workspace.session = Database.session s)
    (hlog : Obeys s u.readOnly u.phase (db.log s)) (hapart : Apart s course) :
    Obeys s u.readOnly (after (u, db) course).1.phase ((after (u, db) course).2.log s) := by
  induction course with
  | nil => exact hlog
  | cons t past ih =>
      have ih := ih hapart.tail
      cases t with
      | aside step =>
          change Obeys s u.readOnly _ (((after (u, db) past).2.step step).log s)
          rw [Database.log_step_of_foreign (hapart step (List.mem_cons_self ..))]
          exact ih
      | call c =>
          obtain ⟨hsession, hmode⟩ := after_stays h db past
          obtain ⟨new, hadds, hnew⟩ := adds_call hsession c
          change Obeys s u.readOnly _ ((call c (after (u, db) past)).2.log s)
          rw [hnew]
          rw [hmode] at hadds
          exact hadds.obeys ih

/-- Dropping a unit adds the end of a transaction that is still open, if there is something to run it. -/
theorem obeys_drop (h : u.workspace.session = Database.session s)
    (hlog : Obeys s u.readOnly u.phase (db.log s)) :
    Obeys s u.readOnly .exhausted ((u.drop true db).log s) := by
  unfold drop
  cases hphase : u.phase with
  | active =>
      rw [hphase] at hlog
      simp only [decide_true, Bool.and_self, if_true, log_rollbackTransaction h]
      have hadds : Adds s u.readOnly .rollback .active .exhausted _ := .rolledBack
      exact hadds.obeys hlog
  | notEntered =>
      rw [hphase] at hlog
      have hadds : Adds s u.readOnly .close .notEntered .exhausted _ := .closedUnused
      have hclosed := hadds.obeys hlog
      rw [List.append_nil] at hclosed
      simpa using hclosed
  | exhausted =>
      rw [hphase] at hlog
      simpa using hlog

theorem protocol_of_obeys {st : UnitOfWork Database × Database}
    (h : st.1.workspace.session = Database.session s)
    (hlog : Obeys s st.1.readOnly st.1.phase (st.2.log s)) : Protocol s st.1.readOnly st := by
  have hcall := adds_call h
  obtain ⟨u, db⟩ := st
  refine ⟨hlog, obeys_drop h hlog, ?_, ?_, ?_, ?_, ?_, ?_, ?_⟩
  · simp [drop]
  · intro c
    obtain ⟨new, hadds, -⟩ := hcall c
    exact hadds.moves
  · intro c
    obtain ⟨new, hadds, hnew⟩ := hcall c
    exact ⟨new, hnew, hadds.not_isSaved⟩
  · intro hphase
    have hcheck := checkActive_of_notEntered hphase
    exact ⟨unreadable_of_checkActive hcheck, fun c hc hc' => refuses_of_checkActive hcheck hc hc' db⟩
  · intro hphase
    exact refuses_enter_of_active hphase db
  · intro hphase
    exact ⟨unreadable_of_checkActive (checkActive_of_exhausted hphase),
      fun c hc => refuses_of_exhausted hphase hc db, (close_of_exhausted hphase db).1⟩
  · intro hphase later hapart
    have hphase : u.phase = .exhausted := hphase
    obtain ⟨hunit, hsame⟩ := after_of_exhausted hphase hapart db
    refine ⟨by rw [hunit, hphase], hsame, fun running => ?_⟩
    rw [hunit, drop, hphase]
    exact hsame

theorem createWaiting_inMemory {shop : Shop Database}
    (h : shop.openSession = (Shop.inMemory shop.order shop.settings).openSession)
    (plan : Option Plan) (wait : UInt64) (db : Database) :
    ∃ w : Workspace Database, w.session = Database.session (db.opened + 1)
      ∧ w.readOnly = shop.isReadOnly plan ∧ w.set = .empty
      ∧ shop.createWaiting plan wait db
          = (.ok (create w plan shop.onNowait), { db with opened := db.opened + 1 }) := by
  refine ⟨{ Workspace.create (Database.session (db.opened + 1)) shop.order (shop.isReadOnly plan)
    with strict := shop.settings.strict }, rfl, rfl, rfl, ?_⟩
  simp only [Shop.createWaiting, h]
  rfl

/-- A unit of work follows the transaction protocol.

A shop opens it over a database that has been through anything, and it takes any course, while loads and
saves are made to fail and other sessions use the database. -/
theorem transaction_protocol {shop : Shop Database} {past : List Database.Step}
    {plan : Option Plan} {wait : UInt64} {course : List Turn}
    (hshop : shop.openSession = (Shop.inMemory shop.order shop.settings).openSession)
    (hunused : ∀ st ∈ past, st.session? ≠ some ((Database.empty.after past).opened + 1))
    (hcreate : shop.createWaiting plan wait (Database.empty.after past) = (.ok u, db))
    (hapart : Apart ((Database.empty.after past).opened + 1) course) :
    Protocol ((Database.empty.after past).opened + 1) (shop.isReadOnly plan)
      (after (u, db) course) := by
  obtain ⟨w, hsession, hmode, -, hmade⟩ := createWaiting_inMemory hshop plan wait
    (Database.empty.after past)
  rw [hmade] at hcreate
  obtain ⟨hu, hdb⟩ := Prod.mk.inj hcreate
  obtain rfl := Except.ok.inj hu
  have hempty : db.log ((Database.empty.after past).opened + 1) = [] := by
    rw [← hdb]
    exact Database.log_after_of_foreign hunused Database.empty
  have hlog : Obeys ((Database.empty.after past).opened + 1) w.readOnly .notEntered
      (db.log ((Database.empty.after past).opened + 1)) := by
    rw [hempty]
    cases w.readOnly with
    | true => exact fun _ he => absurd he List.not_mem_nil
    | false => rfl
  obtain ⟨hsession', hmode'⟩ := after_stays (u := create w plan shop.onNowait) hsession db course
  have hprotocol := protocol_of_obeys hsession' (by
    rw [hmode']
    exact obeys_after (u := create w plan shop.onNowait) hsession hlog hapart)
  rw [hmode'] at hprotocol
  rw [← hmode]
  exact hprotocol

/-- A unit is opened for writing, inserts a product, commits, and is asked to enter again, while another
session begins. -/
theorem protocol_of_committed_unit :
    ∃ u db course, (Shop.inMemory .standard .standard).createWaiting (some (.empty true)) 1500
        (Database.empty.after [.openSession]) = (.ok u, db)
      ∧ course = [.call .enter, .call .commit,
          .call (.edit (.insert (.product ⟨.sequential 0, "Widget", "W-1", 10, 250⟩))),
          .aside (.start 1), .call .enter]
      ∧ Protocol 2 false (after (u, db) course)
      ∧ (after (u, db) course).1.phase = .exhausted
      ∧ (after (u, db) course).2.log 2 = [.begun 2, .saved 2 .product 1 0 0, .committed 2] := by
  have hunused : ∀ st ∈ [Database.Step.openSession],
      st.session? ≠ some ((Database.empty.after [.openSession]).opened + 1) := by
    simp [Database.Step.session?]
  have hcreate : (Shop.inMemory .standard .standard).createWaiting (some (.empty true)) 1500
      (Database.empty.after [.openSession]) = (.ok _, _) := rfl
  have hapart : Apart 2 [.call .enter, .call .commit,
      .call (.edit (.insert (.product ⟨.sequential 0, "Widget", "W-1", 10, 250⟩))),
      .aside (.start 1), .call .enter] := by
    simp [Apart, Database.Step.session?]
  exact ⟨_, _, _, hcreate, rfl, transaction_protocol rfl hunused hcreate hapart, rfl, rfl⟩

end UnitOfWork

end Stockroom
