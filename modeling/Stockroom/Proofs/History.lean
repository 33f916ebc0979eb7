import Stockroom.Proofs.Delta

/-!
# Histories of a database

Everything that happens to a database is a sequence of steps: seeds, arranged failures, and the steps
of any number of sessions in any order. A history lists them **latest first**, so that a longer run is
a history with another step in front, and `Database.after` runs one.

What a history leaves behind can be read off it without running it. A session's write set is the last
write to each row that it saved since it last began, committed or rolled back
(`History.lastWrite`), and a committed row is what the latest seed of it or the latest commit with a
write to it put there (`History.committedRow`). A save that a pending failure turns away is no save;
`Database.accepted` leaves such saves out. `Database.find?_staged_after` and
`Database.find?_tables_after` say that running the steps comes to the same.
-/

namespace Stockroom

namespace Database

/-- One thing that happens to a database; the steps of a session carry its number. -/
inductive Step where
  | seed (e : Entity)
  | failNextLoad (k : Kind) (c : Contention)
  | failNextSave (k : Kind) (e : StoreError)
  | openSession
  | freshIdent
  | start (s : Nat)
  | load (s : Nat) (k : Kind) (q : Query)
  | save (s : Nat) (k : Kind) (d : Delta)
  | commit (s : Nat)
  | rollback (s : Nat)

/-- The session that takes a step. -/
def Step.session? : Step → Option Nat
  | .start s | .load s _ _ | .save s _ _ | .commit s | .rollback s => some s
  | _ => none

/-- The database a step leaves behind, whatever it answers. -/
def step (db : Database) : Step → Database
  | .seed e => db.seed e
  | .failNextLoad k c => db.failNextLoad k c
  | .failNextSave k e => db.failNextSave k e
  | .openSession => db.openSession.2
  | .freshIdent => db.freshIdent.2
  | .start s => (start s db).2
  | .load s k q => (load s k q db).2
  | .save s k d => (save s k d db).2
  | .commit s => (commit s db).2
  | .rollback s => (rollback s db).2

/-- The database after a history. -/
def after (db : Database) : List Step → Database
  | [] => db
  | st :: past => (db.after past).step st

theorem after_append (db : Database) (later past : List Step) :
    db.after (later ++ past) = (db.after past).after later := by
  induction later with
  | nil => rfl
  | cons st later ih => rw [List.cons_append, after, after, ih]

/-- No session has staged a write. -/
def Idle (db : Database) : Prop := ∀ s, db.staged s = .fill .empty

/-! ## What a single step does to the rows -/

section Fields

variable (db : Database) (s t : Nat) (k : Kind)

@[simp] theorem record_staged (e : Event) : (db.record e).staged = db.staged := rfl

theorem setStaged_staged (w : PerKind Writes) :
    (db.setStaged s w).staged t = if t = s then w else db.staged t := rfl

theorem start_staged :
    (start s db).2.staged t = if t = s then .fill .empty else db.staged t := rfl

theorem rollback_staged :
    (rollback s db).2.staged t = if t = s then .fill .empty else db.staged t := rfl

theorem commit_staged :
    (commit s db).2.staged t = if t = s then .fill .empty else db.staged t := rfl

theorem get_commit_tables : (commit s db).2.tables.get k = db.view s k :=
  PerKind.get_tabulate _ _

/-- A session sees its own last write to a row, or else the committed row. -/
theorem find?_view (i : Ident) :
    (db.view s k).find? i = (((db.staged s).get k).find? i).getD ((db.tables.get k).find? i) :=
  Writes.find?_overlay _ _ _

@[simp] theorem load_tables (q : Query) : (load s k q db).2.tables = db.tables := by
  unfold load
  split
  · rfl
  · split <;> rfl

@[simp] theorem load_staged (q : Query) : (load s k q db).2.staged = db.staged := by
  unfold load
  split
  · rfl
  · split <;> rfl

@[simp] theorem save_tables (d : Delta) : (save s k d db).2.tables = db.tables := by
  unfold save
  split <;> rfl

theorem save_staged_of_ne (d : Delta) (h : t ≠ s) :
    (save s k d db).2.staged t = db.staged t := by
  unfold save
  split
  · rfl
  · simp [setStaged_staged, h]

/-- A save is turned away by a pending failure, or stages the delta behind what is staged. -/
theorem save_cases (d : Delta) :
    (∃ e, db.pendingSaves.get k = some e ∧ (save s k d db).1 = .error e
        ∧ (save s k d db).2.staged = db.staged) ∨
      (db.pendingSaves.get k = none ∧ (save s k d db).1 = .ok ()
        ∧ (save s k d db).2.staged s
            = (db.staged s).set k (((db.staged s).get k).stage d)) := by
  unfold save
  split
  · rename_i e he
    exact Or.inl ⟨e, he, rfl, rfl⟩
  · rename_i hnone
    exact Or.inr ⟨hnone, rfl, by simp [setStaged_staged]⟩

end Fields

/-- Where nothing is staged, every session sees the committed rows. -/
theorem Idle.find?_view {db : Database} (h : db.Idle) (s : Nat) (k : Kind) (i : Ident) :
    (db.view s k).find? i = (db.tables.get k).find? i := by
  rw [Database.find?_view, h s]
  simp

theorem find?_tables_seed (db : Database) (e : Entity) (k : Kind) (i : Ident) :
    ((db.seed e).tables.get k).find? i
      = if k = e.kind ∧ i = e.ident then some e.toRow else (db.tables.get k).find? i := by
  simp only [seed, PerKind.get_set]
  by_cases hk : k = e.kind
  · subst hk
    simp [Table.find?_insert]
  · simp [hk]

/-- What a session has staged is touched by its own steps only. -/
theorem staged_step_of_foreign {db : Database} {s : Nat} {st : Step}
    (h : st.session? ≠ some s) : (db.step st).staged s = db.staged s := by
  cases st with
  | seed e => rfl
  | failNextLoad k c => rfl
  | failNextSave k e => rfl
  | openSession => rfl
  | freshIdent => rfl
  | load t k q => simp only [step, load_staged]
  | start t | commit t | rollback t =>
      have hne : s ≠ t := fun hst => h (by rw [hst]; rfl)
      simp [step, start_staged, commit_staged, rollback_staged, hne]
  | save t k d =>
      exact save_staged_of_ne _ _ _ _ _ fun hst => h (by rw [hst]; rfl)

/-! ## Steps of one sort -/

/-- A load of a session. -/
def Step.IsLoad (s : Nat) : Step → Prop
  | .load t _ _ => t = s
  | _ => False

/-- What a session does short of committing, or a fresh identity. -/
def Step.Silent (s : Nat) : Step → Prop
  | .start t | .load t _ _ | .save t _ _ | .rollback t => t = s
  | .freshIdent => True
  | _ => False

/-- A database comes from another by steps of one sort. -/
def Runs (P : Step → Prop) (db db' : Database) : Prop :=
  ∃ history, (∀ st ∈ history, P st) ∧ db' = db.after history

theorem Runs.refl (P : Step → Prop) (db : Database) : Runs P db db :=
  ⟨[], fun _ hmem => (List.not_mem_nil hmem).elim, rfl⟩

theorem Runs.single {P : Step → Prop} (st : Step) (h : P st) (db : Database) :
    Runs P db (db.step st) :=
  ⟨[st], fun _ hmem => List.mem_singleton.mp hmem ▸ h, rfl⟩

theorem Runs.trans {P : Step → Prop} {db db' db'' : Database} (h : Runs P db db')
    (h' : Runs P db' db'') : Runs P db db'' := by
  obtain ⟨past, hpast, rfl⟩ := h
  obtain ⟨later, hlater, rfl⟩ := h'
  refine ⟨later ++ past, fun st hmem => ?_, (after_append _ _ _).symm⟩
  exact (List.mem_append.mp hmem).elim (hlater st) (hpast st)

theorem Runs.mono {P Q : Step → Prop} {db db' : Database} (hPQ : ∀ st, P st → Q st)
    (h : Runs P db db') : Runs Q db db' := by
  obtain ⟨history, hP, heq⟩ := h
  exact ⟨history, fun st hmem => hPQ st (hP st hmem), heq⟩

theorem Runs.silent {s : Nat} (st : Step) (h : st.Silent s) (db : Database) :
    Runs (Step.Silent s) db (db.step st) := Runs.single st h db

theorem Step.IsLoad.silent {s : Nat} (st : Step) (h : st.IsLoad s) : st.Silent s := by
  cases st with
  | load t k q => exact h
  | _ => exact h.elim

/-- Loads leave what is staged alone. -/
theorem Runs.staged_of_loads {s : Nat} {db db' : Database} (h : Runs (Step.IsLoad s) db db') :
    db'.staged = db.staged := by
  obtain ⟨history, hload, rfl⟩ := h
  induction history with
  | nil => rfl
  | cons st past ih =>
      have ih := ih fun st' hmem => hload st' (List.mem_cons_of_mem _ hmem)
      have hst := hload st (List.mem_cons_self ..)
      cases st with
      | load t k q => exact (load_staged _ _ _ _).trans ih
      | _ => exact hst.elim

/-- No committed row changes in any of the steps short of a commit. -/
theorem tables_after_of_silent {s : Nat} {db : Database} {history : List Step}
    (h : ∀ st ∈ history, st.Silent s) : (db.after history).tables = db.tables := by
  induction history with
  | nil => rfl
  | cons st past ih =>
      have ih := ih fun st' hmem => h st' (List.mem_cons_of_mem _ hmem)
      have hst := h st (List.mem_cons_self ..)
      cases st with
      | start t => exact ih
      | rollback t => exact ih
      | freshIdent => exact ih
      | load t k q => exact (load_tables _ _ _ _).trans ih
      | save t k d => exact (save_tables _ _ _ _).trans ih
      | _ => exact hst.elim

theorem Runs.tables {s : Nat} {db db' : Database} (h : Runs (Step.Silent s) db db') :
    db'.tables = db.tables := by
  obtain ⟨history, hsilent, rfl⟩ := h
  exact tables_after_of_silent hsilent

/-- What a session has staged is left alone by another one. -/
theorem Runs.staged_of_ne {s t : Nat} {db db' : Database} (h : Runs (Step.Silent s) db db')
    (hts : t ≠ s) : db'.staged t = db.staged t := by
  obtain ⟨history, hsilent, rfl⟩ := h
  induction history with
  | nil => rfl
  | cons st past ih =>
      have hforeign : st.session? ≠ some t := by
        have hst := hsilent st (List.mem_cons_self ..)
        cases st with
        | start u | load u _ _ | save u _ _ | rollback u =>
            obtain rfl : u = s := hst
            intro h
            exact hts (Option.some.inj h).symm
        | freshIdent => intro h; cases h
        | _ => exact hst.elim
      rw [after, staged_step_of_foreign hforeign]
      exact ih fun st' hmem => hsilent st' (List.mem_cons_of_mem _ hmem)

/-! ## Reading a history -/

/-- Whether a step is a save that a pending failure turns away. -/
def refuses (db : Database) : Step → Bool
  | .save _ k _ => (db.pendingSaves.get k).isSome
  | _ => false

/-- A history without the saves that were turned away. -/
def accepted (db : Database) : List Step → List Step
  | [] => []
  | st :: past =>
    if (db.after past).refuses st then db.accepted past else st :: db.accepted past

end Database

namespace History

open Database (Step)

/-- The last write to a row that a session saved since it last began, committed or rolled back. -/
def lastWrite (s : Nat) (k : Kind) (i : Ident) : List Step → Option (Option Value)
  | [] => none
  | .start t :: past | .commit t :: past | .rollback t :: past =>
    if t = s then none else lastWrite s k i past
  | .save t l d :: past =>
    if t = s ∧ l = k then (d.lastWrite? i).or (lastWrite s k i past) else lastWrite s k i past
  | _ :: past => lastWrite s k i past

/-- A committed row: what it was at first, with seeds and the write sets of committing sessions
applied in their order. -/
def committedRow (first : Option Value) (k : Kind) (i : Ident) : List Step → Option Value
  | [] => first
  | .seed e :: past =>
    if k = e.kind ∧ i = e.ident then some e.toRow else committedRow first k i past
  | .commit s :: past => (lastWrite s k i past).getD (committedRow first k i past)
  | _ :: past => committedRow first k i past

end History

/-! ## A history says what running it leaves behind -/

namespace Database

open History

variable {db : Database}

theorem find?_staged_after (hidle : db.Idle) (s : Nat) (k : Kind) (i : Ident)
    (past : List Step) :
    (((db.after past).staged s).get k).find? i = lastWrite s k i (db.accepted past) := by
  induction past with
  | nil => simp [after, accepted, lastWrite, hidle s]
  | cons st past ih =>
      cases st with
      | seed e => exact ih
      | failNextLoad l c => exact ih
      | failNextSave l e => exact ih
      | openSession => exact ih
      | freshIdent => exact ih
      | load t l q =>
          simp only [after, step, load_staged]
          exact ih
      | start t | commit t | rollback t =>
          change _ = if t = s then none else lastWrite s k i (db.accepted past)
          simp only [after, step, start_staged, commit_staged, rollback_staged]
          by_cases hst : t = s
          · simp [hst]
          · simpa [hst, Ne.symm hst] using ih
      | save t l d =>
          simp only [after, step, accepted, refuses]
          rcases save_cases (db.after past) t l d with
            ⟨e, he, -, hstaged⟩ | ⟨hnone, -, hstaged⟩
          · simpa [he, hstaged] using ih
          · simp only [hnone, Option.isSome_none, Bool.false_eq_true, if_false, lastWrite]
            by_cases hst : t = s
            · subst hst
              rw [hstaged, PerKind.get_set]
              by_cases hkl : k = l
              · subst hkl
                simp [Writes.find?_stage, ih]
              · simpa [hkl, Ne.symm hkl] using ih
            · rw [save_staged_of_ne _ _ _ _ _ (Ne.symm hst)]
              simpa [hst] using ih

theorem find?_tables_after (hidle : db.Idle) (k : Kind) (i : Ident) (past : List Step) :
    ((db.after past).tables.get k).find? i
      = committedRow ((db.tables.get k).find? i) k i (db.accepted past) := by
  induction past with
  | nil => rfl
  | cons st past ih =>
      cases st with
      | failNextLoad l c => exact ih
      | failNextSave l e => exact ih
      | openSession => exact ih
      | freshIdent => exact ih
      | start t => exact ih
      | rollback t => exact ih
      | load t l q =>
          simp only [after, step, load_tables]
          exact ih
      | save t l d =>
          simp only [after, step, save_tables, accepted]
          split
          · exact ih
          · exact ih
      | seed e =>
          simp only [after, step, find?_tables_seed, ih]
          rfl
      | commit t =>
          simp only [after, step, get_commit_tables, find?_view, find?_staged_after hidle, ih]
          rfl

/-- What a session sees of a row is its own last write, or else the committed row. -/
theorem find?_view_after (hidle : db.Idle) (s : Nat) (k : Kind) (i : Ident) (past : List Step) :
    ((db.after past).view s k).find? i
      = (lastWrite s k i (db.accepted past)).getD
          (committedRow ((db.tables.get k).find? i) k i (db.accepted past)) := by
  rw [find?_view, find?_staged_after hidle, find?_tables_after hidle]

end Database

end Stockroom
