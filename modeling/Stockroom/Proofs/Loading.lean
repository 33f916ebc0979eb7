import Stockroom.Proofs.Edit
import Stockroom.Proofs.History
import Stockroom.Workspace

/-!
# What loading touches

Running a plan reads rows and puts what they hold into the working set. All it does to the database is
to load, and it takes no snapshot (`Workspace.load_loads`); the plan it leaves active has the kinds and
the locks of the plan it was given (`Workspace.load_ok`). A run that fails half-way is no different.
-/

namespace Stockroom

/-- The kinds a plan loads, in order, each with the lock it takes. -/
def Plan.locks (p : Plan) : List (Kind × LockMode) := p.entries.map fun e => (e.kind, e.lock)

theorem Database.session_load (s : Nat) (q : Query) :
    (Database.session s).load q = Database.load s q.kind q := by
  simp [Session.load, Database.session, Database.repository]

namespace Workspace

/-! ## Queries -/

variable {s : Nat} {strict : Bool}

/-- What the entries of a plan may do to a working set and a database. -/
structure Fills (s : Nat) (st st' : WorkingSet × Database) : Prop where
  runs : st.2.Runs (Database.Step.IsLoad s) st'.2
  baseline : st'.1.baseline = st.1.baseline
  presave : st'.1.presave = st.1.presave
  coherent : st.1.Coherent → st'.1.Coherent

theorem Fills.refl (st : WorkingSet × Database) : Fills s st st :=
  ⟨Database.Runs.refl _ _, rfl, rfl, id⟩

theorem Fills.trans {st st' st'' : WorkingSet × Database} (h : Fills s st st')
    (h' : Fills s st' st'') : Fills s st st'' where
  runs := h.runs.trans h'.runs
  baseline := h'.baseline.trans h.baseline
  presave := h'.presave.trans h.presave
  coherent hc := h'.coherent (h.coherent hc)

theorem fetch_runs (q : Query) (db : Database) :
    db.Runs (Database.Step.IsLoad s) (fetch (Database.session s) q db).2 := by
  unfold fetch
  split
  · exact Database.Runs.refl _ _
  · rw [Database.session_load]
    exact Database.Runs.single (.load s q.kind q) (P := Database.Step.IsLoad s) rfl db

theorem putMany_fills (k : Kind) (es : List Entity) (w : WorkingSet) {db db' : Database}
    (h : db.Runs (Database.Step.IsLoad s) db') :
    Fills s (w, db) ((WorkingSet.putMany k es w).2, db') where
  runs := h
  baseline := WorkingSet.putMany_induction (P := fun w' => w'.baseline = w.baseline)
    (fun _ _ h => h) es rfl
  presave := WorkingSet.putMany_induction (P := fun w' => w'.presave = w.presave)
    (fun _ _ h => h) es rfl
  coherent := WorkingSet.putMany_induction (fun _ e h => h.insert e) es

theorem runQuery_fills (s : Nat) (strict : Bool) (q : Query) (st : WorkingSet × Database) :
    Fills s st (runQuery (Database.session s) strict q st).2 := by
  obtain ⟨w, db⟩ := st
  have hruns := fetch_runs (s := s) q db
  simp only [runQuery]
  split
  · rename_i f db' hfetch
    rw [hfetch] at hruns
    exact ⟨hruns, rfl, rfl, id⟩
  · rename_i es db' hfetch
    rw [hfetch] at hruns
    have hput := putMany_fills q.kind es w hruns
    split
    · rename_i f w' hw'
      rw [hw'] at hput
      exact hput
    · rename_i w' hw'
      rw [hw'] at hput
      split <;> exact hput

/-! ## Plans -/

theorem runEntries_fills (s : Nat) (strict : Bool) (ran rest : List Plan.Entry)
    (st : WorkingSet × Database) :
    Fills s st (runEntries (Database.session s) strict ran rest st).2 := by
  induction rest generalizing ran st with
  | nil => exact Fills.refl st
  | cons e rest ih =>
      obtain ⟨w, db⟩ := st
      simp only [runEntries]
      split
      · exact Fills.refl _
      · split
        · exact Fills.refl _
        · rename_i q _
          have hquery := runQuery_fills s strict q (w, db)
          split
          · rename_i f st' hrun
            rw [hrun] at hquery
            exact hquery
          · rename_i found st' hrun
            rw [hrun] at hquery
            exact hquery.trans (ih _ _)

/-- An entry that has run has the kind and the lock it had. -/
theorem runEntries_locks {ran rest es : List Plan.Entry} {st st' : WorkingSet × Database}
    (h : runEntries (Database.session s) strict ran rest st = (.ok es, st')) :
    es.map (fun e => (e.kind, e.lock)) = (ran ++ rest).map fun e => (e.kind, e.lock) := by
  induction rest generalizing ran st with
  | nil =>
      obtain ⟨hes, -⟩ := Prod.mk.inj h
      rw [Except.ok.inj hes, List.append_nil]
  | cons e rest ih =>
      obtain ⟨w, db⟩ := st
      simp only [runEntries] at h
      split at h
      · cases h
      · split at h
        · cases h
        · split at h
          · cases h
          · simpa using ih h

variable {m m' : Workspace Database} {db db' : Database} {p : Plan}

/-- Running a plan fills the working set and touches nothing else of the workspace but its plan. -/
structure Loads (s : Nat) (st st' : Workspace Database × Database) : Prop where
  session : st'.1.session = st.1.session
  order : st'.1.order = st.1.order
  readOnly : st'.1.readOnly = st.1.readOnly
  fills : Fills s (st.1.set, st.2) (st'.1.set, st'.2)

theorem Loads.refl (st : Workspace Database × Database) : Loads s st st :=
  ⟨rfl, rfl, rfl, Fills.refl _⟩

theorem load_loads (h : m.session = Database.session s) (p : Plan) (db : Database) :
    Loads s (m, db) (load p (m, db)).2 := by
  have hfills := runEntries_fills s m.strict [] p.entries (m.set, db)
  rw [← h] at hfills
  simp only [load]
  split
  · rename_i f w db' hrun
    rw [hrun] at hfills
    exact ⟨rfl, rfl, rfl, hfills⟩
  · rename_i es w db' hrun
    rw [hrun] at hfills
    split
    · exact ⟨rfl, rfl, rfl, hfills⟩
    · exact ⟨rfl, rfl, rfl, hfills⟩

/-- A plan that ran is the active one, with the locks it was given, and is made for the mode of the
workspace. -/
theorem load_ok (h : m.session = Database.session s)
    (hload : load p (m, db) = (.ok (), m', db')) :
    ∃ p', m'.plan = some p' ∧ p'.locks = p.locks ∧ p'.mutating = p.mutating
      ∧ p.mutating = !m.readOnly := by
  simp only [load] at hload
  split at hload
  · cases hload
  · rename_i es w db' hrun
    rw [h] at hrun
    split at hload
    · cases hload
    · rename_i hmode
      obtain ⟨-, hload⟩ := Prod.mk.inj hload
      obtain ⟨rfl, -⟩ := Prod.mk.inj hload
      exact ⟨_, rfl, runEntries_locks hrun, rfl, Bool.eq_not.mpr (Ne.symm hmode)⟩

/-- A plan that could not be run leaves the one that was active. -/
theorem load_error {f : Failure} (hload : load p (m, db) = (.error f, m', db')) :
    m'.plan = m.plan := by
  simp only [load] at hload
  split at hload
  · obtain ⟨-, hload⟩ := Prod.mk.inj hload
    obtain ⟨rfl, -⟩ := Prod.mk.inj hload
    rfl
  · split at hload
    · obtain ⟨-, hload⟩ := Prod.mk.inj hload
      obtain ⟨rfl, -⟩ := Prod.mk.inj hload
      rfl
    · cases hload

end Workspace

end Stockroom
