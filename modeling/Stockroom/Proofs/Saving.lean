import Stockroom.Proofs.Loading

/-!
# What saving writes

Saving compares the baseline with the working set as it is, asks the policy, and stages the deltas kind
after kind. No kind comes twice (`Changes.nodup_inWriteOrder`), so from an empty staging area each kind
is staged whole, and what a commit then publishes is the difference of the two snapshots and nothing
else (`Database.find?_published`). A save that fails may have staged some kinds already, but has committed
nothing (`Workspace.save_keeps`).
-/

namespace Stockroom

/-! ## The policy -/

namespace Plan

variable {p : Plan} {c : Changes} {k : Kind}

/-- The plan takes an exclusive lock on a kind. -/
def LocksExclusively (p : Plan) (k : Kind) : Prop := ∃ m, (k, m) ∈ p.locks ∧ m.isExclusive

theorem breach?_of_permit (h : p.permit c = .ok ()) (k : Kind) :
    p.breach? k (c.get k) = none := by
  unfold permit at h
  split at h
  · cases h
  · rename_i hnone
    simpa using List.findSome?_eq_none_iff.mp hnone k (Kind.mem_all k)

/-- Updates and deletions are admitted under an exclusive lock only. -/
theorem locksExclusively_of_breach? {d : Delta} (h : p.breach? k d = none)
    (hchange : d.updated ≠ [] ∨ d.deleted ≠ []) : p.LocksExclusively k := by
  unfold breach? at h
  split at h
  · rename_i hempty
    obtain ⟨-, hu, hd⟩ := Delta.isEmpty_iff.mp hempty
    exact absurd hchange (by simp [hu, hd])
  · split at h
    · cases h
    · split at h
      · rename_i hkeep
        simp only [Bool.and_eq_true, List.isEmpty_iff] at hkeep
        exact absurd hchange (by simp [hkeep.1, hkeep.2])
      · split at h
        · cases h
        · rename_i e he
          split at h
          · rename_i hlock
            refine ⟨e.lock, List.mem_map.mpr ⟨e, List.mem_of_find?_eq_some he, ?_⟩, hlock⟩
            have hkind : e.kind = k := by simpa using List.find?_some he
            rw [hkind]
          · cases h

theorem locksExclusively_of_permit (h : p.permit c = .ok ())
    (hchange : (c.get k).updated ≠ [] ∨ (c.get k).deleted ≠ []) : p.LocksExclusively k :=
  locksExclusively_of_breach? (breach?_of_permit h k) hchange

end Plan

/-! ## The deltas, in the order of writing -/

namespace Changes

variable {c : Changes} {o : LockOrder}

theorem mem_inWriteOrder {k : Kind} {d : Delta} :
    (k, d) ∈ c.inWriteOrder o ↔ d = c.get k ∧ d.isEmpty = false := by
  simp only [inWriteOrder, List.mem_map, List.mem_filter, Bool.not_eq_true', Prod.mk.injEq]
  constructor
  · rintro ⟨l, ⟨-, hne⟩, rfl, rfl⟩
    exact ⟨rfl, hne⟩
  · rintro ⟨rfl, hne⟩
    exact ⟨k, ⟨o.mem_backward k, hne⟩, rfl, rfl⟩

theorem map_fst_inWriteOrder (c : Changes) (o : LockOrder) :
    (c.inWriteOrder o).map Prod.fst = o.backward.filter fun k => !(c.get k).isEmpty := by
  rw [inWriteOrder, List.map_map]
  exact List.map_id _

theorem nodup_inWriteOrder (c : Changes) (o : LockOrder) :
    ((c.inWriteOrder o).map Prod.fst).Nodup := by
  rw [map_fst_inWriteOrder]
  exact o.nodup_backward.filter _

end Changes

/-! ## Staging -/

namespace Database

variable {s : Nat} {db db' : Database}

theorem session_save_cons (s : Nat) (k : Kind) (d : Delta) (rest : List (Kind × Delta))
    (db : Database) :
    (session s).save ((k, d) :: rest) db
      = match save s k d db with
        | (.ok (), db) => (session s).save rest db
        | (.error e, db) => (.error e, db) := by
  have hrepo : (session s).repositories.get k = repository s k := PerKind.get_tabulate _ _
  rw [Session.save, hrepo]
  rcases hsave : save s k d db with ⟨r, db'⟩
  rw [show (repository s k).save d db = (r, db') from hsave]
  cases r <;> rfl

/-- Saving deltas is a run of saves, also if one of them fails. -/
theorem session_save_runs (s : Nat) (deltas : List (Kind × Delta)) (db : Database) :
    db.Runs (Step.Silent s) ((session s).save deltas db).2 := by
  induction deltas generalizing db with
  | nil => exact Runs.refl _ _
  | cons kd rest ih =>
      obtain ⟨k, d⟩ := kd
      have hfirst := Runs.silent (s := s) (.save s k d) rfl db
      rw [step] at hfirst
      rw [session_save_cons]
      split
      · rename_i db' hsave
        rw [hsave] at hfirst
        exact hfirst.trans (ih db')
      · rename_i e db' hsave
        rw [hsave] at hfirst
        exact hfirst

/-- Saving deltas is saving the first and then the others. -/
theorem session_save_cons_ok {k : Kind} {d : Delta} {rest : List (Kind × Delta)}
    (h : (session s).save ((k, d) :: rest) db = (.ok (), db')) :
    ∃ mid, (session s).save rest mid = (.ok (), db')
      ∧ mid.staged s = (db.staged s).set k (((db.staged s).get k).stage d) := by
  rw [session_save_cons] at h
  rcases save_cases db s k d with ⟨e, -, hfail, -⟩ | ⟨-, -, hstaged⟩
  · split at h
    · rename_i mid hsave
      rw [hsave] at hfail
      cases hfail
    · cases h
  · split at h
    · rename_i mid hsave
      rw [hsave] at hstaged
      exact ⟨mid, h, hstaged⟩
    · cases h

theorem staged_session_save_of_not_mem {deltas : List (Kind × Delta)} {k : Kind}
    (h : (session s).save deltas db = (.ok (), db')) (hk : k ∉ deltas.map Prod.fst) :
    (db'.staged s).get k = (db.staged s).get k := by
  induction deltas generalizing db with
  | nil =>
      obtain ⟨-, rfl⟩ := Prod.mk.inj h
      rfl
  | cons ld rest ih =>
      obtain ⟨l, d⟩ := ld
      obtain ⟨mid, hrest, hmid⟩ := session_save_cons_ok h
      obtain ⟨hkl, hk⟩ := not_or.mp (mt List.mem_cons.mpr hk)
      rw [ih hrest hk, hmid, PerKind.get_set, if_neg hkl]

/-- Once all deltas are saved, each kind has its delta staged. -/
theorem staged_session_save {deltas : List (Kind × Delta)} {k : Kind} {d : Delta}
    (h : (session s).save deltas db = (.ok (), db')) (hnodup : (deltas.map Prod.fst).Nodup)
    (hmem : (k, d) ∈ deltas) :
    (db'.staged s).get k = ((db.staged s).get k).stage d := by
  induction deltas generalizing db with
  | nil => cases hmem
  | cons ld rest ih =>
      obtain ⟨l, d'⟩ := ld
      obtain ⟨mid, hrest, hmid⟩ := session_save_cons_ok h
      obtain ⟨hl, hnodup⟩ := List.nodup_cons.mp hnodup
      rcases List.mem_cons.mp hmem with heq | hmem
      · obtain ⟨rfl, rfl⟩ := Prod.mk.inj heq
        rw [staged_session_save_of_not_mem hrest hl, hmid, PerKind.get_set, if_pos rfl]
      · have hkl : k ≠ l := fun hkl =>
          hl (hkl ▸ List.mem_map.mpr ⟨(k, d), hmem, rfl⟩)
        rw [ih hrest hnodup hmem, hmid, PerKind.get_set, if_neg hkl]

/-- What is staged for a row is the last write of the delta of its kind, or else what was staged. -/
theorem find?_session_save {c : Changes} {o : LockOrder}
    (h : (session s).save (c.inWriteOrder o) db = (.ok (), db')) (k : Kind) (i : Ident) :
    ((db'.staged s).get k).find? i
      = ((c.get k).lastWrite? i).or (((db.staged s).get k).find? i) := by
  by_cases hempty : (c.get k).isEmpty = true
  · have hk : k ∉ (c.inWriteOrder o).map Prod.fst := by
      intro hk
      obtain ⟨⟨l, d⟩, hmem, rfl⟩ := List.mem_map.mp hk
      obtain ⟨rfl, hne⟩ := Changes.mem_inWriteOrder.mp hmem
      rw [hempty] at hne
      cases hne
    obtain ⟨hc, hu, hd⟩ := Delta.isEmpty_iff.mp hempty
    rw [staged_session_save_of_not_mem h hk]
    simp [Delta.lastWrite?, Delta.writes, hc, hu, hd, Table.lookup]
  · have hmem : (k, c.get k) ∈ c.inWriteOrder o :=
      Changes.mem_inWriteOrder.mpr ⟨rfl, by simpa using hempty⟩
    rw [staged_session_save h (Changes.nodup_inWriteOrder c o) hmem, Writes.find?_stage]

/-- Saving a difference stages the later row wherever the snapshots differ, and leaves what is staged
for the other rows. -/
theorem find?_staged_changesTo {B L : Snapshot} {o : LockOrder}
    (h : (session s).save ((B.changesTo L).inWriteOrder o) db = (.ok (), db')) (k : Kind) (i : Ident) :
    ((db'.staged s).get k).find? i
      = if B.find? k i = L.find? k i then ((db.staged s).get k).find? i else some (L.find? k i) := by
  rw [find?_session_save h, Snapshot.changesTo, PerKind.get_tabulate, Delta.lastWrite?_between]
  by_cases heq : B.find? k i = L.find? k i
  · rw [if_pos heq, if_pos (show (B.rows k).find? i = (L.rows k).find? i from heq)]
    rfl
  · rw [if_neg heq, if_neg (show (B.rows k).find? i ≠ (L.rows k).find? i from heq)]
    rfl

/-- What a commit publishes of a saved difference: the rows on which the snapshots differ become
those of the later one. -/
theorem find?_published {B L : Snapshot} {o : LockOrder} (hclear : db.staged s = .fill .empty)
    (h : (session s).save ((B.changesTo L).inWriteOrder o) db = (.ok (), db'))
    (k : Kind) (i : Ident) :
    ((commit s db').2.tables.get k).find? i
      = if B.find? k i = L.find? k i then (db.tables.get k).find? i else L.find? k i := by
  have htables : db'.tables = db.tables := by
    have hruns := session_save_runs s ((B.changesTo L).inWriteOrder o) db
    rw [h] at hruns
    exact hruns.tables
  rw [get_commit_tables, find?_view, find?_staged_changesTo h, hclear, PerKind.get_fill, htables]
  split
  · simp
  · rfl

end Database

/-! ## Saving a workspace -/

namespace Workspace

variable {s : Nat} {m m' : Workspace Database} {db db' : Database}

/-- Whatever saving comes to, nothing was committed, and the workspace is on its session and in its
mode. -/
structure Keeps (s : Nat) (st st' : Workspace Database × Database) : Prop where
  session : st'.1.session = st.1.session
  readOnly : st'.1.readOnly = st.1.readOnly
  runs : st.2.Runs (Database.Step.Silent s) st'.2

theorem takeSnapshot_ok (h : m.takeSnapshot = .ok m') :
    ∃ w, m.set.takeSnapshot = .ok w ∧ m' = { m with set := w } := by
  unfold takeSnapshot at h
  cases hw : m.set.takeSnapshot with
  | error e =>
      rw [hw] at h
      cases h
  | ok w =>
      rw [hw] at h
      exact ⟨w, rfl, (Except.ok.inj h).symm⟩

theorem save_keeps (h : m.session = Database.session s) (db : Database) :
    Keeps s (m, db) (save (m, db)).2 := by
  simp only [save]
  split
  · exact ⟨rfl, rfl, Database.Runs.refl _ _⟩
  · rename_i m₁ htake
    obtain ⟨w, -, rfl⟩ := takeSnapshot_ok htake
    split
    · exact ⟨rfl, rfl, Database.Runs.refl _ _⟩
    · rename_i c _
      split
      · exact ⟨rfl, rfl, Database.Runs.refl _ _⟩
      · have hruns := Database.session_save_runs s (c.inWriteOrder m.order) db
        rw [← h] at hruns
        split
        · rename_i e db' hsave
          rw [hsave] at hruns
          exact ⟨rfl, rfl, hruns⟩
        · rename_i db' hsave
          rw [hsave] at hruns
          exact ⟨rfl, rfl, hruns⟩

/-- Once a snapshot is taken to be saved, the changes are those since the baseline, which is the same
snapshot if there was none. -/
theorem changes_of_takeSnapshot (hpresave : m.set.presave = none) :
    ∃ w, m.takeSnapshot = .ok { m with set := w }
      ∧ w.changes = .ok ((m.set.baseline.getD m.set.capture).changesTo m.set.capture) := by
  unfold takeSnapshot
  rcases m.set.takeSnapshot_cases with ⟨hb, -, htake⟩ | ⟨hb, -, htake⟩ | ⟨hp, -⟩
  · refine ⟨_, by rw [htake]; rfl, ?_⟩
    rw [hb]
    simp only [WorkingSet.changes, hpresave]
    rfl
  · obtain ⟨B, hB⟩ := Option.isSome_iff_exists.mp hb
    refine ⟨_, by rw [htake]; rfl, ?_⟩
    rw [hB]
    simp only [WorkingSet.changes]
    rfl
  · rw [hpresave] at hp
    cases hp

/-- Saving asks the policy and then saves the changes, as long as there is a snapshot to be taken. -/
theorem save_eq (hpresave : m.set.presave = none) (db : Database) :
    ∃ m', save (m, db)
      = match m.policy.permit ((m.set.baseline.getD m.set.capture).changesTo m.set.capture) with
        | .error e => (.error (.unit e), m', db)
        | .ok () =>
          let deltas :=
            ((m.set.baseline.getD m.set.capture).changesTo m.set.capture).inWriteOrder m.order
          match m.session.save deltas db with
          | (.error e, db) => (.error (.ofStore e), m', db)
          | (.ok (), db) => (.ok deltas, m', db) := by
  obtain ⟨w, htake, hchanges⟩ := changes_of_takeSnapshot hpresave
  generalize (m.set.baseline.getD m.set.capture).changesTo m.set.capture = c at hchanges
  have hpolicy : policy { m with set := w } = m.policy := rfl
  refine ⟨{ m with set := w }, ?_⟩
  simp only [save, htake, hchanges, hpolicy]
  cases m.policy.permit c with
  | error e => rfl
  | ok _ =>
      dsimp only
      rcases m.session.save (c.inWriteOrder m.order) db with ⟨_ | _, db'⟩
      all_goals rfl

/-- A save that succeeds has saved what changed from the baseline to the working set as it is, with
the policy's leave. -/
theorem save_ok {deltas : List (Kind × Delta)} (h : save (m, db) = (.ok deltas, m', db')) :
    m.set.presave = none
      ∧ m.policy.permit
          ((m.set.baseline.getD m.set.capture).changesTo m.set.capture) = .ok ()
      ∧ deltas
          = ((m.set.baseline.getD m.set.capture).changesTo m.set.capture).inWriteOrder m.order
      ∧ m.session.save deltas db = (.ok (), db') := by
  have hpresave : m.set.presave = none := by
    rcases m.set.takeSnapshot_cases with ⟨-, hp, -⟩ | ⟨-, hp, -⟩ | ⟨-, htake⟩
    · exact hp
    · exact hp
    · have hfails : m.takeSnapshot = .error .snapshotsExhausted := by
        rw [takeSnapshot, htake]
        rfl
      simp only [save, hfails] at h
      cases h
  obtain ⟨m₁, hsave⟩ := save_eq hpresave db
  rw [hsave] at h
  split at h
  · cases h
  · rename_i hpermit
    dsimp only at h
    split at h
    · cases h
    · rename_i db₁ hsaved
      obtain ⟨hdeltas, h⟩ := Prod.mk.inj h
      obtain ⟨-, rfl⟩ := Prod.mk.inj h
      obtain rfl := Except.ok.inj hdeltas
      exact ⟨hpresave, hpermit, rfl, hsaved⟩

end Workspace

end Stockroom
