import Stockroom.Proofs.History

/-!
# Sessions are isolated

Sessions of one database meet in the committed rows only. A session learns of another one's saves when
that session commits, and never of those it gives up.

`History.heardBy s` leaves out of a history what session `s` cannot hear: the saves of other sessions
that are not committed later on, and the rollbacks of other sessions. Whether a save is committed is
decided by what its session does next (`History.commitsNext`), so the filter carries the later steps
along. Both readings of a history survive it - the session's own last writes
(`lastWrite_heardBy_self`) and the committed rows (`committedRow_heardBy`), the latter because the
write set of a session that commits next is kept whole and every other one is lost anyway
(`lastWrite_heardBy_of_ne`).
-/

namespace Stockroom

namespace History

open Database (Step)

/-! ## What a session cannot hear -/

/-- Whether a session commits before it begins or rolls back, in steps given earliest first. -/
def commitsNext (t : Nat) : List Step → Bool
  | [] => false
  | .commit u :: later => if u = t then true else commitsNext t later
  | .start u :: later | .rollback u :: later => if u = t then false else commitsNext t later
  | _ :: later => commitsNext t later

/-- Whether a step is one that session `s` cannot hear, given the steps after it. -/
def unheard (s : Nat) (later : List Step) : Step → Bool
  | .save t _ _ => t ≠ s && !commitsNext t later
  | .rollback t => t ≠ s
  | _ => false

/-- A history without what session `s` cannot hear, given the steps after it. -/
def heardBy (s : Nat) (later : List Step) : List Step → List Step
  | [] => []
  | st :: past =>
    if unheard s later st then heardBy s (st :: later) past
    else st :: heardBy s (st :: later) past

/-! ## Nothing it reads is lost -/

variable {s t : Nat} {k : Kind} {i : Ident}

theorem lastWrite_heardBy_self (later past : List Step) :
    lastWrite s k i (heardBy s later past) = lastWrite s k i past := by
  induction past generalizing later with
  | nil => rfl
  | cons st past ih =>
      cases st with
      | save u l d =>
          by_cases hus : u = s
          · simp [heardBy, unheard, lastWrite, hus, ih]
          · simp only [heardBy, lastWrite]
            split <;> simp [lastWrite, hus, ih]
      | rollback u =>
          by_cases hus : u = s
          · simp [heardBy, unheard, lastWrite, hus]
          · simp [heardBy, unheard, lastWrite, hus, ih]
      | start u | commit u =>
          simp [heardBy, unheard, lastWrite, ih]
      | _ => exact ih _

/-- The write set of another session is kept if it is committed next, and lost else. -/
theorem lastWrite_heardBy_of_ne (hts : t ≠ s) (later past : List Step) :
    lastWrite t k i (heardBy s later past)
      = if commitsNext t later then lastWrite t k i past else none := by
  induction past generalizing later with
  | nil => simp [heardBy, lastWrite]
  | cons st past ih =>
      cases st with
      | save u l d =>
          have hnext : commitsNext t (.save u l d :: later) = commitsNext t later := rfl
          by_cases hut : u = t
          · subst hut
            cases hc : commitsNext u later with
            | true => simp [heardBy, unheard, lastWrite, hc, ih, hnext]
            | false => simp [heardBy, unheard, hts, hc, ih, hnext]
          · simp only [heardBy]
            split <;> simp [lastWrite, hut, ih, hnext]
      | rollback u =>
          by_cases hut : u = t
          · simp [heardBy, unheard, lastWrite, hts, hut, ih, commitsNext]
          · simp only [heardBy]
            split <;> simp [lastWrite, hut, ih, commitsNext]
      | start u | commit u =>
          by_cases hut : u = t <;> simp [heardBy, unheard, lastWrite, hut, ih, commitsNext]
      | _ => exact ih _

theorem committedRow_heardBy (first : Option Value) (later past : List Step) :
    committedRow first k i (heardBy s later past) = committedRow first k i past := by
  induction past generalizing later with
  | nil => rfl
  | cons st past ih =>
      cases st with
      | commit u =>
          simp only [heardBy, unheard, Bool.false_eq_true, if_false, committedRow, ih]
          by_cases hus : u = s
          · rw [hus, lastWrite_heardBy_self]
          · simp [lastWrite_heardBy_of_ne hus, commitsNext]
      | save u l d =>
          simp only [heardBy]
          split <;> simp [committedRow, ih]
      | rollback u =>
          simp only [heardBy]
          split <;> simp [committedRow, ih]
      | seed e => simp [heardBy, unheard, committedRow, ih]
      | _ => exact ih _

end History

/-! ## What a load gives -/

namespace Database

open History

variable {db : Database} {s : Nat} {k : Kind}

/-- With no failure pending, a load gives what the query selects in the session's view. -/
theorem load_result (h : db.pendingLoads.get k = none) (q : Query) :
    (load s k q db).1 = decode k (q.select (db.view s k)) := by
  unfold load
  rw [h]
  dsimp only
  split
  · rename_i e he
    exact he.symm
  · rename_i es hes
    exact hes.symm

/-- Steps that a session cannot hear do not change what it sees. -/
theorem view_eq_of_heardBy_eq (hidle : db.Idle) {past past' : List Step}
    (h : heardBy s [] (db.accepted past) = heardBy s [] (db.accepted past')) :
    (db.after past).view s k = (db.after past').view s k := by
  refine Table.ext_find? fun i => ?_
  rw [find?_view_after hidle, find?_view_after hidle,
    ← lastWrite_heardBy_self [] (db.accepted past),
    ← lastWrite_heardBy_self [] (db.accepted past'),
    ← committedRow_heardBy (s := s) _ [] (db.accepted past),
    ← committedRow_heardBy (s := s) _ [] (db.accepted past'), h]

/-- A commit publishes what the session saw, and leaves it nothing else to see. -/
theorem view_commit (s : Nat) (k : Kind) (db : Database) :
    (commit s db).2.view s k = db.view s k := by
  refine Table.ext_find? fun i => ?_
  rw [find?_view, commit_staged, get_commit_tables]
  simp

/-- Sessions are isolated, and commits compose in their order.

From a database in which nothing is staged, after any history: the committed rows are the first ones
with the seeds and the write sets of the committing sessions applied in their order; what a session
loads while no failure is pending is selected from the committed rows with its own last writes laid
over them, so a second history that differs only in what the session cannot hear gives the same; and
a commit does not change what its session sees. -/
theorem sessions_isolated (db : Database) (hidle : db.Idle) (past : List Step) :
    (∀ k i, ((db.after past).tables.get k).find? i
        = committedRow ((db.tables.get k).find? i) k i (db.accepted past))
      ∧ (∀ s k q, (db.after past).pendingLoads.get k = none →
          (∃ t : Table Value, (load s k q (db.after past)).1 = decode k (q.select t)
            ∧ ∀ i, t.find? i = (lastWrite s k i (db.accepted past)).getD
                (((db.after past).tables.get k).find? i))
          ∧ ∀ past', (db.after past').pendingLoads.get k = none →
              heardBy s [] (db.accepted past) = heardBy s [] (db.accepted past') →
              (load s k q (db.after past)).1 = (load s k q (db.after past')).1)
      ∧ ∀ s k, (commit s (db.after past)).2.view s k = (db.after past).view s k := by
  refine ⟨fun k i => find?_tables_after hidle k i past, ?_, fun s k => view_commit s k _⟩
  intro s k q hload
  constructor
  · refine ⟨_, load_result hload q, fun i => ?_⟩
    rw [find?_view, find?_staged_after hidle]
  · intro past' hload' hheard
    rw [load_result hload, load_result hload', view_eq_of_heardBy_eq hidle hheard]

/-- Session 1 commits a customer. Session 3 loads the same whether session 2 has saved another one
since, or had deleted the first before and rolled back. -/
theorem uncommitted_saves_unheard :
    ((Database.empty.after [.save 2 .customer ⟨[⟨.sequential 2, .null⟩], [], []⟩, .commit 1,
        .save 1 .customer ⟨[⟨.sequential 1, Customer.toRow ⟨.sequential 1, "Ada", "a@b"⟩⟩], [], []⟩,
        .start 1]).tables.get .customer).find? (.sequential 1)
        = some (Customer.toRow ⟨.sequential 1, "Ada", "a@b"⟩)
      ∧ (load 3 .customer ⟨.customer, [], none, .noLock, none, none, none⟩
          (Database.empty.after [.save 2 .customer ⟨[⟨.sequential 2, .null⟩], [], []⟩, .commit 1,
            .save 1 .customer
              ⟨[⟨.sequential 1, Customer.toRow ⟨.sequential 1, "Ada", "a@b"⟩⟩], [], []⟩,
            .start 1])).1
        = (load 3 .customer ⟨.customer, [], none, .noLock, none, none, none⟩
          (Database.empty.after [.commit 1, .rollback 2,
            .save 1 .customer
              ⟨[⟨.sequential 1, Customer.toRow ⟨.sequential 1, "Ada", "a@b"⟩⟩], [], []⟩,
            .save 2 .customer ⟨[], [], [⟨.sequential 1, .null⟩]⟩, .start 1])).1 := by
  obtain ⟨hrows, hloads, -⟩ := sessions_isolated Database.empty (fun _ => rfl)
    [.save 2 .customer ⟨[⟨.sequential 2, .null⟩], [], []⟩, .commit 1,
      .save 1 .customer ⟨[⟨.sequential 1, Customer.toRow ⟨.sequential 1, "Ada", "a@b"⟩⟩], [], []⟩,
      .start 1]
  refine ⟨?_, ?_⟩
  · rw [hrows]
    rfl
  · exact (hloads 3 .customer _ rfl).2 _ rfl rfl

end Database

end Stockroom
