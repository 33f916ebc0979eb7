import Stockroom.Proofs.Atomicity
import Stockroom.Proofs.Isolation
import Stockroom.Proofs.Protocol
import Stockroom.Proofs.Selecting
import Stockroom.Proofs.WriteBack

/-!
# The integrity of the database

A deployment is a database together with every unit of work that is open over it, and its history is
everything done to it from the outside: seeds, arranged failures, units opened through a shop, their
calls in any order, units dropped. A row that is committed somewhere along the way is read by units
opened later, so that it is the row of an entity of its kind and identity matters beyond the unit that
wrote it.

Working sets keep entities under the identity they were put under, and a commit takes the rows as they
are by then. As long as no change in place gives an entity another kind or identity, every committed
row reads back as what it is kept as, and no load fails over it (`Deployment.store_integrity`). Nothing
checks this: a change in place that does is committed, and from then on every load of the table that
comes upon the row fails (`Deployment.drifted_row_committed`).
-/

namespace Stockroom

/-! ## Intact rows -/

namespace Database

variable {db db' : Database} {s : Nat} {k : Kind}

/-- Every committed row reads back as an entity of its kind and identity. -/
structure Intact (db : Database) : Prop where
  reads : ∀ k i row, (db.tables.get k).find? i = some row →
    ∃ e, Entity.ofRow? k row = some e ∧ e.kind = k ∧ e.ident = i
  once : ∀ k i j row row' e e', (db.tables.get k).find? i = some row →
    (db.tables.get k).find? j = some row' → Entity.ofRow? k row = some e →
    Entity.ofRow? k row' = some e' → e.ident = e'.ident → i = j
  /-- A load fails for a failure that was arranged, and for nothing else. -/
  loads : ∀ s k q, db.pendingLoads.get k = none → ∃ es, (load s k q db).1 = .ok es

theorem Sound.of_tables (h : db.Sound) (ht : db'.tables = db.tables) : db'.Sound := by
  intro k i row hrow
  rw [ht] at hrow
  exact h k i row hrow

theorem intact_of_sound (h : db.Sound) (hidle : db.Idle) : db.Intact := by
  have hreads : ∀ k i row, (db.tables.get k).find? i = some row →
      ∃ e, Entity.ofRow? k row = some e ∧ e.kind = k ∧ e.ident = i := by
    intro k i row hrow
    obtain ⟨e, rfl, rfl, rfl⟩ := h k i row hrow
    exact ⟨e, e.ofRow?_toRow, rfl, rfl⟩
  refine ⟨hreads, ?_, ?_⟩
  · intro k i j row row' e e' hi hj he he' hident
    obtain ⟨f, hf, -, rfl⟩ := hreads k i row hi
    obtain ⟨f', hf', -, rfl⟩ := hreads k j row' hj
    obtain rfl := Option.some.inj (he.symm.trans hf)
    obtain rfl := Option.some.inj (he'.symm.trans hf')
    exact hident
  · intro s k q hnone
    obtain ⟨es, hdecode, -⟩ :=
      (h.ofKind_view hidle s k).decode_entries fun r hr => Table.mem_of_mem_pick hr
    refine ⟨es, ?_⟩
    rw [load_result hnone, Table.select_eq_pick, hdecode]

end Database

/-! ## What a call of one unit does -/

namespace UnitOfWork

variable {s : Nat} {u : UnitOfWork Database} {db : Database}

/-- A unit on its session whose entities, while they can still be committed, are under their own kind
and identity. -/
structure Orderly (s : Nat) (u : UnitOfWork Database) : Prop where
  session : u.workspace.session = Database.session s
  coherent : u.phase ≠ .exhausted → u.workspace.set.Coherent

theorem sound_call (h : u.Orderly s) (hsound : db.Sound) (hidle : db.Idle) (c : Call) :
    (call c (u, db)).2.Sound := by
  by_cases hc : c = .commit → ∀ deltas, (commit (u, db)).1 ≠ .ok deltas
  · exact hsound.of_tables (call_quiet h.session hc).runs.tables
  · obtain ⟨rfl, deltas, u', db', hcommit⟩ := committed_of_not_quiet hc
    obtain ⟨hactive, -⟩ := commit_ok h.session hcommit
    have hcoherent : u.workspace.set.Coherent := h.coherent (by simp [hactive])
    obtain ⟨B, -, -, -, -, hrows⟩ := commit_saves ⟨h.session, hidle s⟩ hcommit
    simp only [call, hcommit]
    intro k i row hrow
    rw [hrows] at hrow
    split at hrow
    · exact hsound k i row hrow
    · exact hcoherent.capture hrow

theorem idle_call (h : u.workspace.session = Database.session s) (hidle : db.Idle) (c : Call) :
    (call c (u, db)).2.Idle := by
  intro t
  by_cases hts : t = s
  · subst hts
    have hsteady : Steady t (u, db) := ⟨h, hidle t⟩
    exact (steady_call hsteady c).clear
  · by_cases hc : c = .commit → ∀ deltas, (commit (u, db)).1 ≠ .ok deltas
    · exact ((call_quiet h hc).runs.staged_of_ne hts).trans (hidle t)
    · obtain ⟨rfl, deltas, u', db', hcommit⟩ := committed_of_not_quiet hc
      obtain ⟨-, -, -, -, -, m, mid, hsave, rfl⟩ := commit_ok h hcommit
      have hkeeps := Workspace.save_keeps h db
      rw [hsave] at hkeeps
      simp only [call, hcommit, Database.commit_staged, hts, if_false]
      exact (hkeeps.runs.staged_of_ne hts).trans (hidle t)

/-- A unit stays orderly unless one of its edits moves an entity. -/
theorem orderly_call (h : u.Orderly s) (db : Database) {c : Call}
    (hkeeps : ∀ ed w, c = .edit ed → u.resources = .ok w → ed.Keeps w) :
    (call c (u, db)).1.Orderly s := by
  refine ⟨(@call_stays s (u, db) h.session c).1, fun hphase => ?_⟩
  cases hu : u.phase with
  | exhausted => exact absurd (@call_of_exhausted (u, db) hu c) hphase
  | active =>
      have hcoherent : u.workspace.set.Coherent := h.coherent (by simp [hu])
      rcases call_of_active c h.session hu db with hend | ⟨ed, rfl, hcall⟩ | hcall
      · exact absurd hend hphase
      · have hset : u.resources = .ok u.workspace.set := by
          simp only [resources, checkActive, hu]
          rfl
        rw [hcall]
        exact WorkingSet.coherent_edit hcoherent (hkeeps ed _ rfl hset)
      · rw [hcall]
        exact hcoherent
  | notEntered =>
      have hcoherent : u.workspace.set.Coherent := h.coherent (by simp [hu])
      by_cases henter : c = .enter
      · subst henter
        rcases hresult : enter (u, db) with ⟨f | _, u', db'⟩
        · -- what is reported may be the failure given in place of a violated lock, so the phase decides
          simp only [call, hresult] at hphase
          exact absurd (exhausted_of_enter_error h.session hu hresult) hphase
        · simp only [call, hresult]
          exact (enter_ok h.session hresult).coherent hcoherent
      · by_cases hclose : c = .close
        · subst hclose
          simp [call, close, hu, exhaust] at hphase
        · rw [(refuses_of_checkActive (checkActive_of_notEntered hu) henter hclose db).2]
          exact hcoherent

end UnitOfWork

/-! ## A database in use -/

/-- A database and the units of work over it, each by the number of its session. -/
structure Deployment where
  database : Database
  units : Nat → Option (UnitOfWork Database)

namespace Deployment

def fresh : Deployment := ⟨.empty, fun _ => none⟩

inductive Act where
  | seed (e : Entity)
  | failNextLoad (k : Kind) (c : Contention)
  | failNextSave (k : Kind) (e : StoreError)
  | create (order : LockOrder) (settings : Settings) (onNowait : Option Failure)
      (plan : Option Plan) (waitMillis : UInt64)
  | call (s : Nat) (c : UnitOfWork.Call)
  | drop (s : Nat) (running : Bool)

def setUnit (units : Nat → Option (UnitOfWork Database)) (s : Nat)
    (u : Option (UnitOfWork Database)) : Nat → Option (UnitOfWork Database) :=
  fun t => if t = s then u else units t

/-- The deployment an act leaves behind. A call of a unit that is not there does nothing. -/
def act (y : Deployment) : Act → Deployment
  | .seed e => { y with database := y.database.seed e }
  | .failNextLoad k c => { y with database := y.database.failNextLoad k c }
  | .failNextSave k e => { y with database := y.database.failNextSave k e }
  | .create order settings onNowait plan waitMillis =>
    let shop := { Shop.inMemory order settings with onNowait := onNowait }
    match shop.createWaiting plan waitMillis y.database with
    | (.ok u, db) => ⟨db, setUnit y.units db.opened (some u)⟩
    | (.error _, db) => { y with database := db }
  | .call s c =>
    match y.units s with
    | none => y
    | some u =>
      let (u, db) := UnitOfWork.call c (u, y.database)
      ⟨db, setUnit y.units s (some u)⟩
  | .drop s running =>
    match y.units s with
    | none => y
    | some u => ⟨u.drop running y.database, setUnit y.units s none⟩

/-- The deployment after a history, latest act first. -/
def after : List Act → Deployment
  | [] => fresh
  | a :: past => (after past).act a

/-- No change in place gives an entity another kind or identity. -/
def Keeps : List Act → Prop
  | [] => True
  | .call s (.edit ed) :: past =>
    (∀ u w, (after past).units s = some u → u.resources = .ok w → ed.Keeps w) ∧ Keeps past
  | _ :: past => Keeps past

/-- Nothing is staged between acts, and whatever is committed or can be is under its own kind and
identity. -/
structure Orderly (y : Deployment) : Prop where
  sound : y.database.Sound
  idle : y.database.Idle
  units : ∀ s u, y.units s = some u → u.Orderly s

variable {y : Deployment}

theorem orderly_fresh : fresh.Orderly := by
  refine ⟨Database.sound_empty, fun _ => rfl, ?_⟩
  intro s u hu
  cases hu

theorem orderly_setUnit {units : Nat → Option (UnitOfWork Database)} {s : Nat}
    {u : Option (UnitOfWork Database)} (h : ∀ t v, units t = some v → v.Orderly t)
    (hu : ∀ v, u = some v → v.Orderly s) : ∀ t v, setUnit units s u t = some v → v.Orderly t := by
  intro t v hv
  unfold setUnit at hv
  split at hv
  · rename_i hts
    subst hts
    exact hu v hv
  · exact h t v hv

theorem Orderly.create (h : y.Orderly) (order : LockOrder) (settings : Settings)
    (onNowait : Option Failure) (plan : Option Plan) (waitMillis : UInt64) :
    (y.act (.create order settings onNowait plan waitMillis)).Orderly := by
  obtain ⟨w, hsession, -, hset, hmade⟩ := @UnitOfWork.createWaiting_inMemory
    { Shop.inMemory order settings with onNowait := onNowait } rfl plan waitMillis y.database
  simp only [act, hmade]
  refine ⟨h.sound, h.idle, orderly_setUnit h.units ?_⟩
  intro v hv
  obtain rfl := Option.some.inj hv
  refine ⟨hsession, fun _ => ?_⟩
  rw [show (UnitOfWork.create w plan onNowait).workspace.set = .empty from hset]
  exact WorkingSet.coherent_empty

theorem Orderly.drop (h : y.Orderly) (s : Nat) (running : Bool) :
    (y.act (.drop s running)).Orderly := by
  simp only [act]
  split
  · exact h
  · rename_i u hu
    have hunit := h.units s u hu
    have hquiet := UnitOfWork.drop_quiet hunit.session running y.database
    refine ⟨h.sound.of_tables hquiet.runs.tables, fun t => ?_, orderly_setUnit h.units ?_⟩
    · by_cases hts : t = s
      · subst hts
        rcases hquiet.staged with hclear | hsame
        · exact hclear
        · exact hsame.trans (h.idle t)
      · exact (hquiet.runs.staged_of_ne hts).trans (h.idle t)
    · intro v hv
      cases hv

theorem Orderly.call (h : y.Orderly) (s : Nat) (c : UnitOfWork.Call)
    (hkeeps : ∀ u ed w, c = .edit ed → y.units s = some u → u.resources = .ok w → ed.Keeps w) :
    (y.act (.call s c)).Orderly := by
  simp only [act]
  split
  · exact h
  · rename_i u hu
    have hunit := h.units s u hu
    refine ⟨UnitOfWork.sound_call hunit h.sound h.idle c,
      UnitOfWork.idle_call hunit.session h.idle c, orderly_setUnit h.units ?_⟩
    intro v hv
    obtain rfl := Option.some.inj hv
    exact UnitOfWork.orderly_call hunit y.database fun ed w hc hw => hkeeps u ed w hc hu hw

theorem orderly_after {history : List Act} (h : Keeps history) : (after history).Orderly := by
  induction history with
  | nil => exact orderly_fresh
  | cons a past ih =>
      cases a with
      | seed e =>
          have hpast := ih h
          exact ⟨hpast.sound.seed e, hpast.idle, hpast.units⟩
      | failNextLoad k c =>
          have hpast := ih h
          exact ⟨hpast.sound, hpast.idle, hpast.units⟩
      | failNextSave k e =>
          have hpast := ih h
          exact ⟨hpast.sound, hpast.idle, hpast.units⟩
      | create order settings onNowait plan waitMillis =>
          exact (ih h).create order settings onNowait plan waitMillis
      | drop s running => exact (ih h).drop s running
      | call s c =>
          cases c with
          | edit ed =>
              obtain ⟨hed, hpast⟩ := h
              refine (ih hpast).call s _ ?_
              rintro u _ w ⟨⟩ hu hw
              exact hed u w hu hw
          | enter | commit | rollback | close | freshIdent _ =>
              refine (ih h).call s _ ?_
              rintro u ed w ⟨⟩

/-- The rows of a database stay intact through any history of seeds and units of work in which no
change in place gives an entity another kind or identity. -/
theorem store_integrity {history : List Act} (h : Keeps history) :
    (after history).database.Intact := by
  have horderly := orderly_after h
  exact Database.intact_of_sound horderly.sound horderly.idle

/-- A unit inserts a product, restocks it in place and commits. -/
theorem intact_after_restock :
    ∃ history, history = [.call 1 .commit,
        .call 1 (.edit (.modify .product (.sequential 0) fun e =>
          match e with
          | .product p => .product (p.restock 5)
          | e => e)),
        .call 1 (.edit (.insert (.product ⟨.sequential 0, "Widget", "W-1", 10, 250⟩))),
        .call 1 .enter, .create .standard .standard none (some (.empty true)) 1500]
      ∧ (after history).database.Intact
      ∧ ((after history).database.tables.get .product).find? (.sequential 0)
          = some (Product.toRow ⟨.sequential 0, "Widget", "W-1", 15, 250⟩) := by
  refine ⟨_, rfl, store_integrity ?_, rfl⟩
  refine ⟨fun u w _ _ e he => ?_, fun u w _ _ => trivial, trivial⟩
  cases e with
  | product p => exact ⟨rfl, rfl⟩
  | _ => exact ⟨rfl, rfl⟩

/-- A unit inserts a product, puts a customer in its place and commits. The row cannot be read back, and
whoever loads products from then on fails. -/
theorem drifted_row_committed :
    ∃ history, history = [.call 1 .commit,
        .call 1 (.edit (.modify .product (.sequential 0) fun _ =>
          .customer ⟨.sequential 1, "Ada", "a@b"⟩)),
        .call 1 (.edit (.insert (.product ⟨.sequential 0, "Widget", "W-1", 10, 250⟩))),
        .call 1 .enter, .create .standard .standard none (some (.empty true)) 1500]
      ∧ ((after history).database.tables.get .product).find? (.sequential 0)
          = some (Customer.toRow ⟨.sequential 1, "Ada", "a@b"⟩)
      ∧ (Database.load 2 .product ⟨.product, [], none, .noLock, none, none, none⟩
          (after history).database).1 = .error (Database.undecodable .product)
      ∧ ¬ (after history).database.Intact := by
  have hrow : Entity.ofRow? .product (Customer.toRow ⟨.sequential 1, "Ada", "a@b"⟩) = none := by
    simp [Entity.ofRow?, Product.ofRow?, Customer.toRow, Value.components?, Value.field?]
  refine ⟨_, rfl, rfl, ?_, fun hintact => ?_⟩
  · rw [Database.load_result rfl]
    change Database.decode .product [Customer.toRow ⟨.sequential 1, "Ada", "a@b"⟩] = _
    simp only [Database.decode, hrow]
  · obtain ⟨e, he, -⟩ := hintact.reads .product (.sequential 0) _ rfl
    have hnone := hrow.symm.trans he
    cases hnone

end Deployment

end Stockroom
