import Stockroom.Proofs.Integrity
import Stockroom.Proofs.Meaning

/-!
# The stock ledger

Units of work visit a product one after the other. Each loads it by its identity under an exclusive lock,
calls `reserve` and `restock` on it, and commits, rolls back or is closed; any of its steps may fail
because a failure was arranged. The ledger has a posting for every call that a unit took, with the product
as it was found and as it was left, and says of every visit whether its commit succeeded.

The committed amount is the amount at first, less what reservations took, plus what was put into stock,
over the visits that committed and no others (`Books.ledger_balanced`). The invariant is that the
committed row is that of a product the postings account for (`Stocked`). A visit that is entered holds
exactly that product (`Visit.holds_of_enter`), its calls change it one after the other
(`Visit.after_calls`), and what it ends with is written back if it commits and leaves no trace if it does
not (`Visit.stocked_of_end`).
-/

namespace Stockroom

/-! ## Calls on a product -/

inductive StockCall where
  | reserve (n : UInt32)
  | restock (n : UInt32)
deriving DecidableEq

namespace StockCall

/-- The product a call leaves behind. A reservation that is refused leaves it as it was. -/
def apply (c : StockCall) (p : Product) : Product :=
  match c with
  | .reserve n => (p.reserve n).toOption.getD p
  | .restock n => p.restock n

/-- The call on the product kept under an identity. -/
def edit (i : Ident) (c : StockCall) : WorkingSet.Edit :=
  .modify .product i fun e =>
    match e with
    | .product p => .product (c.apply p)
    | e => e

theorem ident_apply (c : StockCall) (p : Product) : (c.apply p).ident = p.ident := by
  cases c with
  | restock n => rfl
  | reserve n =>
      simp only [apply, Product.reserve]
      split <;> rfl

/-- No call moves an entity. -/
theorem keeps_edit (c : StockCall) (i : Ident) (w : WorkingSet) : (c.edit i).Keeps w := by
  intro e _
  cases e with
  | product p => exact ⟨rfl, c.ident_apply p⟩
  | customer _ | purchase _ => exact ⟨rfl, rfl⟩

end StockCall

/-- The product after calls, latest first. -/
def Product.after (p : Product) : List StockCall → Product
  | [] => p
  | c :: past => c.apply (p.after past)

/-! ## Postings -/

/-- A call, the product it found and the one it left. -/
structure Posting where
  call : StockCall
  found : Product
  left : Product
deriving DecidableEq

namespace Posting

/-- What a reservation took out of stock. -/
def taken (x : Posting) : Nat :=
  match x.call with
  | .reserve n => if (x.found.reserve n).isOk then n.toNat else 0
  | .restock _ => 0

/-- What was put into stock. -/
def added (x : Posting) : Nat :=
  match x.call with
  | .reserve _ => 0
  | .restock n => n.toNat

/-- What postings come to, all in all. -/
def total (amount : Posting → Nat) : List Posting → Nat
  | [] => 0
  | x :: xs => amount x + total amount xs

theorem total_append (amount : Posting → Nat) (xs ys : List Posting) :
    total amount (xs ++ ys) = total amount xs + total amount ys := by
  induction xs with
  | nil => exact (Nat.zero_add _).symm
  | cons x xs ih => simp only [List.cons_append, total, ih, Nat.add_assoc]

/-- More was put into stock than a product can have. -/
def Saturates (x : Posting) : Prop :=
  match x.call with
  | .reserve _ => False
  | .restock n => Product.largestAmount < x.found.amount.toNat + n.toNat

/-- A reservation takes what is there, or is refused for want of it and takes nothing; all that is put
into stock is there, up to the largest amount. -/
def Exact (x : Posting) : Prop :=
  match x.call with
  | .reserve n =>
    (n.toNat ≤ x.found.amount.toNat ∧ x.taken = n.toNat
        ∧ x.left.amount.toNat = x.found.amount.toNat - n.toNat)
      ∨ (x.found.amount.toNat < n.toNat ∧ x.taken = 0 ∧ x.left = x.found)
  | .restock n =>
    x.left.amount.toNat = min (x.found.amount.toNat + n.toNat) Product.largestAmount

theorem exact_apply (c : StockCall) (p : Product) : Exact ⟨c, p, c.apply p⟩ := by
  cases c with
  | restock n => exact p.toNat_amount_restock n
  | reserve n =>
      simp only [Exact, taken, StockCall.apply]
      cases hreserve : p.reserve n with
      | ok q =>
          obtain ⟨hle, hamount⟩ := Product.toNat_amount_reserve hreserve
          exact Or.inl ⟨hle, rfl, hamount⟩
      | error e =>
          refine Or.inr ⟨?_, rfl, rfl⟩
          simp only [Product.reserve] at hreserve
          split at hreserve
          · rename_i hlt
            exact UInt32.lt_iff_toNat_lt.mp hlt
          · cases hreserve

/-- What a call takes and adds is the difference it makes, unless it saturates. -/
theorem Exact.balanced {x : Posting} (h : x.Exact) (hfits : ¬ x.Saturates) :
    x.left.amount.toNat + x.taken = x.found.amount.toNat + x.added := by
  obtain ⟨c, p, q⟩ := x
  cases c with
  | restock n =>
      simp only [Exact] at h
      simp only [Saturates, Nat.not_lt] at hfits
      simp only [taken, added]
      omega
  | reserve n =>
      rcases h with ⟨hle, htaken, hleft⟩ | ⟨-, htaken, hleft⟩
      · rw [htaken]
        simp only [added] at *
        omega
      · rw [htaken, hleft]
        rfl

end Posting

/-- The postings of calls, latest first, on a product. -/
def Product.postings (p : Product) : List StockCall → List Posting
  | [] => []
  | c :: past => ⟨c, p.after past, c.apply (p.after past)⟩ :: p.postings past

theorem Product.exact_postings (p : Product) (calls : List StockCall) :
    ∀ x ∈ p.postings calls, x.Exact := by
  induction calls with
  | nil => simp [postings]
  | cons c past ih =>
      intro x hx
      rcases List.mem_cons.mp hx with rfl | hx
      · exact Posting.exact_apply c _
      · exact ih x hx

/-- The postings of calls account for the difference they make. -/
theorem Product.balanced_postings (p : Product) {calls : List StockCall}
    (h : ∀ x ∈ p.postings calls, ¬ x.Saturates) :
    (p.after calls).amount.toNat + Posting.total Posting.taken (p.postings calls)
      = p.amount.toNat + Posting.total Posting.added (p.postings calls) := by
  induction calls with
  | nil => rfl
  | cons c past ih =>
      have hpast := ih fun x hx => h x (List.mem_cons_of_mem _ hx)
      have hlast := (Posting.exact_apply c (p.after past)).balanced (h _ (List.mem_cons_self ..))
      simp only [after, postings, Posting.total]
      simp only at hlast
      omega

/-! ## Visits -/

inductive Visit.Ending where
  | commit
  | rollback
  | close

/-- A unit of work on one product, with its calls, latest first. -/
structure Visit where
  order : LockOrder
  settings : Settings
  onNowait : Option Failure
  waitMillis : UInt64
  calls : List StockCall
  ending : Visit.Ending

/-- What a visit leaves behind. -/
structure Visit.Outcome where
  database : Database
  committed : Bool
  postings : List Posting

namespace Visit

open UnitOfWork

def Ending.call : Ending → UnitOfWork.Call
  | .commit => .commit
  | .rollback => .rollback
  | .close => .close

/-- The plan that loads a product by its identity, to be changed. -/
def plan (v : Visit) (i : Ident) : Option Plan :=
  (Plan.build v.order true [.load .product, .identIn [i], .lock .exclusive]).toOption

def shop (v : Visit) : Shop Database :=
  { Shop.inMemory v.order v.settings with onNowait := v.onNowait }

/-- The product that a unit gives access to. -/
def product? (i : Ident) (u : UnitOfWork Database) : Option Product :=
  match u.resources with
  | .ok w => (w.find? .product i).bind Entity.product?
  | .error _ => none

/-- The calls as turns of a unit. -/
def turns (i : Ident) (calls : List StockCall) : List Turn :=
  calls.map fun c => .call (.edit (c.edit i))

/-- The postings of calls, latest first, read off the unit before and after each of them. -/
def postings (i : Ident) (st : UnitOfWork Database × Database) : List StockCall → List Posting
  | [] => []
  | c :: past =>
    (match product? i (after st (turns i past)).1, product? i (after st (turns i (c :: past))).1 with
      | some p, some q => [⟨c, p, q⟩]
      | _, _ => []) ++ postings i st past

/-- Whether a unit ends with a commit that succeeds. -/
def commits (e : Ending) (st : UnitOfWork Database × Database) : Bool :=
  match e with
  | .commit => (commit st).1.isOk
  | .rollback | .close => false

/-- What a unit just opened comes to. The calls are made whether or not it could be entered. -/
def outcome (v : Visit) (i : Ident) (u : UnitOfWork Database) (db : Database) : Outcome :=
  let entered := (enter (u, db)).2
  let st := after entered (turns i v.calls)
  ⟨(call v.ending.call st).2, commits v.ending st, postings i entered v.calls⟩

def run (v : Visit) (i : Ident) (db : Database) : Outcome :=
  match v.shop.createWaiting (v.plan i) v.waitMillis db with
  | (.error _, db) => ⟨db, false, []⟩
  | (.ok u, db) => v.outcome i u db

end Visit

/-! ## Books -/

/-- A database, and the postings of the visits so far, latest first, each with whether the visit
committed. -/
structure Books where
  database : Database
  visits : List (Bool × List Posting)

namespace Books

inductive Act where
  | failNextLoad (k : Kind) (c : Contention)
  | failNextSave (k : Kind) (e : StoreError)
  | visit (v : Visit)

def act (i : Ident) (b : Books) : Act → Books
  | .failNextLoad k c => { b with database := b.database.failNextLoad k c }
  | .failNextSave k e => { b with database := b.database.failNextSave k e }
  | .visit v =>
    let o := v.run i b.database
    ⟨o.database, (o.committed, o.postings) :: b.visits⟩

/-- The books after a history, latest act first. -/
def after (i : Ident) (b : Books) : List Act → Books
  | [] => b
  | a :: past => (b.after i past).act i a

/-- The postings of the visits that committed. -/
def committed (b : Books) : List Posting := (b.visits.filter (·.1)).flatMap (·.2)

/-- What reservations took, over the visits that committed. -/
def taken (b : Books) : Nat := Posting.total Posting.taken b.committed

/-- What was put into stock, over the visits that committed. -/
def added (b : Books) : Nat := Posting.total Posting.added b.committed

end Books

/-! ## What a visit keeps -/

/-- The committed row of an identity is that of a product, in a database where nothing is staged and
every row is that of an entity of its kind and identity. -/
structure Stocked (i : Ident) (p : Product) (db : Database) : Prop where
  sound : db.Sound
  idle : db.Idle
  row : (db.tables.get .product).find? i = some p.toRow

namespace Stocked

variable {i : Ident} {p : Product} {db : Database} {s : Nat} {u : UnitOfWork Database}

theorem ident (h : Stocked i p db) : p.ident = i := by
  obtain ⟨e, -, hident, hrow⟩ := h.sound .product i _ h.row
  have he : Entity.product p = e := Entity.toRow_inj.mp hrow
  rw [← hident, ← he]
  rfl

theorem fetch (h : Stocked i p db) : db.fetch .product i = .ok (some (.product p)) := by
  have hread : Entity.ofRow? .product p.toRow = some (.product p) :=
    (Entity.product p).ofRow?_toRow
  simp only [Database.fetch, h.row, hread]

/-- What a unit of work does, short of a commit that succeeds, leaves the stock alone. -/
theorem quiet (h : Stocked i p db) (hu : u.Orderly s) {c : UnitOfWork.Call}
    (hc : c = .commit → ∀ deltas, (UnitOfWork.commit (u, db)).1 ≠ .ok deltas) :
    Stocked i p (UnitOfWork.call c (u, db)).2 where
  sound := UnitOfWork.sound_call hu h.sound h.idle c
  idle := UnitOfWork.idle_call hu.session h.idle c
  row := by
    rw [(UnitOfWork.call_quiet hu.session hc).runs.tables]
    exact h.row

end Stocked

namespace Visit

open UnitOfWork

variable {i : Ident} {s : Nat} {p q : Product} {u : UnitOfWork Database} {db db' : Database}

/-! ## Entering -/

/-- The entry of the plan, and the query it poses. -/
def entry (i : Ident) : Plan.Entry :=
  ⟨.product, ⟨[.isIn "entity_id" [i.toValue]], none⟩, .exclusive, none, none, none, none, none⟩

def query (i : Ident) : Query :=
  ⟨.product, [⟨"entity_id", .isIn, [i.toValue], false⟩], none, .exclusive, none, none, none⟩

theorem plan_eq (v : Visit) (i : Ident) : v.plan i = some ⟨[entry i], true⟩ := rfl

theorem accepts_query (p : Product) : (query p.ident).accepts p.toRow = true := by
  have hfield : p.toRow.field? "entity_id" = some p.ident.toValue := (Entity.product p).field?_toRow
  simp [Query.accepts, query, Query.Term.accepts, hfield]

/-- A load that succeeds has put the product into the working set. -/
theorem find?_of_runQuery {strict : Bool} {w w' : WorkingSet} {found : List Ident}
    (hview : (db.view s .product).OfKind .product)
    (hrow : (db.view s .product).find? p.ident = some p.toRow)
    (h : Workspace.runQuery (Database.session s) strict (query p.ident) (w, db)
      = (.ok found, w', db')) :
    w'.find? .product p.ident = some (.product p) := by
  obtain ⟨hfound, hfind, -⟩ := Workspace.runQuery_ok hview h
  have hmem : p.ident ∈ found := by
    have hentry : (p.ident, p.toRow) ∈ (db.view s .product).entries := Table.mem_entries_iff.mpr hrow
    rw [hfound]
    refine List.mem_map.mpr ⟨(p.ident, p.toRow), ?_, rfl⟩
    exact List.mem_filter.mpr ⟨hentry, accepts_query p⟩
  rw [hfind, if_pos ⟨rfl, hmem⟩]
  simp only [Plan.shown?, query, hrow, Option.bind_some]
  exact (Entity.product p).ofRow?_toRow

theorem find?_of_load {m m' : Workspace Database} (hsession : m.session = Database.session s)
    (hview : (db.view s .product).OfKind .product)
    (hrow : (db.view s .product).find? p.ident = some p.toRow)
    (h : Workspace.load ⟨[entry p.ident], true⟩ (m, db) = (.ok (), m', db')) :
    m'.set.find? .product p.ident = some (.product p) := by
  have hresolve : Workspace.resolve m.set [entry p.ident] (entry p.ident) = .ok (query p.ident) := rfl
  have hloaded : (entry p.ident).isLoaded = false := rfl
  simp only [Workspace.load, Workspace.runEntries, List.nil_append, hresolve, hloaded,
    Bool.false_eq_true, if_false, hsession] at h
  rcases hquery : Workspace.runQuery (Database.session s) m.strict (query p.ident) (m.set, db) with
    ⟨f | found, w', db₁⟩
  · rw [hquery] at h
    cases (Prod.mk.inj h).1
  · rw [hquery] at h
    have hset : m'.set = w' := by
      dsimp only at h
      split at h
      · cases (Prod.mk.inj h).1
      · obtain ⟨-, h⟩ := Prod.mk.inj h
        rw [← (Prod.mk.inj h).1]
    rw [hset]
    exact find?_of_runQuery hview hrow hquery

/-- An active unit whose baseline has a product as it was loaded, and that holds another one in its
place by now. -/
structure Holds (i : Ident) (p q : Product) (u : UnitOfWork Database) : Prop where
  active : u.phase = .active
  tracks : ∃ B, u.workspace.set.Tracks B ∧ B.find? .product i = some p.toRow
  held : u.workspace.set.find? .product i = some (.product q)

/-- A unit that was entered holds the committed product. -/
theorem holds_of_enter {u' : UnitOfWork Database} (h : Stocked i p db)
    (hsession : u.workspace.session = Database.session s)
    (hplan : u.plan = some ⟨[entry i], true⟩) (henter : enter (u, db) = (.ok (), u', db')) :
    Holds i p p u' := by
  have hentered := enter_ok hsession henter
  obtain ⟨m, w, hrun, htake, rfl⟩ := enter_ok_runs hsession henter
  have hstart := started_quiet s u db
  have hview : ∀ k j, ((u.started s db).view s k).find? j = (db.tables.get k).find? j := by
    intro k j
    have hclear : (u.started s db).staged s = .fill .empty := by
      rcases hstart.staged with hclear | hsame
      · exact hclear
      · exact hsame.trans (h.idle s)
    rw [Database.find?_view, hclear, hstart.runs.tables]
    simp
  simp only [runPlan, hplan] at hrun
  have hheld : m.set.find? .product i = some (.product p) := by
    have hident := h.ident
    subst hident
    refine find?_of_load hsession (fun j row hrow => ?_) ?_ hrun
    · rw [hview] at hrow
      exact h.sound .product j row hrow
    · rw [hview]
      exact h.row
  have hfind : w.find? .product i = some (.product p) := by
    simpa only [WorkingSet.find?, WorkingSet.partition, WorkingSet.takeSnapshot_partitions htake]
      using hheld
  refine ⟨rfl, ⟨_, hentered.tracks, ?_⟩, hfind⟩
  rw [WorkingSet.find?_capture, hfind]
  rfl

/-! ## The calls -/

theorem find?_edit (w : WorkingSet) (c : StockCall) (h : w.find? .product i = some (.product q)) :
    (w.edit (c.edit i)).find? .product i = some (.product (c.apply q)) := by
  simp only [StockCall.edit, WorkingSet.edit, WorkingSet.modify, h, Except.toOption,
    Option.getD_some, WorkingSet.find?_setPartition, if_true, Table.find?_insert]

/-- Calls change the product a unit holds, and leave the database alone. -/
theorem after_calls (h : Holds i p q u) (db : Database) (calls : List StockCall) :
    ∃ u', after (u, db) (turns i calls) = (u', db) ∧ Holds i p (q.after calls) u' := by
  induction calls with
  | nil => exact ⟨u, rfl, h⟩
  | cons c past ih =>
      obtain ⟨u', hpast, hholds⟩ := ih
      obtain ⟨B, htracks, hB⟩ := hholds.tracks
      refine ⟨u'.modifySet (u'.workspace.set.edit (c.edit i)), ?_, hholds.active,
        ⟨B, WorkingSet.tracks_edit htracks _, hB⟩, find?_edit _ c hholds.held⟩
      rw [turns, List.map_cons, after, ← turns, hpast]
      exact call_edit _ hholds.active db

theorem product?_of_holds (h : Holds i p q u) : product? i u = some q := by
  have hset : u.resources = .ok u.workspace.set := by
    simp only [resources, checkActive, h.active]
    rfl
  simp only [product?, hset, h.held]
  rfl

theorem postings_of_holds (h : Holds i p q u) (db : Database) (calls : List StockCall) :
    postings i (u, db) calls = q.postings calls := by
  induction calls with
  | nil => rfl
  | cons c past ih =>
      obtain ⟨u₁, hbefore, hfound⟩ := after_calls h db past
      obtain ⟨u₂, hafter, hleft⟩ := after_calls h db (c :: past)
      rw [postings, hbefore, hafter, product?_of_holds hfound, product?_of_holds hleft, ih]
      rfl

/-- A unit that could not be entered takes no calls. -/
theorem after_exhausted (h : u.phase = .exhausted) (db : Database) (calls : List StockCall) :
    after (u, db) (turns i calls) = (u, db) := by
  induction calls with
  | nil => rfl
  | cons c past ih =>
      rw [turns, List.map_cons, after, ← turns, ih]
      exact call_edit_of_not_active _ (by simp [h]) db

theorem postings_of_exhausted (h : u.phase = .exhausted) (db : Database) (calls : List StockCall) :
    postings i (u, db) calls = [] := by
  induction calls with
  | nil => rfl
  | cons c past ih =>
      have hnone : product? i u = none := by
        simp [product?, resources, checkActive, h, Except.map]
      simp only [postings, after_exhausted h, hnone, ih, List.nil_append]

theorem orderly_after_calls (h : u.Orderly s) (db : Database) (calls : List StockCall) :
    (after (u, db) (turns i calls)).1.Orderly s := by
  induction calls with
  | nil => exact h
  | cons c past ih =>
      refine orderly_call ih _ fun ed w hed _ => ?_
      obtain rfl := Call.edit.inj hed
      exact c.keeps_edit i w

/-! ## The end -/

theorem not_ok_of_not_commits {e : Ending} {st : UnitOfWork Database × Database}
    (h : commits e st = false) (he : e.call = .commit) (deltas : List (Kind × Delta)) :
    (commit st).1 ≠ .ok deltas := by
  intro hok
  cases e with
  | commit =>
      simp only [commits, hok] at h
      cases h
  | rollback | close => cases he

/-- A visit that commits leaves the product it holds, any other the one that was there. -/
theorem stocked_of_end (h : Stocked i p db) (hu : u.Orderly s) (hholds : Holds i p q u)
    (e : Ending) :
    Stocked i (if commits e (u, db) then q else p) (call e.call (u, db)).2 := by
  cases hcommits : commits e (u, db) with
  | false => exact h.quiet hu (not_ok_of_not_commits hcommits)
  | true =>
      cases e with
      | rollback | close => cases hcommits
      | commit =>
          rcases hcommit : commit (u, db) with ⟨f | deltas, u', db'⟩
          · simp only [commits, hcommit] at hcommits
            cases hcommits
          · obtain ⟨B, htracks, hB⟩ := hholds.tracks
            obtain ⟨-, -, hrows⟩ := commit_writes ⟨hu.session, h.idle s⟩ htracks hcommit
            refine ⟨sound_call hu h.sound h.idle .commit, idle_call hu.session h.idle .commit, ?_⟩
            have hL : u.workspace.set.capture.find? .product i = some q.toRow := by
              rw [WorkingSet.find?_capture, hholds.held]
              rfl
            simp only [Ending.call, call, hcommit, if_true]
            rw [hrows, hB, hL, h.row]
            -- if the rows are the same, nothing was written
            split
            · rename_i hsame
              exact hsame
            · rfl

theorem not_commits_of_exhausted (h : u.phase = .exhausted) (e : Ending) (db : Database) :
    commits e (u, db) = false := by
  cases e with
  | rollback | close => rfl
  | commit => simp [commits, commit, checkActive, h, Except.isOk, Except.toBool]

/-- What a visit to a product comes to: it commits what its calls make of the product, or leaves it. -/
structure Visited (i : Ident) (p : Product) (v : Visit) (o : Outcome) : Prop where
  stocked : Stocked i (if o.committed then p.after v.calls else p) o.database
  exact : ∀ x ∈ o.postings, x.Exact
  posted : o.committed = true → o.postings = p.postings v.calls

theorem visited_outcome (h : Stocked i p db) (hu : u.Orderly s) (hphase : u.phase = .notEntered)
    (v : Visit) (hplan : u.plan = some ⟨[entry i], true⟩) : Visited i p v (v.outcome i u db) := by
  have hstocked := h.quiet hu (c := .enter) (by rintro ⟨⟩)
  have horderly := orderly_call hu db (c := .enter) (by rintro ed w ⟨⟩)
  simp only [call] at hstocked horderly
  rcases henter : enter (u, db) with ⟨f | ⟨⟩, u', db'⟩
  · rw [henter] at hstocked horderly
    have hended := exhausted_of_enter_error hu.session hphase henter
    have hcommits := not_commits_of_exhausted hended v.ending db'
    simp only [outcome, henter, after_exhausted hended, postings_of_exhausted hended, hcommits]
    exact ⟨hstocked.quiet horderly (not_ok_of_not_commits hcommits), by simp, by rintro ⟨⟩⟩
  · rw [henter] at hstocked horderly
    have hholds : Holds i p p u' := holds_of_enter h hu.session hplan henter
    obtain ⟨u₂, hafter, hholds₂⟩ := after_calls hholds db' v.calls
    have horderly₂ := orderly_after_calls (i := i) horderly db' v.calls
    rw [hafter] at horderly₂
    simp only [outcome, henter, hafter, postings_of_holds hholds]
    exact ⟨stocked_of_end hstocked horderly₂ hholds₂ v.ending, p.exact_postings v.calls,
      fun _ => rfl⟩

theorem visited_run (h : Stocked i p db) (v : Visit) : Visited i p v (v.run i db) := by
  have hshop : v.shop.openSession
      = (Shop.inMemory v.shop.order v.shop.settings).openSession := rfl
  obtain ⟨m, hsession, -, hset, hmade⟩ := createWaiting_inMemory hshop (v.plan i) v.waitMillis db
  have hopened : Stocked i p { db with opened := db.opened + 1 } := ⟨h.sound, h.idle, h.row⟩
  have hunit : (UnitOfWork.create m (v.plan i) v.shop.onNowait).Orderly (db.opened + 1) := by
    refine ⟨hsession, fun _ => ?_⟩
    rw [show (UnitOfWork.create m (v.plan i) v.shop.onNowait).workspace.set = .empty from hset]
    exact WorkingSet.coherent_empty
  simp only [run, hmade]
  exact visited_outcome hopened hunit rfl v (v.plan_eq i)

end Visit

/-! ## The books balance -/

namespace Books

variable {i : Ident} {p : Product} {b : Books}

theorem committed_visit (i : Ident) (b : Books) (v : Visit) :
    (b.act i (.visit v)).committed
      = (if (v.run i b.database).committed then (v.run i b.database).postings else [])
        ++ b.committed := by
  simp only [committed, act]
  cases (v.run i b.database).committed <;> simp

/-- What is true of the books along a history: every posting is exact, and the committed product is
accounted for unless something did not fit. -/
structure Kept (i : Ident) (p : Product) (b : Books) : Prop where
  exact : ∀ y ∈ b.visits, ∀ x ∈ y.2, x.Exact
  stocked : ∃ q, Stocked i q b.database
    ∧ ((∀ x ∈ b.committed, ¬ x.Saturates) →
      q.amount.toNat + b.taken = p.amount.toNat + b.added)

theorem Kept.visit (h : b.Kept i p) (v : Visit) : (b.act i (.visit v)).Kept i p := by
  obtain ⟨q, hstocked, hbalanced⟩ := h.stocked
  obtain ⟨hleft, hexact, hposted⟩ := Visit.visited_run hstocked v
  refine ⟨?_, _, hleft, fun hfits => ?_⟩
  · intro y hy
    rcases List.mem_cons.mp hy with rfl | hy
    · exact hexact
    · exact h.exact y hy
  · rw [committed_visit] at hfits
    have hpast := hbalanced fun x hx => hfits x (List.mem_append_right _ hx)
    rw [taken, added, committed_visit]
    cases hcommitted : (v.run i b.database).committed with
    | false =>
        simp only [Bool.false_eq_true, if_false, List.nil_append]
        exact hpast
    | true =>
        rw [hcommitted, if_pos rfl, hposted hcommitted] at hfits
        have hvisit := q.balanced_postings fun x hx => hfits x (List.mem_append_left _ hx)
        simp only [if_true, hposted hcommitted, Posting.total_append]
        rw [taken, added] at hpast
        omega

theorem kept_after (h : b.Kept i p) (history : List Act) : (b.after i history).Kept i p := by
  induction history with
  | nil => exact h
  | cons a past ih =>
      cases a with
      | visit v => exact ih.visit v
      | failNextLoad k c =>
          obtain ⟨q, hstocked, hbalanced⟩ := ih.stocked
          exact ⟨ih.exact, q, ⟨hstocked.sound, hstocked.idle, hstocked.row⟩, hbalanced⟩
      | failNextSave k e =>
          obtain ⟨q, hstocked, hbalanced⟩ := ih.stocked
          exact ⟨ih.exact, q, ⟨hstocked.sound, hstocked.idle, hstocked.row⟩, hbalanced⟩

/-- The ledger of a product that was seeded balances through any history of visits and arranged failures.

Every reservation takes what it asks for and there is, or is refused and takes nothing. The committed
amount is the amount that was seeded, less what reservations took and with what was put into stock, over
the visits whose commit succeeded, unless one of these put in more than fits. -/
theorem ledger_balanced {db : Database} (hsound : db.Sound) (hidle : db.Idle) (p : Product)
    (history : List Act) :
    ∃ b q, b = after p.ident ⟨db.seed (.product p), []⟩ history
      ∧ (∀ y ∈ b.visits, ∀ x ∈ y.2, x.Exact)
      ∧ b.database.fetch .product p.ident = .ok (some (.product q))
      ∧ ((∀ x ∈ b.committed, ¬ x.Saturates) →
        (q.amount.toNat : Int) = p.amount.toNat - b.taken + b.added) := by
  have hseeded : Stocked p.ident p (db.seed (.product p)) := by
    refine ⟨hsound.seed _, hidle, ?_⟩
    rw [Database.find?_tables_seed, if_pos ⟨rfl, rfl⟩]
    rfl
  have hkept : Kept p.ident p ⟨db.seed (.product p), []⟩ := ⟨by simp, p, hseeded, fun _ => rfl⟩
  have hafter := kept_after hkept history
  obtain ⟨q, hstocked, hbalanced⟩ := hafter.stocked
  refine ⟨_, q, rfl, hafter.exact, hstocked.fetch, fun hfits => ?_⟩
  have hamounts := hbalanced hfits
  omega

/-- Of three visits to a product the first commits. The second is turned away by a failure when it
commits, and the third is rolled back. -/
theorem lamp_balanced :
    ∃ b q, b = after (.sequential 0)
          ⟨Database.empty.seed (.product ⟨.sequential 0, "Lamp", "LAMP-1", 10, 3499⟩), []⟩
          [.visit ⟨.standard, .standard, none, 1500, [.reserve 1], .rollback⟩,
            .visit ⟨.standard, .standard, none, 1500, [.reserve 5], .commit⟩,
            .failNextSave .product (.backend "disk full"),
            .visit ⟨.standard, .standard, none, 1500, [.reserve 20, .restock 3, .reserve 4], .commit⟩]
      ∧ b.taken = 4 ∧ b.added = 3
      ∧ b.database.fetch .product (.sequential 0) = .ok (some (.product q))
      ∧ q.amount.toNat = 9 := by
  obtain ⟨b, q, hb, -, hfetch, hbalanced⟩ := ledger_balanced Database.sound_empty (fun _ => rfl)
    ⟨.sequential 0, "Lamp", "LAMP-1", 10, 3499⟩
    [.visit ⟨.standard, .standard, none, 1500, [.reserve 1], .rollback⟩,
      .visit ⟨.standard, .standard, none, 1500, [.reserve 5], .commit⟩,
      .failNextSave .product (.backend "disk full"),
      .visit ⟨.standard, .standard, none, 1500, [.reserve 20, .restock 3, .reserve 4], .commit⟩]
  have hcommitted : b.committed
      = [⟨.reserve 20, ⟨.sequential 0, "Lamp", "LAMP-1", 9, 3499⟩,
            ⟨.sequential 0, "Lamp", "LAMP-1", 9, 3499⟩⟩,
          ⟨.restock 3, ⟨.sequential 0, "Lamp", "LAMP-1", 6, 3499⟩,
            ⟨.sequential 0, "Lamp", "LAMP-1", 9, 3499⟩⟩,
          ⟨.reserve 4, ⟨.sequential 0, "Lamp", "LAMP-1", 10, 3499⟩,
            ⟨.sequential 0, "Lamp", "LAMP-1", 6, 3499⟩⟩] := by
    rw [hb]
    decide +kernel
  have htaken : b.taken = 4 := by
    rw [taken, hcommitted]
    decide
  have hadded : b.added = 3 := by
    rw [added, hcommitted]
    decide
  have hamount := hbalanced (by rw [hcommitted]; simp [Posting.Saturates, Product.largestAmount])
  refine ⟨b, q, hb, htaken, hadded, hfetch, ?_⟩
  rw [htaken, hadded] at hamount
  change (q.amount.toNat : Int) = (10 : Nat) - (4 : Nat) + (3 : Nat) at hamount
  omega

end Books

end Stockroom
