import Stockroom.Session
import Stockroom.Plan.Policy
import Stockroom.WorkingSet

/-!
# Workspaces

A workspace is a working set tied to one session. It runs plans: the entries in order, each with the
values its criteria read out of what earlier entries loaded, filling the working set. And it saves: it
takes the second snapshot, checks what changed against the active plan's locks, and writes it in
descending lock order.

A strict workspace does not accept that something is missing: a query by identity has to find every
identity asked for, any other query with literal values has to find something. Queries that are chained
or have an offset or a limit are not checked, since coming back short is normal for them. A query that
lacks the values to match anything is not put to the store.
-/

namespace Stockroom

structure Workspace (σ : Type) where
  session : Session σ
  order : LockOrder
  set : WorkingSet
  readOnly : Bool
  strict : Bool
  /-- The plan run last. -/
  plan : Option Plan

namespace Workspace

variable {σ : Type}

/-- A strict workspace with an empty working set. -/
def create (session : Session σ) (order : LockOrder) (readOnly : Bool) : Workspace σ :=
  ⟨session, order, .empty, readOnly, true, none⟩

/-! ## Filling in values -/

/-- The distinct values an extractor reads out of what an entry loaded. -/
def chainedValues (w : WorkingSet) (entries : List Plan.Entry) (source : Nat) (x : Extractor) :
    Except UnitError (List Value) :=
  match entries[source]? with
  | none => .error (.notLoaded source)
  | some e =>
    match e.result with
    | none => .error (.notLoaded source)
    | some is => .ok (distinct ((w.getMany e.kind is).flatMap x.values))

def resolveCriterion (w : WorkingSet) (entries : List Plan.Entry) (c : Criterion) :
    Except UnitError Query.Term :=
  match c.source with
  | .literal values => .ok ⟨c.field, c.operator, values, false⟩
  | .previous source x =>
    (chainedValues w entries source x).map fun values => ⟨c.field, c.operator, values, true⟩

def resolveChain (w : WorkingSet) (entries : List Plan.Entry) :
    List Criterion → Except UnitError (List Query.Term)
  | [] => .ok []
  | c :: cs =>
    match resolveCriterion w entries c with
    | .error e => .error e
    | .ok t => (resolveChain w entries cs).map (t :: ·)

/-- The query an entry poses, given the entries of its plan as far as they are loaded. -/
def resolve (w : WorkingSet) (entries : List Plan.Entry) (e : Plan.Entry) :
    Except UnitError Query :=
  (resolveChain w entries e.criteria.chain).map fun terms =>
    ⟨e.kind, terms, e.criteria.joiner, e.lock, e.sortKey, e.limit, e.offset⟩

/-! ## Running plans -/

/-- What a strict workspace misses in the identities a query found. -/
def checkFound (strict : Bool) (q : Query) (found : List Ident) : Except NotFound Unit :=
  if !strict || !q.isLiteral || q.limit.isSome || q.offset.isSome then .ok ()
  else if q.isIdentLookup then
    let missing := q.requested.filter (· ∉ found)
    if missing.isEmpty then .ok () else .error ⟨q.kind, missing⟩
  else if found.isEmpty then .error ⟨q.kind, []⟩
  else .ok ()

/-- Puts a query to the store unless nothing can match it. -/
def fetch (s : Session σ) (q : Query) : Effect σ StoreError (List Entity) := fun db =>
  if q.isUnsatisfiable then (.ok [], db) else s.load q db

/-- Runs the query of one entry into the working set and gives the identities found. -/
def runQuery (s : Session σ) (strict : Bool) (q : Query) :
    Effect (WorkingSet × σ) Failure (List Ident) := fun (w, db) =>
  match fetch s q db with
  | (.error e, db) => (.error (.ofStore e), w, db)
  | (.ok es, db) =>
    match w.putMany q.kind es with
    | (.error e, w) => (.error (.unit e), w, db)
    | (.ok (), w) =>
      match checkFound strict q (es.map Entity.ident) with
      | .error e => (.error (.notFound e), w, db)
      | .ok () => (.ok (es.map Entity.ident), w, db)

/-- Runs the entries behind those already run, and gives all of them with their results. -/
def runEntries (s : Session σ) (strict : Bool) (ran : List Plan.Entry) :
    List Plan.Entry → Effect (WorkingSet × σ) Failure (List Plan.Entry)
  | [], st => (.ok ran, st)
  | e :: rest, (w, db) =>
    if e.isLoaded then (.error (.unit (.alreadyLoaded ran.length)), w, db)
    else
      match resolve w (ran ++ e :: rest) e with
      | .error fault => (.error (.unit fault), w, db)
      | .ok q =>
        match runQuery s strict q (w, db) with
        | (.error f, st) => (.error f, st)
        | (.ok found, st) =>
          runEntries s strict (ran ++ [{ e with result := some found }]) rest st

/-- Runs a plan and keeps it as the active one. A plan made for the other mode is refused, after it
ran. -/
def load (p : Plan) : Effect (Workspace σ × σ) Failure Unit := fun (m, db) =>
  match runEntries m.session m.strict [] p.entries (m.set, db) with
  | (.error f, w, db) => (.error f, { m with set := w }, db)
  | (.ok entries, w, db) =>
    if m.readOnly = p.mutating then
      (.error (.unit (.modeMismatch m.readOnly p.mutating)), { m with set := w }, db)
    else (.ok (), { m with set := w, plan := some { p with entries := entries } }, db)

/-! ## Saving -/

/-- Takes the next snapshot of the working set. -/
def takeSnapshot (m : Workspace σ) : Except UnitError (Workspace σ) :=
  m.set.takeSnapshot.map fun w => { m with set := w }

/-- The plan whose locks decide on changes. -/
def policy (m : Workspace σ) : Plan := m.plan.getD (.empty !m.readOnly)

/-- Writes what changed since the baseline, and gives it in the order of writing. -/
def save : Effect (Workspace σ × σ) Failure (List (Kind × Delta)) := fun (m, db) =>
  match m.takeSnapshot with
  | .error e => (.error (.unit e), m, db)
  | .ok m =>
    match m.set.changes with
    | .error e => (.error (.unit e), m, db)
    | .ok changes =>
      match m.policy.permit changes with
      | .error e => (.error (.unit e), m, db)
      | .ok () =>
        let deltas := changes.inWriteOrder m.order
        match m.session.save deltas db with
        | (.error e, db) => (.error (.ofStore e), m, db)
        | (.ok (), db) => (.ok deltas, m, db)

end Workspace

end Stockroom
