import Stockroom.LockOrder
import Stockroom.Plan

/-!
# Building plans

A plan is described by a list of calls. `load` starts an entry and the calls up to the next `load`
configure it, the last lock, order, limit and offset of an entry being the one that counts. Calls that
cannot be meant are remembered, and the first of them is reported. Only a list without one goes on to be
checked entry by entry, so a call that cannot be meant is reported before a fault of an earlier entry.

A plan that is not mutating takes no locks. In a mutating plan every entry takes one, and the kinds
come in ascending lock order, which admits each kind once.
-/

namespace Stockroom.Plan

/-- One step in the description of a plan. -/
inductive Call where
  | load (kind : Kind)
  | identIn (idents : List Ident)
  | fieldIn (field : String) (values : List Value)
  | fieldEquals (field : String) (v : Value)
  /-- Reads values out of what an earlier entry loads, by default the one before. -/
  | fromEntry (entry : Option Nat) (field : String) (extractor : Extractor)
  /-- Follows the link from the kind of an earlier entry, by default the one before. -/
  | viaLink (entry : Option Nat)
  | join (j : Joiner)
  | sortBy (field : String) (descending : Bool)
  | limit (n : Nat)
  | offset (n : Nat)
  | lock (mode : LockMode)

/-! ## Drafts -/

/-- An entry as far as it is configured. -/
structure Draft where
  kind : Kind
  tokens : List Token
  lock : Option LockMode
  sortKey : Option SortKey
  limit : Option Nat
  offset : Option Nat
  source : Option Nat

namespace Draft

def start (k : Kind) : Draft := ⟨k, [], none, none, none, none, none⟩

def addCriterion (d : Draft) (c : Criterion) : Draft :=
  { d with
    tokens := d.tokens ++ [.criterion c]
    source := match d.source, c.entry? with
      | some s, some t => some (min s t)
      | s, none => s
      | none, t => t }

/-- The entry to chain from, out of the `n` entries before. -/
def chooseSource (entry : Option Nat) (n : Nat) : Except PlanFault Nat :=
  match entry with
  | some s => if n ≤ s then .error (.forwardReference s) else .ok s
  | none => if n = 0 then .error .noPreviousEntry else .ok (n - 1)

/-- The criterion that follows the link from an earlier entry. -/
def linkCriterion (earlier : List Draft) (d : Draft) (entry : Option Nat) :
    Except PlanFault Criterion :=
  match chooseSource entry earlier.length with
  | .error fault => .error fault
  | .ok s =>
    match earlier[s]? with
    | none => .error (.forwardReference s)
    | some e =>
      match Link.between? e.kind d.kind with
      | some link => .ok (.previous link.field s link.extractor)
      | none => .error (.noLink e.kind d.kind)

/-- Configures a draft that has the given drafts before it. -/
def configure (earlier : List Draft) (d : Draft) : Call → Except PlanFault Draft
  | .load k => .ok (start k)
  | .identIn idents => .ok (d.addCriterion (.isIn "entity_id" (idents.map Ident.toValue)))
  | .fieldIn field values => .ok (d.addCriterion (.isIn field values))
  | .fieldEquals field v => .ok (d.addCriterion (.equals field v))
  | .fromEntry entry field x =>
    (chooseSource entry earlier.length).map fun s => d.addCriterion (.previous field s x)
  | .viaLink entry => (linkCriterion earlier d entry).map d.addCriterion
  | .join j => .ok { d with tokens := d.tokens ++ [.joiner j] }
  | .sortBy field descending => .ok { d with sortKey := some ⟨field, descending⟩ }
  | .limit n => .ok { d with limit := some n }
  | .offset n => .ok { d with offset := some n }
  | .lock mode => .ok { d with lock := some mode }

end Draft

/-- A description read so far: the finished drafts, the one being configured, and the first call that
could not be meant. -/
structure Drafting where
  earlier : List Draft
  current : Option Draft
  error : Option PlanError

namespace Drafting

def start : Drafting := ⟨[], none, none⟩

def drafts (d : Drafting) : List Draft := d.earlier ++ d.current.toList

/-- Remembers an error unless there is one already. -/
def fail (d : Drafting) (e : PlanError) : Drafting := { d with error := some (d.error.getD e) }

def call (d : Drafting) (c : Call) : Drafting :=
  match c, d.current with
  | .load k, _ => { d with earlier := d.drafts, current := some (.start k) }
  | _, none => d.fail ⟨none, .noEntry⟩
  | c, some draft =>
    match draft.configure d.earlier c with
    | .ok draft => { d with current := some draft }
    | .error fault => d.fail ⟨some d.earlier.length, fault⟩

end Drafting

/-! ## Checks -/

/-- Refuses criteria that read from an entry not before position `n`. -/
def checkSources (n : Nat) (c : Criteria) : Except PlanFault Unit :=
  if c.sources.any (n ≤ ·) then .error (.forwardReference (c.sources.foldl max 0)) else .ok ()

def checkLimit (limit : Option Nat) : Except PlanFault Unit :=
  if limit = some 0 then .error .zeroLimit else .ok ()

/-- The lock an entry takes. -/
def chooseLock (mutating : Bool) (lock : Option LockMode) : Except PlanFault LockMode :=
  match mutating, lock with
  | false, none | false, some .noLock => .ok .noLock
  | false, some mode => .error (.lockInReadOnlyPlan mode)
  | true, none => .error .lockUnspecified
  | true, some .noLock => .error .noLockInMutatingPlan
  | true, some mode => .ok mode

/-- Refuses a kind that a mutating plan may not lock after the entries before. -/
def checkKind (o : LockOrder) (mutating : Bool) (earlier : List Entry) (k : Kind) :
    Except PlanFault Unit :=
  if !mutating then .ok ()
  else if earlier.any (·.kind = k) then .error (.repeatedKind k)
  else
    match earlier.getLast? with
    | none => .ok ()
    | some e => if o.priority e.kind < o.priority k then .ok () else .error (.lockOrder e.kind k)

/-- The entry a draft describes, after the entries before it. -/
def Draft.toEntry (o : LockOrder) (mutating : Bool) (earlier : List Entry) (d : Draft) :
    Except PlanFault Entry := do
  let criteria ← Criteria.ofTokens d.tokens
  checkSources earlier.length criteria
  checkLimit d.limit
  let lock ← chooseLock mutating d.lock
  checkKind o mutating earlier d.kind
  return ⟨d.kind, criteria, lock, d.sortKey, d.limit, d.offset, d.source, none⟩

/-- Checks drafts one by one after the entries already accepted. -/
def acceptDrafts (o : LockOrder) (mutating : Bool) (earlier : List Entry) :
    List Draft → Except PlanError (List Entry)
  | [] => .ok earlier
  | d :: ds =>
    match d.toEntry o mutating earlier with
    | .ok e => acceptDrafts o mutating (earlier ++ [e]) ds
    | .error fault => .error ⟨some earlier.length, fault⟩

/-! ## Plans -/

def ofDrafting (o : LockOrder) (mutating : Bool) (d : Drafting) : Except PlanError Plan :=
  match d.error with
  | some e => .error e
  | none => (acceptDrafts o mutating [] d.drafts).map fun entries => ⟨entries, mutating⟩

/-- The plan a list of calls describes. -/
def build (o : LockOrder) (mutating : Bool) (calls : List Call) : Except PlanError Plan :=
  ofDrafting o mutating (calls.foldl Drafting.call .start)

end Stockroom.Plan
