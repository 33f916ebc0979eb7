import Mathlib.Data.List.Basic
import Stockroom.Proofs.FirstFault

/-!
# Which descriptions are accepted

A description falls into stanzas, each a `load` with the calls that configure it, and what a stanza says
can be read off its calls one by one: its terms in order, and of lock, order, limit and offset the last
(`Stanza.entry`). Reading the calls from left to right, as `build` does, comes to the same
(`read_stanza`), and checking the drafts one by one comes to conditions on one stanza at a time and on
the kinds of all of them (`acceptDrafts_draftsFrom_iff`), though of the kinds only neighbours are
compared.

So it can be said without running `build` which descriptions it accepts and what plan it makes of them
(`build_eq_ok_iff`).
-/

namespace Stockroom

/-- The joiner a token is, if it is one. -/
def Token.joiner? : Token → Option Joiner
  | .criterion _ => none
  | .joiner j => some j

namespace Plan

/-! ## What a call says -/

namespace Call

/-- The entry a call chains from, by default the one before the `n`-th. -/
def sourceAt (n : Nat) (entry : Option Nat) : Nat := entry.getD (n - 1)

/-- A call that chains does so from an entry before, and if it follows a link there is one. The kinds
are those of the entries before. -/
def Linked (kinds : List Kind) (k : Kind) : Call → Prop
  | .fromEntry entry _ _ => sourceAt kinds.length entry < kinds.length
  | .viaLink entry => ∃ k', kinds[sourceAt kinds.length entry]? = some k'
      ∧ (Link.between? k' k).isSome
  | _ => True

/-- The term a call adds to an entry for a kind, after entries for the given kinds. -/
def term? (kinds : List Kind) (k : Kind) : Call → Option Criterion
  | .identIn idents => some (.isIn "entity_id" (idents.map Ident.toValue))
  | .fieldIn field values => some (.isIn field values)
  | .fieldEquals field v => some (.equals field v)
  | .fromEntry entry field x => some (.previous field (sourceAt kinds.length entry) x)
  | .viaLink entry =>
    (kinds[sourceAt kinds.length entry]?.bind fun k' => Link.between? k' k).map fun link =>
      .previous link.field (sourceAt kinds.length entry) link.extractor
  | _ => none

def joiner? : Call → Option Joiner
  | .join j => some j
  | _ => none

def sortKey? : Call → Option SortKey
  | .sortBy field descending => some ⟨field, descending⟩
  | _ => none

def limit? : Call → Option Nat
  | .limit n => some n
  | _ => none

def offset? : Call → Option Nat
  | .offset n => some n
  | _ => none

def lock? : Call → Option LockMode
  | .lock mode => some mode
  | _ => none

/-- What a call adds to a chain of terms: a term, or the joiner between two. -/
def mark? : Call → Option (Option Joiner)
  | .identIn _ | .fieldIn _ _ | .fieldEquals _ _ | .fromEntry _ _ _ | .viaLink _ => some none
  | .join j => some (some j)
  | _ => none

end Call

/-! ## Stanzas -/

/-- A `load` with the calls up to the next one. -/
structure Stanza where
  kind : Kind
  calls : List Call

/-- The calls before the first `load`. -/
def preamble (calls : List Call) : List Call := calls.takeWhile fun c => !c.isLoad

def stanzas : List Call → List Stanza
  | [] => []
  | .load k :: cs => ⟨k, preamble cs⟩ :: stanzas cs
  | _ :: cs => stanzas cs

namespace Stanza

def terms (kinds : List Kind) (σ : Stanza) : List Criterion :=
  σ.calls.filterMap (Call.term? kinds σ.kind)

/-- What the last call of a sort says. -/
def last? {α : Type} (f : Call → Option α) (σ : Stanza) : Option α := (σ.calls.filterMap f).getLast?

def Linked (kinds : List Kind) (σ : Stanza) : Prop := ∀ c ∈ σ.calls, c.Linked kinds σ.kind

/-- The terms of a stanza make a chain, its limit lets something through, and it takes a lock exactly in
a mutating plan. -/
structure Sound (mutating : Bool) (σ : Stanza) : Prop where
  /-- One or more terms, with one and the same joiner between them. -/
  chained : ∃ j n, σ.calls.filterMap Call.mark? = (List.replicate (n + 1) none).intersperse (some j)
  limited : σ.last? Call.limit? ≠ some 0
  locking : mutating = true → ∃ m, σ.last? Call.lock? = some m ∧ m ≠ .noLock
  lockless : mutating = false → ∀ m, σ.last? Call.lock? = some m → m = .noLock

/-- The entry a stanza describes, after stanzas of the given kinds. -/
def entry (kinds : List Kind) (σ : Stanza) : Entry where
  kind := σ.kind
  criteria := ⟨σ.terms kinds, σ.last? Call.joiner?⟩
  lock := (σ.last? Call.lock?).getD .noLock
  sortKey := σ.last? Call.sortKey?
  limit := σ.last? Call.limit?
  offset := σ.last? Call.offset?
  source := ((σ.terms kinds).filterMap Criterion.entry?).min?
  result := none

end Stanza

/-- Every stanza is linked to stanzas before it. -/
def LinkedFrom : List Kind → List Stanza → Prop
  | _, [] => True
  | kinds, σ :: σs => σ.Linked kinds ∧ LinkedFrom (kinds ++ [σ.kind]) σs

/-- The entries that stanzas describe, in order. -/
def entriesFrom : List Kind → List Stanza → List Entry
  | _, [] => []
  | kinds, σ :: σs => σ.entry kinds :: entriesFrom (kinds ++ [σ.kind]) σs

/-- What it takes for a description to be accepted. -/
structure Acceptable (o : LockOrder) (mutating : Bool) (calls : List Call) : Prop where
  started : preamble calls = []
  linked : LinkedFrom [] (stanzas calls)
  sound : ∀ σ ∈ stanzas calls, σ.Sound mutating
  ascending : mutating = true →
    ((stanzas calls).map Stanza.kind).Pairwise fun k l => o.priority k < o.priority l

/-! ## Reading calls -/

namespace Call

variable {kinds : List Kind} {k : Kind} {c : Call}

/-- The token a call adds. -/
def token? (kinds : List Kind) (k : Kind) : Call → Option Token
  | .join j => some (.joiner j)
  | c => (c.term? kinds k).map .criterion

theorem token?_cases (kinds : List Kind) (k : Kind) (c : Call) :
    (∃ j, c = .join j)
      ∨ (c.joiner? = none ∧ c.token? kinds k = (c.term? kinds k).map .criterion) := by
  cases c with
  | join j => exact Or.inl ⟨j, rfl⟩
  | _ => exact Or.inr ⟨rfl, rfl⟩

end Call

/-- The draft a stanza comes to. -/
def Stanza.draft (kinds : List Kind) (σ : Stanza) : Draft where
  kind := σ.kind
  tokens := σ.calls.filterMap (Call.token? kinds σ.kind)
  lock := σ.last? Call.lock?
  sortKey := σ.last? Call.sortKey?
  limit := σ.last? Call.limit?
  offset := σ.last? Call.offset?
  source := ((σ.terms kinds).filterMap Criterion.entry?).min?

def draftsFrom : List Kind → List Stanza → List Draft
  | _, [] => []
  | kinds, σ :: σs => σ.draft kinds :: draftsFrom (kinds ++ [σ.kind]) σs

variable {kinds : List Kind} {k : Kind} {c : Call} {cs : List Call} {earlier : List Draft}

theorem Stanza.last?_concat {α : Type} (f : Call → Option α) (k : Kind) (cs : List Call) (c : Call) :
    last? f ⟨k, cs ++ [c]⟩ = (f c).or (last? f ⟨k, cs⟩) := by
  rw [last?, List.filterMap_append]
  cases hc : f c with
  | none => simp [hc, last?]
  | some a => simp [hc]

theorem Draft.chooseSource_cases (entry : Option Nat) (n : Nat) :
    (Call.sourceAt n entry < n ∧ chooseSource entry n = .ok (Call.sourceAt n entry))
      ∨ (¬ Call.sourceAt n entry < n ∧ ∃ fault, chooseSource entry n = .error fault) := by
  cases entry with
  | none =>
      by_cases hn : n = 0
      · exact Or.inr ⟨by simp [Call.sourceAt, hn], _, if_pos hn⟩
      · exact Or.inl ⟨Nat.sub_one_lt hn, if_neg hn⟩
  | some s =>
      by_cases hs : n ≤ s
      · exact Or.inr ⟨Nat.not_lt.mpr hs, _, if_pos hs⟩
      · exact Or.inl ⟨Nat.not_le.mp hs, if_neg hs⟩

theorem Draft.linkCriterion_cases (earlier : List Draft) (d : Draft) (entry : Option Nat) :
    (Call.Linked (earlier.map kind) d.kind (.viaLink entry)
        ∧ ∃ x, Call.term? (earlier.map kind) d.kind (.viaLink entry) = some x
          ∧ linkCriterion earlier d entry = .ok x)
      ∨ (¬ Call.Linked (earlier.map kind) d.kind (.viaLink entry)
        ∧ ∃ fault, linkCriterion earlier d entry = .error fault) := by
  rw [Call.Linked, Call.term?, List.length_map, linkCriterion, List.getElem?_map]
  rcases chooseSource_cases entry earlier.length with ⟨hsource, hchosen⟩ | ⟨hsource, fault, hchosen⟩
  · obtain ⟨e, he⟩ : ∃ e, earlier[Call.sourceAt earlier.length entry]? = some e :=
      ⟨_, List.getElem?_eq_getElem hsource⟩
    simp only [hchosen, he, Option.map_some, Option.bind_some]
    cases hlink : Link.between? e.kind d.kind with
    | none =>
        refine Or.inr ⟨?_, _, rfl⟩
        rintro ⟨k, hk, hsome⟩
        obtain rfl := Option.some.inj hk
        rw [hlink] at hsome
        cases hsome
    | some link =>
        exact Or.inl ⟨⟨e.kind, rfl, by rw [hlink]; rfl⟩, _, rfl, rfl⟩
  · refine Or.inr ⟨?_, fault, by rw [hchosen]⟩
    rintro ⟨k, hk, -⟩
    obtain ⟨e, he, -⟩ := Option.map_eq_some_iff.mp hk
    exact hsource (List.getElem?_eq_some_iff.mp he).1

/-- A term call adds its term to what the calls before it describe. -/
theorem addCriterion_draft {x : Criterion} (hterm : c.term? kinds k = some x)
    (htoken : c.token? kinds k = some (.criterion x)) (hlock : c.lock? = none)
    (hsort : c.sortKey? = none) (hlimit : c.limit? = none) (hoffset : c.offset? = none) :
    (Stanza.draft kinds ⟨k, cs⟩).addCriterion x = Stanza.draft kinds ⟨k, cs ++ [c]⟩ := by
  simp only [Draft.addCriterion, Stanza.draft, Stanza.last?_concat, hlock, hsort, hlimit, hoffset,
    Option.none_or, Stanza.terms, List.filterMap_append, List.filterMap_cons, List.filterMap_nil,
    hterm, htoken, Draft.mk.injEq, true_and]
  generalize (cs.filterMap (Call.term? kinds k)).filterMap Criterion.entry? = sources
  cases x.entry? with
  | none =>
      rw [List.append_nil]
      cases sources.min? <;> rfl
  | some t =>
      rw [min?_concat]
      cases sources.min? <;> rfl

/-- Configuring the draft of the calls so far gives the draft of one call more, unless the call is
linked to no entry before. -/
theorem configure_draft (k : Kind) (cs : List Call) (hc : c.isLoad = false)
    (hkinds : earlier.map Draft.kind = kinds) :
    (c.Linked kinds k ∧ (Stanza.draft kinds ⟨k, cs⟩).configure earlier c
        = .ok (Stanza.draft kinds ⟨k, cs ++ [c]⟩))
      ∨ (¬ c.Linked kinds k
        ∧ ∃ fault, (Stanza.draft kinds ⟨k, cs⟩).configure earlier c = .error fault) := by
  subst hkinds
  cases c with
  | load k' => cases hc
  | identIn idents => exact Or.inl ⟨trivial, congrArg _ (addCriterion_draft rfl rfl rfl rfl rfl rfl)⟩
  | fieldIn field values =>
      exact Or.inl ⟨trivial, congrArg _ (addCriterion_draft rfl rfl rfl rfl rfl rfl)⟩
  | fieldEquals field v =>
      exact Or.inl ⟨trivial, congrArg _ (addCriterion_draft rfl rfl rfl rfl rfl rfl)⟩
  | fromEntry entry field x =>
      rw [Call.Linked, List.length_map, Draft.configure]
      rcases Draft.chooseSource_cases entry earlier.length with
        ⟨hsource, hchosen⟩ | ⟨hsource, fault, hchosen⟩
      · refine Or.inl ⟨hsource, ?_⟩
        have hterm : Call.term? (earlier.map Draft.kind) k (.fromEntry entry field x)
            = some (.previous field (Call.sourceAt earlier.length entry) x) := by
          rw [Call.term?, List.length_map]
        rw [hchosen]
        exact congrArg _ (addCriterion_draft hterm
          (congrArg (Option.map Token.criterion) hterm) rfl rfl rfl rfl)
      · exact Or.inr ⟨hsource, fault, by rw [hchosen]; rfl⟩
  | viaLink entry =>
      rw [Draft.configure]
      rcases Draft.linkCriterion_cases earlier
          (Stanza.draft (earlier.map Draft.kind) ⟨k, cs⟩) entry with
        ⟨hlinked, x, hterm, hlink⟩ | ⟨hlinked, fault, hlink⟩
      · refine Or.inl ⟨hlinked, ?_⟩
        rw [hlink]
        exact congrArg _ (addCriterion_draft hterm
          (congrArg (Option.map Token.criterion) hterm) rfl rfl rfl rfl)
      · exact Or.inr ⟨hlinked, fault, by rw [hlink]; rfl⟩
  | join j | sortBy field descending | limit n | offset n | lock mode =>
      refine Or.inl ⟨trivial, ?_⟩
      simp [Draft.configure, Stanza.draft, Stanza.last?_concat, Stanza.terms,
        List.filterMap_cons, Call.term?, Call.token?,
        Call.sortKey?, Call.limit?, Call.offset?, Call.lock?]

theorem preamble_cons_of_load (hc : c.isLoad = true) : preamble (c :: cs) = [] := by
  rw [preamble, List.takeWhile_cons, hc]
  rfl

theorem preamble_cons (hc : c.isLoad = false) : preamble (c :: cs) = c :: preamble cs := by
  rw [preamble, List.takeWhile_cons, hc]
  rfl

theorem stanzas_cons (hc : c.isLoad = false) : stanzas (c :: cs) = stanzas cs := by
  cases c with
  | load k => cases hc
  | _ => rfl

theorem Drafting.call_of_not_load (hc : c.isLoad = false) (d : Draft) (e : Option PlanError) :
    Drafting.call ⟨earlier, some d, e⟩ c
      = match d.configure earlier c with
        | .ok d' => ⟨earlier, some d', e⟩
        | .error fault => Drafting.fail ⟨earlier, some d, e⟩ ⟨some earlier.length, fault⟩ := by
  cases c with
  | load k => cases hc
  | _ => rfl

/-- Calls made after one that could not be meant do not make up for it. -/
theorem Drafting.error_of_fail (dr : Drafting) (e : PlanError) (calls : List Call) :
    (calls.foldl Drafting.call (dr.fail e)).error ≠ none := by
  have hkept := (Drafting.continues_calls calls (dr.fail e)).error _ rfl
  rw [hkept]
  exact Option.some_ne_none _

/-- Reading on from within a stanza: nothing is remembered exactly if this stanza and those that follow
are linked to stanzas before them, and then the drafts are theirs. -/
theorem read_stanza (hkinds : earlier.map Draft.kind = kinds)
    {made : List Call} (hmade : ∀ c ∈ made, c.Linked kinds k) (calls : List Call) :
    let dr := calls.foldl Drafting.call ⟨earlier, some (Stanza.draft kinds ⟨k, made⟩), none⟩
    let σs := ⟨k, made ++ preamble calls⟩ :: stanzas calls
    (dr.error = none ↔ LinkedFrom kinds σs)
      ∧ (dr.error = none → dr.drafts = earlier ++ draftsFrom kinds σs) := by
  induction calls generalizing earlier kinds k made with
  | nil =>
      have hpreamble : made ++ preamble [] = made := List.append_nil _
      simp only [List.foldl_nil, hpreamble]
      exact ⟨⟨fun _ => ⟨hmade, trivial⟩, fun _ => trivial⟩, fun _ => rfl⟩
  | cons c cs ih =>
      simp only [List.foldl_cons]
      cases hc : c.isLoad with
      | true =>
          -- the stanza is closed, and the next one begins
          obtain ⟨k', rfl⟩ := Call.exists_load hc
          have hkinds' : (earlier ++ [Stanza.draft kinds ⟨k, made⟩]).map Draft.kind
              = kinds ++ [k] := by rw [List.map_append, hkinds]; rfl
          have hnothing : ∀ c ∈ ([] : List Call), c.Linked (kinds ++ [k]) k' := by simp
          obtain ⟨herror, hdrafts⟩ := ih hkinds' hnothing
          rw [preamble_cons_of_load hc, List.append_nil]
          refine ⟨herror.trans ⟨fun h => ⟨hmade, h⟩, fun h => h.2⟩, fun hnone => ?_⟩
          exact (hdrafts hnone).trans (List.append_assoc _ _ _)
      | false =>
          rw [Drafting.call_of_not_load hc, preamble_cons hc, stanzas_cons hc, List.append_cons]
          rcases configure_draft k made hc hkinds with
            ⟨hlinked, hok⟩ | ⟨hlinked, fault, herror⟩
          · rw [hok]
            refine ih hkinds fun c' hc' => ?_
            rcases List.mem_append.mp hc' with hc' | hc'
            · exact hmade c' hc'
            · exact List.mem_singleton.mp hc' ▸ hlinked
          · rw [herror]
            have hfail := Drafting.error_of_fail
              ⟨earlier, some (Stanza.draft kinds ⟨k, made⟩), none⟩ ⟨some earlier.length, fault⟩ cs
            exact ⟨⟨fun h => absurd h hfail, fun h => absurd (h.1 c (by simp)) hlinked⟩,
              fun h => absurd h hfail⟩

/-- Reading a description remembers nothing exactly if it begins with a `load` and every stanza is
linked to stanzas before it, and then the drafts are those of the stanzas. -/
theorem read_calls (calls : List Call) :
    let dr := calls.foldl Drafting.call .start
    (dr.error = none ↔ preamble calls = [] ∧ LinkedFrom [] (stanzas calls))
      ∧ (dr.error = none → dr.drafts = draftsFrom [] (stanzas calls)) := by
  cases calls with
  | nil => exact ⟨⟨fun _ => ⟨rfl, trivial⟩, fun _ => rfl⟩, fun _ => rfl⟩
  | cons c cs =>
      simp only [List.foldl_cons]
      cases hc : c.isLoad with
      | true =>
          obtain ⟨k, rfl⟩ := Call.exists_load hc
          have hkinds : ([] : List Draft).map Draft.kind = [] := rfl
          have hnothing : ∀ c ∈ ([] : List Call), c.Linked [] k := by simp
          obtain ⟨herror, hdrafts⟩ := read_stanza hkinds hnothing cs
          rw [preamble_cons_of_load hc]
          exact ⟨herror.trans ⟨fun h => ⟨rfl, h⟩, fun h => h.2⟩, hdrafts⟩
      | false =>
          have hstart : Drafting.start.call c = Drafting.start.fail ⟨none, .noEntry⟩ := by
            cases c with
            | load k => cases hc
            | _ => rfl
          have hfail := Drafting.error_of_fail .start ⟨none, .noEntry⟩ cs
          rw [hstart, preamble_cons hc]
          exact ⟨⟨fun h => absurd h hfail, fun h => nomatch h.1⟩, fun h => absurd h hfail⟩

/-! ## Checking drafts -/

/-- Tokens are criteria with one joiner between them exactly if they alternate so, token by token. -/
theorem exists_spell_iff {ts : List Token} {j : Joiner} :
    (∃ c cs, ts = Token.spell c j cs) ↔
      ∃ n, ts.map Token.joiner? = (List.replicate (n + 1) none).intersperse (some j) := by
  constructor
  · rintro ⟨c, cs, rfl⟩
    refine ⟨cs.length, ?_⟩
    induction cs generalizing c with
    | nil => rfl
    | cons c' cs ih =>
        have hspell : Token.spell c j (c' :: cs) = .criterion c :: .joiner j :: Token.spell c' j cs := rfl
        rw [hspell, List.map_cons, List.map_cons, ih c']
        rfl
  · rintro ⟨n, hmarks⟩
    induction n generalizing ts with
    | zero =>
        obtain ⟨t, rfl, ht⟩ := List.map_eq_singleton_iff.mp hmarks
        cases t with
        | criterion c => exact ⟨c, [], rfl⟩
        | joiner i => cases ht
    | succ n ih =>
        have hshape : (List.replicate (n + 2) none).intersperse (some j)
            = none :: some j :: (List.replicate (n + 1) none).intersperse (some j) := rfl
        rw [hshape] at hmarks
        obtain ⟨t, ts, rfl, ht, hmarks⟩ := List.map_eq_cons_iff.mp hmarks
        obtain ⟨t', ts, rfl, ht', hmarks⟩ := List.map_eq_cons_iff.mp hmarks
        obtain ⟨c', cs, rfl⟩ := ih hmarks
        cases t with
        | joiner i => cases ht
        | criterion c =>
            cases t' with
            | criterion c'' => cases ht'
            | joiner i =>
                obtain rfl := Option.some.inj ht'
                exact ⟨c, c' :: cs, rfl⟩

/-- The last joiner read is the joiner of the chain. -/
theorem joiner_of_reads {ts : List Token} {chain : List Criterion} {joiner : Option Joiner}
    {wanting : Bool} (h : Token.Reads ts chain joiner wanting) :
    joiner = (ts.filterMap Token.joiner?).getLast? := by
  induction h with
  | start => rfl
  | criterion c h ih => simp [ih, Token.joiner?]
  | joiner j hsame h ih => simp [Token.joiner?]

theorem ofTokens_eq_ok_iff {ts : List Token} {x : Criteria} :
    Criteria.ofTokens ts = .ok x ↔
      (∃ j n, ts.map Token.joiner? = (List.replicate (n + 1) none).intersperse (some j))
        ∧ x = ⟨ts.filterMap Token.criterion?, (ts.filterMap Token.joiner?).getLast?⟩ := by
  have hexists : (∃ x, Criteria.ofTokens ts = .ok x) ↔
      ∃ j n, ts.map Token.joiner? = (List.replicate (n + 1) none).intersperse (some j) := by
    simp only [← exists_spell_iff]
    exact Token.exists_ofTokens_iff.trans exists_comm
  have hunique : ∀ x, Criteria.ofTokens ts = .ok x →
      x = ⟨ts.filterMap Token.criterion?, (ts.filterMap Token.joiner?).getLast?⟩ := by
    intro x hx
    rw [← chain_of_ofTokens hx, ← joiner_of_reads (Token.ofTokens_eq_ok_iff_reads.mp hx)]
  constructor
  · exact fun hx => ⟨hexists.mp ⟨x, hx⟩, hunique x hx⟩
  · rintro ⟨hshape, rfl⟩
    obtain ⟨x, hx⟩ := hexists.mpr hshape
    rwa [← hunique x hx]

theorem checkLimit_eq_ok_iff {limit : Option Nat} : checkLimit limit = .ok () ↔ limit ≠ some 0 := by
  simp only [checkLimit]
  split <;> simp_all

theorem chooseLock_eq_ok_iff {mutating : Bool} {lock : Option LockMode} {mode : LockMode} :
    chooseLock mutating lock = .ok mode ↔
      (mutating = true → ∃ m, lock = some m ∧ m ≠ .noLock)
        ∧ (mutating = false → ∀ m, lock = some m → m = .noLock)
        ∧ mode = lock.getD .noLock := by
  cases mutating with
  | true =>
      cases lock with
      | none => simp [chooseLock]
      | some m => cases m <;> simp [chooseLock, eq_comm]
  | false =>
      cases lock with
      | none => simp [chooseLock, eq_comm]
      | some m => cases m <;> simp [chooseLock, eq_comm]

/-- After ascending kinds it is enough to compare with the last one. -/
theorem checkKind_eq_ok_iff {o : LockOrder} {mutating : Bool} {earlier : List Entry}
    (hasc : mutating = true →
      (earlier.map Entry.kind).Pairwise fun k l => o.priority k < o.priority l) :
    checkKind o mutating earlier k = .ok () ↔
      (mutating = true → ∀ e ∈ earlier, o.priority e.kind < o.priority k) := by
  cases mutating with
  | false => simp [checkKind]
  | true =>
      refine ⟨fun h _ => lt_of_checkKind (hasc rfl) h, fun h => ?_⟩
      have hbefore := h rfl
      have hnew : earlier.any (fun e => e.kind = k) = false := by
        refine List.any_eq_false.mpr fun e he hkind => ?_
        exact absurd (of_decide_eq_true hkind ▸ hbefore e he) (Nat.lt_irrefl _)
      simp only [checkKind, Bool.not_true, Bool.false_eq_true, if_false, hnew]
      cases hlast : earlier.getLast? with
      | none => rfl
      | some e => exact if_pos (hbefore e (List.mem_of_getLast? hlast))

namespace Stanza

variable {σ : Stanza} {o : LockOrder} {mutating : Bool}

theorem source_lt (hlinked : σ.Linked kinds) :
    ∀ n ∈ (σ.terms kinds).filterMap Criterion.entry?, n < kinds.length := by
  intro n hn
  obtain ⟨x, hx, hentry⟩ := List.mem_filterMap.mp hn
  obtain ⟨c, hc, hterm⟩ := List.mem_filterMap.mp hx
  have hsource := hlinked c hc
  cases c with
  | fromEntry entry field y =>
      obtain rfl := Option.some.inj hterm
      exact Option.some.inj hentry ▸ hsource
  | viaLink entry =>
      obtain ⟨k', hk', -⟩ := hsource
      obtain ⟨link, -, rfl⟩ := Option.map_eq_some_iff.mp hterm
      exact Option.some.inj hentry ▸ (List.getElem?_eq_some_iff.mp hk').1
  | identIn idents | fieldIn field values | fieldEquals field v =>
      obtain rfl := Option.some.inj hterm
      cases hentry
  | _ => cases hterm

/-- The criteria of a linked stanza are its terms, if they make a chain. -/
theorem ofTokens_draft_iff (hlinked : σ.Linked kinds) {x : Criteria} :
    Criteria.ofTokens (σ.draft kinds).tokens = .ok x ↔
      (∃ j n, σ.calls.filterMap Call.mark? = (List.replicate (n + 1) none).intersperse (some j))
        ∧ x = ⟨σ.terms kinds, σ.last? Call.joiner?⟩ := by
  have hmarks : (σ.draft kinds).tokens.map Token.joiner? = σ.calls.filterMap Call.mark? := by
    rw [draft, List.map_filterMap]
    refine List.filterMap_congr fun c hc => ?_
    have hsource := hlinked c hc
    cases c with
    | viaLink entry =>
        obtain ⟨k', hk', hsome⟩ := hsource
        obtain ⟨link, hlink⟩ := Option.isSome_iff_exists.mp hsome
        simp [Call.token?, Call.term?, Call.mark?, hk', hlink, Token.joiner?]
    | _ => rfl
  have hterms : (σ.draft kinds).tokens.filterMap Token.criterion? = σ.terms kinds := by
    rw [draft, List.filterMap_filterMap, terms]
    refine List.filterMap_congr fun c _ => ?_
    rcases Call.token?_cases kinds σ.kind c with ⟨j, rfl⟩ | ⟨-, htoken⟩
    · rfl
    · rw [htoken]
      cases c.term? kinds σ.kind <;> rfl
  have hjoiners : (σ.draft kinds).tokens.filterMap Token.joiner?
      = σ.calls.filterMap Call.joiner? := by
    rw [draft, List.filterMap_filterMap]
    refine List.filterMap_congr fun c _ => ?_
    rcases Call.token?_cases kinds σ.kind c with ⟨j, rfl⟩ | ⟨hjoiner, htoken⟩
    · rfl
    · rw [htoken, hjoiner]
      cases c.term? kinds σ.kind <;> rfl
  rw [ofTokens_eq_ok_iff, hmarks, hterms, hjoiners]
  rfl

/-- The draft of a linked stanza is accepted exactly if the stanza is sound and its kind comes behind
those before it, and then the entry is the one that the stanza describes. -/
theorem toEntry_draft_iff {earlier : List Entry} {e : Entry}
    (hkinds : earlier.map Entry.kind = kinds)
    (hasc : mutating = true → kinds.Pairwise fun k l => o.priority k < o.priority l)
    (hlinked : σ.Linked kinds) :
    (σ.draft kinds).toEntry o mutating earlier = .ok e ↔
      σ.Sound mutating ∧ (mutating = true → ∀ k ∈ kinds, o.priority k < o.priority σ.kind)
        ∧ e = σ.entry kinds := by
  subst hkinds
  have hbehind : (mutating = true → ∀ e ∈ earlier, o.priority e.kind < o.priority σ.kind)
      ↔ (mutating = true →
        ∀ k ∈ earlier.map Entry.kind, o.priority k < o.priority σ.kind) := by
    simp
  have hsources : ∀ joiner, checkSources earlier.length ⟨σ.terms (earlier.map Entry.kind), joiner⟩
      = .ok () := by
    intro joiner
    refine checkSources_eq_ok_iff.mpr fun n hn => ?_
    exact List.length_map .. ▸ source_lt hlinked n hn
  rw [Draft.toEntry_eq_ok_iff]
  simp only [ofTokens_draft_iff hlinked, checkLimit_eq_ok_iff, chooseLock_eq_ok_iff]
  constructor
  · rintro ⟨x, mode, ⟨hshape, rfl⟩, -, hlimit, ⟨hlocking, hlockless, rfl⟩, hkind, rfl⟩
    exact ⟨⟨hshape, hlimit, hlocking, hlockless⟩,
      hbehind.mp ((checkKind_eq_ok_iff hasc).mp hkind), rfl⟩
  · rintro ⟨⟨hshape, hlimit, hlocking, hlockless⟩, hbefore, rfl⟩
    exact ⟨_, _, ⟨hshape, rfl⟩, hsources _, hlimit, ⟨hlocking, hlockless, rfl⟩,
      (checkKind_eq_ok_iff hasc).mpr (hbehind.mpr hbefore), rfl⟩

end Stanza

theorem pairwise_concat_iff {α : Type} {R : α → α → Prop} {xs : List α} {a : α} :
    (xs ++ [a]).Pairwise R ↔ xs.Pairwise R ∧ ∀ b ∈ xs, R b a := by
  rw [List.pairwise_append]
  simp

/-- Drafts of linked stanzas are accepted exactly if every stanza is sound and, in a mutating plan, the
kinds ascend, and then the entries are those that the stanzas describe. -/
theorem acceptDrafts_draftsFrom_iff {o : LockOrder} {mutating : Bool} {earlier es : List Entry}
    {σs : List Stanza} (hkinds : earlier.map Entry.kind = kinds)
    (hasc : mutating = true → kinds.Pairwise fun k l => o.priority k < o.priority l)
    (hlinked : LinkedFrom kinds σs) :
    acceptDrafts o mutating earlier (draftsFrom kinds σs) = .ok es ↔
      (∀ σ ∈ σs, σ.Sound mutating)
        ∧ (mutating = true → (kinds ++ σs.map Stanza.kind).Pairwise
            fun k l => o.priority k < o.priority l)
        ∧ es = earlier ++ entriesFrom kinds σs := by
  induction σs generalizing earlier kinds with
  | nil =>
      simp only [draftsFrom, acceptDrafts, entriesFrom, List.map_nil, List.append_nil,
        Except.ok.injEq]
      exact ⟨fun h => ⟨by simp, hasc, h.symm⟩, fun h => h.2.2.symm⟩
  | cons σ σs ih =>
      obtain ⟨hσ, hσs⟩ := hlinked
      have haccept : ∀ e, (σ.draft kinds).toEntry o mutating earlier = .ok e ↔
          σ.Sound mutating ∧ (mutating = true → ∀ k ∈ kinds, o.priority k < o.priority σ.kind)
            ∧ e = σ.entry kinds := fun e => Stanza.toEntry_draft_iff hkinds hasc hσ
      have hkinds' : (earlier ++ [σ.entry kinds]).map Entry.kind = kinds ++ [σ.kind] := by
        rw [List.map_append, hkinds]
        rfl
      rw [draftsFrom, entriesFrom, List.map_cons, List.append_cons kinds σ.kind (σs.map Stanza.kind),
        List.append_cons earlier, List.forall_mem_cons, acceptDrafts]
      constructor
      · intro h
        split at h
        · rename_i e he
          obtain ⟨hsound, hbehind, rfl⟩ := (haccept e).mp he
          obtain ⟨hsounds, hascending, hes⟩ :=
            (ih hkinds' (fun hm => pairwise_concat_iff.mpr ⟨hasc hm, hbehind hm⟩) hσs).mp h
          exact ⟨⟨hsound, hsounds⟩, hascending, hes⟩
        · cases h
      · rintro ⟨⟨hsound, hsounds⟩, hascending, hes⟩
        have hasc' : mutating = true →
            (kinds ++ [σ.kind]).Pairwise fun k l => o.priority k < o.priority l :=
          fun hm => (List.pairwise_append.mp (hascending hm)).1
        rw [(haccept _).mpr ⟨hsound, fun hm => (pairwise_concat_iff.mp (hasc' hm)).2, rfl⟩]
        exact (ih hkinds' hasc' hσs).mpr ⟨hsounds, hascending, hes⟩

/-! ## Accepted descriptions -/

/-- A description is accepted exactly if it begins with a `load`, every entry is linked to entries
before it and sound, and the kinds of a mutating plan ascend in the lock order, each behind all before
it. The plan has one entry for each `load`, with what the calls up to the next one say. -/
theorem build_eq_ok_iff (o : LockOrder) (mutating : Bool) (calls : List Call) (p : Plan) :
    build o mutating calls = .ok p ↔
      Acceptable o mutating calls ∧ p = ⟨entriesFrom [] (stanzas calls), mutating⟩ := by
  obtain ⟨herror, hdrafts⟩ := read_calls calls
  have hkinds : ([] : List Entry).map Entry.kind = [] := rfl
  have haccept : ∀ es, LinkedFrom [] (stanzas calls) →
      (acceptDrafts o mutating [] (draftsFrom [] (stanzas calls)) = .ok es ↔ _) :=
    fun es hlinked => acceptDrafts_draftsFrom_iff hkinds (by simp) hlinked
  constructor
  · intro h
    have hnone : (calls.foldl Drafting.call .start).error = none := by
      cases hremembered : (calls.foldl Drafting.call .start).error with
      | none => rfl
      | some e => simp [build, ofDrafting, hremembered] at h
    obtain ⟨hstarted, hlinked⟩ := herror.mp hnone
    obtain ⟨hmutating, hes⟩ := build_ok h
    rw [hdrafts hnone, haccept _ hlinked] at hes
    obtain ⟨hsound, hascending, hentries⟩ := hes
    obtain ⟨entries, _⟩ := p
    obtain rfl := hmutating
    exact ⟨⟨hstarted, hlinked, hsound, hascending⟩, congrArg (Plan.mk · _) hentries⟩
  · rintro ⟨⟨hstarted, hlinked, hsound, hascending⟩, rfl⟩
    have hnone := herror.mpr ⟨hstarted, hlinked⟩
    rw [build_of_error_none hnone, hdrafts hnone,
      (haccept _ hlinked).mpr ⟨hsound, hascending, rfl⟩]
    rfl

end Plan

end Stockroom
