import Stockroom.Plan.Build
import Stockroom.Proofs.Grammar

/-!
# What a built plan is like

A description that is accepted went through two passes. Reading the calls only ever starts a draft,
adds a criterion or a joiner to it, or sets what does not concern its criteria
(`Draft.configure_cases`), so what these keep holds of every draft (`drafts_induction`). Checking the
drafts appends one entry after the other (`acceptDrafts_induction`), each made of its draft as
`Draft.toEntry_ok` says.

Of the entries of a built plan four things follow: nothing is loaded yet (`fresh_of_build`), a criterion
that compares with the first of its values has no other (`plain_of_build`), criteria are chains that read
from earlier entries only (`wellFormed_of_build`), and in a mutating plan the kinds ascend in the lock
order (`ascending_of_build`), though each is compared with its left neighbour only.
-/

namespace Stockroom

/-- A criterion that compares with the first of its values has just that one. -/
def Criterion.Plain (c : Criterion) : Prop := c.operator = .isIn ∨ ∃ v, c.source = .literal [v]

/-- The criterion a token is, if it is one. -/
def Token.criterion? : Token → Option Criterion
  | .criterion c => some c
  | .joiner _ => none

theorem mem_of_mem_filterMap {ts : List Token} {x : Criterion}
    (h : x ∈ ts.filterMap Token.criterion?) : .criterion x ∈ ts := by
  obtain ⟨t, ht, hx⟩ := List.mem_filterMap.mp h
  cases t with
  | criterion y =>
      obtain rfl := Option.some.inj hx
      exact ht
  | joiner j => cases hx

namespace Plan

variable {o : LockOrder} {mutating : Bool} {calls : List Call} {p : Plan}

/-! ## Reading calls -/

/-- What configuring does to a draft. -/
theorem Draft.configure_cases {earlier : List Draft} {d d' : Draft} {c : Call}
    (h : d.configure earlier c = .ok d') :
    (∃ k, d' = start k)
      ∨ (∃ x : Criterion, x.Plain ∧ d' = d.addCriterion x)
      ∨ (∃ j, d' = { d with tokens := d.tokens ++ [.joiner j] })
      ∨ (d'.kind = d.kind ∧ d'.tokens = d.tokens ∧ d'.source = d.source) := by
  cases c with
  | load k => exact Or.inl ⟨k, (Except.ok.inj h).symm⟩
  | identIn idents => exact Or.inr (Or.inl ⟨_, Or.inl rfl, (Except.ok.inj h).symm⟩)
  | fieldIn field values => exact Or.inr (Or.inl ⟨_, Or.inl rfl, (Except.ok.inj h).symm⟩)
  | fieldEquals field v => exact Or.inr (Or.inl ⟨_, Or.inr ⟨v, rfl⟩, (Except.ok.inj h).symm⟩)
  | fromEntry entry field x =>
      simp only [configure] at h
      cases hs : chooseSource entry earlier.length with
      | error fault =>
          rw [hs] at h
          cases h
      | ok s =>
          rw [hs] at h
          exact Or.inr (Or.inl ⟨_, Or.inl rfl, (Except.ok.inj h).symm⟩)
  | viaLink entry =>
      simp only [configure] at h
      cases hlink : linkCriterion earlier d entry with
      | error fault =>
          rw [hlink] at h
          cases h
      | ok x =>
          rw [hlink] at h
          refine Or.inr (Or.inl ⟨x, ?_, (Except.ok.inj h).symm⟩)
          simp only [linkCriterion] at hlink
          split at hlink
          · cases hlink
          · split at hlink
            · cases hlink
            · split at hlink
              · obtain rfl := Except.ok.inj hlink
                exact Or.inl rfl
              · cases hlink
  | join j => exact Or.inr (Or.inr (Or.inl ⟨j, (Except.ok.inj h).symm⟩))
  | sortBy _ _ | limit _ | offset _ | lock _ =>
      obtain rfl := Except.ok.inj h
      exact Or.inr (Or.inr (Or.inr ⟨rfl, rfl, rfl⟩))

section

variable {P : Draft → Prop} (hstart : ∀ k, P (.start k))
  (hconfigure : ∀ earlier d c d', P d → d.configure earlier c = .ok d' → P d')

include hstart hconfigure

theorem call_induction {dr : Drafting} (c : Call) (h : ∀ d ∈ dr.drafts, P d) :
    ∀ d ∈ (dr.call c).drafts, P d := by
  obtain ⟨earlier, current, error⟩ := dr
  have hload : ∀ k, ∀ d ∈ (Drafting.call ⟨earlier, current, error⟩ (.load k)).drafts, P d := by
    intro k d hd
    rcases List.mem_append.mp hd with hd | hd
    · exact h d hd
    · exact List.mem_singleton.mp hd ▸ hstart k
  cases current with
  | none =>
      cases c with
      | load k => exact hload k
      | _ => exact h
  | some draft =>
      have hdraft : P draft := h draft (by simp [Drafting.drafts])
      cases c with
      | load k => exact hload k
      | _ =>
          intro d hd
          simp only [Drafting.call] at hd
          split at hd
          · rename_i draft' hok
            rcases List.mem_append.mp hd with hd | hd
            · exact h d (List.mem_append_left _ hd)
            · exact List.mem_singleton.mp hd ▸ hconfigure _ _ _ _ hdraft hok
          · exact h d hd

/-- What holds of a draft just started and stays when it is configured holds of every draft. -/
theorem drafts_induction (calls : List Call) :
    ∀ d ∈ (calls.foldl Drafting.call .start).drafts, P d := by
  have hrun : ∀ (calls : List Call) (dr : Drafting), (∀ d ∈ dr.drafts, P d) →
      ∀ d ∈ (calls.foldl Drafting.call dr).drafts, P d := by
    intro calls
    induction calls with
    | nil => exact fun _ h => h
    | cons c calls ih => exact fun dr h => ih (dr.call c) (call_induction hstart hconfigure c h)
  exact hrun calls .start (by simp [Drafting.start, Drafting.drafts])

end

/-- Every criterion among the tokens of a draft is plain. -/
theorem plain_of_mem_tokens (calls : List Call) :
    ∀ d ∈ (calls.foldl Drafting.call .start).drafts,
      ∀ x, Token.criterion x ∈ d.tokens → x.Plain := by
  refine drafts_induction (fun k x hx => ?_) (fun earlier d c d' ih hd' x hx => ?_) calls
  · simp [Draft.start] at hx
  · rcases Draft.configure_cases hd' with ⟨k, rfl⟩ | ⟨y, hy, rfl⟩ | ⟨j, rfl⟩ | ⟨-, htokens, -⟩
    · simp [Draft.start] at hx
    · simp only [Draft.addCriterion, List.mem_append, List.mem_singleton,
        Token.criterion.injEq] at hx
      rcases hx with hx | rfl
      · exact ih x hx
      · exact hy
    · exact ih x (by simpa using hx)
    · exact ih x (htokens ▸ hx)

/-- The entries that the criteria of a draft read from, in order. -/
def Draft.sources (d : Draft) : List Nat :=
  (d.tokens.filterMap Token.criterion?).filterMap Criterion.entry?

theorem min?_concat (xs : List Nat) (x : Nat) :
    (xs ++ [x]).min? = some (match xs.min? with
      | none => x
      | some least => min least x) := by
  cases xs with
  | nil => rfl
  | cons y ys => simp [List.min?, List.foldl_append]

/-- A draft keeps the least of the entries it reads from. -/
theorem source_eq_min? (calls : List Call) :
    ∀ d ∈ (calls.foldl Drafting.call .start).drafts, d.source = d.sources.min? := by
  refine drafts_induction (fun k => rfl) (fun earlier d c d' ih hd' => ?_) calls
  rcases Draft.configure_cases hd' with ⟨k, rfl⟩ | ⟨x, -, rfl⟩ | ⟨j, rfl⟩ | ⟨-, htokens, hsource⟩
  · rfl
  · have hsources : (d.addCriterion x).sources = d.sources ++ x.entry?.toList := by
      cases hx : x.entry? <;>
        simp [Draft.sources, Draft.addCriterion, List.filterMap_append, Token.criterion?, hx]
    rw [hsources]
    cases hx : x.entry? with
    | none =>
        rw [Option.toList_none, List.append_nil, ← ih]
        simp only [Draft.addCriterion, hx]
    | some t =>
        rw [Option.toList_some, min?_concat, ← ih]
        cases hs : d.source <;> simp only [Draft.addCriterion, hx, hs]
  · have hsources : Draft.sources { d with tokens := d.tokens ++ [.joiner j] } = d.sources := by
      simp [Draft.sources, List.filterMap_append, List.filterMap_cons, Token.criterion?]
    rw [hsources]
    exact ih
  · rw [hsource, ih, Draft.sources, Draft.sources, htokens]

/-! ## Checking drafts -/

/-- The criteria read are those among the tokens. -/
theorem chain_of_reads {ts : List Token} {chain : List Criterion} {joiner : Option Joiner} {wanting : Bool}
    (h : Token.Reads ts chain joiner wanting) : chain = ts.filterMap Token.criterion? := by
  induction h with
  | start => rfl
  | criterion c h ih => simp [ih, Token.criterion?]
  | joiner j hsame h ih => simp [ih, Token.criterion?]

theorem chain_of_ofTokens {ts : List Token} {c : Criteria} (h : Criteria.ofTokens ts = .ok c) :
    c.chain = ts.filterMap Token.criterion? := chain_of_reads (Token.ofTokens_eq_ok_iff_reads.mp h)

/-- There is one criterion at least, and a joiner exactly if there are several. -/
theorem joined_of_ofTokens {ts : List Token} {c : Criteria} (h : Criteria.ofTokens ts = .ok c) :
    c.chain ≠ [] ∧ (c.joiner.isSome ↔ 2 ≤ c.chain.length) := by
  obtain ⟨hwanting, -⟩ | ⟨c₀, j, cs, hchain, -, hjoiner⟩ :=
    (Token.ofTokens_eq_ok_iff_reads.mp h).spelled
  · cases hwanting
  · rw [hchain, hjoiner]
    cases cs <;> simp

theorem checkSources_eq_ok_iff {n : Nat} {c : Criteria} :
    checkSources n c = .ok () ↔ ∀ j ∈ c.sources, j < n := by
  simp only [checkSources]
  split
  · rename_i hsome
    obtain ⟨j, hj, hn⟩ := List.any_eq_true.mp hsome
    exact ⟨fun h => (nomatch h), fun h => absurd (h j hj) (Nat.not_lt.mpr (by simpa using hn))⟩
  · rename_i hnone
    simp only [Bool.not_eq_true, List.any_eq_false, decide_eq_true_eq] at hnone
    exact ⟨fun _ j hj => Nat.lt_of_not_le (hnone j hj), fun _ => rfl⟩

/-- A draft is accepted exactly if every check of it passes. -/
theorem Draft.toEntry_eq_ok_iff {earlier : List Entry} {d : Draft} {e : Entry} :
    d.toEntry o mutating earlier = .ok e ↔
      ∃ criteria lock, Criteria.ofTokens d.tokens = .ok criteria
        ∧ checkSources earlier.length criteria = .ok ()
        ∧ checkLimit d.limit = .ok ()
        ∧ chooseLock mutating d.lock = .ok lock
        ∧ checkKind o mutating earlier d.kind = .ok ()
        ∧ e = ⟨d.kind, criteria, lock, d.sortKey, d.limit, d.offset, d.source, none⟩ := by
  simp only [toEntry, bind, Except.bind, pure, Except.pure]
  constructor
  · intro h
    split at h
    · cases h
    · rename_i criteria hcriteria
      split at h
      · cases h
      · rename_i hsources
        split at h
        · cases h
        · rename_i hlimit
          split at h
          · cases h
          · rename_i lock hlock
            split at h
            · cases h
            · rename_i hkind
              exact ⟨criteria, lock, hcriteria, hsources, hlimit, hlock, hkind,
                (Except.ok.inj h).symm⟩
  · rintro ⟨criteria, lock, hcriteria, hsources, hlimit, hlock, hkind, rfl⟩
    simp only [hcriteria, hsources, hlimit, hlock, hkind]

theorem Draft.toEntry_ok {earlier : List Entry} {d : Draft} {e : Entry}
    (h : d.toEntry o mutating earlier = .ok e) :
    ∃ criteria lock, Criteria.ofTokens d.tokens = .ok criteria
      ∧ checkSources earlier.length criteria = .ok ()
      ∧ chooseLock mutating d.lock = .ok lock
      ∧ checkKind o mutating earlier d.kind = .ok ()
      ∧ e = ⟨d.kind, criteria, lock, d.sortKey, d.limit, d.offset, d.source, none⟩ := by
  obtain ⟨criteria, lock, hcriteria, hsources, -, hlock, hkind, he⟩ := toEntry_eq_ok_iff.mp h
  exact ⟨criteria, lock, hcriteria, hsources, hlock, hkind, he⟩

/-- What stays when an accepted entry is appended holds of all entries that are accepted. -/
theorem acceptDrafts_induction {P : List Entry → Prop} {ds : List Draft} {earlier es : List Entry}
    (hstep : ∀ earlier d e, P earlier → d ∈ ds → d.toEntry o mutating earlier = .ok e →
      P (earlier ++ [e]))
    (h : acceptDrafts o mutating earlier ds = .ok es) (hearlier : P earlier) : P es := by
  induction ds generalizing earlier with
  | nil => exact Except.ok.inj h ▸ hearlier
  | cons d ds ih =>
      simp only [acceptDrafts] at h
      split at h
      · rename_i e he
        have hstep' := fun earlier d' e hP hmem => hstep earlier d' e hP (List.mem_cons_of_mem d hmem)
        exact ih hstep' h (hstep earlier d e hearlier (List.mem_cons_self ..) he)
      · cases h

/-! ## Built plans -/

theorem build_ok (h : build o mutating calls = .ok p) :
    p.mutating = mutating
      ∧ acceptDrafts o mutating [] (calls.foldl Drafting.call .start).drafts = .ok p.entries := by
  simp only [build, ofDrafting] at h
  split at h
  · cases h
  · cases haccept : acceptDrafts o mutating [] (calls.foldl Drafting.call .start).drafts with
    | error e =>
        rw [haccept] at h
        cases h
    | ok es =>
        rw [haccept] at h
        obtain rfl := Except.ok.inj h
        exact ⟨rfl, rfl⟩

/-- No entry of a built plan is loaded. -/
theorem fresh_of_build (h : build o mutating calls = .ok p) : ∀ e ∈ p.entries, e.result = none := by
  refine acceptDrafts_induction (P := fun es => ∀ e ∈ es, e.result = none) ?_ (build_ok h).2 (by simp)
  intro earlier d e hearlier _ he e' hmem
  rcases List.mem_append.mp hmem with hmem | hmem
  · exact hearlier e' hmem
  · obtain ⟨criteria, lock, -, -, -, -, rfl⟩ := Draft.toEntry_ok he
    rw [List.mem_singleton.mp hmem]

theorem plain_of_build (h : build o mutating calls = .ok p) :
    ∀ e ∈ p.entries, ∀ x ∈ e.criteria.chain, x.Plain := by
  refine acceptDrafts_induction (P := fun es => ∀ e ∈ es, ∀ x ∈ e.criteria.chain, x.Plain) ?_
    (build_ok h).2 (by simp)
  intro earlier d e hearlier hd he e' hmem
  rcases List.mem_append.mp hmem with hmem | hmem
  · exact hearlier e' hmem
  · obtain ⟨criteria, lock, hcriteria, -, -, -, rfl⟩ := Draft.toEntry_ok he
    rw [List.mem_singleton.mp hmem]
    intro x hx
    rw [chain_of_ofTokens hcriteria] at hx
    exact plain_of_mem_tokens calls d hd x (mem_of_mem_filterMap hx)

/-- An entry at position `n` whose criteria are well formed and read from entries before it only. -/
structure Entry.WellFormed (n : Nat) (e : Entry) : Prop where
  nonempty : e.criteria.chain ≠ []
  joined : e.criteria.joiner.isSome ↔ 2 ≤ e.criteria.chain.length
  backward : ∀ j ∈ e.criteria.sources, j < n
  source : e.source = e.criteria.sources.min?

theorem wellFormed_of_toEntry {earlier : List Entry} {d : Draft} {e : Entry}
    (h : d.toEntry o mutating earlier = .ok e) (hsource : d.source = d.sources.min?) :
    e.WellFormed earlier.length := by
  obtain ⟨criteria, lock, hcriteria, hsources, -, -, rfl⟩ := Draft.toEntry_ok h
  obtain ⟨hnonempty, hjoined⟩ := joined_of_ofTokens hcriteria
  refine ⟨hnonempty, hjoined, checkSources_eq_ok_iff.mp hsources, ?_⟩
  rw [hsource, Criteria.sources, chain_of_ofTokens hcriteria]
  rfl

/-- The criteria of a built plan are well formed and read backwards. -/
theorem wellFormed_of_build (h : build o mutating calls = .ok p) :
    ∀ n (e : Entry), p.entries[n]? = some e → e.WellFormed n := by
  refine acceptDrafts_induction
    (P := fun es => ∀ n (e : Entry), es[n]? = some e → e.WellFormed n) ?_ (build_ok h).2 (by simp)
  intro earlier d e hearlier hd he n e' hn
  by_cases hlt : n < earlier.length
  · rw [List.getElem?_append_left hlt] at hn
    exact hearlier n e' hn
  · have hlast : n = earlier.length := by
      have hbound := (List.getElem?_eq_some_iff.mp hn).1
      rw [List.length_append, List.length_singleton] at hbound
      omega
    subst hlast
    obtain rfl : e = e' := by simpa using hn
    exact wellFormed_of_toEntry he (source_eq_min? calls d hd)

/-- A kind that a mutating plan accepts comes behind all kinds before it. -/
theorem lt_of_checkKind {earlier : List Entry} {k : Kind}
    (hasc : (earlier.map Entry.kind).Pairwise fun a b => o.priority a < o.priority b)
    (h : checkKind o true earlier k = .ok ()) : ∀ e ∈ earlier, o.priority e.kind < o.priority k := by
  simp only [checkKind, Bool.not_true, Bool.false_eq_true, if_false] at h
  split at h
  · cases h
  · rcases List.eq_nil_or_concat earlier with rfl | ⟨init, last, rfl⟩
    · intro e he
      cases he
    · rw [List.concat_eq_append] at hasc h ⊢
      simp only [List.getLast?_append, List.getLast?_singleton, Option.some_or] at h
      split at h
      · rename_i hlast
        intro e he
        rcases List.mem_append.mp he with he | he
        · -- compared with the last one only, which is behind all the others
          rw [List.map_append, List.pairwise_append] at hasc
          have hbefore := hasc.2.2 e.kind (List.mem_map_of_mem he) last.kind (by simp)
          exact Nat.lt_trans hbefore hlast
        · exact List.mem_singleton.mp he ▸ hlast
      · cases h

/-- The kinds of a mutating plan ascend in the lock order. -/
theorem ascending_of_build (h : build o true calls = .ok p) :
    (p.entries.map Entry.kind).Pairwise fun a b => o.priority a < o.priority b := by
  refine acceptDrafts_induction
    (P := fun es => (es.map Entry.kind).Pairwise fun a b => o.priority a < o.priority b) ?_
    (build_ok h).2 (by simp)
  intro earlier d e hasc _ he
  obtain ⟨criteria, lock, -, -, -, hkind, rfl⟩ := Draft.toEntry_ok he
  have hlt := lt_of_checkKind hasc hkind
  rw [List.map_append, List.pairwise_append]
  refine ⟨hasc, by simp, ?_⟩
  intro a ha b hb
  obtain ⟨e, hmem, rfl⟩ := List.mem_map.mp ha
  obtain rfl : b = d.kind := by simpa using hb
  exact hlt e hmem

end Plan

end Stockroom
