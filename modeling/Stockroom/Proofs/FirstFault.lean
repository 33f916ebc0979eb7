import Stockroom.Proofs.Building

/-!
# The entry a refused description is blamed on

A description can be refused in two places. A call that cannot be meant is remembered while the calls
are read (`Drafting.error`), and it is of the entry being configured at that moment; everything else is
found afterwards, when the drafts are checked one by one (`acceptDrafts_error`). Blaming the first entry
at fault would mean that the calls before the `load` that starts it, `callsBefore i calls`, describe a
plan.

For a fault found by checking that is so: a draft is never touched again once the next `load` has come
(`earlier_isPrefix`), so the calls that are kept describe the drafts before entry `i`, and these were
all accepted. For a fault remembered from a call it is not, since nothing has been checked when it is
reported. `build_error_callsBefore` leaves this one way out, in which what is kept is refused at an
earlier entry.
-/

namespace Stockroom

/-- The faults that are found when a call is made. -/
def PlanFault.isOfCall : PlanFault → Bool
  | .noEntry | .forwardReference _ | .noPreviousEntry | .noLink _ _ => true
  | _ => false

namespace Plan

variable {o : LockOrder} {mutating : Bool} {calls : List Call}

/-! ## Cutting calls -/

/-- Whether the call starts an entry. -/
def Call.isLoad : Call → Bool
  | .load _ => true
  | _ => false

theorem Call.exists_load {c : Call} (hc : c.isLoad = true) : ∃ k, c = .load k := by
  cases c with
  | load k => exact ⟨k, rfl⟩
  | _ => cases hc

/-- The calls before the `load` that starts entry `i`. -/
def callsBefore : Nat → List Call → List Call
  | _, [] => []
  | 0, c :: cs => if c.isLoad then [] else c :: callsBefore 0 cs
  | i + 1, c :: cs => c :: callsBefore (if c.isLoad then i else i + 1) cs

theorem callsBefore_spec {i : Nat} (h : i < calls.countP Call.isLoad) :
    ∃ k after, calls = callsBefore i calls ++ .load k :: after
      ∧ (callsBefore i calls).countP Call.isLoad = i := by
  induction calls generalizing i with
  | nil => cases h
  | cons c cs ih =>
      cases hc : c.isLoad with
      | true =>
          obtain ⟨k, rfl⟩ := Call.exists_load hc
          cases i with
          | zero => exact ⟨k, cs, by simp [callsBefore, hc], by simp [callsBefore, hc]⟩
          | succ i =>
              rw [List.countP_cons, hc] at h
              obtain ⟨k', after, hcs, hcount⟩ := ih (Nat.lt_of_succ_lt_succ h)
              refine ⟨k', after, ?_, ?_⟩
              · rw [callsBefore, if_pos hc, List.cons_append, ← hcs]
              · rw [callsBefore, if_pos hc, List.countP_cons, hc, hcount]
                rfl
      | false =>
          rw [List.countP_cons, hc] at h
          obtain ⟨k, after, hcs, hcount⟩ := ih h
          have hkept : callsBefore i (c :: cs) = c :: callsBefore i cs := by
            cases i <;> simp [callsBefore, hc]
          rw [hkept]
          exact ⟨k, after, congrArg (c :: ·) hcs, by rw [List.countP_cons, hc, hcount]; rfl⟩

/-! ## Reading calls -/

theorem Draft.chooseSource_error {entry : Option Nat} {n : Nat} {fault : PlanFault}
    (h : chooseSource entry n = .error fault) : fault.isOfCall := by
  cases entry with
  | none =>
      simp only [chooseSource] at h
      split at h
      · exact Except.error.inj h ▸ rfl
      · cases h
  | some s =>
      simp only [chooseSource] at h
      split at h
      · exact Except.error.inj h ▸ rfl
      · cases h

theorem Draft.linkCriterion_error {earlier : List Draft} {d : Draft} {entry : Option Nat}
    {fault : PlanFault} (h : linkCriterion earlier d entry = .error fault) : fault.isOfCall := by
  simp only [linkCriterion] at h
  split at h
  · rename_i hsource
    exact Except.error.inj h ▸ chooseSource_error hsource
  · split at h
    · exact Except.error.inj h ▸ rfl
    · split at h
      · cases h
      · exact Except.error.inj h ▸ rfl

theorem Draft.configure_error {earlier : List Draft} {d : Draft} {c : Call} {fault : PlanFault}
    (h : d.configure earlier c = .error fault) : fault.isOfCall := by
  cases c with
  | fromEntry entry field x =>
      cases hsource : chooseSource entry earlier.length with
      | ok s => simp [configure, hsource, Except.map] at h
      | error f =>
          simp only [configure, hsource, Except.map, Except.error.injEq] at h
          exact h ▸ chooseSource_error hsource
  | viaLink entry =>
      cases hlink : linkCriterion earlier d entry with
      | ok x => simp [configure, hlink, Except.map] at h
      | error f =>
          simp only [configure, hlink, Except.map, Except.error.injEq] at h
          exact h ▸ linkCriterion_error hlink
  | _ => cases h

namespace Drafting

/-- What a call does to the drafts: a `load` closes the entry being configured and starts one, any other
call configures it or is remembered as one that cannot be meant. -/
theorem call_cases (dr : Drafting) (c : Call) :
    (c.isLoad ∧ ∃ k, dr.call c = ⟨dr.drafts, some (.start k), dr.error⟩)
      ∨ (c.isLoad = false ∧ ∃ d, dr.current.isSome ∧ dr.call c = { dr with current := some d })
      ∨ (c.isLoad = false ∧ dr.current.isSome ∧ ∃ fault : PlanFault, fault.isOfCall
          ∧ dr.call c = dr.fail ⟨some dr.earlier.length, fault⟩)
      ∨ (c.isLoad = false ∧ dr.call c = dr.fail ⟨none, .noEntry⟩) := by
  obtain ⟨earlier, current, error⟩ := dr
  cases c with
  | load k => exact Or.inl ⟨rfl, k, rfl⟩
  | _ =>
      refine Or.inr ?_
      cases current with
      | none => exact Or.inr (Or.inr ⟨rfl, rfl⟩)
      | some draft =>
          simp only [call]
          split
          · exact Or.inl ⟨rfl, _, rfl, rfl⟩
          · rename_i hfault
            exact Or.inr (Or.inl ⟨rfl, rfl, _, Draft.configure_error hfault, rfl⟩)

/-- How reading goes on: `n` entries are started, closed drafts stay as they are, and so does a
remembered error. -/
structure Continues (n : Nat) (dr dr' : Drafting) : Prop where
  length : dr'.drafts.length = dr.drafts.length + n
  earlier : dr.earlier <+: dr'.earlier
  error : ∀ e, dr.error = some e → dr'.error = some e

theorem continues_fail (dr : Drafting) (e : PlanError) : Continues 0 dr (dr.fail e) :=
  ⟨rfl, List.prefix_refl _, fun e' he' => by simp [fail, he']⟩

theorem continues_call (dr : Drafting) (c : Call) : Continues c.isLoad.toNat dr (dr.call c) := by
  rcases call_cases dr c with ⟨hc, k, hdr⟩ | ⟨hc, d, hcurrent, hdr⟩ | ⟨hc, -, fault, -, hdr⟩ | ⟨hc, hdr⟩
  · rw [hc, hdr]
    exact ⟨List.length_append, List.prefix_append _ _, fun _ he => he⟩
  · obtain ⟨d', hd'⟩ := Option.isSome_iff_exists.mp hcurrent
    rw [hc, hdr]
    exact ⟨by simp [drafts, hd'], List.prefix_refl _, fun _ he => he⟩
  · rw [hc, hdr]
    exact continues_fail dr _
  · rw [hc, hdr]
    exact continues_fail dr _

theorem continues_calls (calls : List Call) (dr : Drafting) :
    Continues (calls.countP Call.isLoad) dr (calls.foldl call dr) := by
  induction calls generalizing dr with
  | nil => exact ⟨rfl, List.prefix_refl _, fun _ he => he⟩
  | cons c cs ih =>
      have hstep := continues_call dr c
      have hrest := ih (dr.call c)
      refine ⟨?_, hstep.earlier.trans hrest.earlier, fun e he => hrest.error e (hstep.error e he)⟩
      rw [List.foldl_cons, hrest.length, hstep.length, List.countP_cons, Nat.add_assoc,
        Nat.add_comm c.isLoad.toNat]
      cases c.isLoad <;> rfl

/-- An error that is remembered together with an entry was found in a call for an entry begun. -/
def Blames (dr : Drafting) : Prop :=
  ∀ n fault, dr.error = some ⟨some n, fault⟩ → n < dr.drafts.length ∧ fault.isOfCall

theorem blames_call {dr : Drafting} (h : dr.Blames) (c : Call) : (dr.call c).Blames := by
  intro n fault he
  have hlength := (continues_call dr c).length
  cases herror : dr.error with
  | some e =>
      -- remembered before the call
      rw [(continues_call dr c).error e herror] at he
      obtain ⟨hn, hcall⟩ := h n fault (herror.trans he)
      exact ⟨by omega, hcall⟩
  | none =>
      rcases call_cases dr c with ⟨-, k, hdr⟩ | ⟨-, d, -, hdr⟩ | ⟨-, hcurrent, f, hf, hdr⟩ | ⟨-, hdr⟩
      · simp [hdr, herror] at he
      · simp [hdr, herror] at he
      · obtain ⟨d, hd⟩ := Option.isSome_iff_exists.mp hcurrent
        simp only [hdr, fail, herror, Option.getD_none, Option.some.injEq, PlanError.mk.injEq] at he
        obtain ⟨rfl, rfl⟩ := he
        exact ⟨by simp [hdr, fail, drafts, hd], hf⟩
      · simp [hdr, fail, herror] at he

theorem blames_calls (calls : List Call) : (calls.foldl call start).Blames := by
  have hrun : ∀ (calls : List Call) (dr : Drafting), dr.Blames → (calls.foldl call dr).Blames := by
    intro calls
    induction calls with
    | nil => exact fun _ h => h
    | cons c calls ih => exact fun dr h => ih (dr.call c) (blames_call h c)
  exact hrun calls start (by intro n fault he; cases he)

theorem drafts_length (calls : List Call) :
    (calls.foldl call start).drafts.length = calls.countP Call.isLoad := by
  rw [(continues_calls calls start).length]
  exact Nat.zero_add _

/-- What is read up to a `load` stays, whatever follows. -/
theorem drafts_isPrefix (before after : List Call) (k : Kind) :
    (before.foldl call start).drafts
      <+: ((before ++ .load k :: after).foldl call start).drafts := by
  rw [List.foldl_append, List.foldl_cons]
  exact (continues_calls after ((before.foldl call start).call (.load k))).earlier.trans
    (List.prefix_append _ _)

/-- If what is remembered in the end is of an entry not begun yet, nothing is remembered so far. -/
theorem error_eq_none {before : List Call} (after : List Call)
    (h : ∀ e, ((before ++ after).foldl call start).error = some e →
      ∃ fault, e = ⟨some (before.countP Call.isLoad), fault⟩) :
    (before.foldl call start).error = none := by
  cases hbefore : (before.foldl call start).error with
  | none => rfl
  | some e =>
      have hlater : ((before ++ after).foldl call start).error = some e := by
        rw [List.foldl_append]
        exact (continues_calls after (before.foldl call start)).error e hbefore
      obtain ⟨fault, rfl⟩ := h e hlater
      have hbegun := (blames_calls before _ fault hbefore).1
      rw [drafts_length] at hbegun
      exact absurd hbegun (Nat.lt_irrefl _)

end Drafting

/-! ## Checking drafts -/

/-- A draft is refused after the drafts before it were all accepted. -/
theorem acceptDrafts_error {earlier : List Entry} {ds : List Draft} {e : PlanError}
    (h : acceptDrafts o mutating earlier ds = .error e) :
    ∃ before d after es fault, ds = before ++ d :: after
      ∧ acceptDrafts o mutating earlier before = .ok es
      ∧ e = ⟨some (earlier.length + before.length), fault⟩ := by
  induction ds generalizing earlier with
  | nil => cases h
  | cons d ds ih =>
      simp only [acceptDrafts] at h
      split at h
      · rename_i x hx
        obtain ⟨before, d', after, es, fault, rfl, hbefore, rfl⟩ := ih h
        refine ⟨d :: before, d', after, es, fault, rfl, by simp only [acceptDrafts, hx, hbefore], ?_⟩
        rw [List.length_append, List.length_singleton, List.length_cons, Nat.add_right_comm]
        rfl
      · exact ⟨[], d, ds, earlier, _, rfl, rfl, (Except.error.inj h).symm⟩

/-! ## Refused descriptions -/

/-- Refused either for the error remembered or, if there is none, for what checking finds. -/
theorem build_error {e : PlanError} (h : build o mutating calls = .error e) :
    (calls.foldl Drafting.call .start).error = some e
      ∨ ((calls.foldl Drafting.call .start).error = none
        ∧ acceptDrafts o mutating [] (calls.foldl Drafting.call .start).drafts = .error e) := by
  simp only [build, ofDrafting] at h
  split at h
  · rename_i e' he'
    exact Or.inl (Except.error.inj h ▸ he')
  · rename_i hnone
    refine Or.inr ⟨hnone, ?_⟩
    cases haccept : acceptDrafts o mutating [] (calls.foldl Drafting.call .start).drafts with
    | ok es => simp [haccept, Except.map] at h
    | error e' =>
        rw [haccept] at h
        exact congrArg Except.error (Except.error.inj h)

theorem build_of_error_none (h : (calls.foldl Drafting.call .start).error = none) :
    build o mutating calls
      = (acceptDrafts o mutating [] (calls.foldl Drafting.call .start).drafts).map
          fun entries => ⟨entries, mutating⟩ := by
  simp only [build, ofDrafting, h]

/-- Without an error remembered, a description is accepted, or refused at one of its entries. -/
theorem build_of_no_error (o : LockOrder) (mutating : Bool)
    (h : (calls.foldl Drafting.call .start).error = none) :
    (∃ p, build o mutating calls = .ok p)
      ∨ ∃ j fault, j < calls.countP Call.isLoad ∧ build o mutating calls = .error ⟨some j, fault⟩ := by
  rw [build_of_error_none h]
  cases haccept : acceptDrafts o mutating [] (calls.foldl Drafting.call .start).drafts with
  | ok es => exact Or.inl ⟨_, rfl⟩
  | error e =>
      obtain ⟨before, d, after, es, fault, hdrafts, -, rfl⟩ := acceptDrafts_error haccept
      refine Or.inr ⟨_, fault, ?_, rfl⟩
      rw [← Drafting.drafts_length calls, hdrafts]
      simp

/-- The entry blamed is the first one at fault, unless a call is. A description that is refused at
entry `i` has such an entry, and the calls before the `load` that starts it describe a plan, except
when the fault was remembered from a call: then they may be refused too, at an entry before `i`. -/
theorem build_error_callsBefore (o : LockOrder) (mutating : Bool) (calls : List Call) (i : Nat)
    (fault : PlanFault) (h : build o mutating calls = .error ⟨some i, fault⟩) :
    (∃ k after, calls = callsBefore i calls ++ .load k :: after
        ∧ (callsBefore i calls).countP Call.isLoad = i)
      ∧ ((∃ p, build o mutating (callsBefore i calls) = .ok p)
        ∨ (fault.isOfCall ∧ ∃ j fault', j < i
            ∧ build o mutating (callsBefore i calls) = .error ⟨some j, fault'⟩)) := by
  have hlength := Drafting.drafts_length calls
  rcases build_error h with herror | ⟨hnone, haccept⟩
  · obtain ⟨hi, hcall⟩ := Drafting.blames_calls calls i fault herror
    obtain ⟨k, after, hcalls, hcount⟩ := callsBefore_spec (hlength ▸ hi)
    refine ⟨⟨k, after, hcalls, hcount⟩, ?_⟩
    have hkept : ((callsBefore i calls).foldl Drafting.call .start).error = none := by
      refine Drafting.error_eq_none (.load k :: after) fun e he => ⟨fault, ?_⟩
      rw [← hcalls, herror] at he
      rw [hcount]
      exact (Option.some.inj he).symm
    rcases build_of_no_error o mutating hkept with hok | ⟨j, fault', hj, hrefused⟩
    · exact Or.inl hok
    · exact Or.inr ⟨hcall, j, fault', hcount ▸ hj, hrefused⟩
  · obtain ⟨accepted, d, rest, es, fault', hdrafts, hes, hblamed⟩ := acceptDrafts_error haccept
    obtain rfl : i = accepted.length := by
      simpa using congrArg PlanError.entry hblamed
    have hi : accepted.length < calls.countP Call.isLoad := by
      rw [← hlength, hdrafts]
      simp
    obtain ⟨k, after, hcalls, hcount⟩ := callsBefore_spec hi
    refine ⟨⟨k, after, hcalls, hcount⟩, Or.inl ⟨⟨es, mutating⟩, ?_⟩⟩
    have hkept : ((callsBefore accepted.length calls).foldl Drafting.call .start).error = none := by
      refine Drafting.error_eq_none (.load k :: after) fun e he => ?_
      rw [← hcalls, hnone] at he
      cases he
    -- what is kept describes the drafts that were accepted
    have hsame : ((callsBefore accepted.length calls).foldl Drafting.call .start).drafts
        = accepted := by
      have hread := Drafting.drafts_isPrefix (callsBefore accepted.length calls) after k
      have hlength' := (Drafting.drafts_length (callsBefore accepted.length calls)).trans hcount
      rw [← hcalls, hdrafts] at hread
      exact (List.prefix_of_prefix_length_le hread (List.prefix_append _ _)
        (Nat.le_of_eq hlength')).eq_of_length hlength'
    rw [build_of_error_none hkept, hsame, hes]
    rfl

/-- A second entry without criteria is found by checking, so the first one makes a plan. -/
theorem criteria_missing_second :
    build .standard false [.load .product, .identIn [.sequential 0], .load .customer]
        = .error ⟨some 1, .emptyCriteria⟩
      ∧ ∃ p, build .standard false
          (callsBefore 1 [.load .product, .identIn [.sequential 0], .load .customer]) = .ok p :=
  ⟨rfl, (build_error_callsBefore .standard false _ 1 .emptyCriteria rfl).2.resolve_right
    fun h => nomatch h.1⟩

/-- Nothing leads from a product to a customer, which is noticed before the products are: the second
entry is blamed, although the first has no criteria. -/
theorem link_missing_second :
    build .standard false [.load .product, .load .customer, .viaLink none]
        = .error ⟨some 1, .noLink .product .customer⟩
      ∧ callsBefore 1 [.load .product, .load .customer, .viaLink none] = [.load .product]
      ∧ build .standard false [.load .product] = .error ⟨some 0, .emptyCriteria⟩ :=
  ⟨rfl, rfl, rfl⟩

end Plan

end Stockroom
