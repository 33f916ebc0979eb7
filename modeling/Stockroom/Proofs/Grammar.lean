import Mathlib.Data.List.Induction
import Stockroom.Plan.Criteria

/-!
# The grammar of criteria

Tokens spell criteria if they are a criterion and then, any number of times, one and the same joiner with
a criterion behind it (`Token.Chained`). Reading them is a loop with three things to remember: the chain
so far, the joiner if there was one, and whether a criterion has to come next. `Token.Reads` says of
which tokens that can be reached without a fault, and the invariant is that they spell the chain, with
the joiner behind it if one has just been read (`Token.Reads.spelled`).

From there the tokens that a chain can begin with are those that can be read (`Token.viable_iff_reads`),
so reading stops at the first token behind which nothing would help. Which fault that is, is decided by
the token and those before it (`Token.Offends`), and what is wrong with the end is looked at only if no
token offends (`Token.Refused`). `Criteria.ofTokens_verdict` puts this together.
-/

namespace Stockroom

namespace Token

/-! ## The grammar -/

/-- A criterion, and then each of the others with a joiner before it. -/
def spell (c : Criterion) (j : Joiner) (cs : List Criterion) : List Token :=
  .criterion c :: cs.flatMap fun c' => [.joiner j, .criterion c']

/-- One or more criteria with one and the same joiner between them. -/
def Chained (ts : List Token) : Prop := ∃ c j cs, ts = spell c j cs

/-- Tokens that a chain can begin with. -/
def Viable (ts : List Token) : Prop := ∃ more, Chained (ts ++ more)

/-- What is wrong with a token behind others. -/
inductive Offends (before : List Token) : Token → PlanFault → Prop where
  | missing {c c' : Criterion} (h : before.getLast? = some (.criterion c)) :
      Offends before (.criterion c') .missingJoiner
  | leading {j : Joiner} (h : before = []) : Offends before (.joiner j) .leadingJoiner
  | doubled {i j : Joiner} (h : before.getLast? = some (.joiner i)) :
      Offends before (.joiner j) .doubledJoiner
  | mixed {c : Criterion} {i j : Joiner} (h : before.getLast? = some (.criterion c))
      (hi : .joiner i ∈ before) (hij : i ≠ j) : Offends before (.joiner j) .mixedJoiners

/-- Why tokens are no chain: the first of them that none can be continued behind offends, or all can be
continued but there is nothing, or a joiner at the end. -/
inductive Refused : List Token → PlanFault → Prop where
  | offending {before : List Token} {t : Token} {fault : PlanFault} (hbefore : Viable before)
      (hstuck : ¬ Viable (before ++ [t])) (h : Offends before t fault) (after : List Token) :
      Refused (before ++ t :: after) fault
  | empty : Refused [] .emptyCriteria
  | unterminated {before : List Token} {j : Joiner} (h : Viable (before ++ [.joiner j])) :
      Refused (before ++ [.joiner j]) .unterminated

theorem spell_concat (c : Criterion) (j : Joiner) (cs : List Criterion) (c' : Criterion) :
    spell c j (cs ++ [c']) = spell c j cs ++ [.joiner j] ++ [.criterion c'] := by
  simp [spell]

theorem spell_eq_intersperse (c : Criterion) (j : Joiner) (cs : List Criterion) :
    spell c j cs = ((c :: cs).map Token.criterion).intersperse (.joiner j) := by
  induction cs generalizing c with
  | nil => rfl
  | cons c' cs ih =>
      have hrest := ih c'
      simp only [spell, List.map_cons, List.flatMap_cons, List.cons_append, List.nil_append,
        List.intersperse_cons_cons] at hrest ⊢
      rw [← hrest]

/-! ## Reading -/

/-- Tokens that are read without a fault, with the chain, the joiner and whether a criterion is wanting
behind them. -/
inductive Reads : List Token → List Criterion → Option Joiner → Bool → Prop where
  | start : Reads [] [] none true
  | criterion {ts : List Token} {chain : List Criterion} {joiner : Option Joiner} (c : Criterion)
      (h : Reads ts chain joiner true) : Reads (ts ++ [.criterion c]) (chain ++ [c]) joiner false
  | joiner {ts : List Token} {chain : List Criterion} {joiner : Option Joiner} (j : Joiner)
      (hsame : ∀ i, joiner = some i → i = j) (h : Reads ts chain joiner false) :
      Reads (ts ++ [.joiner j]) chain (some j) true

variable {ts : List Token} {chain : List Criterion} {joiner : Option Joiner} {wanting : Bool}

/-- Behind tokens that are read, reading goes on from what is remembered. -/
theorem Reads.continued (h : Reads ts chain joiner wanting) (rest : List Token) :
    Criteria.ofTokens (ts ++ rest) = Criteria.read chain joiner wanting rest := by
  induction h generalizing rest with
  | start => rfl
  | criterion c h ih => simp [ih, Criteria.read]
  | @joiner ts chain joiner j hsame h ih =>
      have hany : joiner.any (· ≠ j) = false := by cases joiner <;> simp_all
      simp only [List.append_assoc, List.singleton_append, ih, Criteria.read, hany, Bool.false_eq_true,
        if_false]

/-- The tokens read spell the chain, with the joiner behind it if a criterion is wanting. -/
theorem Reads.spelled (h : Reads ts chain joiner wanting) :
    (wanting = true ∧ ts = [] ∧ chain = [] ∧ joiner = none)
      ∨ ∃ c j cs, chain = c :: cs ∧ ts = spell c j cs ++ (if wanting then [.joiner j] else [])
        ∧ joiner = if wanting = false ∧ cs = [] then none else some j := by
  induction h with
  | start => exact Or.inl ⟨rfl, rfl, rfl, rfl⟩
  | criterion c h ih =>
      rcases ih with ⟨-, rfl, rfl, rfl⟩ | ⟨c₀, j, cs, rfl, rfl, rfl⟩
      · exact Or.inr ⟨c, .and, [], rfl, rfl, rfl⟩
      · exact Or.inr ⟨c₀, j, cs ++ [c], rfl, by simp [spell_concat], by simp⟩
  | joiner j hsame h ih =>
      rcases ih with ⟨hwanting, -⟩ | ⟨c, i, cs, rfl, rfl, rfl⟩
      · cases hwanting
      · refine Or.inr ⟨c, j, cs, rfl, ?_, rfl⟩
        -- a chain of one is spelled the same with any joiner
        by_cases hcs : cs = []
        · simp [hcs, spell]
        · obtain rfl : i = j := by simpa [hcs] using hsame
          simp

/-- A joiner that is remembered was read. -/
theorem Reads.joiner_mem (h : Reads ts chain joiner wanting) {j : Joiner} (hj : joiner = some j) :
    .joiner j ∈ ts := by
  induction h with
  | start => cases hj
  | criterion c h ih => exact List.mem_append_left _ (ih hj)
  | joiner i hsame h ih =>
      obtain rfl := Option.some.inj hj
      simp

/-- A token is read on, or offends and stops the reading. -/
theorem Reads.step (h : Reads ts chain joiner wanting) (t : Token) :
    (∃ chain' joiner' wanting', Reads (ts ++ [t]) chain' joiner' wanting')
      ∨ ∃ fault, Offends ts t fault
        ∧ ∀ after, Criteria.read chain joiner wanting (t :: after) = .error fault := by
  cases t with
  | criterion c =>
      cases h with
      | start => exact Or.inl ⟨_, _, _, Reads.start.criterion c⟩
      | criterion c₀ h => exact Or.inr ⟨_, .missing List.getLast?_concat, fun _ => rfl⟩
      | joiner j hsame h => exact Or.inl ⟨_, _, _, (h.joiner j hsame).criterion c⟩
  | joiner j =>
      cases h with
      | start => exact Or.inr ⟨_, .leading rfl, fun _ => rfl⟩
      | joiner i hsame h =>
          refine Or.inr ⟨_, .doubled List.getLast?_concat, fun _ => ?_⟩
          obtain ⟨hwanting, -⟩ | ⟨c, -, cs, rfl, -⟩ := h.spelled
          · cases hwanting
          · rfl
      | criterion c h =>
          by_cases hsame : ∀ i, joiner = some i → i = j
          · exact Or.inl ⟨_, _, _, (h.criterion c).joiner j hsame⟩
          · push Not at hsame
            obtain ⟨i, rfl, hij⟩ := hsame
            refine Or.inr ⟨_, .mixed List.getLast?_concat
              (List.mem_append_left _ (h.joiner_mem rfl)) hij, fun _ => ?_⟩
            simp [Criteria.read, hij]

/-- Tokens are read to the end, or up to one that offends and stops the reading for good. -/
theorem reads_or_offends (ts : List Token) :
    (∃ chain joiner wanting, Reads ts chain joiner wanting)
      ∨ ∃ before t after fault chain joiner wanting, ts = before ++ t :: after
        ∧ Reads before chain joiner wanting ∧ Offends before t fault
        ∧ ∀ after', Criteria.ofTokens (before ++ t :: after') = .error fault := by
  induction ts using List.reverseRecOn with
  | nil => exact Or.inl ⟨_, _, _, .start⟩
  | append_singleton init t ih =>
      rcases ih with ⟨chain, joiner, wanting, h⟩
        | ⟨before, t', after, fault, chain, joiner, wanting, rfl, h, hoffends, hstop⟩
      · rcases h.step t with hread | ⟨fault, hoffends, hstop⟩
        · exact Or.inl hread
        · refine Or.inr ⟨init, t, [], fault, chain, joiner, wanting, rfl, h, hoffends, fun after' => ?_⟩
          rw [h.continued, hstop]
      · exact Or.inr ⟨before, t', after ++ [t], fault, chain, joiner, wanting, by simp, h, hoffends,
          hstop⟩

/-! ## What can be read -/

theorem reads_spell (c : Criterion) (j : Joiner) (cs : List Criterion) :
    ∃ joiner, (∀ i, joiner = some i → i = j) ∧ Reads (spell c j cs) (c :: cs) joiner false := by
  induction cs using List.reverseRecOn with
  | nil => exact ⟨none, by simp, Reads.start.criterion c⟩
  | append_singleton cs c' ih =>
      obtain ⟨joiner, hsame, h⟩ := ih
      rw [spell_concat]
      exact ⟨some j, by simp, (h.joiner j hsame).criterion c'⟩

theorem chained_iff_reads : Chained ts ↔ ∃ chain joiner, Reads ts chain joiner false := by
  constructor
  · rintro ⟨c, j, cs, rfl⟩
    obtain ⟨joiner, -, h⟩ := reads_spell c j cs
    exact ⟨_, joiner, h⟩
  · rintro ⟨chain, joiner, h⟩
    obtain ⟨hwanting, -⟩ | ⟨c, j, cs, -, rfl, -⟩ := h.spelled
    · cases hwanting
    · exact ⟨c, j, cs, by simp⟩

/-- What is wrong with the end of tokens that are read without a fault, if anything is. -/
theorem Reads.ended (h : Reads ts chain joiner wanting) :
    Criteria.ofTokens ts = if wanting = false then .ok ⟨chain, joiner⟩
      else if ts = [] then .error .emptyCriteria else .error .unterminated := by
  have hend := h.continued []
  rw [List.append_nil] at hend
  obtain ⟨rfl, rfl, rfl, rfl⟩ | ⟨c, j, cs, rfl, rfl, -⟩ := h.spelled
  · exact hend
  · rw [hend]
    cases wanting <;> simp [Criteria.read, spell]

/-- Reading succeeds exactly if it ends with no criterion wanting. -/
theorem ofTokens_eq_ok_iff_reads {x : Criteria} :
    Criteria.ofTokens ts = .ok x ↔ Reads ts x.chain x.joiner false := by
  constructor
  · intro hx
    rcases reads_or_offends ts with ⟨chain, joiner, wanting, h⟩
      | ⟨before, t, after, fault, -, -, -, rfl, -, -, hstop⟩
    · rw [h.ended] at hx
      split at hx
      · rename_i hwanting
        obtain rfl := Except.ok.inj hx
        exact hwanting ▸ h
      · split at hx <;> cases hx
    · rw [hstop] at hx
      cases hx
  · intro h
    rw [h.ended, if_pos rfl]

theorem exists_ofTokens_iff : (∃ x, Criteria.ofTokens ts = .ok x) ↔ Chained ts := by
  rw [chained_iff_reads]
  constructor
  · rintro ⟨x, hx⟩
    exact ⟨_, _, ofTokens_eq_ok_iff_reads.mp hx⟩
  · rintro ⟨chain, joiner, h⟩
    exact ⟨⟨chain, joiner⟩, ofTokens_eq_ok_iff_reads.mpr h⟩

/-- Where reading stops for good, nothing helps. -/
theorem not_viable_of_stop {before : List Token} {t : Token} {fault : PlanFault}
    (hstop : ∀ after, Criteria.ofTokens (before ++ t :: after) = .error fault) (after : List Token) :
    ¬ Viable (before ++ t :: after) := by
  rintro ⟨more, hchained⟩
  obtain ⟨x, hx⟩ := exists_ofTokens_iff.mpr hchained
  rw [List.append_assoc, List.cons_append, hstop] at hx
  cases hx

/-- A chain can begin with exactly the tokens that can be read. -/
theorem viable_iff_reads : Viable ts ↔ ∃ chain joiner wanting, Reads ts chain joiner wanting := by
  constructor
  · intro hviable
    refine (reads_or_offends ts).resolve_right ?_
    rintro ⟨before, t, after, fault, -, -, -, rfl, -, -, hstop⟩
    exact not_viable_of_stop hstop after hviable
  · rintro ⟨chain, joiner, wanting, h⟩
    cases wanting with
    | false => exact ⟨[], chained_iff_reads.mpr ⟨chain, joiner, by rwa [List.append_nil]⟩⟩
    | true => exact ⟨[.criterion (.isIn "" [])], chained_iff_reads.mpr ⟨_, joiner, h.criterion _⟩⟩

theorem Offends.unique {before : List Token} {t : Token} {fault fault' : PlanFault}
    (h : Offends before t fault) (h' : Offends before t fault') : fault = fault' := by
  cases h <;> cases h' <;> simp_all

theorem refused_of_error {fault : PlanFault} (h : Criteria.ofTokens ts = .error fault) :
    Refused ts fault := by
  rcases reads_or_offends ts with ⟨chain, joiner, wanting, hread⟩
    | ⟨before, t, after, fault', chain, joiner, wanting, rfl, hread, hoffends, hstop⟩
  · have hviable := viable_iff_reads.mpr ⟨_, _, _, hread⟩
    rw [hread.ended] at h
    cases hread with
    | start => exact Except.error.inj h ▸ .empty
    | criterion c _ => cases h
    | joiner j _ _ =>
        obtain rfl : PlanFault.unterminated = fault := by simpa using h
        exact .unterminated hviable
  · obtain rfl : fault' = fault := by
      rw [hstop] at h
      exact Except.error.inj h
    exact .offending (viable_iff_reads.mpr ⟨_, _, _, hread⟩) (not_viable_of_stop hstop []) hoffends after

theorem error_of_refused {fault : PlanFault} (h : Refused ts fault) :
    Criteria.ofTokens ts = .error fault := by
  cases h with
  | @offending before t _ hbefore hstuck hoffends after =>
      obtain ⟨chain, joiner, wanting, hread⟩ := viable_iff_reads.mp hbefore
      rcases hread.step t with hnext | ⟨fault', hoffends', hstop⟩
      · exact absurd (viable_iff_reads.mpr hnext) hstuck
      · rw [hread.continued, hstop, hoffends.unique hoffends']
  | empty => rfl
  | @unterminated before j hviable =>
      obtain ⟨chain, joiner, wanting, hread⟩ := viable_iff_reads.mp hviable
      have hended := hread.ended
      generalize hts : before ++ [.joiner j] = ts at hread hended
      cases hread with
      | start => simp at hts
      | criterion c _ => simp at hts
      | joiner i _ _ => simpa using hended

end Token

namespace Criteria

open Token

variable {ts : List Token} {x : Criteria}

/-- Criteria that are read are spelled by the tokens they are read from. -/
theorem toTokens_of_ok (h : ofTokens ts = .ok x) :
    x.toTokens = ts ∧ (x.joiner = none ↔ x.chain.length = 1) := by
  obtain ⟨hwanting, -⟩ | ⟨c, j, cs, hchain, rfl, hjoiner⟩ := (ofTokens_eq_ok_iff_reads.mp h).spelled
  · cases hwanting
  · rw [if_neg Bool.false_ne_true, List.append_nil]
    cases cs with
    | nil =>
        rw [if_pos ⟨rfl, rfl⟩] at hjoiner
        simp [toTokens, hchain, hjoiner, spell]
    | cons c' cs =>
        rw [if_neg fun h => List.cons_ne_nil _ _ h.2] at hjoiner
        simp only [toTokens, hchain, hjoiner, spell_eq_intersperse]
        simp

/-- What spells criteria is read as these. -/
theorem ofTokens_eq_ok_iff_toTokens :
    ofTokens ts = .ok x ↔
      Chained ts ∧ x.toTokens = ts ∧ (x.joiner = none ↔ x.chain.length = 1) := by
  constructor
  · intro h
    exact ⟨exists_ofTokens_iff.mp ⟨x, h⟩, toTokens_of_ok h⟩
  · rintro ⟨⟨c₀, j₀, cs₀, hspelled⟩, rfl, hone⟩
    obtain ⟨_ | ⟨c, _ | ⟨c', cs⟩⟩, _ | j⟩ := x
    · cases hspelled
    · cases hspelled
    · rfl
    · simp at hone
    · simp at hone
    · -- several criteria are read with the joiner between them
      obtain ⟨joiner, hsame, hread⟩ := reads_spell c j (c' :: cs)
      have hok := ofTokens_eq_ok_iff_reads (x := ⟨c :: c' :: cs, joiner⟩).mpr hread
      obtain rfl : joiner = some j := by
        cases joiner with
        | none => simpa using (toTokens_of_ok hok).2
        | some i => rw [hsame i rfl]
      have htokens : toTokens ⟨c :: c' :: cs, some j⟩ = spell c j (c' :: cs) :=
        (spell_eq_intersperse c j (c' :: cs)).symm
      rwa [htokens]

/-- Tokens are read exactly if they are criteria with one and the same joiner between them, as criteria
that are spelled by just these tokens and have a joiner unless there is one criterion only. All others
are refused at the first token that no chain can go on with, for what is wrong with it, or at the end. -/
theorem ofTokens_verdict (ts : List Token) :
    ((∃ x, ofTokens ts = .ok x) ↔ Chained ts)
      ∧ (∀ x, ofTokens ts = .ok x ↔
          Chained ts ∧ x.toTokens = ts ∧ (x.joiner = none ↔ x.chain.length = 1))
      ∧ ∀ fault, ofTokens ts = .error fault ↔ Refused ts fault :=
  ⟨exists_ofTokens_iff, fun _ => ofTokens_eq_ok_iff_toTokens,
    fun _ => ⟨refused_of_error, error_of_refused⟩⟩

-- A second joiner in a row is refused as such, also if it is a different one.
example (c : Criterion) :
    ofTokens [.criterion c, .joiner .and, .joiner .or, .criterion c] = .error .doubledJoiner := rfl

end Criteria

end Stockroom
