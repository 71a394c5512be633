import InfixCalculator.Proofs.Evaluation.Reduction
import Mathlib.Logic.Relation

/-!
# Evaluation never faults

A reduction loop reads the top of the stack of operators without a guard, looks up
its operation without a guard, and ends only because the mark at the bottom fails
every test.  This file shows that all of this is safe, in every state that a loop
passes through and not only in its outcome.

`Turn` is one turn of a loop.  `LoopSafe` collects what makes a loop safe: its
states are grounded, a top that passes the test can be applied, no sequence of turns
goes on for ever, and what `Machine.reduceWhile` returns is the state in which the
test fails first.  `loopSafe_of_grounded` proves it for every test that the mark fails.

`Incoming` ranges over the steps of an evaluation: every word with its position and the
machine it meets, and the end.  `grounded_of_incoming` carries the invariant along them,
and `evaluation_safe` puts both together.
-/

namespace InfixCalculator

open Relation (ReflTransGen)

/-- The test of the loop that a token runs; a number runs none. -/
def Token.loopTest? : Token → Option (TokenKind → Bool)
  | .number _ => none
  | .closeParen => some (!Machine.isBarrier ·)
  | token => some (token.kind.appliesBefore ·)

/-- The mark fails every test. -/
theorem Token.finish_fails {token : Token} {holds : TokenKind → Bool}
    (hholds : holds ∈ token.loopTest?) : holds .finish = false := by
  cases token with
  | finish => cases hholds; decide
  | number value => cases hholds
  | openParen => cases hholds; decide
  | closeParen => cases hholds; decide
  | operator op => cases hholds; exact TokenKind.operator_appliesBefore_finish op

namespace Machine

variable {holds : TokenKind → Bool} {position : Nat} {m : Machine}

/-! ## Reduction loops -/

/-- One turn of a reduction loop: the top of the stack passes the test and is applied. -/
def Turn (holds : TokenKind → Bool) (position : Nat) (m next : Machine) : Prop :=
  ∃ top rest, m.operators = top :: rest ∧ holds top = true ∧
    apply position top (m.withOperators rest) = .ok next

/-- What makes a reduction loop safe. -/
structure LoopSafe (holds : TokenKind → Bool) (position : Nat) (m : Machine) : Prop where
  /-- The mark stays at the bottom of every stack that the loop passes through. -/
  grounded : ∀ later, ReflTransGen (Turn holds position) m later → Grounded later.operators
  /-- A top that passes the test can be applied. -/
  progress : ∀ later, ReflTransGen (Turn holds position) m later →
    ∀ top rest, later.operators = top :: rest → holds top = true →
      ∃ next, apply position top (later.withOperators rest) = .ok next
  /-- There is no endless sequence of turns. -/
  ends : Acc (fun next earlier => Turn holds position earlier next) m
  /-- The outcome is the state in which the test fails first. -/
  outcome : ∃ top rest last, reduceWhile holds position m.operators m = .ok last ∧
    ReflTransGen (Turn holds position) m last ∧ last.operators = top :: rest ∧ holds top = false

/-- What a turn does to a grounded stack. -/
theorem Turn.eq_of_grounded {next : Machine} (hturn : Turn holds position m next)
    (hmark : holds .finish = false) (hgrounded : Grounded m.operators) :
    ∃ top above, m.operators = top :: (above ++ [.finish]) ∧ top.isApplicable = true ∧
      (∀ kind ∈ above, kind.isApplicable = true) ∧
      next = (m.applied position top).withOperators (above ++ [.finish]) := by
  obtain ⟨top, rest, hstack, hholds, happly⟩ := hturn
  obtain ⟨above, hground, habove⟩ := hgrounded
  rw [hstack] at hground
  cases above with
  | nil =>
      obtain ⟨rfl, rfl⟩ : top = .finish ∧ rest = [] := by simpa using hground
      rw [hmark] at hholds
      cases hholds
  | cons first above =>
      obtain ⟨rfl, rfl⟩ : top = first ∧ rest = above ++ [.finish] := by simpa using hground
      obtain ⟨happlicable, habove⟩ := List.forall_mem_cons.1 habove
      refine ⟨top, above, hstack, happlicable, habove, ?_⟩
      rw [apply_eq happlicable, applied_withOperators] at happly
      exact (Except.ok.inj happly).symm

theorem Turn.grounded {next : Machine} (hturn : Turn holds position m next)
    (hmark : holds .finish = false) (hgrounded : Grounded m.operators) :
    Grounded next.operators := by
  obtain ⟨_, above, _, _, habove, rfl⟩ := hturn.eq_of_grounded hmark hgrounded
  exact ⟨above, rfl, habove⟩

theorem grounded_of_turns {later : Machine} (hmark : holds .finish = false)
    (hgrounded : Grounded m.operators) (hturns : ReflTransGen (Turn holds position) m later) :
    Grounded later.operators := by
  induction hturns with
  | refl => exact hgrounded
  | tail _ hturn ih => exact hturn.grounded hmark ih

/-- The top of a grounded stack can be applied if it passes a test that the mark fails. -/
theorem exists_apply_of_grounded (hmark : holds .finish = false)
    (hgrounded : Grounded m.operators) {top : TokenKind} {rest : List TokenKind}
    (hstack : m.operators = top :: rest) (hholds : holds top = true) :
    ∃ next, apply position top (m.withOperators rest) = .ok next := by
  obtain ⟨above, hground, habove⟩ := hgrounded
  rw [hstack] at hground
  have htop : top.isApplicable = true := by
    cases above with
    | nil =>
        obtain ⟨rfl, _⟩ : top = .finish ∧ rest = [] := by simpa using hground
        rw [hmark] at hholds
        cases hholds
    | cons first above =>
        obtain ⟨rfl, _⟩ : top = first ∧ rest = above ++ [.finish] := by simpa using hground
        exact habove top List.mem_cons_self
  exact ⟨_, apply_eq htop⟩

/-- Every turn takes a kind off the stack, so that turns come to an end. -/
theorem acc_turn (hmark : holds .finish = false) :
    ∀ (above : List TokenKind) (m : Machine), m.operators = above ++ [.finish] →
      (∀ kind ∈ above, kind.isApplicable = true) →
      Acc (fun next earlier => Turn holds position earlier next) m := by
  intro above
  induction above with
  | nil =>
      intro m hstack _
      -- the mark is on top and fails the test, so there is no turn from here
      refine Acc.intro m fun next hturn => ?_
      obtain ⟨top, rest, hcons, hholds, _⟩ := hturn
      obtain ⟨rfl, _⟩ : top = .finish ∧ rest = [] := by
        rw [hstack] at hcons
        simpa [eq_comm] using hcons
      rw [hmark] at hholds
      cases hholds
  | cons first above ih =>
      intro m hstack habove
      refine Acc.intro m fun next hturn => ?_
      obtain ⟨top, tail, hcons, _, htail, rfl⟩ :=
        hturn.eq_of_grounded hmark ⟨first :: above, hstack, habove⟩
      obtain ⟨_, hsame⟩ : first = top ∧ above = tail := by
        rw [hstack] at hcons
        simpa using hcons
      exact ih _ (by rw [hsame]; rfl) (hsame ▸ htail)

/-- The outcome of a loop is reached by turns, and its test fails there. -/
theorem exists_outcome (hmark : holds .finish = false) :
    ∀ (above : List TokenKind) (m : Machine), m.operators = above ++ [.finish] →
      (∀ kind ∈ above, kind.isApplicable = true) →
      ∃ top rest last, reduceWhile holds position m.operators m = .ok last ∧
        ReflTransGen (Turn holds position) m last ∧ last.operators = top :: rest ∧
        holds top = false := by
  intro above
  induction above with
  | nil =>
      intro m hstack _
      refine ⟨.finish, [], m, ?_, .refl, hstack, hmark⟩
      rw [hstack, List.nil_append, reduceWhile_stop _ hmark, ← List.nil_append [TokenKind.finish],
        ← hstack]
      rfl
  | cons first above ih =>
      intro m hstack habove
      rw [List.cons_append] at hstack
      obtain ⟨hfirst, habove⟩ := List.forall_mem_cons.1 habove
      cases hholds : holds first with
      | false =>
          refine ⟨first, above ++ [.finish], m, ?_, .refl, hstack, hholds⟩
          rw [hstack, reduceWhile_stop _ hholds, ← hstack]
          rfl
      | true =>
          obtain ⟨top, rest, last, hreduce, hturns, hlast, hfails⟩ :=
            ih ((m.applied position first).withOperators (above ++ [.finish])) rfl habove
          refine ⟨top, rest, last, ?_, .head ?_ hturns, hlast, hfails⟩
          · rw [hstack, ← List.singleton_append,
              reduceWhile_append _ (by simpa using ⟨hholds, hfirst⟩)]
            rwa [operators_withOperators, reduceWhile_withOperators] at hreduce
          · refine ⟨first, above ++ [.finish], hstack, hholds, ?_⟩
            rw [apply_eq hfirst, applied_withOperators]

/-- Every loop on a grounded stack is safe. -/
theorem loopSafe_of_grounded (position : Nat) (hmark : holds .finish = false)
    (hgrounded : Grounded m.operators) :
    LoopSafe holds position m where
  grounded := fun _ hturns => grounded_of_turns hmark hgrounded hturns
  progress := fun _ hturns _ _ hstack hholds =>
    exists_apply_of_grounded hmark (grounded_of_turns hmark hgrounded hturns) hstack hholds
  ends := by
    obtain ⟨above, hstack, habove⟩ := hgrounded
    exact acc_turn hmark above m hstack habove
  outcome := by
    obtain ⟨above, hstack, habove⟩ := hgrounded
    exact exists_outcome hmark above m hstack habove

/-! ## Steps -/

/-- Every step on a grounded stack succeeds and leaves a grounded stack. -/
theorem exists_step (position : Nat) (token : Token) (hgrounded : Grounded m.operators) :
    ∃ next, m.step position token = .ok next ∧ Grounded next.operators := by
  obtain ⟨above, hstack, habove⟩ := hgrounded
  cases token with
  | finish => exact ⟨_, step_finish hstack habove, [], rfl, by simp⟩
  | number value => exact ⟨_, step_number value, above, hstack, habove⟩
  | openParen =>
      obtain ⟨top, rest, hcons⟩ := Grounded.exists_top ⟨above, hstack, habove⟩
      refine ⟨_, step_openParen hcons, .openParen :: above, by simp [hstack], ?_⟩
      exact List.forall_mem_cons.2 ⟨rfl, habove⟩
  | closeParen =>
      rcases operators_or_openParen habove with hall | ⟨inner, outer, rfl, hinner⟩
      · exact ⟨_, step_loneCloser hstack hall, [], rfl, by simp⟩
      · refine ⟨_, step_closeParen (by rw [hstack]; simp) hinner, outer, rfl, ?_⟩
        exact fun kind hkind => habove kind (by simp [hkind])
  | operator op =>
      have hloop := loopSafe_of_grounded position
        (TokenKind.operator_appliesBefore_finish op) ⟨above, hstack, habove⟩
      obtain ⟨top, rest, last, hreduce, hturns, hlast, _⟩ := hloop.outcome
      obtain ⟨below, hbelow, happlicable⟩ := hloop.grounded last hturns
      refine ⟨_, step_operator_of_reduced op hreduce, .operator op :: below, by simp [hbelow], ?_⟩
      exact List.forall_mem_cons.2 ⟨rfl, happlicable⟩

/-- The end leaves nothing but the mark. -/
theorem step_finish_operators {next : Machine} (hgrounded : Grounded m.operators)
    (hstep : m.step position .finish = .ok next) : next.operators = [.finish] := by
  obtain ⟨above, hstack, habove⟩ := hgrounded
  rw [step_finish hstack habove] at hstep
  rw [← Except.ok.inj hstep, operators_withOperators]

/-! ## Runs -/

/-- A word that is not rejected leaves a grounded stack. -/
theorem exists_takeWord (position : Nat) (word : String) (hgrounded : Grounded m.operators) :
    ∃ next, m.takeWord false position word = .ok next ∧ Grounded next.operators := by
  cases hword : Token.ofWord? word with
  | some token =>
      obtain ⟨next, hstep, hnext⟩ := exists_step position token hgrounded
      exact ⟨next, by rw [takeWord_eq_step false hword, hstep]; rfl, hnext⟩
  | none =>
      obtain ⟨next, hstep, hnext⟩ := exists_step position
        (m := m.report position ⟨.malformedToken, Token.malformedMessage word⟩) .finish hgrounded
      exact ⟨next, by rw [takeWord_malformed hword, hstep]; rfl, hnext⟩

theorem exists_takeWords (position : Nat) (words : List String) (hgrounded : Grounded m.operators) :
    ∃ next, m.takeWords false position words = .ok next ∧ Grounded next.operators := by
  induction words generalizing m position with
  | nil => exact ⟨m, rfl, hgrounded⟩
  | cons word rest ih =>
      obtain ⟨next, htake, hnext⟩ := exists_takeWord position word hgrounded
      obtain ⟨last, hrest, hlast⟩ := ih (position + 1) hnext
      exact ⟨last, by rw [takeWords_cons rest htake, hrest], hlast⟩

theorem grounded_start : Grounded start.operators :=
  ⟨[], rfl, by simp⟩

end Machine

/-- Every expression has a value where malformed words are accepted. -/
theorem exists_evaluateWords (words : List String) :
    ∃ evaluation, evaluateWords false words = .ok evaluation := by
  obtain ⟨m, htake, hgrounded⟩ :=
    Machine.exists_takeWords 0 words Machine.grounded_start
  obtain ⟨last, hstep, _⟩ := Machine.exists_step words.length .finish hgrounded
  refine ⟨⟨(last.result words.length).1, (last.result words.length).2.diagnostics.reverse⟩, ?_⟩
  simp only [evaluateWords, htake, hstep, bind, Except.bind, Except.mapError, pure, Except.pure]

/-! ## All steps of an evaluation -/

/-- The steps of an evaluation: `token` comes in at `position` and meets the machine.  A malformed
word is reported first and then counts as the end. -/
inductive Incoming (words : List String) : (position : Nat) → Token → Machine → Prop
  | word {before after : List String} {word : String} {token : Token} {m : Machine} :
      words = before ++ word :: after → Machine.start.takeWords false 0 before = .ok m →
      Token.ofWord? word = some token → Incoming words before.length token m
  | malformed {before after : List String} {word : String} {m : Machine} :
      words = before ++ word :: after → Machine.start.takeWords false 0 before = .ok m →
      Token.ofWord? word = none → Incoming words before.length .finish
        (m.report before.length ⟨.malformedToken, Token.malformedMessage word⟩)
  | finish {m : Machine} :
      Machine.start.takeWords false 0 words = .ok m → Incoming words words.length .finish m

theorem grounded_of_takeWords {words : List String} {m : Machine}
    (htake : Machine.start.takeWords false 0 words = .ok m) : Grounded m.operators := by
  obtain ⟨next, hnext, hgrounded⟩ :=
    Machine.exists_takeWords 0 words Machine.grounded_start
  rw [htake] at hnext
  exact Except.ok.inj hnext ▸ hgrounded

theorem grounded_of_incoming {words : List String} {position : Nat} {token : Token} {m : Machine}
    (hincoming : Incoming words position token m) : Grounded m.operators := by
  cases hincoming with
  | word _ htake _ => exact grounded_of_takeWords htake
  | malformed _ htake _ =>
      have hgrounded := grounded_of_takeWords htake
      exact hgrounded
  | finish htake => exact grounded_of_takeWords htake

/-- There is a step at every word and one at the end. -/
theorem exists_incoming (words : List String) {position : Nat} (hposition : position ≤ words.length) :
    ∃ token m, Incoming words position token m := by
  obtain ⟨m, htake, _⟩ := Machine.exists_takeWords 0 (words.take position)
    Machine.grounded_start
  rcases Nat.lt_or_eq_of_le hposition with hlt | rfl
  · have hlength : (words.take position).length = position := by
      rw [List.length_take, Nat.min_eq_left hposition]
    have hwords : words = words.take position ++ words[position] :: words.drop (position + 1) := by
      rw [List.getElem_cons_drop, List.take_append_drop]
    rw [← hlength]
    cases hword : Token.ofWord? words[position] with
    | some token => exact ⟨token, m, .word hwords htake hword⟩
    | none => exact ⟨.finish, _, .malformed hwords htake hword⟩
  · rw [List.take_length] at htake
    exact ⟨.finish, m, .finish htake⟩

/-- **No evaluation faults.**  Where malformed words are accepted and their number is not limited,
every expression has a value.  At every step on the way the loop of the incoming token is safe, the
step succeeds, and the mark lies at the bottom of the stack and nowhere else; after an end the mark
is all there is. -/
theorem evaluation_safe (expression : String) :
    (∃ evaluation,
        evaluate expression { strictTokens := false, maxTokens := none } = .ok evaluation) ∧
      (∀ position ≤ (expressionWords expression).length,
        ∃ token m, Incoming (expressionWords expression) position token m) ∧
      ∀ position token m, Incoming (expressionWords expression) position token m →
        Grounded m.operators ∧
        (∀ holds ∈ token.loopTest?, m.LoopSafe holds position) ∧
        ∃ next, m.step position token = .ok next ∧ Grounded next.operators ∧
          (token = .finish → next.operators = [.finish]) := by
  refine ⟨exists_evaluateWords _, fun _ hposition => exists_incoming _ hposition, ?_⟩
  intro position token m hincoming
  have hgrounded := grounded_of_incoming hincoming
  refine ⟨hgrounded, fun holds hholds => ?_, ?_⟩
  · exact Machine.loopSafe_of_grounded position (Token.finish_fails hholds) hgrounded
  · obtain ⟨next, hstep, hnext⟩ := Machine.exists_step position token hgrounded
    refine ⟨next, hstep, hnext, ?_⟩
    rintro rfl
    exact Machine.step_finish_operators hgrounded hstep

end InfixCalculator
