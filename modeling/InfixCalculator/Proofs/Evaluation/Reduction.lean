import InfixCalculator.Evaluation
import Mathlib.Data.List.TakeWhile

/-!
# What a step does to the stacks

The steps of `Machine` may fault on arbitrary stacks.  This file says what they do
where they cannot: as long as only operators and open parentheses lie above the mark
`TokenKind.finish`, which is `Grounded` below.

* `Operator.computed` and `Machine.applied` are the total forms of `Operator.compute`
  and `Machine.apply`; `compute_eq` and `apply_eq` say that nothing is lost.
* `reduceWhile_append` takes a stack apart into a part that passes the test of a
  reduction loop and a rest: the loop applies the part, top first, and goes on with the
  rest.  `reduceWhile_stop` ends it.
* `step_operator`, `step_openParen`, `step_finish`, `step_closeParen` and
  `step_loneCloser` are the steps themselves, in the same form.

Later files cite these and unfold neither a loop nor a step.
-/

namespace InfixCalculator

/-! ## Operators without faults -/

namespace Operator

/-- The value that an operator gives on two operands, and what there is to report. -/
def computed (op : Operator) (lhs rhs : Float) : Computed :=
  match op.compute lhs rhs with
  | .ok computed => computed
  | .error _ => ⟨Double.nan, none⟩

theorem compute_eq (op : Operator) (lhs rhs : Float) :
    op.compute lhs rhs = .ok (op.computed lhs rhs) := by
  obtain ⟨c, hc⟩ := compute_ok op lhs rhs
  simp only [computed, hc]

/-- An operator reports nothing but divisions by zero and invalid powers. -/
theorem kind_of_computed {op : Operator} {lhs rhs : Float} {anomaly : Anomaly}
    (h : anomaly ∈ (op.computed lhs rhs).anomaly) :
    anomaly.kind = .divisionByZero ∨ anomaly.kind = .invalidPower := by
  have hcompute := compute_eq op lhs rhs
  unfold compute at hcompute
  split at hcompute
  · rw [← Except.ok.inj hcompute] at h
    cases h
    exact .inl rfl
  · split at hcompute
    · rw [← Except.ok.inj hcompute] at h
      cases h
    · rw [← Except.ok.inj hcompute] at h
      cases h
      exact .inr rfl
    · rw [← Except.ok.inj hcompute, unreal] at h
      split at h <;> cases h <;> exact .inr rfl
    · cases hcompute

end Operator

/-- The kinds that can be applied. -/
def TokenKind.isApplicable : TokenKind → Bool
  | .openParen => true
  | .operator _ => true
  | _ => false

/-- The kinds that a closing parenthesis applies. -/
def TokenKind.isOperator : TokenKind → Bool
  | .operator _ => true
  | _ => false

theorem TokenKind.isApplicable_of_isOperator {kind : TokenKind} (h : kind.isOperator = true) :
    kind.isApplicable = true := by
  cases kind <;> simp_all [isOperator, isApplicable]

theorem TokenKind.finish_appliesBefore {kind : TokenKind} (h : kind.isApplicable = true) :
    finish.appliesBefore kind = true := by
  cases kind with
  | operator op => cases op <;> decide
  | openParen => decide
  | _ => simp [isApplicable] at h

/-- An open parenthesis comes in above all others. -/
theorem TokenKind.openParen_appliesBefore (kind : TokenKind) :
    openParen.appliesBefore kind = false := by
  cases kind with
  | operator op => cases op <;> decide
  | _ => decide

theorem TokenKind.operator_appliesBefore_openParen (op : Operator) :
    (operator op).appliesBefore openParen = false := by
  cases op <;> decide

theorem TokenKind.operator_appliesBefore_finish (op : Operator) :
    (operator op).appliesBefore finish = false := by
  cases op <;> decide

/-- A stack with the mark at its bottom and nowhere else, and above it only what can be
applied. -/
def Grounded (operators : List TokenKind) : Prop :=
  ∃ above, operators = above ++ [.finish] ∧ ∀ kind ∈ above, kind.isApplicable = true

theorem Grounded.exists_top {operators : List TokenKind} (h : Grounded operators) :
    ∃ top rest, operators = top :: rest := by
  obtain ⟨above, rfl, -⟩ := h
  cases above <;> simp

namespace Machine

variable {position : Nat} {m : Machine}

/-! ## Applying -/

/-- Puts the value of an operator in the place of its operands. -/
def operated (position : Nat) (op : Operator) (m : Machine) : Machine :=
  let (rhs, m) := m.popOperand position
  let (lhs, m) := m.popOperand position
  let computed := op.computed lhs rhs
  (m.reportAny position computed.anomaly).push computed.value

/-- Applies what was on top of the stack of operators, if it can be applied. -/
def applied (position : Nat) (top : TokenKind) (m : Machine) : Machine :=
  match top with
  | .openParen => m.report position ⟨.unbalancedParen, "Unbalanced parentheses"⟩
  | .operator op => m.operated position op
  | _ => m

/-- Applies some kinds in order. -/
def appliedAll (position : Nat) (kinds : List TokenKind) (m : Machine) : Machine :=
  kinds.foldl (fun m top => m.applied position top) m

theorem operate_eq (op : Operator) : m.operate position op = .ok (m.operated position op) := by
  simp only [operate, operated, Operator.compute_eq]

theorem apply_eq {top : TokenKind} (happlicable : top.isApplicable = true) :
    apply position top m = .ok (m.applied position top) := by
  cases top with
  | finish => simp [TokenKind.isApplicable] at happlicable
  | value => simp [TokenKind.isApplicable] at happlicable
  | openParen => rfl
  | closeParen => simp [TokenKind.isApplicable] at happlicable
  | operator op => exact operate_eq op

@[simp] theorem appliedAll_nil : m.appliedAll position [] = m := rfl

@[simp] theorem appliedAll_cons (top : TokenKind) (kinds : List TokenKind) :
    m.appliedAll position (top :: kinds) = (m.applied position top).appliedAll position kinds :=
  rfl

theorem appliedAll_append (first second : List TokenKind) :
    m.appliedAll position (first ++ second) =
      (m.appliedAll position first).appliedAll position second := by
  simp [appliedAll]

/-! ## The stack of operators stays out of it -/

/-- The machine with another stack of operators. -/
def withOperators (operators : List TokenKind) (m : Machine) : Machine :=
  { m with operators }

@[simp] theorem operators_withOperators (operators : List TokenKind) :
    (m.withOperators operators).operators = operators := rfl

@[simp] theorem operands_withOperators (operators : List TokenKind) :
    (m.withOperators operators).operands = m.operands := rfl

@[simp] theorem diagnostics_withOperators (operators : List TokenKind) :
    (m.withOperators operators).diagnostics = m.diagnostics := rfl

@[simp] theorem withOperators_withOperators (first second : List TokenKind) :
    (m.withOperators first).withOperators second = m.withOperators second := rfl

@[simp] theorem withOperators_self : m.withOperators m.operators = m := rfl

theorem reportAny_withOperators (operators : List TokenKind) (anomaly : Option Anomaly) :
    (m.withOperators operators).reportAny position anomaly =
      (m.reportAny position anomaly).withOperators operators := by
  cases anomaly <;> rfl

theorem popOperand_withOperators (operators : List TokenKind) :
    (m.withOperators operators).popOperand position =
      ((m.popOperand position).1, (m.popOperand position).2.withOperators operators) := by
  unfold popOperand
  rw [operands_withOperators]
  cases m.operands <;> rfl

theorem operated_withOperators (operators : List TokenKind) (op : Operator) :
    (m.withOperators operators).operated position op =
      (m.operated position op).withOperators operators := by
  simp only [operated, popOperand_withOperators, reportAny_withOperators]
  rfl

theorem applied_withOperators (operators : List TokenKind) (top : TokenKind) :
    (m.withOperators operators).applied position top =
      (m.applied position top).withOperators operators := by
  cases top with
  | openParen => rfl
  | operator op => exact operated_withOperators operators op
  | _ => rfl

theorem appliedAll_withOperators (operators kinds : List TokenKind) :
    (m.withOperators operators).appliedAll position kinds =
      (m.appliedAll position kinds).withOperators operators := by
  induction kinds generalizing m with
  | nil => rfl
  | cons top kinds ih => rw [appliedAll_cons, applied_withOperators, ih, appliedAll_cons]

/-! ## Reduction loops -/

variable {holds : TokenKind → Bool}

/-- A loop brings its own stack along. -/
theorem reduceWhile_withOperators (operators other : List TokenKind) :
    reduceWhile holds position operators (m.withOperators other) =
      reduceWhile holds position operators m := by
  cases operators <;> rfl

/-- A loop applies the part of the stack that passes its test and goes on with the rest. -/
theorem reduceWhile_append {part : List TokenKind} (rest : List TokenKind)
    (hpart : ∀ kind ∈ part, holds kind = true ∧ kind.isApplicable = true) :
    reduceWhile holds position (part ++ rest) m =
      reduceWhile holds position rest (m.appliedAll position part) := by
  induction part generalizing m with
  | nil => rfl
  | cons top part ih =>
      obtain ⟨hholds, happlicable⟩ := hpart top List.mem_cons_self
      have hstep : apply position top { m with operators := part ++ rest } =
          .ok ((m.applied position top).withOperators (part ++ rest)) := by
        rw [apply_eq happlicable]
        exact congrArg Except.ok (applied_withOperators (part ++ rest) top)
      rw [List.cons_append, reduceWhile, if_pos hholds, hstep, appliedAll_cons]
      simp only
      -- the loop carries its stack as an argument, so the stack of the machine does not matter
      rw [reduceWhile_withOperators]
      exact ih fun kind hkind => hpart kind (List.mem_cons_of_mem _ hkind)

/-- A loop ends at a kind that fails its test. -/
theorem reduceWhile_stop {top : TokenKind} (rest : List TokenKind) (htop : holds top = false) :
    reduceWhile holds position (top :: rest) m = .ok (m.withOperators (top :: rest)) := by
  rw [reduceWhile, if_neg (by simp [htop])]
  rfl

/-- A loop over a part that passes its test, down to a kind that does not. -/
theorem reduceWhile_eq {part : List TokenKind} {top : TokenKind} (rest : List TokenKind)
    (hpart : ∀ kind ∈ part, holds kind = true ∧ kind.isApplicable = true)
    (htop : holds top = false) :
    reduceWhile holds position (part ++ top :: rest) m =
      .ok ((m.appliedAll position part).withOperators (top :: rest)) := by
  rw [reduceWhile_append _ hpart, reduceWhile_stop rest htop]

/-! ## Steps -/

@[simp] theorem step_number (value : Float) :
    m.step position (.number value) = .ok (m.push value) := rfl

/-- An operator is stacked on what its reduction leaves. -/
theorem step_operator_of_reduced {reduced : Machine} (op : Operator)
    (hreduced : reduceWhile (TokenKind.appliesBefore (.operator op) ·) position m.operators m =
      .ok reduced) :
    m.step position (.operator op) =
      .ok (reduced.withOperators (.operator op :: reduced.operators)) := by
  simp only [step, reduceFor, hreduced]
  rfl

/-- An operator has all applied that weighs enough, down to the first kind that does not. -/
theorem step_operator {part : List TokenKind} {top : TokenKind} {rest : List TokenKind}
    (op : Operator) (hstack : m.operators = part ++ top :: rest)
    (hpart : ∀ kind ∈ part,
      TokenKind.appliesBefore (.operator op) kind = true ∧ kind.isApplicable = true)
    (htop : TokenKind.appliesBefore (.operator op) top = false) :
    m.step position (.operator op) =
      .ok ((m.appliedAll position part).withOperators (.operator op :: top :: rest)) := by
  rw [step_operator_of_reduced op (by rw [hstack]; exact reduceWhile_eq rest hpart htop)]
  rfl

/-- The same for a stack that is not taken apart yet; the operator stops at its end at the
latest. -/
theorem step_operator_takeWhile {above : List TokenKind} {bottom : TokenKind}
    {rest : List TokenKind} (op : Operator) (hstack : m.operators = above ++ bottom :: rest)
    (habove : ∀ kind ∈ above, kind.isApplicable = true)
    (hbottom : TokenKind.appliesBefore (.operator op) bottom = false) :
    m.step position (.operator op) =
      .ok ((m.appliedAll position
          (above.takeWhile (TokenKind.appliesBefore (.operator op)))).withOperators
        (.operator op :: (above.dropWhile (TokenKind.appliesBefore (.operator op)) ++
          bottom :: rest))) := by
  have hpart : ∀ kind ∈ above.takeWhile (TokenKind.appliesBefore (.operator op)),
      TokenKind.appliesBefore (.operator op) kind = true ∧ kind.isApplicable = true :=
    fun kind hkind => ⟨List.mem_takeWhile_imp hkind,
      habove kind ((List.takeWhile_prefix _).subset hkind)⟩
  have hsplit := List.takeWhile_append_dropWhile
    (p := TokenKind.appliesBefore (.operator op)) (l := above)
  -- the loop ends at the first kind above the bottom that fails the test, or at the bottom
  cases hdrop : above.dropWhile (TokenKind.appliesBefore (.operator op)) with
  | nil =>
      rw [hdrop, List.append_nil] at hsplit
      exact step_operator op (by rw [hstack, hsplit]) hpart hbottom
  | cons top tail =>
      have htop : TokenKind.appliesBefore (.operator op) top = false := by
        have hhead := List.head_dropWhile_not (TokenKind.appliesBefore (.operator op))
          (l := above) (by simp [hdrop])
        simpa [hdrop] using hhead
      rw [hdrop] at hsplit
      have hwhole : m.operators = above.takeWhile (TokenKind.appliesBefore (.operator op)) ++
          top :: (tail ++ bottom :: rest) := by
        rw [hstack, ← List.cons_append, ← List.append_assoc, hsplit]
      exact step_operator op hwhole hpart htop

/-- An open parenthesis applies nothing. -/
theorem step_openParen {top : TokenKind} {rest : List TokenKind}
    (hstack : m.operators = top :: rest) :
    m.step position .openParen = .ok (m.withOperators (.openParen :: m.operators)) := by
  have hreduced : reduceWhile (TokenKind.appliesBefore .openParen ·) position m.operators m =
      .ok m := by
    rw [hstack, reduceWhile_stop rest (TokenKind.openParen_appliesBefore top), ← hstack]
    rfl
  simp only [step, reduceFor, hreduced]
  rfl

/-- The end applies all that lies above the mark. -/
theorem step_finish {above : List TokenKind} (hstack : m.operators = above ++ [.finish])
    (habove : ∀ kind ∈ above, kind.isApplicable = true) :
    m.step position .finish = .ok ((m.appliedAll position above).withOperators [.finish]) := by
  simp only [step, reduceFor, hstack]
  exact reduceWhile_eq []
    (fun kind hkind => ⟨TokenKind.finish_appliesBefore (habove kind hkind), habove kind hkind⟩)
    (by decide)

/-- A closing parenthesis looks for its opening one on what its reduction leaves. -/
theorem step_closeParen_of_reduced {reduced : Machine}
    (hreduced : reduceWhile (!isBarrier ·) position m.operators m = .ok reduced) :
    m.step position .closeParen = reduced.closeGroup position := by
  simp only [step, hreduced]
  rfl

private theorem passes_of_isOperator {kinds : List TokenKind}
    (hkinds : ∀ kind ∈ kinds, kind.isOperator = true) :
    ∀ kind ∈ kinds, (!isBarrier kind) = true ∧ kind.isApplicable = true := by
  intro kind hkind
  have hoperator := hkinds kind hkind
  refine ⟨?_, TokenKind.isApplicable_of_isOperator hoperator⟩
  cases kind <;> simp_all [TokenKind.isOperator, isBarrier]

/-- A closing parenthesis applies the operators down to the nearest open parenthesis and takes
that off the stack. -/
theorem step_closeParen {inner outer : List TokenKind}
    (hstack : m.operators = inner ++ .openParen :: outer)
    (hinner : ∀ kind ∈ inner, kind.isOperator = true) :
    m.step position .closeParen = .ok ((m.appliedAll position inner).withOperators outer) := by
  rw [step_closeParen_of_reduced (by
    rw [hstack]; exact reduceWhile_eq outer (passes_of_isOperator hinner) (by decide))]
  rfl

/-- A closing parenthesis without an opening one applies all operators and is reported. -/
theorem step_loneCloser {above : List TokenKind} (hstack : m.operators = above ++ [.finish])
    (habove : ∀ kind ∈ above, kind.isOperator = true) :
    m.step position .closeParen =
      .ok (((m.appliedAll position above).report position
        ⟨.missingOpenParen, "Missing open parenthesis"⟩).withOperators [.finish]) := by
  rw [step_closeParen_of_reduced (by
    rw [hstack]; exact reduceWhile_eq [] (passes_of_isOperator habove) (by decide))]
  rfl

/-! ## Words -/

theorem takeWord_eq_step (strict : Bool) {word : String} {token : Token}
    (hword : Token.ofWord? word = some token) :
    m.takeWord strict position word = (m.step position token).mapError .fault := by
  simp only [takeWord, hword]

theorem takeWord_malformed {word : String} (hword : Token.ofWord? word = none) :
    m.takeWord false position word =
      ((m.report position ⟨.malformedToken, Token.malformedMessage word⟩).step position
        .finish).mapError .fault := by
  simp [takeWord, hword]

theorem takeWords_cons {strict : Bool} {word : String} {next : Machine} (rest : List String)
    (hword : m.takeWord strict position word = .ok next) :
    m.takeWords strict position (word :: rest) = next.takeWords strict (position + 1) rest := by
  rw [takeWords, hword]

theorem takeWords_append {strict : Bool} {first : List String} {middle : Machine}
    (second : List String) (hfirst : m.takeWords strict position first = .ok middle) :
    m.takeWords strict position (first ++ second) =
      middle.takeWords strict (position + first.length) second := by
  induction first generalizing m position with
  | nil =>
      obtain rfl : m = middle := Except.ok.inj hfirst
      rfl
  | cons word first ih =>
      cases hword : m.takeWord strict position word with
      | error rejection =>
          rw [takeWords, hword] at hfirst
          cases hfirst
      | ok next =>
          rw [takeWords_cons first hword] at hfirst
          rw [List.cons_append, takeWords_cons _ hword, ih hfirst, List.length_cons,
            Nat.add_assoc, Nat.add_comm 1]

end Machine

/-! ## Taking stacks apart -/

/-- What can be applied is operators only, or has a topmost open parenthesis. -/
theorem operators_or_openParen {kinds : List TokenKind}
    (hkinds : ∀ kind ∈ kinds, kind.isApplicable = true) :
    (∀ kind ∈ kinds, kind.isOperator = true) ∨
      ∃ inner outer, kinds = inner ++ .openParen :: outer ∧
        ∀ kind ∈ inner, kind.isOperator = true := by
  induction kinds with
  | nil => exact .inl (by simp)
  | cons top kinds ih =>
      have happlicable := hkinds top List.mem_cons_self
      cases top with
      | openParen => exact .inr ⟨[], kinds, rfl, by simp⟩
      | operator op =>
          rcases ih fun kind hkind => hkinds kind (List.mem_cons_of_mem _ hkind) with
            hall | ⟨inner, outer, rfl, hinner⟩
          · exact .inl (List.forall_mem_cons.2 ⟨rfl, hall⟩)
          · exact .inr ⟨.operator op :: inner, outer, rfl, List.forall_mem_cons.2 ⟨rfl, hinner⟩⟩
      | finish => simp [TokenKind.isApplicable] at happlicable
      | value => simp [TokenKind.isApplicable] at happlicable
      | closeParen => simp [TokenKind.isApplicable] at happlicable

end InfixCalculator
