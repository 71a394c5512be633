import InfixCalculator.Proofs.Evaluation.Reduction
import InfixCalculator.Proofs.Evaluation.Safety
import InfixCalculator.Proofs.Results

/-!
# What a step reports

The diagnostics of a machine only grow, and what a step adds to them can be told from its
token: an operator that is applied may lack an operand, divide by zero or be an invalid power,
an open parenthesis is applied only if it was never closed, and a closing one is reported if
it finds no opening one.  All reports of a step have the position of its word.

`Machine.Adds P m next` says that the diagnostics of `next` are those of `m` and some for which
`P` holds.  It is reflexive and transitive, so that `Adds.of_reduceWhile`, `Adds.of_step` and
`Adds.of_takeWords` carry it from what is applied to a loop, a token and a run.  `adds_operated`
says what one operator adds, `adds_step` what a token does and `adds_result` what the end does.
-/

namespace InfixCalculator

/-- The kinds that an operator may report. -/
def DiagnosticKind.ofOperator : DiagnosticKind → Bool
  | missingOperand => true
  | divisionByZero => true
  | invalidPower => true
  | _ => false

/-- What a kind may report when it is applied. -/
def TokenKind.mayReport : TokenKind → DiagnosticKind → Bool
  | openParen, kind => kind = .unbalancedParen
  | operator _, kind => kind.ofOperator
  | _, _ => false

/-- What a token may report when it comes in. -/
def Token.mayReport : Token → DiagnosticKind → Bool
  | finish, kind => kind.ofOperator || kind = .unbalancedParen
  | number _, _ => false
  | openParen, _ => false
  | closeParen, kind => kind.ofOperator || kind = .missingOpenParen
  | operator _, kind => kind.ofOperator

namespace Machine

variable {position : Nat} {m middle next : Machine} {P Q : Diagnostic → Prop}

/-- The second machine reported what the first did, and after it some diagnostics of a sort. -/
def Adds (P : Diagnostic → Prop) (m next : Machine) : Prop :=
  ∃ added, next.diagnostics = added ++ m.diagnostics ∧ ∀ diagnostic ∈ added, P diagnostic

theorem Adds.of_eq (h : next.diagnostics = m.diagnostics) : Adds P m next :=
  ⟨[], h, by simp⟩

theorem Adds.trans (hfirst : Adds P m middle) (hsecond : Adds P middle next) : Adds P m next := by
  obtain ⟨first, hmiddle, hfirst⟩ := hfirst
  obtain ⟨second, hnext, hsecond⟩ := hsecond
  refine ⟨second ++ first, ?_, List.forall_mem_append.2 ⟨hsecond, hfirst⟩⟩
  rw [hnext, hmiddle, List.append_assoc]

theorem Adds.mono (h : Adds P m next) (himp : ∀ diagnostic, P diagnostic → Q diagnostic) :
    Adds Q m next := by
  obtain ⟨added, hnext, hadded⟩ := h
  exact ⟨added, hnext, fun diagnostic hmem => himp diagnostic (hadded diagnostic hmem)⟩

theorem adds_report {anomaly : Anomaly} (h : P ⟨anomaly.kind, anomaly.message, position⟩) :
    Adds P m (m.report position anomaly) :=
  ⟨[_], rfl, List.forall_mem_singleton.2 h⟩

/-- Where nothing was reported before, everything was added. -/
theorem Adds.of_start (h : Adds P start next) : ∀ diagnostic ∈ next.diagnostics, P diagnostic := by
  obtain ⟨added, hnext, hadded⟩ := h
  rw [hnext, show start.diagnostics = [] from rfl, List.append_nil]
  exact hadded

/-! ## Applying -/

theorem adds_popOperand (position : Nat) (m : Machine) :
    Adds (fun d => d.position = position ∧ d.kind = .missingOperand ∧ m.operands = []) m
      (m.popOperand position).2 := by
  unfold popOperand
  cases hoperands : m.operands with
  | nil => exact adds_report ⟨rfl, rfl, rfl⟩
  | cons value rest => exact .of_eq rfl

theorem length_popOperand (position : Nat) (m : Machine) :
    (m.popOperand position).2.operands.length = m.operands.length - 1 := by
  unfold popOperand
  cases hoperands : m.operands with
  | nil => simp [report, hoperands]
  | cons value rest => simp

theorem operands_reportAny (anomaly : Option Anomaly) :
    (m.reportAny position anomaly).operands = m.operands := by
  cases anomaly <;> rfl

theorem operators_reportAny (anomaly : Option Anomaly) :
    (m.reportAny position anomaly).operators = m.operators := by
  cases anomaly <;> rfl

theorem length_operated (op : Operator) :
    (m.operated position op).operands.length = m.operands.length - 2 + 1 := by
  simp only [operated, push, operands_reportAny, List.length_cons, length_popOperand]
  omega

/-- An operator that finds both of its operands reports none missing. -/
theorem adds_operated (op : Operator) :
    Adds (fun d => d.position = position ∧ (d.kind = .missingOperand ∧ m.operands.length < 2 ∨
      d.kind = .divisionByZero ∨ d.kind = .invalidPower)) m (m.operated position op) := by
  have hrhs := adds_popOperand position m
  have hlhs := adds_popOperand position (m.popOperand position).2
  have hlength := length_popOperand position m
  simp only [operated]
  refine (hrhs.mono ?_).trans ((hlhs.mono ?_).trans ?_)
  · rintro d ⟨hposition, hkind, hnone⟩
    exact ⟨hposition, .inl ⟨hkind, by simp [hnone]⟩⟩
  · rintro d ⟨hposition, hkind, hnone⟩
    rw [hnone, List.length_nil] at hlength
    exact ⟨hposition, .inl ⟨hkind, by omega⟩⟩
  · cases hanomaly : (op.computed _ _).anomaly with
    | none => exact .of_eq rfl
    | some anomaly =>
        exact adds_report ⟨rfl, .inr (Operator.kind_of_computed hanomaly)⟩

theorem adds_apply {top : TokenKind} (h : apply position top m = .ok next) :
    Adds (fun d => d.position = position ∧ top.mayReport d.kind = true) m next := by
  cases top with
  | openParen =>
      obtain rfl := Except.ok.inj h
      exact adds_report ⟨rfl, rfl⟩
  | operator op =>
      have hoperate : m.operate position op = .ok next := h
      rw [operate_eq] at hoperate
      obtain rfl := Except.ok.inj hoperate
      refine (adds_operated op).mono ?_
      rintro d ⟨hposition, ⟨hkind, -⟩ | hkind | hkind⟩ <;> exact ⟨hposition, by rw [hkind]; rfl⟩
  | finish => cases h
  | value => cases h
  | closeParen => cases h

/-! ## Taking in -/

/-- A loop adds what is added by applying what passes its test. -/
theorem Adds.of_reduceWhile {holds : TokenKind → Bool}
    (happly : ∀ top m next, holds top = true → apply position top m = .ok next → Adds P m next)
    {operators : List TokenKind} (h : reduceWhile holds position operators m = .ok next) :
    Adds P m next := by
  induction operators generalizing m with
  | nil => cases h
  | cons top rest ih =>
      rw [reduceWhile] at h
      split at h
      · rename_i hholds
        split at h
        · cases h
        · rename_i applied htop
          exact (happly top _ applied hholds htop).trans (ih h)
      · cases h
        exact .of_eq rfl

/-- An operator coming in applies operators only, as does a closing parenthesis. -/
theorem ofOperator_of_mayReport {top : TokenKind} {kind : DiagnosticKind}
    (h : top.mayReport kind = true) (hopen : top ≠ .openParen) : kind.ofOperator = true := by
  cases top with
  | openParen => exact absurd rfl hopen
  | operator op => exact h
  | finish => cases h
  | value => cases h
  | closeParen => cases h

/-- Kinds that are applied report what one of them may report. -/
theorem adds_appliedAll {kinds : List TokenKind}
    (hkinds : ∀ top ∈ kinds, top.isApplicable = true) :
    Adds (fun d => d.position = position ∧ ∃ top ∈ kinds, top.mayReport d.kind = true) m
      (m.appliedAll position kinds) := by
  induction kinds generalizing m with
  | nil => exact .of_eq rfl
  | cons top kinds ih =>
      obtain ⟨htop, hrest⟩ := List.forall_mem_cons.1 hkinds
      have happlied : Adds _ m (m.applied position top) := adds_apply (apply_eq htop)
      refine (happlied.mono ?_).trans ((ih hrest).mono ?_)
      · rintro d ⟨hposition, hkind⟩
        exact ⟨hposition, top, List.mem_cons_self, hkind⟩
      · rintro d ⟨hposition, other, hother, hkind⟩
        exact ⟨hposition, other, List.mem_cons_of_mem _ hother, hkind⟩

/-- What passes the test of a token reports what the token may report. -/
theorem mayReport_of_passes {token : Token} {holds : TokenKind → Bool}
    (hholds : holds ∈ token.loopTest?) {top : TokenKind} (hpass : holds top = true)
    {kind : DiagnosticKind} (hkind : top.mayReport kind = true) : token.mayReport kind = true := by
  cases token with
  | number value => cases hholds
  | finish =>
      by_cases hopen : top = .openParen
      · subst hopen
        have hunbalanced : kind = .unbalancedParen := of_decide_eq_true hkind
        subst hunbalanced
        rfl
      · simp [Token.mayReport, ofOperator_of_mayReport hkind hopen]
  | openParen =>
      cases hholds
      exact absurd hpass (by simp [Token.kind, TokenKind.openParen_appliesBefore])
  | operator op =>
      cases hholds
      refine ofOperator_of_mayReport hkind ?_
      rintro rfl
      exact absurd hpass (by simp [Token.kind, TokenKind.operator_appliesBefore_openParen])
  | closeParen =>
      cases hholds
      have hopen : top ≠ .openParen := by
        rintro rfl
        simp [isBarrier] at hpass
      simp [Token.mayReport, ofOperator_of_mayReport hkind hopen]

/-- A token adds what is added by applying what passes its test, and a closing parenthesis may also
report that nothing is left for it to close. -/
theorem Adds.of_step {token : Token}
    (happly : ∀ holds ∈ token.loopTest?, ∀ top m next, holds top = true →
      apply position top m = .ok next → Adds P m next)
    (hclose : token = .closeParen →
      P ⟨.missingOpenParen, "Missing open parenthesis", position⟩)
    (h : m.step position token = .ok next) : Adds P m next := by
  cases token with
  | number value =>
      cases h
      exact .of_eq rfl
  | finish => exact .of_reduceWhile (happly _ rfl) h
  | openParen =>
      obtain ⟨reduced, hreduce, hnext⟩ := bind_eq_ok.1 h
      cases hnext
      exact (Adds.of_reduceWhile (happly _ rfl) hreduce).trans (.of_eq rfl)
  | operator op =>
      obtain ⟨reduced, hreduce, hnext⟩ := bind_eq_ok.1 h
      cases hnext
      exact (Adds.of_reduceWhile (happly _ rfl) hreduce).trans (.of_eq rfl)
  | closeParen =>
      obtain ⟨reduced, hreduce, hnext⟩ := bind_eq_ok.1 h
      refine (Adds.of_reduceWhile (happly _ rfl) hreduce).trans ?_
      unfold closeGroup at hnext
      split at hnext
      · cases hnext
      · cases hnext
        exact .of_eq rfl
      · cases hnext
        exact adds_report (hclose rfl)

theorem adds_step {token : Token} (h : m.step position token = .ok next) :
    Adds (fun d => d.position = position ∧ token.mayReport d.kind = true) m next := by
  refine Adds.of_step (fun holds hholds top m next hpass happly => ?_) ?_ h
  · refine (adds_apply happly).mono ?_
    rintro d ⟨hposition, hkind⟩
    exact ⟨hposition, mayReport_of_passes hholds hpass hkind⟩
  · rintro rfl
    exact ⟨rfl, rfl⟩

/-- Words add what each of them adds. -/
theorem Adds.of_takeWords {strict : Bool} {words : List String}
    (hwords : ∀ word ∈ words, ∀ position m next,
      m.takeWord strict position word = .ok next → Adds P m next)
    (h : m.takeWords strict position words = .ok next) : Adds P m next := by
  induction words generalizing m position with
  | nil =>
      cases h
      exact .of_eq rfl
  | cons word rest ih =>
      obtain ⟨hword, hrest⟩ := List.forall_mem_cons.1 hwords
      rw [takeWords] at h
      split at h
      · cases h
      · rename_i middle htake
        exact (hword position m middle htake).trans (ih hrest h)

theorem adds_result :
    Adds (fun d => d.position = position ∧ (d.kind = .emptyResult ∨ d.kind = .missingOperators)) m
      (m.result position).2 := by
  unfold result
  split
  · exact adds_report ⟨rfl, .inl rfl⟩
  · exact .of_eq rfl
  · exact adds_report ⟨rfl, .inr rfl⟩

end Machine

end InfixCalculator
