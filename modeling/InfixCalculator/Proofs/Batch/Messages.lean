import InfixCalculator.Proofs.Batch.Rejection
import InfixCalculator.Proofs.Decimal.ReadBack
import InfixCalculator.Proofs.Text.EndedLine

/-!
# Messages stay on their lines

What an evaluation says, in a diagnostic or as the reason of a rejection, holds no line break.  It
is put together from texts that are written here, from numbers, which have the characters of
literals, and in one case from what a user has typed: a malformed word is repeated in its message.
A word is without blanks, and every line break is a blank.

`onOneLine_of_evaluate` says so of the diagnostics, and `isUnbroken_of_rejected` of the reason.  The
first follows the definitions with `Machine.Adds`, as the positions and the kinds of the reports do.
-/

namespace InfixCalculator

open Text (IsUnbroken isUnbroken_append isUnbroken_of_solid)

/-- A diagnostic with a message on one line. -/
def Diagnostic.OnOneLine (diagnostic : Diagnostic) : Prop :=
  IsUnbroken diagnostic.message.toList

/-! ## Numbers and words -/

theorem Decimal.isUnbroken_natText (n : Nat) : IsUnbroken (natText n).toList := by
  refine isUnbroken_of_solid fun c hc => ?_
  exact Literal.isBlank_of_isPart (Literal.isPart_of_isDigit (allDigits_natText n c hc))

theorem Decimal.isUnbroken_plainText (x : Float) : IsUnbroken (plainText x).toList := by
  have hsign : IsUnbroken (if Double.isNegative x then "-" else "").toList := by
    cases Double.isNegative x <;> decide
  unfold plainText Layout.text
  simp only []
  split
  · decide
  · rename_i hnumber
    split
    · exact isUnbroken_append hsign (by decide)
    · rename_i hother
      have hfinite : Double.index x < Double.infinityIndex := by omega
      refine isUnbroken_append hsign ?_
      rw [String.toList_ofList]
      obtain ⟨literal, hread, -⟩ := @sizeText_reads plain (by decide) _ hfinite false
      exact isUnbroken_of_solid fun c hc =>
        Literal.isBlank_of_isPart (Literal.forall_isPart hread c hc)

/-- The words of an expression hold no break, even if the expression does. -/
theorem isUnbroken_of_mem_expressionWords {expression word : String}
    (h : word ∈ expressionWords expression) : IsUnbroken word.toList := by
  obtain ⟨chars, hchars, rfl⟩ := List.mem_map.1 h
  rw [String.toList_ofList]
  exact isUnbroken_of_solid (Text.solid_of_mem_words hchars).2

theorem Token.isUnbroken_malformedMessage {word : String} (h : IsUnbroken word.toList) :
    IsUnbroken (malformedMessage word).toList :=
  isUnbroken_append (by decide) h

/-! ## Diagnostics -/

namespace Operator

variable {op : Operator} {lhs rhs : Float} {anomaly : Anomaly}

theorem isUnbroken_powerText (lhs rhs : Float) : IsUnbroken (powerText lhs rhs).toList :=
  isUnbroken_append
    (isUnbroken_append (Decimal.isUnbroken_plainText lhs) (by decide))
    (Decimal.isUnbroken_plainText rhs)

theorem isUnbroken_overflowed (h : anomaly ∈ (overflowed lhs rhs).anomaly) :
    IsUnbroken anomaly.message.toList := by
  cases h
  exact isUnbroken_append (by decide) (isUnbroken_powerText lhs rhs)

theorem isUnbroken_unreal (h : anomaly ∈ (unreal lhs rhs).anomaly) :
    IsUnbroken anomaly.message.toList := by
  have hpower := isUnbroken_powerText lhs rhs
  unfold unreal at h
  split at h
  · cases h
    exact isUnbroken_append (by decide) hpower
  · cases h
    exact isUnbroken_append (isUnbroken_append (by decide) hpower) (by decide)

theorem isUnbroken_computed (h : anomaly ∈ (op.computed lhs rhs).anomaly) :
    IsUnbroken anomaly.message.toList := by
  have hcompute := compute_eq op lhs rhs
  unfold compute at hcompute
  split at hcompute
  · rw [← Except.ok.inj hcompute] at h
    cases h
    decide
  · split at hcompute
    · rw [← Except.ok.inj hcompute] at h
      cases h
    · rw [← Except.ok.inj hcompute] at h
      exact isUnbroken_overflowed h
    · rw [← Except.ok.inj hcompute] at h
      exact isUnbroken_unreal h
    · cases hcompute

end Operator

namespace Machine

variable {position : Nat} {m next : Machine} {strict : Bool} {word : String} {words : List String}

theorem addsOnOneLine_report {anomaly : Anomaly} (h : IsUnbroken anomaly.message.toList) :
    Adds Diagnostic.OnOneLine m (m.report position anomaly) :=
  adds_report h

theorem addsOnOneLine_popOperand (position : Nat) (m : Machine) :
    Adds Diagnostic.OnOneLine m (m.popOperand position).2 := by
  unfold popOperand
  cases m.operands with
  | nil => exact addsOnOneLine_report (by decide)
  | cons value rest => exact .of_eq rfl

theorem addsOnOneLine_operated (position : Nat) (op : Operator) (m : Machine) :
    Adds Diagnostic.OnOneLine m (m.operated position op) := by
  simp only [operated]
  refine (addsOnOneLine_popOperand position m).trans
    ((addsOnOneLine_popOperand position _).trans ?_)
  cases hanomaly : (op.computed _ _).anomaly with
  | none => exact .of_eq rfl
  | some anomaly => exact addsOnOneLine_report (Operator.isUnbroken_computed hanomaly)

theorem addsOnOneLine_apply {top : TokenKind} (h : apply position top m = .ok next) :
    Adds Diagnostic.OnOneLine m next := by
  cases top with
  | openParen =>
      obtain rfl := Except.ok.inj h
      exact addsOnOneLine_report (by decide)
  | operator op =>
      have hoperate : m.operate position op = .ok next := h
      rw [operate_eq] at hoperate
      obtain rfl := Except.ok.inj hoperate
      exact addsOnOneLine_operated position op m
  | finish => cases h
  | value => cases h
  | closeParen => cases h

theorem addsOnOneLine_step {token : Token} (h : m.step position token = .ok next) :
    Adds Diagnostic.OnOneLine m next := by
  refine Adds.of_step (fun _ _ _ _ _ _ => addsOnOneLine_apply) (fun _ => ?_) h
  exact (by decide : IsUnbroken "Missing open parenthesis".toList)

theorem addsOnOneLine_result (position : Nat) (m : Machine) :
    Adds Diagnostic.OnOneLine m (m.result position).2 := by
  unfold result
  split
  · exact addsOnOneLine_report (by decide)
  · exact .of_eq rfl
  · exact addsOnOneLine_report (by decide)

theorem addsOnOneLine_takeWord (hword : IsUnbroken word.toList)
    (h : m.takeWord strict position word = .ok next) : Adds Diagnostic.OnOneLine m next := by
  unfold takeWord at h
  split at h
  · exact addsOnOneLine_step (mapError_eq_ok.1 h)
  · split at h
    · cases h
    · have hreport : Adds Diagnostic.OnOneLine m
          (m.report position ⟨.malformedToken, Token.malformedMessage word⟩) :=
        adds_report (Token.isUnbroken_malformedMessage hword)
      exact hreport.trans (addsOnOneLine_step (mapError_eq_ok.1 h))

theorem addsOnOneLine_takeWords (hwords : ∀ word ∈ words, IsUnbroken word.toList)
    (h : m.takeWords strict position words = .ok next) : Adds Diagnostic.OnOneLine m next :=
  .of_takeWords (fun word hmem _ _ _ => addsOnOneLine_takeWord (hwords word hmem)) h

end Machine

/-! ## Rejections -/

section Rejections

variable {position : Nat} {m : Machine} {strict : Bool} {word : String} {words : List String}
  {fault : Fault} {rejection : Rejection}

theorem mapError_fault_eq_error {α : Type} {x : Except Fault α}
    (h : x.mapError Rejection.fault = .error rejection) : ∃ fault, rejection = .fault fault := by
  cases x with
  | ok a => cases h
  | error fault =>
      cases h
      exact ⟨fault, rfl⟩

theorem Rejection.isUnbroken_fault (fault : Fault) :
    IsUnbroken (Rejection.fault fault).message.toList := by
  cases fault with
  | emptyStack => exact (by decide : IsUnbroken "The stack of operators is empty".toList)
  | noOperation kind =>
      refine isUnbroken_append (by decide) ?_
      cases kind with
      | operator op => cases op <;> decide
      | finish => decide
      | value => decide
      | openParen => decide
      | closeParen => decide
  | undefined reason => exact (by decide : IsUnbroken "The operation is undefined".toList)

theorem Rejection.isUnbroken_tooLong (count limit : Nat) :
    IsUnbroken (Rejection.tooLong count limit).message.toList := by
  rw [Rejection.message_tooLong]
  refine isUnbroken_append (isUnbroken_append ?_ (by decide))
    (Decimal.isUnbroken_natText limit)
  exact isUnbroken_append (by decide) (Decimal.isUnbroken_natText count)

theorem Machine.isUnbroken_takeWord (hword : IsUnbroken word.toList)
    (h : m.takeWord strict position word = .error rejection) :
    IsUnbroken rejection.message.toList := by
  unfold takeWord at h
  split at h
  · obtain ⟨fault, rfl⟩ := mapError_fault_eq_error h
    exact Rejection.isUnbroken_fault fault
  · split at h
    · cases h
      exact Token.isUnbroken_malformedMessage hword
    · obtain ⟨fault, rfl⟩ := mapError_fault_eq_error h
      exact Rejection.isUnbroken_fault fault

theorem Machine.isUnbroken_takeWords (hwords : ∀ word ∈ words, IsUnbroken word.toList)
    (h : m.takeWords strict position words = .error rejection) :
    IsUnbroken rejection.message.toList := by
  induction words generalizing m position with
  | nil => cases h
  | cons word words ih =>
      obtain ⟨hword, hwords⟩ := List.forall_mem_cons.1 hwords
      rw [takeWords] at h
      split at h
      · rename_i found htake
        cases h
        exact Machine.isUnbroken_takeWord hword htake
      · exact ih hwords h

end Rejections

/-! ## Whole expressions -/

variable {expression : String} {settings : Settings}

theorem onOneLine_of_evaluateWords {strict : Bool} {words : List String} {evaluation : Evaluation}
    (hwords : ∀ word ∈ words, IsUnbroken word.toList)
    (h : evaluateWords strict words = .ok evaluation) :
    ∀ diagnostic ∈ evaluation.diagnostics, diagnostic.OnOneLine := by
  obtain ⟨m, last, htake, hend, rfl⟩ := exists_run h
  have hadds : Machine.Adds Diagnostic.OnOneLine Machine.start (last.result words.length).2 :=
    (Machine.addsOnOneLine_takeWords hwords htake).trans
      ((Machine.addsOnOneLine_step hend).trans (Machine.addsOnOneLine_result _ _))
  intro diagnostic hmem
  exact hadds.of_start diagnostic (List.mem_reverse.1 hmem)

theorem isUnbroken_of_evaluateWords {strict : Bool} {words : List String} {rejection : Rejection}
    (hwords : ∀ word ∈ words, IsUnbroken word.toList)
    (h : evaluateWords strict words = .error rejection) : IsUnbroken rejection.message.toList := by
  unfold evaluateWords at h
  cases htake : Machine.start.takeWords strict 0 words with
  | error found =>
      rw [htake] at h
      cases h
      exact Machine.isUnbroken_takeWords hwords htake
  | ok m =>
      rw [htake] at h
      cases hend : m.step words.length .finish with
      | error fault =>
          simp only [bind, Except.bind, hend, Except.mapError] at h
          cases h
          exact Rejection.isUnbroken_fault fault
      | ok last =>
          simp only [bind, Except.bind, hend, Except.mapError] at h
          cases h

/-- What is reported on an expression stays on one line each. -/
theorem onOneLine_of_evaluate {evaluation : Evaluation}
    (h : evaluate expression settings = .ok evaluation) :
    ∀ diagnostic ∈ evaluation.diagnostics, diagnostic.OnOneLine := by
  by_cases hbound : settings.IsExceededBy (expressionWords expression)
  · obtain ⟨limit, hlimit, hexceeded⟩ := hbound
    rw [evaluate_of_exceeded hlimit hexceeded] at h
    cases h
  · rw [evaluate_of_not_exceeded hbound] at h
    exact onOneLine_of_evaluateWords (fun word => isUnbroken_of_mem_expressionWords) h

/-- The reason why an expression is rejected stays on one line. -/
theorem isUnbroken_of_rejected {rejection : Rejection}
    (h : evaluate expression settings = .error rejection) :
    IsUnbroken rejection.message.toList := by
  by_cases hbound : settings.IsExceededBy (expressionWords expression)
  · obtain ⟨limit, hlimit, hexceeded⟩ := hbound
    rw [evaluate_of_exceeded hlimit hexceeded] at h
    cases h
    exact Rejection.isUnbroken_tooLong _ limit
  · rw [evaluate_of_not_exceeded hbound] at h
    exact isUnbroken_of_evaluateWords (fun word => isUnbroken_of_mem_expressionWords) h

end InfixCalculator
