import InfixCalculator.Batch.Report
import InfixCalculator.Proofs.Decimal.Digits

/-!
# What is shown

The parts of reports letter by letter: the word for a kind of diagnostic, the line on a diagnostic
and the start of the line on a request.  They are written out here, so that statements about reports
need not refer to the functions that make them, and are shown to be what these functions make.
-/

namespace InfixCalculator

/-- The word that stands for a kind of diagnostic. -/
def DiagnosticKind.word : DiagnosticKind → String
  | malformedToken => "malformed_token"
  | missingOpenParen => "missing_open_paren"
  | unbalancedParen => "unbalanced_paren"
  | missingOperand => "missing_operand"
  | divisionByZero => "division_by_zero"
  | invalidPower => "invalid_power"
  | missingOperators => "missing_operators"
  | emptyResult => "empty_result"

/-- A diagnostic with its kind, as it is shown for a single expression. -/
def Diagnostic.remark (diagnostic : Diagnostic) : String :=
  "  " ++ diagnostic.kind.word ++ ": " ++ diagnostic.message

/-- A diagnostic with its kind and its position, as it is shown in a report. -/
def Diagnostic.note (diagnostic : Diagnostic) : String :=
  "    ! " ++ diagnostic.kind.word ++ " at token " ++ toString diagnostic.position ++ ": " ++
    diagnostic.message

/-- The place and the expression of a request: its document, if there is one, and its line. -/
def Batch.Request.headline (request : Request) : String :=
  (if request.source = "" then "" else request.source ++ ":") ++ toString request.lineNumber ++ ": " ++
    request.expression

theorem DiagnosticKind.name_eq_word (kind : DiagnosticKind) : kind.name = kind.word := by
  cases kind <;> rfl

theorem Diagnostic.text_eq_remark (diagnostic : Diagnostic) :
    "  " ++ diagnostic.text = diagnostic.remark := by
  rw [text, remark, DiagnosticKind.name_eq_word]
  simp only [String.append_assoc]

namespace Batch

theorem diagnosticLine_eq_note (diagnostic : Diagnostic) :
    diagnosticLine diagnostic = diagnostic.note := by
  rw [diagnosticLine, Diagnostic.note, DiagnosticKind.name_eq_word, Decimal.natText_eq_toString]

theorem Request.location_eq_headline (request : Request) :
    request.location ++ ": " ++ request.expression = request.headline := by
  rw [location, headline]
  split
  · rw [String.empty_append, Decimal.natText_eq_toString]
  · rw [Decimal.natText_eq_toString]

end Batch

end InfixCalculator
