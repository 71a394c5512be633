/-!
# Diagnostics

Evaluation never stops at an anomaly of an expression.  It reports a diagnostic,
which says what was met and at which word, and carries on with a substitute.
-/

namespace InfixCalculator

/-- The kinds of anomalies. -/
inductive DiagnosticKind where
  /-- A word is neither a symbol nor a number; it counts as the end of an expression. -/
  | malformedToken
  /-- A closing parenthesis has no opening one. -/
  | missingOpenParen
  /-- An opening parenthesis was never closed. -/
  | unbalancedParen
  /-- An operator lacked an operand and took zero for it. -/
  | missingOperand
  /-- A divisor was zero and the dividend was kept. -/
  | divisionByZero
  /-- A power was too large, or had no real value. -/
  | invalidPower
  /-- More operands than operators were met and the last value was taken. -/
  | missingOperators
  /-- There was no value at all and zero was taken. -/
  | emptyResult
deriving DecidableEq

namespace DiagnosticKind

/-- The name of a kind in reports. -/
def name : DiagnosticKind → String
  | malformedToken => "malformed_token"
  | missingOpenParen => "missing_open_paren"
  | unbalancedParen => "unbalanced_paren"
  | missingOperand => "missing_operand"
  | divisionByZero => "division_by_zero"
  | invalidPower => "invalid_power"
  | missingOperators => "missing_operators"
  | emptyResult => "empty_result"

/-- All kinds, in the order in which summaries list them. -/
def all : List DiagnosticKind :=
  [malformedToken, missingOpenParen, unbalancedParen, missingOperand, divisionByZero, invalidPower,
    missingOperators, emptyResult]

theorem mem_all (kind : DiagnosticKind) : kind ∈ all := by
  cases kind <;> decide

/-- The kind with a name. -/
def ofName? (name : String) : Option DiagnosticKind :=
  all.find? fun kind => kind.name = name

end DiagnosticKind

/-- An anomaly met while evaluating. -/
structure Diagnostic where
  kind : DiagnosticKind
  message : String
  /-- The index of the word in hand, or the number of words at the end. -/
  position : Nat
deriving DecidableEq

/-- A diagnostic in one line. -/
def Diagnostic.text (diagnostic : Diagnostic) : String :=
  diagnostic.kind.name ++ ": " ++ diagnostic.message

end InfixCalculator
