import InfixCalculator.Batch.Request
import InfixCalculator.Evaluation

/-!
# Outcomes of requests

A request is evaluated to a value with its diagnostics, or it is rejected with a
reason.  Either way the outcome keeps the request and is written in lines: the
place, the expression and the value or the reason on the first, and every
diagnostic on a line of its own after it.
-/

namespace InfixCalculator.Batch

/-- What became of a request. -/
structure Outcome where
  request : Request
  value : Option Float := none
  diagnostics : List Diagnostic := []
  /-- Why the request was rejected, if it was. -/
  error : Option String := none

/-- What becomes of a request under some settings. -/
def Request.outcome (request : Request) (settings : Settings) : Outcome :=
  match evaluate request.expression settings with
  | .ok evaluation => ⟨request, some evaluation.value, evaluation.diagnostics, none⟩
  | .error rejection => ⟨request, none, [], some rejection.message⟩

/-- The document, if there is one, and the line of a request. -/
def Request.location (request : Request) : String :=
  if request.source = "" then Decimal.natText request.lineNumber
  else request.source ++ ":" ++ Decimal.natText request.lineNumber

/-- A diagnostic on a line of its own. -/
def diagnosticLine (diagnostic : Diagnostic) : String :=
  "    ! " ++ diagnostic.kind.name ++ " at token " ++ Decimal.natText diagnostic.position ++ ": " ++
    diagnostic.message

namespace Outcome

/-- Whether the request was rejected. -/
def failed (outcome : Outcome) : Bool :=
  outcome.error.isSome

/-- The value, or what stands for a missing one. -/
def valueText (outcome : Outcome) : String :=
  match outcome.value with
  | some value => Decimal.plainText value
  | none => "None"

/-- The lines of an outcome. -/
def lines (outcome : Outcome) : List String :=
  let start := outcome.request.location ++ ": " ++ outcome.request.expression
  match outcome.error with
  | some reason => [start ++ " -> ERROR: " ++ reason]
  | none => (start ++ " = " ++ outcome.valueText) :: outcome.diagnostics.map diagnosticLine

end Outcome

end InfixCalculator.Batch
