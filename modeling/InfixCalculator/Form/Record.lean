import InfixCalculator.Batch.Outcome
import InfixCalculator.Form

/-!
# Records read from forms

The readers of the library's records: settings, diagnostics, requests and
outcomes.  Line numbers and limits start at one and positions at zero.
-/

namespace InfixCalculator

/-- Reads settings; all fields have defaults. -/
def Settings.ofForm (form : Form) : Checked Settings :=
  Checked.both Settings.mk
    (form.withDefault FieldValue.flag? false "strict_tokens")
    (form.withDefault (FieldValue.optional (FieldValue.wholeFrom? 1)) none "max_tokens")

/-- Reads the name of a kind of diagnostics. -/
def DiagnosticKind.ofField (value : FieldValue) : Checked DiagnosticKind :=
  match value with
  | .text name =>
    match DiagnosticKind.ofName? name with
    | some kind => .ok kind
    | none => Checked.flawed .unknownName
  | _ => Checked.flawed .unknownName

/-- Reads a diagnostic; no field has a default. -/
def Diagnostic.ofForm (form : Form) : Checked Diagnostic :=
  Checked.both (fun (kind, message) position => Diagnostic.mk kind message position)
    (Checked.both Prod.mk
      (form.required DiagnosticKind.ofField "kind")
      (form.required FieldValue.text? "message"))
    (form.required (FieldValue.wholeFrom? 0) "position")

namespace Batch

/-- Reads a request; only the expression has no default. -/
def Request.ofForm (form : Form) : Checked Request :=
  Checked.both (fun (expression, lineNumber) source => Request.mk expression lineNumber source)
    (Checked.both Prod.mk
      (form.required FieldValue.text? "expression")
      (form.withDefault (FieldValue.wholeFrom? 1) 1 "line_number"))
    (form.withDefault FieldValue.text? "" "source")

/-- Reads an outcome; only the expression has no default. -/
def Outcome.ofForm (form : Form) : Checked Outcome :=
  Checked.both
    (fun (request, value) (diagnostics, error) => Outcome.mk request value diagnostics error)
    (Checked.both Prod.mk
      (Request.ofForm form)
      (form.withDefault (FieldValue.optional FieldValue.real?) none "result"))
    (Checked.both Prod.mk
      (form.withDefault
        (FieldValue.list? fun value => do Diagnostic.ofForm (← value.form?)) [] "diagnostics")
      (form.withDefault (FieldValue.optional FieldValue.text?) none "error"))

/-- Reads the number of workers that may share a batch.  Outcomes do not depend on it. -/
def workersOfForm (form : Form) : Checked Nat :=
  form.withDefault (FieldValue.wholeFrom? 1) 1 "workers"

end Batch

end InfixCalculator
