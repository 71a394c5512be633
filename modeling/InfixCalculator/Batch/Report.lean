import InfixCalculator.Batch.Outcome

/-!
# Reports

A report holds the outcomes of a batch in order.  It is written as the lines of
all outcomes, an empty line, and a summary that counts the expressions, those with
diagnostics, the diagnostics by kind, and the rejected expressions.
-/

namespace InfixCalculator.Batch

/-- The outcomes of a batch. -/
structure Report where
  outcomes : List Outcome

/-- Evaluates requests under the same settings. -/
def run (settings : Settings) (requests : List Request) : Report :=
  ⟨requests.map (·.outcome settings)⟩

namespace Report

/-- How many requests were rejected. -/
def errors (report : Report) : Nat :=
  report.outcomes.countP (·.failed)

/-- How many outcomes have diagnostics. -/
def withDiagnostics (report : Report) : Nat :=
  report.outcomes.countP fun outcome => !outcome.diagnostics.isEmpty

/-- All diagnostics in order. -/
def diagnostics (report : Report) : List Diagnostic :=
  report.outcomes.flatMap (·.diagnostics)

/-- How many diagnostics are of a kind. -/
def count (report : Report) (kind : DiagnosticKind) : Nat :=
  report.diagnostics.countP (·.kind = kind)

/-- The kinds that occur, with their counts. -/
def counts (report : Report) : List (DiagnosticKind × Nat) :=
  (DiagnosticKind.all.map fun kind => (kind, report.count kind)).filter fun (_, n) => n ≠ 0

/-- The counts in words, between parentheses; nothing if there are none. -/
def countsText (counts : List (DiagnosticKind × Nat)) : String :=
  if counts = [] then ""
  else
    " (" ++ ", ".intercalate (counts.map fun (kind, n) => kind.name ++ ": " ++ Decimal.natText n) ++
      ")"

/-- The report in one line. -/
def summary (report : Report) : String :=
  Decimal.natText report.outcomes.length ++ " expressions, " ++
    Decimal.natText report.withDiagnostics ++ " with diagnostics" ++ countsText report.counts ++
    ", " ++ Decimal.natText report.errors ++ " rejected"

/-- The lines of the report. -/
def lines (report : Report) : List String :=
  report.outcomes.flatMap (·.lines) ++ ["", "# " ++ report.summary]

/-- The report as it is written to a file. -/
def text (report : Report) : String :=
  String.join (report.lines.map (· ++ "\n"))

end Report

end InfixCalculator.Batch
