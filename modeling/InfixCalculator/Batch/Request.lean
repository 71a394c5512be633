import InfixCalculator.Text.Blank
import InfixCalculator.Text.Line

/-!
# Requests

A document holds at most one expression a line.  A line may be copied from the
display of the keypad: what stands before the last result marker `~` is an earlier
result and is dropped, as is a comment, which starts at the first `#`.  What is
left, without blanks at its ends, is the expression, and a line that leaves nothing
holds none.
-/

namespace InfixCalculator

/-- The character between a shown result and the expression after it. -/
def resultMarker : Char := '~'

namespace Batch

/-- The character that starts a comment. -/
def commentMark : Char := '#'

/-- An expression and where it was read. -/
structure Request where
  expression : String
  lineNumber : Nat := 1
  /-- The document, or the empty text if there is none. -/
  source : String := ""
deriving DecidableEq

/-- A text from after the last result marker on. -/
def afterMarker (text : List Char) : List Char :=
  (text.reverse.takeWhile (· ≠ resultMarker)).reverse

/-- A text up to its comment. -/
def beforeComment (text : List Char) : List Char :=
  text.takeWhile (· ≠ commentMark)

/-- The expression on a line, empty if there is none. -/
def lineExpression (line : List Char) : List Char :=
  Text.trim (afterMarker (beforeComment line))

/-- The requests on lines, the first of which has the number given. -/
def requestsFrom (source : String) : (lineNumber : Nat) → List (List Char) → List Request
  | _, [] => []
  | lineNumber, line :: rest =>
    let expression := lineExpression line
    let later := requestsFrom source (lineNumber + 1) rest
    if expression = [] then later
    else ⟨String.ofList expression, lineNumber, source⟩ :: later

/-- The requests in a document, in the order of its lines. -/
def requests (text : String) (source : String) : List Request :=
  requestsFrom source 1 (Text.lines text.toList)

end Batch

end InfixCalculator
