import InfixCalculator.Keypad

/-!
# The keys one assignment at a time

Here a key is an `Action` on a session: it reads the fields, assigns them one after the other, and
may be refused at any point of this.  What was assigned before a refusal stays assigned.
-/

namespace InfixCalculator

/-- A computation on a session that a refusal may cut short. -/
abbrev Action := EStateM Refusal Session

namespace Action

/-- Assigns the entry. -/
def setEntry (entry : List Char) : Action Unit :=
  modify fun s => { s with entry := entry }

/-- Assigns the display. -/
def setDisplay (display : List Char) : Action Unit :=
  modify fun s => { s with display := display }

/-- Refuses the key, since the entry does not fit the expression. -/
def refuse (flaw : EntryFlaw) : Action Unit :=
  throw (.entry flaw)

/-! ## Keys of the entry -/

/-- Types a digit. -/
def digit (label : String) : Action Unit := do
  match label.toList with
  | [c] =>
    if Literal.isDigit c then setEntry ((← get).entry ++ [c]) else throw (.notADigit label)
  | _ => throw (.notADigit label)

/-- Types a decimal point, unless there is one. -/
def decimal : Action Unit := do
  if !(← get).entry.contains '.' then
    setEntry ((← get).entry ++ ['.'])

/-- Turns the sign of the entry. -/
def negate : Action Unit := do
  if (← get).entry = [] then
    refuse .nothingToNegate
  if (← get).entry = ['-'] then
    setEntry []
  else if (← get).entry.contains '-' then
    setEntry ((← get).entry.drop 1)
  else
    setEntry ('-' :: (← get).entry)

/-- Puts the square root in the place of the entry. -/
def squareRoot : Action Unit := do
  if (← get).entry = [] then
    refuse .nothingToRoot
  if (← get).entry.contains '-' then
    refuse .negativeRoot
  match Literal.ofChars? (← get).entry with
  | none => refuse .invalidRoot
  | some literal =>
    match realRoot literal.toFloat with
    | .ok root => setEntry (Decimal.literalText root).toList
    | .error reason => throw (.noRoot reason)

/-- Removes the last character of the entry. -/
def delete : Action Unit := do
  if (← get).entry = [] then
    refuse .nothingToDelete
  setEntry (← get).entry.dropLast

/-- Empties the entry. -/
def clearEntry : Action Unit :=
  setEntry []

/-! ## Keys of the display -/

/-- Places an operator or a closing parenthesis, after the entry if there is one. -/
def place (symbol : List Char) : Action Unit := do
  let last := lastSymbol? (← get).display
  if (← get).entry = [] && (← get).display = [] then
    refuse .operatorFirst
  if (← get).entry = [] && last = some ' ' then
    match Session.shownResult? (← get).display with
    | none => throw .noMarker
    | some value => setDisplay (value ++ ' ' :: symbol ++ [' '])
  else if last = some ')' then
    if (← get).entry ≠ [] then
      refuse .valueAfterGroup
    setDisplay ((← get).display ++ ' ' :: symbol ++ [' '])
  else if (← get).entry = [] && last ≠ some '(' then
    setDisplay (Session.dropEnd 2 (← get).display ++ symbol ++ [' '])
  else if (Literal.ofChars? (← get).entry).isNone then
    refuse .invalidEntry
  else
    setDisplay ((← get).display ++ (← get).entry ++ ' ' :: symbol ++ [' '])
    setEntry []

/-- Places an operator. -/
def operator (label : String) : Action Unit := do
  if !Session.operatorKeys.contains label then
    throw (.notAnOperator label)
  place label.toList

/-- Opens a parenthesis. -/
def openParen : Action Unit := do
  if (← get).entry ≠ [] then
    refuse .groupAfterValue
  if lastSymbol? (← get).display = some ')' then
    refuse .groupAfterGroup
  setDisplay ((← get).display ++ ['(', ' '])

/-- Closes a parenthesis. -/
def closeParen : Action Unit := do
  if (← get).entry ≠ [] then
    place [')']
  else if (← get).display = [] then
    refuse .closeFirst
  else if lastSymbol? (← get).display ≠ some ')' then
    refuse .closeAfterOperator
  else
    setDisplay ((← get).display ++ [')', ' '])

/-- Empties the entry and the display. -/
def clearAll : Action Unit := do
  setEntry []
  setDisplay []

/-- Evaluates the expression and shows its value. -/
def equals : Action Evaluation := do
  let last := lastSymbol? (← get).display
  if last ≠ some ')' && (Literal.ofChars? (← get).entry).isNone then
    refuse .invalidEntry
  if last = some ')' && (← get).entry ≠ [] then
    refuse .resultAfterGroup
  match evaluate (String.ofList (← get).expression) (← get).settings with
  | .error rejection => throw (.rejected rejection)
  | .ok evaluation =>
    setDisplay (Session.resultDisplay evaluation.value)
    setEntry []
    return evaluation

/-! ## All keys -/

/-- Performs a key; only `equals` has an evaluation to show. -/
def perform (key : Key) : Action (Option Evaluation) :=
  match key with
  | .digit label => do digit label; return none
  | .operator label => do operator label; return none
  | .decimal => do decimal; return none
  | .openParen => do openParen; return none
  | .closeParen => do closeParen; return none
  | .negate => do negate; return none
  | .squareRoot => do squareRoot; return none
  | .delete => do delete; return none
  | .clearEntry => do clearEntry; return none
  | .clearAll => do clearAll; return none
  | .equals => do return some (← equals)

end Action

end InfixCalculator
