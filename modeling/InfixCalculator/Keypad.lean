import InfixCalculator.Batch.Request
import InfixCalculator.Evaluation

/-!
# The keypad

A session has an entry, which is the number being typed, and a display, which is
the expression so far.  Every symbol on the display is followed by a blank, so
that the symbol written last is the last character but one.  After `equals` the
display shows the value and the result marker, and an operator continues from
that value.

`Session.press` takes a key.  A key that would spoil the expression is refused and
leaves the session as it is; `Refusal` says why.
-/

namespace InfixCalculator

/-- Why an entry does not fit the expression. -/
inductive EntryFlaw where
  | operatorFirst
  | valueAfterGroup
  | invalidEntry
  | groupAfterValue
  | groupAfterGroup
  | closeFirst
  | closeAfterOperator
  | nothingToNegate
  | nothingToRoot
  | negativeRoot
  | invalidRoot
  | nothingToDelete
  | resultAfterGroup
deriving DecidableEq

/-- The reason in words. -/
def EntryFlaw.message : EntryFlaw → String
  | operatorFirst => "Must input a value before applying an operator."
  | valueAfterGroup => "Must apply operator after closing parenthesis before entering a value."
  | invalidEntry => "Invalid entry!"
  | groupAfterValue => "Can't place opening parenthesis after a value!"
  | groupAfterGroup => "Can't place opening parenthesis after a closing parenthesis!"
  | closeFirst => "Can't place closing parenthesis at the start of an expression!"
  | closeAfterOperator => "Can't place closing parenthesis after an operator!"
  | nothingToNegate => "No value to negate!"
  | nothingToRoot => "No value to square root!"
  | negativeRoot => "Can't square root a negative value!"
  | invalidRoot => "Invalid value to square root!"
  | nothingToDelete => "No value to delete!"
  | resultAfterGroup => "Must apply an operator before entering a value!"

/-- Why a key is refused. -/
inductive Refusal where
  | entry (flaw : EntryFlaw)
  | notADigit (key : String)
  | notAnOperator (key : String)
  /-- The display ends like a shown result and holds no result marker. -/
  | noMarker
  /-- The entry has no square root. -/
  | noRoot (reason : Undefined)
  | rejected (rejection : Rejection)
deriving DecidableEq

/-- The reason in words. -/
def Refusal.message : Refusal → String
  | entry flaw => flaw.message
  | notADigit key => "Not a digit key: " ++ Text.quote key
  | notAnOperator key => "Not an operator key: " ++ Text.quote key
  | noMarker => "substring not found"
  | noRoot _ => "math domain error"
  | rejected rejection => rejection.message

/-- The keys.  A digit or operator key carries its label. -/
inductive Key where
  | digit (label : String)
  | operator (label : String)
  | decimal
  | openParen
  | closeParen
  | negate
  | squareRoot
  | delete
  | clearEntry
  | clearAll
  | equals
deriving DecidableEq

/-- The state of the keypad. -/
structure Session where
  /-- The number being typed. -/
  entry : List Char := []
  /-- The expression so far. -/
  display : List Char := []
  settings : Settings := {}

/-- The symbol written last on a display, which a blank follows. -/
def lastSymbol? (display : List Char) : Option Char :=
  match display.reverse with
  | _ :: symbol :: _ => some symbol
  | _ => none

namespace Session

/-! ## Keys of the entry -/

/-- Types a digit. -/
def pressDigit (label : String) (s : Session) : Except Refusal Session :=
  match label.toList with
  | [c] =>
    if Literal.isDigit c then .ok { s with entry := s.entry ++ [c] } else .error (.notADigit label)
  | _ => .error (.notADigit label)

/-- Types a decimal point, unless there is one. -/
def pressDecimal (s : Session) : Session :=
  if s.entry.contains '.' then s else { s with entry := s.entry ++ ['.'] }

/-- Turns the sign of the entry. -/
def negate (s : Session) : Except Refusal Session :=
  if s.entry = [] then .error (.entry .nothingToNegate)
  else if s.entry = ['-'] then .ok { s with entry := [] }
  else if s.entry.contains '-' then .ok { s with entry := s.entry.drop 1 }
  else .ok { s with entry := '-' :: s.entry }

/-- Puts the square root in the place of the entry. -/
def squareRoot (s : Session) : Except Refusal Session :=
  if s.entry = [] then .error (.entry .nothingToRoot)
  else if s.entry.contains '-' then .error (.entry .negativeRoot)
  else match Literal.ofChars? s.entry with
    | none => .error (.entry .invalidRoot)
    | some literal =>
      match realRoot literal.toFloat with
      | .ok root => .ok { s with entry := (Decimal.literalText root).toList }
      | .error reason => .error (.noRoot reason)

/-- Removes the last character of the entry. -/
def delete (s : Session) : Except Refusal Session :=
  if s.entry = [] then .error (.entry .nothingToDelete)
  else .ok { s with entry := s.entry.dropLast }

/-! ## Keys of the display -/

/-- The operator keys. -/
def operatorKeys : List String := ["+", "-", "*", "/", "^"]

/-- A text without its last characters. -/
def dropEnd (count : Nat) (text : List Char) : List Char :=
  text.take (text.length - count)

/-- The value shown before the result marker and its two blanks.  Where the marker has fewer than two
characters before it, their number counts from the end of the text. -/
def shownResult? (display : List Char) : Option (List Char) :=
  match display.idxOf? resultMarker with
  | none => none
  | some 0 => some (dropEnd 2 display)
  | some 1 => some (dropEnd 1 display)
  | some (position + 2) => some (display.take position)

/-- Places an operator or a closing parenthesis, after the entry if there is one. -/
def place (symbol : List Char) (s : Session) : Except Refusal Session :=
  let last := lastSymbol? s.display
  if s.entry = [] && s.display = [] then .error (.entry .operatorFirst)
  else if s.entry = [] && last = some ' ' then
    match shownResult? s.display with
    | none => .error .noMarker
    | some value => .ok { s with display := value ++ ' ' :: symbol ++ [' '] }
  else if last = some ')' then
    if s.entry ≠ [] then .error (.entry .valueAfterGroup)
    else .ok { s with display := s.display ++ ' ' :: symbol ++ [' '] }
  else if s.entry = [] && last ≠ some '(' then
    .ok { s with display := dropEnd 2 s.display ++ symbol ++ [' '] }
  else if (Literal.ofChars? s.entry).isNone then .error (.entry .invalidEntry)
  else .ok { s with display := s.display ++ s.entry ++ ' ' :: symbol ++ [' '], entry := [] }

/-- Places an operator. -/
def pressOperator (label : String) (s : Session) : Except Refusal Session :=
  if operatorKeys.contains label then s.place label.toList else .error (.notAnOperator label)

/-- Opens a parenthesis. -/
def openParen (s : Session) : Except Refusal Session :=
  if s.entry ≠ [] then .error (.entry .groupAfterValue)
  else if lastSymbol? s.display = some ')' then .error (.entry .groupAfterGroup)
  else .ok { s with display := s.display ++ ['(', ' '] }

/-- Closes a parenthesis. -/
def closeParen (s : Session) : Except Refusal Session :=
  if s.entry ≠ [] then s.place [')']
  else if s.display = [] then .error (.entry .closeFirst)
  else if lastSymbol? s.display ≠ some ')' then .error (.entry .closeAfterOperator)
  else .ok { s with display := s.display ++ [')', ' '] }

/-- The expression on the display followed by the entry, without an earlier result. -/
def expression (s : Session) : List Char :=
  Batch.afterMarker s.display ++ s.entry

/-- A display that shows a value. -/
def resultDisplay (value : Float) : List Char :=
  (Decimal.literalText value).toList ++ [' ', ' ', resultMarker, ' ', ' ']

/-- Evaluates the expression and shows its value. -/
def equals (s : Session) : Except Refusal (Evaluation × Session) :=
  let last := lastSymbol? s.display
  if last ≠ some ')' && (Literal.ofChars? s.entry).isNone then .error (.entry .invalidEntry)
  else if last = some ')' && s.entry ≠ [] then .error (.entry .resultAfterGroup)
  else match evaluate (String.ofList s.expression) s.settings with
    | .error rejection => .error (.rejected rejection)
    | .ok evaluation =>
      .ok (evaluation, { s with display := resultDisplay evaluation.value, entry := [] })

/-! ## All keys -/

/-- Presses a key; only `equals` has an evaluation to show. -/
def press (key : Key) (s : Session) : Except Refusal (Option Evaluation × Session) :=
  match key with
  | .digit label => (s.pressDigit label).map (none, ·)
  | .operator label => (s.pressOperator label).map (none, ·)
  | .decimal => .ok (none, s.pressDecimal)
  | .openParen => s.openParen.map (none, ·)
  | .closeParen => s.closeParen.map (none, ·)
  | .negate => s.negate.map (none, ·)
  | .squareRoot => s.squareRoot.map (none, ·)
  | .delete => s.delete.map (none, ·)
  | .clearEntry => .ok (none, { s with entry := [] })
  | .clearAll => .ok (none, { s with entry := [], display := [] })
  | .equals => s.equals.map fun (evaluation, s) => (some evaluation, s)

/-- Presses a key; a refused key changes nothing. -/
def pressed (key : Key) (s : Session) : Session :=
  match s.press key with
  | .ok (_, s) => s
  | .error _ => s

end Session

end InfixCalculator
