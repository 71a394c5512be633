import InfixCalculator.Keypad

/-!
# The tape

A tape is what a display stands for: the tokens of the expression so far, and the value that is
shown if nothing was placed after it.  `Tape.record` writes down an accepted key without
looking at any text but the entry, and `Session.tape` does so for all keys from the start on.
-/

namespace InfixCalculator

/-- The tokens of an expression, and the value that an operator would continue from. -/
structure Tape where
  tokens : List Token := []
  shown : Option Float := none

/-- The token of an entry; an entry that is not a number has none. -/
def enteredTokens (entry : List Char) : List Token :=
  match Literal.ofChars? entry with
  | some literal => [.number literal.toFloat]
  | none => []

namespace Tape

/-- What an operator is written after when there is no entry: the value shown, or the tokens
without the operator that ends them. -/
def continued (tape : Tape) : List Token :=
  match tape.shown, tape.tokens.getLast? with
  | some value, _ => [.number value]
  | none, some (.operator _) => tape.tokens.dropLast
  | none, _ => tape.tokens

/-- Records an operator or a closing parenthesis that is placed after the entry, or an operator
without one. -/
def placed (symbol : Token) (entry : List Char) (tape : Tape) : Tape :=
  if entry = [] then ⟨tape.continued ++ [symbol], none⟩
  else ⟨tape.tokens ++ enteredTokens entry ++ [symbol], none⟩

/-- Records an accepted key, given the entry before it and what `equals` showed. -/
def record (key : Key) (entry : List Char) (evaluation? : Option Evaluation) (tape : Tape) :
    Tape :=
  match key with
  | .operator label =>
    match Token.ofSymbol? label with
    | some symbol => tape.placed symbol entry
    | none => tape
  | .openParen => ⟨tape.tokens ++ [.openParen], none⟩
  | .closeParen =>
    if entry = [] then ⟨tape.tokens ++ [.closeParen], none⟩ else tape.placed .closeParen entry
  | .clearAll => {}
  | .equals => ⟨[], evaluation?.map Evaluation.value⟩
  | _ => tape

/-- What a key does to the tape of a session: a refused key leaves it as it is. -/
def after (key : Key) (s : Session) (tape : Tape) : Tape :=
  match s.press key with
  | .ok (evaluation?, _) => tape.record key s.entry evaluation?
  | .error _ => tape

end Tape

namespace Session

/-- Presses keys one after the other, from an empty entry and an empty display on. -/
def reached (settings : Settings) (keys : List Key) : Session :=
  keys.foldl (fun s key => s.pressed key) { settings := settings }

/-- Presses keys and records them, from some session and its tape on. -/
def tapeFrom : (keys : List Key) → Session → Tape → Tape
  | [], _, tape => tape
  | key :: keys, s, tape => tapeFrom keys (s.pressed key) (tape.after key s)

/-- The tape of the session that keys reach. -/
def tape (settings : Settings) (keys : List Key) : Tape :=
  tapeFrom keys { settings := settings } {}

/-- What every key keeps holds of the session that any keys reach and of its tape. -/
theorem reached_induction {P : Session → Tape → Prop} {settings : Settings}
    (hstart : P { settings := settings } {})
    (hkey : ∀ s tape key, P s tape → P (s.pressed key) (tape.after key s)) (keys : List Key) :
    P (reached settings keys) (tape settings keys) := by
  unfold reached tape
  generalize ({ settings := settings } : Session) = s at hstart
  generalize ({} : Tape) = tape at hstart
  induction keys generalizing s tape with
  | nil => exact hstart
  | cons key keys ih => exact ih _ _ (hkey s tape key hstart)

end Session

end InfixCalculator
