import InfixCalculator.Decimal.Literal
import InfixCalculator.Text.Blank
import InfixCalculator.Text.Quoted

/-!
# Tokens and their precedence

The words of an expression are typed one by one: seven of them are symbols, the
number literals are numbers, and any other word is malformed.  A further token,
`finish`, stands for the end of an expression; its kind also marks the bottom of
a stack of operators.

Every kind has two weights.  An incoming token has the operator on top of the stack
applied first as long as its own input weight is at most the stack weight of that
operator.  A left-associative operator therefore weighs one more on the stack than
coming in, a right-associative one less; an open parenthesis comes in above all
others and holds nothing back once it is stacked.
-/

namespace InfixCalculator

/-- The five binary operators. -/
inductive Operator where
  | power | multiply | divide | add | subtract
deriving DecidableEq

/-- What a token is, apart from the value of a number. -/
inductive TokenKind where
  | finish | value | openParen | closeParen
  | operator (op : Operator)
deriving DecidableEq

/-- A word of an expression, or its end. -/
inductive Token where
  | finish
  | number (value : Float)
  | openParen
  | closeParen
  | operator (op : Operator)

/-! ## Kinds -/

/-- The symbol that an operator is written with. -/
def Operator.symbol : Operator → String
  | .power => "^"
  | .multiply => "*"
  | .divide => "/"
  | .add => "+"
  | .subtract => "-"

namespace TokenKind

/-- The name of a kind, which is the symbol where there is one. -/
def name : TokenKind → String
  | finish => "end"
  | value => "value"
  | openParen => "("
  | closeParen => ")"
  | operator op => op.symbol

/-- All kinds. -/
def all : List TokenKind :=
  [finish, value, openParen, closeParen, operator .power, operator .multiply, operator .divide,
    operator .add, operator .subtract]

/-- The kind with a name. -/
def ofName? (name : String) : Option TokenKind :=
  all.find? fun kind => kind.name = name

/-- What is said of a name that no kind has. -/
def unknownNameMessage (name : String) : String :=
  Text.quote name ++ " is not a valid TokenKind"

/-- The weight of a kind that comes in. -/
def inputWeight : TokenKind → Int
  | finish => 0
  | value => 0
  | openParen => 100
  | closeParen => 0
  | operator .power => 6
  | operator .multiply => 3
  | operator .divide => 3
  | operator .add => 1
  | operator .subtract => 1

/-- The weight of a kind on top of the stack.  The mark at the bottom weighs less than anything
that comes in. -/
def stackWeight : TokenKind → Int
  | finish => -1
  | value => 0
  | openParen => 0
  | closeParen => 99
  | operator .power => 5
  | operator .multiply => 4
  | operator .divide => 4
  | operator .add => 2
  | operator .subtract => 2

/-- Whether the top of the stack is applied before the incoming kind is stacked. -/
def appliesBefore (incoming top : TokenKind) : Bool :=
  incoming.inputWeight ≤ top.stackWeight

end TokenKind

/-! ## Tokens -/

namespace Token

/-- The kind of a token. -/
def kind : Token → TokenKind
  | finish => .finish
  | number _ => .value
  | openParen => .openParen
  | closeParen => .closeParen
  | operator op => .operator op

/-- The value of a number, and zero for any other token. -/
def payload : Token → Float
  | number value => value
  | _ => Double.ofIndex false 0

/-- The token that a symbol stands for. -/
def ofSymbol? (word : String) : Option Token :=
  if word = "(" then some openParen
  else if word = ")" then some closeParen
  else if word = "^" then some (operator .power)
  else if word = "*" then some (operator .multiply)
  else if word = "/" then some (operator .divide)
  else if word = "+" then some (operator .add)
  else if word = "-" then some (operator .subtract)
  else none

/-- The token of a word; `none` if the word is malformed. -/
def ofWord? (word : String) : Option Token :=
  match ofSymbol? word with
  | some token => some token
  | none => (Literal.ofChars? word.toList).map fun literal => number literal.toFloat

/-- What is said of a malformed word. -/
def malformedMessage (word : String) : String :=
  "Error occurred when parsing supposed VALUE token: " ++ word

end Token

/-- The words of an expression. -/
def expressionWords (expression : String) : List String :=
  (Text.words expression.toList).map String.ofList

end InfixCalculator
