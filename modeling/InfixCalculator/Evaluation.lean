import InfixCalculator.Arithmetic
import InfixCalculator.Settings

/-!
# Evaluation of infix expressions

An expression is evaluated in one pass over its words, with a stack of operators
and a stack of operands.  A number is stacked.  Before an operator or an open
parenthesis is stacked, the operators above that weigh at least as much are
applied.  A closing parenthesis applies operators down to its opening one.  The
end of the expression applies all that is left, and the last value is the result.

The stack of operators starts with the mark `TokenKind.finish`, which weighs less
than anything that comes in, so that no reduction goes past it.  A malformed word
acts like the end of the expression: it applies all stacked operators, and then
evaluation goes on.

The steps are written over bare stacks, and `Fault` names what could go wrong with
those: an empty stack of operators, a kind without an operation on it, or an operation
that is left undefined.
-/

namespace InfixCalculator

/-- What could go wrong with the stacks. -/
inductive Fault where
  | emptyStack
  | noOperation (kind : TokenKind)
  | undefined (reason : Undefined)
deriving DecidableEq

/-- Why an expression is rejected. -/
inductive Rejection where
  | malformed (word : String)
  | tooLong (count limit : Nat)
  | fault (fault : Fault)
deriving DecidableEq

/-- The reason in words. -/
def Rejection.message : Rejection → String
  | malformed word => Token.malformedMessage word
  | tooLong count limit =>
    "Expression has " ++ Decimal.natText count ++ " tokens, limit is " ++ Decimal.natText limit
  | fault .emptyStack => "The stack of operators is empty"
  | fault (.noOperation kind) => "There is no operation for " ++ kind.name
  | fault (.undefined _) => "The operation is undefined"

/-- The value of an expression and what was reported on the way. -/
structure Evaluation where
  value : Float
  diagnostics : List Diagnostic

/-- Whether there was nothing to report. -/
def Evaluation.isClean (evaluation : Evaluation) : Bool :=
  evaluation.diagnostics.isEmpty

/-- Both stacks, the top first, and the diagnostics, the latest first. -/
structure Machine where
  operators : List TokenKind
  operands : List Float
  diagnostics : List Diagnostic

namespace Machine

/-- The machine before the first word. -/
def start : Machine :=
  ⟨[.finish], [], []⟩

/-- Adds a diagnostic. -/
def report (position : Nat) (anomaly : Anomaly) (m : Machine) : Machine :=
  { m with diagnostics := ⟨anomaly.kind, anomaly.message, position⟩ :: m.diagnostics }

/-- Adds a diagnostic if there is an anomaly. -/
def reportAny (position : Nat) (anomaly : Option Anomaly) (m : Machine) : Machine :=
  match anomaly with
  | none => m
  | some anomaly => m.report position anomaly

/-- Stacks an operand. -/
def push (value : Float) (m : Machine) : Machine :=
  { m with operands := value :: m.operands }

/-- Takes an operand off the stack, or zero if there is none. -/
def popOperand (position : Nat) (m : Machine) : Float × Machine :=
  match m.operands with
  | [] => (Double.ofIndex false 0, m.report position ⟨.missingOperand, "Missing operand"⟩)
  | value :: rest => (value, { m with operands := rest })

/-- Puts the value of an operator in the place of its operands. -/
def operate (position : Nat) (op : Operator) (m : Machine) : Except Fault Machine :=
  let (rhs, m) := m.popOperand position
  let (lhs, m) := m.popOperand position
  match op.compute lhs rhs with
  | .ok computed => .ok ((m.reportAny position computed.anomaly).push computed.value)
  | .error reason => .error (.undefined reason)

/-- Applies what was on top of the stack of operators. -/
def apply (position : Nat) (top : TokenKind) (m : Machine) : Except Fault Machine :=
  match top with
  | .openParen => .ok (m.report position ⟨.unbalancedParen, "Unbalanced parentheses"⟩)
  | .operator op => m.operate position op
  | kind => .error (.noOperation kind)

/-- Applies the top of a stack of operators as long as a condition on it holds. -/
def reduceWhile (holds : TokenKind → Bool) (position : Nat) :
    (operators : List TokenKind) → Machine → Except Fault Machine
  | [], _ => .error .emptyStack
  | top :: rest, m =>
    if holds top then
      match apply position top { m with operators := rest } with
      | .error fault => .error fault
      | .ok m => reduceWhile holds position rest m
    else .ok { m with operators := top :: rest }

/-- Applies all stacked operators that go before an incoming kind. -/
def reduceFor (position : Nat) (incoming : TokenKind) (m : Machine) : Except Fault Machine :=
  reduceWhile (incoming.appliesBefore ·) position m.operators m

/-- Whether a kind ends what a closing parenthesis applies. -/
def isBarrier (kind : TokenKind) : Bool :=
  kind = .openParen || kind = .finish

/-- Takes the opening parenthesis off the stack, or reports that there is none. -/
def closeGroup (position : Nat) (m : Machine) : Except Fault Machine :=
  match m.operators with
  | [] => .error .emptyStack
  | .openParen :: rest => .ok { m with operators := rest }
  | _ :: _ => .ok (m.report position ⟨.missingOpenParen, "Missing open parenthesis"⟩)

/-- Takes in one token. -/
def step (position : Nat) (token : Token) (m : Machine) : Except Fault Machine :=
  match token with
  | .number value => .ok (m.push value)
  | .closeParen => do
    let m ← reduceWhile (!isBarrier ·) position m.operators m
    m.closeGroup position
  | .finish => m.reduceFor position .finish
  | .openParen => do
    let m ← m.reduceFor position .openParen
    return { m with operators := .openParen :: m.operators }
  | .operator op => do
    let m ← m.reduceFor position (.operator op)
    return { m with operators := .operator op :: m.operators }

/-- Takes the result off the stack of operands. -/
def result (position : Nat) (m : Machine) : Float × Machine :=
  match m.operands with
  | [] => (Double.ofIndex false 0, m.report position ⟨.emptyResult, "Missing operand"⟩)
  | [value] => (value, { m with operands := [] })
  | value :: rest =>
    (value, report position ⟨.missingOperators, "Missing operators"⟩ { m with operands := rest })

/-- Takes in one word; a malformed one is reported and ends what came before, if it is allowed. -/
def takeWord (strict : Bool) (position : Nat) (word : String) (m : Machine) :
    Except Rejection Machine :=
  match Token.ofWord? word with
  | some token => (m.step position token).mapError .fault
  | none =>
    if strict then .error (.malformed word)
    else
      ((m.report position ⟨.malformedToken, Token.malformedMessage word⟩).step position
        .finish).mapError .fault

/-- Takes in words, the first of which has the position given. -/
def takeWords (strict : Bool) : (position : Nat) → List String → Machine →
    Except Rejection Machine
  | _, [], m => .ok m
  | position, word :: rest, m =>
    match m.takeWord strict position word with
    | .error rejection => .error rejection
    | .ok m => takeWords strict (position + 1) rest m

end Machine

/-- Evaluates the words of an expression. -/
def evaluateWords (strict : Bool) (words : List String) : Except Rejection Evaluation := do
  let m ← Machine.start.takeWords strict 0 words
  let m ← (m.step words.length .finish).mapError .fault
  let (value, m) := m.result words.length
  return ⟨value, m.diagnostics.reverse⟩

/-- Evaluates an expression, unless the settings reject it. -/
def evaluate (expression : String) (settings : Settings) : Except Rejection Evaluation :=
  let words := expressionWords expression
  match settings.maxTokens with
  | some limit =>
    if limit < words.length then .error (.tooLong words.length limit)
    else evaluateWords settings.strictTokens words
  | none => evaluateWords settings.strictTokens words

end InfixCalculator
