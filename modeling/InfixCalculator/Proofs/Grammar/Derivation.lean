import InfixCalculator.Proofs.Evaluation.Reduction
import InfixCalculator.Proofs.Evaluation.Tokens

/-!
# The grammar of expressions

The words of an expression are those of the grammar

```text
sum      ::=  product  |  sum + product  |  sum - product
product  ::=  power    |  product * power  |  product / power
power    ::=  atom     |  atom ^ power
atom     ::=  number   |  ( sum )
```

so that a sum is a product followed by any number of signs and products, and so on:
`+`, `-`, `*` and `/` associate to the left and `^` to the right.  The rows with an
operator are one constructor of `Derivation`, which reads the level of an operator and
those of its operands off a table.

A derivation has its words, its value and its reports.  The reports are those of its
operators, first all of the left operand, then all of the right one, and then its own;
their position is the index of the word that follows the operator's own span.
-/

namespace InfixCalculator

/-- A number literal with what it denotes. -/
structure Numeral where
  word : String
  literal : Literal
  reads : Literal.ofChars? word.toList = some literal

/-- The numeral that a word is. -/
def Numeral.ofWord (word : String) (h : (Literal.ofChars? word.toList).isSome = true) : Numeral :=
  ⟨word, (Literal.ofChars? word.toList).get h, by simp⟩

def Numeral.value (n : Numeral) : Float :=
  n.literal.toFloat

/-- The nonterminals of the grammar. -/
inductive Level where
  | sum | product | power | atom

namespace Operator

/-- The level of an operator with its operands. -/
def level : Operator → Level
  | power => .power
  | multiply => .product
  | divide => .product
  | add => .sum
  | subtract => .sum

/-- The level of the left operand. -/
def leftLevel : Operator → Level
  | power => .atom
  | multiply => .product
  | divide => .product
  | add => .sum
  | subtract => .sum

/-- The level of the right operand. -/
def rightLevel : Operator → Level
  | power => .power
  | multiply => .power
  | divide => .power
  | add => .product
  | subtract => .product

end Operator

/-- The derivations of the grammar. -/
inductive Derivation : Level → Type where
  | number (numeral : Numeral) : Derivation .atom
  | group (inner : Derivation .sum) : Derivation .atom
  | atom (inner : Derivation .atom) : Derivation .power
  | power (inner : Derivation .power) : Derivation .product
  | product (inner : Derivation .product) : Derivation .sum
  | binary (op : Operator) (lhs : Derivation op.leftLevel) (rhs : Derivation op.rightLevel) :
      Derivation op.level

namespace Derivation

variable {level : Level}

/-- The words of an expression. -/
def words {level : Level} : Derivation level → List String
  | number numeral => [numeral.word]
  | group inner => "(" :: inner.words ++ [")"]
  | atom inner => inner.words
  | power inner => inner.words
  | product inner => inner.words
  | binary op lhs rhs => lhs.words ++ op.symbol :: rhs.words

/-- The tokens that the words stand for. -/
def tokens {level : Level} : Derivation level → List Token
  | number numeral => [.number numeral.value]
  | group inner => .openParen :: inner.tokens ++ [.closeParen]
  | atom inner => inner.tokens
  | power inner => inner.tokens
  | product inner => inner.tokens
  | binary op lhs rhs => lhs.tokens ++ .operator op :: rhs.tokens

/-- The value of an expression. -/
def value {level : Level} : Derivation level → Float
  | number numeral => numeral.value
  | group inner => inner.value
  | atom inner => inner.value
  | power inner => inner.value
  | product inner => inner.value
  | binary op lhs rhs => (op.computed lhs.value rhs.value).value

/-- What an operator reports at a position. -/
def report (position : Nat) (op : Operator) (lhs rhs : Float) : List Diagnostic :=
  (op.computed lhs rhs).anomaly.toList.map fun anomaly => ⟨anomaly.kind, anomaly.message, position⟩

/-- The reports of an expression whose first word has an index. -/
def reports {level : Level} (first : Nat) : Derivation level → List Diagnostic
  | number _ => []
  | group inner => inner.reports (first + 1)
  | atom inner => inner.reports first
  | power inner => inner.reports first
  | product inner => inner.reports first
  | binary op lhs rhs =>
    lhs.reports first ++ rhs.reports (first + lhs.words.length + 1) ++
      report (first + (lhs.words ++ op.symbol :: rhs.words).length) op lhs.value rhs.value

theorem map_ofWord?_words (d : Derivation level) :
    d.words.map Token.ofWord? = d.tokens.map some := by
  induction d with
  | number numeral => simp [words, tokens, Token.ofWord?_of_ofChars? numeral.reads, Numeral.value]
  | group inner ih =>
      simp [words, tokens, ih, Token.ofWord?_openParen, Token.ofWord?_closeParen]
  | atom inner ih => exact ih
  | power inner ih => exact ih
  | product inner ih => exact ih
  | binary op lhs rhs ihl ihr => simp [words, tokens, ihl, ihr, Token.ofWord?_symbol]

theorem length_tokens (d : Derivation level) : d.tokens.length = d.words.length := by
  simpa using (congrArg List.length d.map_ofWord?_words).symm

theorem kind_of_mem_report {position : Nat} {op : Operator} {lhs rhs : Float}
    {diagnostic : Diagnostic} (hmem : diagnostic ∈ report position op lhs rhs) :
    diagnostic.kind = .divisionByZero ∨ diagnostic.kind = .invalidPower := by
  obtain ⟨anomaly, hanomaly, rfl⟩ := List.mem_map.1 hmem
  exact Operator.kind_of_computed (Option.mem_toList.1 hanomaly)

theorem kind_of_mem_reports (d : Derivation level) :
    ∀ first, ∀ diagnostic ∈ d.reports first,
      diagnostic.kind = .divisionByZero ∨ diagnostic.kind = .invalidPower := by
  induction d with
  | number numeral =>
      intro first diagnostic hmem
      cases hmem
  | group inner ih => exact fun first => ih (first + 1)
  | atom inner ih => exact ih
  | power inner ih => exact ih
  | product inner ih => exact ih
  | binary op lhs rhs ihl ihr =>
      intro first diagnostic hmem
      simp only [reports, List.mem_append] at hmem
      rcases hmem with (hlhs | hrhs) | hown
      · exact ihl _ diagnostic hlhs
      · exact ihr _ diagnostic hrhs
      · exact kind_of_mem_report hown

end Derivation

end InfixCalculator
