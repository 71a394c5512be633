/-!
# Settings of an evaluation

By default a malformed word is reported and evaluation goes on, and an expression
may have any number of words.
-/

namespace InfixCalculator

/-- How an expression is evaluated. -/
structure Settings where
  /-- Whether a malformed word rejects the expression. -/
  strictTokens : Bool := false
  /-- The greatest number of words that is accepted, if there is a limit. -/
  maxTokens : Option Nat := none
deriving DecidableEq

end InfixCalculator
