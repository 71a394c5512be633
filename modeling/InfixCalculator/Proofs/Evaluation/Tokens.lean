import InfixCalculator.Evaluation
import InfixCalculator.Proofs.Decimal.LiteralText
import Mathlib.Tactic.SplitIfs

/-!
# Evaluation of tokens

A number literal stands for its number and a symbol for itself, so that an expression
without malformed words is a list of tokens.  `evaluateTokens` runs the
machine on such a list; strictness plays no part, and nothing but a fault could stop it.
`evaluate_eq_evaluateTokens` says that this is all that `evaluate` does on a text whose
words stand for the tokens, as long as the text is not too long.
-/

namespace InfixCalculator

/-! ## Words that stand for tokens -/

namespace Token

theorem ofChars?_of_ofSymbol? {word : String} {token : Token} (h : ofSymbol? word = some token) :
    Literal.ofChars? word.toList = none := by
  unfold ofSymbol? at h
  split_ifs at h <;> subst_vars <;> decide

/-- A literal stands for its number. -/
theorem ofWord?_of_ofChars? {word : String} {literal : Literal}
    (h : Literal.ofChars? word.toList = some literal) :
    ofWord? word = some (.number literal.toFloat) := by
  unfold ofWord?
  cases hsymbol : ofSymbol? word with
  | some token => rw [ofChars?_of_ofSymbol? hsymbol] at h; cases h
  | none => simp [h]

theorem exists_number {word : String} (h : isNumber word = true) :
    ∃ value, ofWord? word = some (.number value) := by
  obtain ⟨literal, hliteral⟩ := Option.isSome_iff_exists.1 h
  exact ⟨_, ofWord?_of_ofChars? hliteral⟩

theorem ofWord?_symbol (op : Operator) : ofWord? op.symbol = some (.operator op) := by
  cases op <;> rfl

theorem ofWord?_openParen : ofWord? "(" = some .openParen := rfl

theorem ofWord?_closeParen : ofWord? ")" = some .closeParen := rfl

end Token

/-! ## Runs -/

namespace Machine

/-- Takes in tokens, the first of which has the position given. -/
def takeTokens : (position : Nat) → List Token → Machine → Except Fault Machine
  | _, [], m => .ok m
  | position, token :: rest, m =>
    match m.step position token with
    | .error fault => .error fault
    | .ok m => takeTokens (position + 1) rest m

variable {position : Nat} {m : Machine}

theorem takeTokens_cons {token : Token} {next : Machine} (rest : List Token)
    (hstep : m.step position token = .ok next) :
    m.takeTokens position (token :: rest) = next.takeTokens (position + 1) rest := by
  rw [takeTokens, hstep]

theorem takeTokens_append {first : List Token} {middle : Machine} (second : List Token)
    (hfirst : m.takeTokens position first = .ok middle) :
    m.takeTokens position (first ++ second) =
      middle.takeTokens (position + first.length) second := by
  induction first generalizing m position with
  | nil =>
      obtain rfl : m = middle := Except.ok.inj hfirst
      rfl
  | cons token first ih =>
      cases hstep : m.step position token with
      | error fault =>
          rw [takeTokens, hstep] at hfirst
          cases hfirst
      | ok next =>
          rw [takeTokens_cons first hstep] at hfirst
          rw [List.cons_append, takeTokens_cons _ hstep, ih hfirst, List.length_cons,
            Nat.add_assoc, Nat.add_comm 1]

/-- Words that stand for tokens are taken in as these. -/
theorem takeWords_eq_takeTokens (strict : Bool) {words : List String} {tokens : List Token}
    (hwords : words.map Token.ofWord? = tokens.map some) :
    m.takeWords strict position words = (m.takeTokens position tokens).mapError .fault := by
  induction words generalizing tokens m position with
  | nil =>
      obtain rfl : tokens = [] := List.map_eq_nil_iff.1 hwords.symm
      rfl
  | cons word words ih =>
      cases tokens with
      | nil => simp at hwords
      | cons token tokens =>
          simp only [List.map_cons, List.cons.injEq] at hwords
          have htake : m.takeWord strict position word =
              (m.step position token).mapError .fault := by
            simp only [takeWord, hwords.1]
          rw [takeWords, takeTokens, htake]
          cases m.step position token with
          | error fault => rfl
          | ok next => exact ih hwords.2

end Machine

/-- Evaluates tokens. -/
def evaluateTokens (tokens : List Token) : Except Fault Evaluation := do
  let m ← Machine.start.takeTokens 0 tokens
  let m ← m.step tokens.length .finish
  let (value, m) := m.result tokens.length
  return ⟨value, m.diagnostics.reverse⟩

theorem evaluateWords_eq_evaluateTokens (strict : Bool) {words : List String}
    {tokens : List Token} (hwords : words.map Token.ofWord? = tokens.map some) :
    evaluateWords strict words = (evaluateTokens tokens).mapError .fault := by
  have hlength : words.length = tokens.length := by
    simpa using congrArg List.length hwords
  simp only [evaluateWords, evaluateTokens, hlength, Machine.takeWords_eq_takeTokens strict hwords]
  cases Machine.start.takeTokens 0 tokens with
  | error fault => rfl
  | ok m =>
      simp only [bind, Except.bind, Except.mapError]
      cases m.step tokens.length .finish <;> rfl

/-- An expression of tokens is evaluated as these, unless it is too long. -/
theorem evaluate_eq_evaluateTokens {expression : String} {settings : Settings}
    {tokens : List Token}
    (hwords : (expressionWords expression).map Token.ofWord? = tokens.map some)
    (hlimit : ∀ limit ∈ settings.maxTokens, tokens.length ≤ limit) :
    evaluate expression settings = (evaluateTokens tokens).mapError .fault := by
  have hlength : (expressionWords expression).length = tokens.length := by
    simpa using congrArg List.length hwords
  rw [← evaluateWords_eq_evaluateTokens settings.strictTokens hwords]
  unfold evaluate
  cases hmax : settings.maxTokens with
  | none => rfl
  | some limit => simp only [if_neg (Nat.not_lt.2 (hlength ▸ hlimit limit hmax))]

end InfixCalculator
