import InfixCalculator.Proofs.Decimal.Value
import InfixCalculator.Proofs.Evaluation.Reduction
import InfixCalculator.Proofs.Evaluation.Tokens

/-!
# The three kinds of words

```text
symbol      one of the seven       its token
number      derived by the         a number, the double that the literal
            literal grammar        is correctly rounded to
malformed   anything else          none; where only tokens are taken it
                                   is refused, and the refusal names it
```

A word is of one kind only (`words_typed`).  The two symbols that are also signs are no exception: a
sign alone is not a literal, since the grammar wants a size behind it.  The symbols are looked up first,
but nothing depends on that.
-/

namespace InfixCalculator

variable {word : String} {token : Token}

/-- The symbols and their tokens. -/
inductive IsSymbol : String → Token → Prop where
  | openParen : IsSymbol "(" .openParen
  | closeParen : IsSymbol ")" .closeParen
  | power : IsSymbol "^" (.operator .power)
  | multiply : IsSymbol "*" (.operator .multiply)
  | divide : IsSymbol "/" (.operator .divide)
  | add : IsSymbol "+" (.operator .add)
  | subtract : IsSymbol "-" (.operator .subtract)

/-- A word that the grammar derives, and the token of a double that it may be read as. -/
inductive IsNumeral : String → Token → Prop where
  | literal {word : String} {literal : Literal} {x : Float} (hspells : literal.Spells word.toList)
      (hx : literal.IsReadAs x) : IsNumeral word (.number x)

/-! ## Symbols and numerals -/

theorem ofSymbol?_eq_some_iff : Token.ofSymbol? word = some token ↔ IsSymbol word token := by
  constructor
  · intro h
    unfold Token.ofSymbol? at h
    split_ifs at h with hopen hclose hpower hmultiply hdivide hadd hsubtract
    all_goals obtain rfl := Option.some.inj h
    · exact hopen ▸ .openParen
    · exact hclose ▸ .closeParen
    · exact hpower ▸ .power
    · exact hmultiply ▸ .multiply
    · exact hdivide ▸ .divide
    · exact hadd ▸ .add
    · exact hsubtract ▸ .subtract
  · rintro (_ | _ | _ | _ | _ | _ | _) <;> rfl

theorem IsSymbol.isNumber_eq_false (h : IsSymbol word token) : isNumber word = false := by
  rw [isNumber, Token.ofChars?_of_ofSymbol? (ofSymbol?_eq_some_iff.2 h)]
  rfl

/-- Every number has a double that it is read as. -/
theorem isNumber_iff_isNumeral : isNumber word = true ↔ ∃ token, IsNumeral word token := by
  rw [Literal.isNumber_iff]
  constructor
  · rintro ⟨literal, hspells⟩
    exact ⟨_, .literal hspells hspells.toFloat_isReadAs⟩
  · rintro ⟨_, hspells, -⟩
    exact ⟨_, hspells⟩

/-! ## Words -/

theorem ofWord?_eq_some_iff :
    Token.ofWord? word = some token ↔ IsSymbol word token ∨ IsNumeral word token := by
  constructor
  · intro h
    unfold Token.ofWord? at h
    split at h
    · rename_i symbol hsymbol
      obtain rfl := Option.some.inj h
      exact .inl (ofSymbol?_eq_some_iff.1 hsymbol)
    · obtain ⟨literal, hliteral, rfl⟩ := Option.map_eq_some_iff.1 h
      have hspells := Literal.ofChars?_eq_some_iff.1 hliteral
      exact .inr (.literal hspells hspells.toFloat_isReadAs)
  · rintro (hsymbol | hnumeral)
    · rw [Token.ofWord?, ofSymbol?_eq_some_iff.2 hsymbol]
    · obtain ⟨hspells, hx⟩ := hnumeral
      rw [Token.ofWord?_of_ofChars? (Literal.ofChars?_eq_some_iff.2 hspells),
        hspells.isReadAs_iff.1 hx]

theorem ofWord?_eq_none_iff :
    Token.ofWord? word = none ↔ isNumber word = false ∧ ∀ token, ¬ IsSymbol word token := by
  constructor
  · intro h
    refine ⟨?_, fun token hsymbol => ?_⟩
    · by_contra hnumber
      obtain ⟨value, hvalue⟩ := Token.exists_number (Bool.eq_true_of_not_eq_false hnumber)
      rw [h] at hvalue
      cases hvalue
    · rw [ofWord?_eq_some_iff.2 (.inl hsymbol)] at h
      cases h
  · rintro ⟨hnumber, hsymbol⟩
    refine Option.eq_none_iff_forall_ne_some.2 fun token h => ?_
    rcases ofWord?_eq_some_iff.1 h with hsome | hnumeral
    · exact hsymbol token hsome
    · rw [isNumber_iff_isNumeral.2 ⟨token, hnumeral⟩] at hnumber
      cases hnumber

/-- A word that stands for a token is not refused; only its operation could fail. -/
theorem takeWord_true_eq_error_iff (position : Nat) (m : Machine) (refused : String) :
    m.takeWord true position word = .error (.malformed refused) ↔
      refused = word ∧ Token.ofWord? word = none := by
  cases hword : Token.ofWord? word with
  | none =>
      have hrefused : m.takeWord true position word = .error (.malformed word) := by
        rw [Machine.takeWord, hword, if_pos rfl]
      rw [hrefused]
      constructor
      · rintro ⟨⟩
        exact ⟨rfl, rfl⟩
      · rintro ⟨rfl, -⟩
        rfl
  | some token =>
      rw [Machine.takeWord_eq_step true hword]
      constructor
      · intro h
        cases hresult : m.step position token <;> rw [hresult] at h <;> cases h
      · rintro ⟨-, hnone⟩
        cases hnone

/-- **Every word is a symbol, a number or malformed**, and never two of these.  Numbers are the words
that the grammar derives, and they are read as the doubles they are correctly rounded to. -/
theorem words_typed (word : String) :
    (isNumber word = true ↔ ∃ literal, Literal.Spells literal word.toList) ∧
      (isNumber word = true ↔ ∃ token, IsNumeral word token) ∧
      (∀ token, Token.ofWord? word = some token ↔ IsSymbol word token ∨ IsNumeral word token) ∧
      (∀ token, IsSymbol word token → isNumber word = false) ∧
      ∀ position m refused,
        Machine.takeWord true position word m = .error (.malformed refused) ↔
          refused = word ∧ isNumber word = false ∧ ∀ token, ¬ IsSymbol word token := by
  refine ⟨Literal.isNumber_iff word, isNumber_iff_isNumeral, fun _ => ofWord?_eq_some_iff,
    fun _ hsymbol => hsymbol.isNumber_eq_false, fun position m refused => ?_⟩
  rw [takeWord_true_eq_error_iff, ofWord?_eq_none_iff]

/-- Digits may be missing on one side of the point, but not behind the mark of an exponent. -/
example : isNumber "-.5E+3" = true ∧ isNumber "5." = true ∧ isNumber "5e" = false := by decide

end InfixCalculator
