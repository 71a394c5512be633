import InfixCalculator.Proofs.Batch.Rejection
import InfixCalculator.Proofs.Decimal.Sign
import InfixCalculator.Proofs.Evaluation.Alternation
import InfixCalculator.Proofs.Keypad.Refinement

/-!
# Why a key is refused

A key is refused because the entry does not fit the expression, and for no other reason as long as
it is a key of the keypad; only `equals` may also find the expression too long.  This is so because
operands and operators alternate on every tape: after a closing parenthesis an operator is due, and
after any other symbol, or at the start, an operand.  Every key that places something checks for
this, and `equals` asks for an operand at the end.  So what it evaluates has no malformed word, an
operand on either side of every operator and none to spare (`exists_evaluateTokens`).

The two failures that a key could have besides are out of reach: a display that ends like a shown
result is one, and a number without a minus sign has a square root.
-/

namespace InfixCalculator

/-- The keys that a keypad has: ten digits, five operators and the keys without a label. -/
def Key.IsValid : Key → Prop
  | .digit label => label ∈ ["0", "1", "2", "3", "4", "5", "6", "7", "8", "9"]
  | .operator label => label ∈ ["+", "-", "*", "/", "^"]
  | _ => True

/-- What is due behind a tape. -/
def Tape.due (tape : Tape) : Due :=
  match tape.tokens.getLast? with
  | some .closeParen => .operator
  | _ => .operand

/-- Operands and operators alternate on a tape. -/
def Tape.InTurn (tape : Tape) : Prop :=
  Due.operand.after? tape.tokens = some tape.due

variable {s next : Session} {tape : Tape} {key : Key} {token : Token}

/-! ## The last symbol -/

/-- An operator is due behind a closing parenthesis and nowhere else. -/
theorem Shows.due_eq_operator {display : List Char} (h : Shows display tape) :
    tape.due = .operator ↔ lastSymbol? display = some ')' := by
  cases h with
  | empty => decide
  | result value =>
      rw [lastSymbol?_resultDisplay]
      simp [Tape.due]
  | @symbol earlier front c tokens token hearlier hfront htoken =>
      rw [lastSymbol?_append]
      by_cases hclose : c = ')'
      · subst hclose
        obtain rfl : Token.closeParen = token := Option.some.inj htoken
        simp [Tape.due]
      by_cases hopen : c = '('
      · subst hopen
        obtain rfl : Token.openParen = token := Option.some.inj htoken
        simp [Tape.due]
      · obtain ⟨op, rfl⟩ := exists_operator htoken hclose hopen
        simp [Tape.due, hclose]

theorem Shows.due_eq_operand {display : List Char} (h : Shows display tape)
    (hlast : lastSymbol? display ≠ some ')') : tape.due = .operand := by
  cases hdue : tape.due with
  | operand => rfl
  | operator => exact absurd (h.due_eq_operator.1 hdue) hlast

/-! ## Operands and operators in turn -/

/-- Behind an operand an operator or a closing parenthesis may be placed. -/
theorem Tape.inTurn_concat {tokens : List Token}
    (htokens : Due.operand.after? tokens = some .operator)
    (htoken : token = .closeParen ∨ ∃ op, token = .operator op) :
    Tape.InTurn ⟨tokens ++ [token], none⟩ := by
  unfold Tape.InTurn
  rw [Due.after?_concat, htokens]
  rcases htoken with rfl | ⟨op, rfl⟩ <;> simp [Tape.due, Due.next?]

theorem Tape.InTurn.placed (hturn : tape.InTurn) (h : Shows s.display tape) {symbol : List Char}
    (htoken : token = .closeParen ∨ ∃ op, token = .operator op) (hplaces : s.Places symbol next) :
    (tape.placed token s.entry).InTurn := by
  cases hplaces with
  | result hentry hlast =>
      obtain ⟨value, -, rfl⟩ := h.eq_result hlast
      rw [Tape.placed, if_pos hentry]
      exact Tape.inTurn_concat rfl htoken
  | group hentry hlast =>
      obtain ⟨earlier, front, tokens, -, -, -, rfl⟩ := h.eq_group hlast
      rw [Tape.placed, if_pos hentry]
      refine Tape.inTurn_concat ?_ htoken
      simpa [Tape.InTurn, Tape.continued, Tape.due] using hturn
  | replaced hentry hne hlast =>
      -- the operator that is dropped came behind an operand
      obtain ⟨earlier, front, c, tokens, op, -, -, -, rfl⟩ := h.eq_operator hne hlast
      rw [Tape.placed, if_pos hentry, Tape.continued_of_operator]
      refine Tape.inTurn_concat ?_ htoken
      unfold Tape.InTurn at hturn
      rw [Due.after?_concat] at hturn
      obtain ⟨due, hdue, hnext⟩ := Option.bind_eq_some_iff.1 hturn
      cases due with
      | operand => cases hnext
      | operator => exact hdue
  | entry hlast hentry hread =>
      rw [Tape.placed, if_neg hentry, enteredTokens_literal hread]
      refine Tape.inTurn_concat ?_ htoken
      rw [Due.after?_concat, hturn, h.due_eq_operand hlast]
      rfl

/-- An accepted key keeps operands and operators in turn. -/
theorem Tape.InTurn.accepted (hturn : tape.InTurn) (h : Shows s.display tape)
    {evaluation? : Option Evaluation} (haccepts : s.Accepts key evaluation? next) :
    (tape.record key s.entry evaluation?).InTurn := by
  cases haccepts with
  | edit hkey entry =>
      rw [Tape.record_of_editsEntry hkey]
      exact hturn
  | operator hkey hplaces =>
      obtain ⟨c, op, rfl, hsymbol⟩ := exists_operator_of_key hkey
      rw [Tape.record_operator hsymbol]
      exact hturn.placed h (.inr ⟨op, rfl⟩) hplaces
  | openParen hentry hlast =>
      unfold Tape.InTurn
      rw [Tape.record, Due.after?_concat, hturn, h.due_eq_operand hlast]
      simp [Tape.due, Due.next?]
  | closeEntry hentry hplaces =>
      rw [Tape.record, if_neg hentry]
      exact hturn.placed h (.inl rfl) hplaces
  | closeGroup hentry hlast =>
      rw [Tape.record, if_pos hentry]
      refine Tape.inTurn_concat ?_ (.inl rfl)
      rw [hturn, h.due_eq_operator.2 hlast]
  | clearAll => rfl
  | equals => rfl

theorem reached_inTurn (settings : Settings) (keys : List Key) :
    (Session.tape settings keys).InTurn := by
  refine (Session.reached_of_accepts (P := fun s tape => Shows s.display tape ∧ tape.InTurn)
    ⟨.empty, rfl⟩ ?_ keys).2
  intro s tape key evaluation? next h haccepts
  obtain ⟨hshows, hturn⟩ := h
  exact ⟨hshows.accepted haccepts, hturn.accepted hshows haccepts⟩

/-! ## Evaluating a complete expression -/

theorem Tape.InTurn.complete (hturn : tape.InTurn) (h : Shows s.display tape)
    (hcomplete : s.IsComplete) :
    Due.operand.after? (tape.tokens ++ enteredTokens s.entry) = some .operator := by
  unfold Session.IsComplete at hcomplete
  split_ifs at hcomplete with hlast
  · rw [hcomplete, enteredTokens, Literal.ofChars?_nil, List.append_nil, hturn,
      h.due_eq_operator.2 hlast]
  · obtain ⟨literal, hread⟩ := Option.isSome_iff_exists.1 hcomplete
    rw [enteredTokens_literal hread, Due.after?_concat, hturn, h.due_eq_operand hlast]
    rfl

/-- A complete expression has a value and reports nothing but unmatched parentheses and undefined
operations, unless it is too long. -/
theorem Tape.InTurn.evaluated (hturn : tape.InTurn) (h : Shows s.display tape)
    (hcomplete : s.IsComplete) :
    (∃ evaluation, evaluate (String.ofList s.expression) s.settings = .ok evaluation ∧
        ∀ diagnostic ∈ evaluation.diagnostics, diagnostic.kind ∈ DiagnosticKind.inTurn) ∨
      ∃ count limit, s.settings.maxTokens = some limit ∧
        evaluate (String.ofList s.expression) s.settings = .error (.tooLong count limit) := by
  by_cases hbound : s.settings.IsExceededBy (expressionWords (String.ofList s.expression))
  · obtain ⟨limit, hlimit, hexceeded⟩ := hbound
    exact .inr ⟨_, limit, hlimit, evaluate_of_exceeded hlimit hexceeded⟩
  · obtain ⟨evaluation, heq, hkinds⟩ := exists_evaluateTokens (hturn.complete h hcomplete)
    refine .inl ⟨evaluation, ?_, hkinds⟩
    rw [evaluate_of_not_exceeded hbound, evaluateWords_eq_evaluateTokens s.settings.strictTokens
      (h.tokensOf_expression hcomplete.entry_cases), heq]
    rfl

/-! ## Refused keys -/

variable {refusal : Refusal}

theorem Shows.place_error (h : Shows s.display tape) {symbol : List Char}
    (hplace : s.place symbol = .error refusal) : ∃ flaw, refusal = .entry flaw := by
  simp only [Session.place] at hplace
  split_ifs at hplace with hfirst hresult hclose hvalue hreplace hread
  · cases hplace
    exact ⟨_, rfl⟩
  · have hlast : lastSymbol? s.display = some ' ' := by
      simpa using (Bool.and_eq_true_iff.1 hresult).2
    obtain ⟨value, hdisplay, -⟩ := h.eq_result hlast
    rw [hdisplay, shownResult?_resultDisplay] at hplace
    cases hplace
  · cases hplace
    exact ⟨_, rfl⟩
  · cases hplace
    exact ⟨_, rfl⟩

namespace Session

theorem pressDigit_of_isValid {label : String} (h : (Key.digit label).IsValid) :
    ∃ next, s.pressDigit label = .ok next := by
  simp only [Key.IsValid, List.mem_cons, List.not_mem_nil, or_false] at h
  rcases h with rfl | rfl | rfl | rfl | rfl | rfl | rfl | rfl | rfl | rfl <;> exact ⟨_, rfl⟩

theorem negate_error (h : s.negate = .error refusal) : ∃ flaw, refusal = .entry flaw := by
  unfold negate at h
  split_ifs at h
  cases h
  exact ⟨_, rfl⟩

theorem squareRoot_error (h : s.squareRoot = .error refusal) : ∃ flaw, refusal = .entry flaw := by
  unfold squareRoot at h
  split_ifs at h with hnil hminus
  · cases h
    exact ⟨_, rfl⟩
  · cases h
    exact ⟨_, rfl⟩
  · cases hread : Literal.ofChars? s.entry with
    | none =>
        rw [hread] at h
        cases h
        exact ⟨_, rfl⟩
    | some literal =>
        have hroot := Literal.realRoot_toFloat hread (by simpa using hminus)
        simp only [hread, hroot] at h
        cases h

theorem delete_error (h : s.delete = .error refusal) : ∃ flaw, refusal = .entry flaw := by
  unfold delete at h
  split_ifs at h
  cases h
  exact ⟨_, rfl⟩

theorem openParen_error (h : s.openParen = .error refusal) : ∃ flaw, refusal = .entry flaw := by
  unfold openParen at h
  split_ifs at h <;> cases h <;> exact ⟨_, rfl⟩

end Session

theorem Shows.closeParen_error (h : Shows s.display tape) (hclose : s.closeParen = .error refusal) :
    ∃ flaw, refusal = .entry flaw := by
  unfold Session.closeParen at hclose
  split_ifs at hclose
  · exact h.place_error hclose
  · cases hclose
    exact ⟨_, rfl⟩
  · cases hclose
    exact ⟨_, rfl⟩

/-- A key of the keypad other than `equals` is refused for the entry. -/
theorem Shows.press_error (h : Shows s.display tape) (hkey : key.IsValid) (hequals : key ≠ .equals)
    (hpress : s.press key = .error refusal) : ∃ flaw, refusal = .entry flaw := by
  cases key with
  | digit label =>
      obtain ⟨_, hdigit⟩ := Session.pressDigit_of_isValid (s := s) hkey
      rw [Session.press, hdigit] at hpress
      cases hpress
  | operator label =>
      have hoperator := map_eq_error.1 hpress
      have hlabel : Session.operatorKeys.contains label = true := List.contains_iff_mem.2 hkey
      rw [Session.pressOperator, if_pos hlabel] at hoperator
      exact h.place_error hoperator
  | decimal => cases hpress
  | openParen => exact Session.openParen_error (map_eq_error.1 hpress)
  | closeParen => exact h.closeParen_error (map_eq_error.1 hpress)
  | negate => exact Session.negate_error (map_eq_error.1 hpress)
  | squareRoot => exact Session.squareRoot_error (map_eq_error.1 hpress)
  | delete => exact Session.delete_error (map_eq_error.1 hpress)
  | clearEntry => cases hpress
  | clearAll => cases hpress
  | equals => exact absurd rfl hequals

/-- `equals` shows the value of a complete expression that is not too long, and refuses any other
with the reason. -/
theorem Tape.InTurn.press_equals (hturn : tape.InTurn) (h : Shows s.display tape) :
    (∃ evaluation next, s.press .equals = .ok (some evaluation, next) ∧
        ∀ diagnostic ∈ evaluation.diagnostics, diagnostic.kind ∈ DiagnosticKind.inTurn) ∨
      (∃ flaw, s.press .equals = .error (.entry flaw)) ∨
      ∃ count limit, s.settings.maxTokens = some limit ∧
        s.press .equals = .error (.rejected (.tooLong count limit)) := by
  by_cases hcomplete : s.IsComplete
  · rcases hturn.evaluated h hcomplete with
      ⟨evaluation, heq, hkinds⟩ | ⟨count, limit, hlimit, heq⟩
    · obtain ⟨next, hpress⟩ := Session.press_equals_of_ok hcomplete heq
      exact .inl ⟨evaluation, next, hpress, hkinds⟩
    · exact .inr (.inr ⟨count, limit, hlimit, Session.press_equals_of_error hcomplete heq⟩)
  · exact .inr (.inl (Session.press_equals_of_not_isComplete hcomplete))

/-- **Every key of the keypad works or is refused for the entry**, after any keys.  Only `equals` may
also be refused because the expression is too long, and when it shows a value it reports nothing but
unmatched parentheses and undefined operations. -/
theorem reached_press (settings : Settings) (keys : List Key) (hkey : key.IsValid) :
    (∃ evaluation? next, (Session.reached settings keys).press key = .ok (evaluation?, next) ∧
        (key = .equals → ∃ evaluation, evaluation? = some evaluation ∧
          ∀ diagnostic ∈ evaluation.diagnostics, diagnostic.kind ∈ DiagnosticKind.inTurn)) ∨
      (∃ flaw, (Session.reached settings keys).press key = .error (.entry flaw)) ∨
      (key = .equals ∧ ∃ count limit, settings.maxTokens = some limit ∧
        (Session.reached settings keys).press key = .error (.rejected (.tooLong count limit))) := by
  have hshows := reached_shows settings keys
  by_cases hequals : key = .equals
  · subst hequals
    rcases (reached_inTurn settings keys).press_equals hshows with
      ⟨evaluation, next, hpress, hkinds⟩ | hflaw | ⟨count, limit, hlimit, hpress⟩
    · exact .inl ⟨_, next, hpress, fun _ => ⟨evaluation, rfl, hkinds⟩⟩
    · exact .inr (.inl hflaw)
    · rw [Session.reached_settings] at hlimit
      exact .inr (.inr ⟨rfl, count, limit, hlimit, hpress⟩)
  · cases hpress : (Session.reached settings keys).press key with
    | ok result => exact .inl ⟨_, _, rfl, fun h => absurd h hequals⟩
    | error refusal =>
        obtain ⟨flaw, rfl⟩ := hshows.press_error hkey hequals hpress
        exact .inr (.inl ⟨flaw, rfl⟩)

/-- A quotient by zero in a group that is closed twice has a value. -/
theorem press_closedTwice :
    let keys : List Key := [.openParen, .digit "1", .operator "/", .digit "0", .closeParen,
      .closeParen]
    Key.equals.IsValid ∧ ∃ evaluation next,
      (Session.reached { strictTokens := true } keys).press .equals = .ok (some evaluation, next) ∧
        ∀ diagnostic ∈ evaluation.diagnostics, diagnostic.kind ∈ DiagnosticKind.inTurn := by
  intro keys
  have hcomplete : (Session.reached { strictTokens := true } keys).IsComplete := by
    decide +kernel
  have hkey : Key.equals.IsValid := trivial
  refine ⟨hkey, ?_⟩
  rcases reached_press { strictTokens := true } keys hkey with
    ⟨_, next, hpress, hshown⟩ | ⟨flaw, hpress⟩ | ⟨_, count, limit, hlimit, _⟩
  · obtain ⟨evaluation, rfl, hkinds⟩ := hshown rfl
    exact ⟨evaluation, next, hpress, hkinds⟩
  · exact absurd hpress (Session.isComplete_iff.1 hcomplete flaw)
  · cases hlimit

end InfixCalculator
