import InfixCalculator.Proofs.Keypad.Display
import InfixCalculator.Proofs.Keypad.Press

/-!
# The display refines the tape

Every key that is accepted keeps `Shows`: what the display says after the key is what the tape
records of it.  So after any keys the words behind the last marker are the tokens of the tape,
and `equals` evaluates these and the number of the entry (`reached_refines_tape`).
-/

namespace InfixCalculator

variable {s next : Session} {tape : Tape}

theorem enteredTokens_literal {entry : List Char} {literal : Literal}
    (h : Literal.ofChars? entry = some literal) :
    enteredTokens entry = [.number literal.toFloat] := by
  rw [enteredTokens, h]

/-! ## Placing a symbol -/

theorem idxOf?_marker {text : List Char} (hmarker : resultMarker ∉ text) (rest : List Char) :
    (text ++ resultMarker :: rest).idxOf? resultMarker = some text.length := by
  induction text with
  | nil => simp [List.idxOf?_cons]
  | cons c text ih =>
      obtain ⟨hc, htext⟩ := not_or.1 (fun h => hmarker (List.mem_cons.2 h))
      have hne : (c == resultMarker) = false := by simpa using Ne.symm hc
      rw [List.cons_append, List.idxOf?_cons, hne, ih htext]
      rfl

/-- The value shown is what was written. -/
theorem shownResult?_resultDisplay (value : Float) :
    Session.shownResult? (Session.resultDisplay value)
      = some (Decimal.literalText value).toList := by
  obtain ⟨literal, hread, -⟩ := Decimal.literalText_reads value
  have hmarker : resultMarker ∉ (Decimal.literalText value).toList ++ [' ', ' '] := by
    rw [List.mem_append, not_or]
    exact ⟨Literal.not_mem_of_ofChars? hread (by decide), by decide⟩
  unfold Session.resultDisplay
  generalize (Decimal.literalText value).toList = text at hmarker
  have hsplit : text ++ [' ', ' ', resultMarker, ' ', ' ']
      = text ++ [' ', ' '] ++ resultMarker :: [' ', ' '] := by simp
  have hposition : (text ++ [' ', ' ', resultMarker, ' ', ' ']).idxOf? resultMarker
      = some (text.length + 2) := by
    rw [hsplit, idxOf?_marker hmarker, List.length_append]
    rfl
  unfold Session.shownResult?
  rw [hposition]
  exact congrArg some List.take_left

theorem dropEnd_append (front last : List Char) :
    Session.dropEnd last.length (front ++ last) = front := by
  simp [Session.dropEnd]

/-! ## Placing keeps the display on the tape -/

/-- A display that is extended by a text that reads on, and by a symbol. -/
theorem Shows.extend {display : List Char} (h : Shows display tape) (more : List Char)
    {tokens : List Token} {c : Char} {token : Token}
    (hmore : ∀ front, Reads front tape.tokens → Reads (front ++ more) tokens)
    (htoken : Token.ofSymbol? (String.ofList [c]) = some token) :
    Shows (display ++ more ++ [c, ' ']) ⟨tokens ++ [token], none⟩ := by
  obtain ⟨earlier, front, rfl, hearlier, hfront⟩ := h.reads
  rw [List.append_assoc earlier]
  exact .symbol hearlier (hmore front hfront) htoken

theorem Tape.continued_of_operator {tokens : List Token} {op : Operator} :
    Tape.continued ⟨tokens ++ [.operator op], none⟩ = tokens := by
  simp [Tape.continued]

/-- A symbol that is placed goes on the tape. -/
theorem Shows.placed (h : Shows s.display tape) {c : Char} {token : Token}
    (htoken : Token.ofSymbol? (String.ofList [c]) = some token) (hplaces : s.Places [c] next) :
    Shows next.display (tape.placed token s.entry) := by
  cases hplaces with
  | result hentry hlast hvalue =>
      -- the value shown becomes the first word of the next expression
      obtain ⟨value, hdisplay, rfl⟩ := h.eq_result hlast
      rw [hdisplay, shownResult?_resultDisplay] at hvalue
      obtain rfl := Option.some.inj hvalue
      obtain ⟨literal, hread, hliteral⟩ := Decimal.literalText_reads value
      have hfront := Reads.nil.append_literal hread
      rw [hliteral] at hfront
      rw [Tape.placed, if_pos hentry]
      simpa [Tape.continued] using Shows.symbol (.inl rfl) hfront htoken
  | group hentry hlast =>
      -- two blanks follow the parenthesis, which makes no word
      obtain ⟨earlier, front, tokens, hearlier, hfront, hdisplay, rfl⟩ := h.eq_group hlast
      have hgroup := (hfront.append_symbol (c := ')') rfl).append_blank
      rw [Tape.placed, if_pos hentry]
      simpa [hdisplay, Tape.continued] using Shows.symbol hearlier hgroup htoken
  | replaced hentry hne hlast =>
      -- the last token is dropped together with its symbol
      obtain ⟨earlier, front, d, tokens, op, hearlier, hfront, hdisplay, rfl⟩ :=
        h.eq_operator hne hlast
      have hdrop : Session.dropEnd 2 s.display = earlier ++ front := by
        rw [hdisplay]
        exact dropEnd_append (earlier ++ front) [d, ' ']
      rw [Tape.placed, if_pos hentry, Tape.continued_of_operator]
      simpa [hdrop] using Shows.symbol hearlier hfront htoken
  | @entry literal hlast hentry hread =>
      have hshows := h.extend (s.entry ++ [' ']) (c := c) (fun front hfront =>
        List.append_assoc front s.entry [' '] ▸ hfront.append_literal hread) htoken
      rw [Tape.placed, if_neg hentry, enteredTokens_literal hread]
      simpa using hshows

/-- A parenthesis that is written behind a display goes on the tape. -/
theorem Shows.append_symbol (h : Shows s.display tape) {c : Char} {token : Token}
    (htoken : Token.ofSymbol? (String.ofList [c]) = some token) :
    Shows (s.display ++ [c, ' ']) ⟨tape.tokens ++ [token], none⟩ := by
  have hshows := h.extend [] (fun front hfront => by simpa using hfront) htoken
  simpa using hshows

/-- The label of an operator key is the symbol of an operator. -/
theorem exists_operator_of_key {label : String}
    (h : Session.operatorKeys.contains label = true) :
    ∃ c op, label = String.ofList [c] ∧
      Token.ofSymbol? (String.ofList [c]) = some (.operator op) := by
  have hlabel : label ∈ ["+", "-", "*", "/", "^"] := List.contains_iff_mem.1 h
  simp only [List.mem_cons, List.not_mem_nil, or_false] at hlabel
  rcases hlabel with rfl | rfl | rfl | rfl | rfl <;> exact ⟨_, _, rfl, rfl⟩

/-! ## Every key -/

theorem Tape.record_of_editsEntry {key : Key} (hkey : key.editsEntry = true) (entry : List Char)
    (evaluation? : Option Evaluation) : tape.record key entry evaluation? = tape := by
  cases key <;> first | rfl | cases hkey

theorem Tape.record_operator {label : String} {token : Token}
    (hsymbol : Token.ofSymbol? label = some token) (entry : List Char)
    (evaluation? : Option Evaluation) :
    tape.record (.operator label) entry evaluation? = tape.placed token entry := by
  simp only [Tape.record, hsymbol]

/-- An accepted key keeps the display on the tape. -/
theorem Shows.accepted (h : Shows s.display tape) {key : Key} {evaluation? : Option Evaluation}
    (haccepts : s.Accepts key evaluation? next) :
    Shows next.display (tape.record key s.entry evaluation?) := by
  cases haccepts with
  | edit hkey entry =>
      rw [Tape.record_of_editsEntry hkey]
      exact h
  | operator hkey hplaces =>
      obtain ⟨c, op, rfl, hsymbol⟩ := exists_operator_of_key hkey
      rw [String.toList_ofList] at hplaces
      rw [Tape.record_operator hsymbol]
      exact h.placed hsymbol hplaces
  | openParen => exact h.append_symbol rfl
  | closeEntry hentry hplaces =>
      rw [Tape.record, if_neg hentry]
      exact h.placed rfl hplaces
  | closeGroup hentry =>
      rw [Tape.record, if_pos hentry]
      exact h.append_symbol rfl
  | clearAll => exact .empty
  | @equals evaluation => exact .result evaluation.value

theorem reached_shows (settings : Settings) (keys : List Key) :
    Shows (Session.reached settings keys).display (Session.tape settings keys) := by
  refine Session.reached_of_accepts (P := fun s tape => Shows s.display tape) .empty ?_ keys
  intro s tape key evaluation? next h haccepts
  exact h.accepted haccepts

/-! ## Evaluating -/

theorem evaluateWords_of_evaluate {expression : String} {settings : Settings}
    {evaluation : Evaluation} (h : evaluate expression settings = .ok evaluation) :
    evaluateWords settings.strictTokens (expressionWords expression) = .ok evaluation := by
  simp only [evaluate] at h
  split at h
  · split at h
    · cases h
    · exact h
  · exact h

/-- The expression of a session reads as the tokens of its tape and of its entry. -/
theorem Shows.tokensOf_expression (h : Shows s.display tape)
    (hentry : s.entry = [] ∨ (Literal.ofChars? s.entry).isSome = true) :
    tokensOf s.expression = (tape.tokens ++ enteredTokens s.entry).map some := by
  have hreads := h.reads_afterMarker
  rw [Session.expression, tokensOf_append hreads.closed, hreads.tokensOf_eq, List.map_append]
  congr 1
  rcases hentry with hnil | hnumber
  · rw [hnil]
    rfl
  · obtain ⟨literal, hread⟩ := Option.isSome_iff_exists.1 hnumber
    rw [tokensOf_literal hread, enteredTokens_literal hread]
    rfl

/-- What `equals` finds is what the tokens of the tape and of the entry come to. -/
theorem Shows.evaluated (h : Shows s.display tape) {evaluation : Evaluation}
    (hequals : s.equals = .ok (evaluation, next)) :
    evaluateTokens (tape.tokens ++ enteredTokens s.entry) = .ok evaluation := by
  obtain ⟨hcomplete, hevaluate, -⟩ := Session.equals_eq hequals
  have hwords := evaluateWords_of_evaluate hevaluate
  rw [evaluateWords_eq_evaluateTokens s.settings.strictTokens
    (h.tokensOf_expression hcomplete.entry_cases)] at hwords
  cases htokens : evaluateTokens (tape.tokens ++ enteredTokens s.entry) with
  | error fault =>
      rw [htokens] at hwords
      cases hwords
  | ok evaluation =>
      rw [htokens] at hwords
      exact congrArg Except.ok (Except.ok.inj hwords)

/-- After any keys the words behind the last marker are the tokens of the tape, and `equals` finds
the evaluation of these tokens and of the number of the entry. -/
theorem reached_refines_tape (settings : Settings) (keys : List Key) :
    tokensOf (Batch.afterMarker (Session.reached settings keys).display)
        = (Session.tape settings keys).tokens.map some ∧
      ∀ evaluation? next,
        (Session.reached settings keys).press .equals = .ok (evaluation?, next) →
          ∃ evaluation, evaluation? = some evaluation ∧
            evaluateTokens ((Session.tape settings keys).tokens
              ++ enteredTokens (Session.reached settings keys).entry) = .ok evaluation := by
  have hshows := reached_shows settings keys
  refine ⟨hshows.reads_afterMarker.tokensOf_eq, ?_⟩
  intro evaluation? next hpress
  obtain ⟨⟨evaluation, _⟩, hequals, heq⟩ := map_eq_ok.1 hpress
  cases heq
  exact ⟨evaluation, rfl, hshows.evaluated hequals⟩

end InfixCalculator
