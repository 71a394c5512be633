import InfixCalculator.Proofs.Decimal.LiteralText
import InfixCalculator.Proofs.Decimal.ReadBack
import InfixCalculator.Proofs.Evaluation.Tokens
import InfixCalculator.Proofs.Keypad.Tape

/-!
# What a display stands for

A display is empty, or it shows a value, or a symbol and a blank end it.  In the last case
what stands before them is an earlier result up to its marker, which may be missing, and a text
in which every word is followed by a blank.  `Shows display tape` says so, and that the words
after the last marker are the tokens of the tape.

`Reads text tokens` is the part of this that has to do with words.  A text that reads as
tokens can be extended by a word and a blank without touching any word before, which is why no
two words ever fuse.
-/

namespace InfixCalculator

/-- What the words of a text are as tokens. -/
def tokensOf (text : List Char) : List (Option Token) :=
  (expressionWords (String.ofList text)).map Token.ofWord?

/-- A text that holds no marker, is over after a blank, and whose words stand for tokens. -/
structure Reads (text : List Char) (tokens : List Token) : Prop where
  no_marker : resultMarker ∉ text
  closed : text = [] ∨ ∃ front, text = front ++ [' ']
  tokensOf_eq : tokensOf text = tokens.map some

/-- A text without an earlier result, or one that ends with the marker of a result. -/
def IsEarlier (text : List Char) : Prop :=
  text = [] ∨ ∃ front, text = front ++ [resultMarker]

/-- A display stands for a tape. -/
inductive Shows : List Char → Tape → Prop where
  | empty : Shows [] {}
  | result (value : Float) : Shows (Session.resultDisplay value) ⟨[], some value⟩
  | symbol {earlier front : List Char} {c : Char} {tokens : List Token} {token : Token}
      (hearlier : IsEarlier earlier) (hfront : Reads front tokens)
      (htoken : Token.ofSymbol? (String.ofList [c]) = some token) :
      Shows (earlier ++ front ++ [c, ' ']) ⟨tokens ++ [token], none⟩

/-! ## Words of a growing text -/

theorem tokensOf_append {text : List Char} (hclosed : text = [] ∨ ∃ front, text = front ++ [' '])
    (rest : List Char) : tokensOf (text ++ rest) = tokensOf text ++ tokensOf rest := by
  have hblank : Text.IsGap [' '] := by simp [Text.IsGap, Text.isBlank]
  rcases hclosed with rfl | ⟨front, rfl⟩
  · rfl
  · simp only [tokensOf, expressionWords, String.toList_ofList]
    rw [Text.words_append_of_gap hblank (by simp), List.map_append, List.map_append]

theorem tokensOf_append_blank (text : List Char) : tokensOf (text ++ [' ']) = tokensOf text := by
  have hblank : Text.IsGap [' '] := by simp [Text.IsGap, Text.isBlank]
  simp only [tokensOf, expressionWords, String.toList_ofList]
  rw [Text.words_append_gap hblank]

theorem tokensOf_word {word : List Char} (hword : Text.IsWord word) :
    tokensOf word = [Token.ofWord? (String.ofList word)] := by
  simp only [tokensOf, expressionWords, String.toList_ofList, Text.words_of_isWord hword]
  rfl

theorem tokensOf_literal {entry : List Char} {literal : Literal}
    (h : Literal.ofChars? entry = some literal) :
    tokensOf entry = [some (.number literal.toFloat)] := by
  have hread : Literal.ofChars? (String.ofList entry).toList = some literal := by
    rw [String.toList_ofList, h]
  rw [tokensOf_word (Literal.isWord_of_ofChars? h), Token.ofWord?_of_ofChars? hread]

/-! ## Symbols -/

theorem mem_symbols {c : Char} {token : Token}
    (h : Token.ofSymbol? (String.ofList [c]) = some token) : c ∈ "()^*/+-".toList := by
  unfold Token.ofSymbol? at h
  split_ifs at h
  all_goals
    have htext := congrArg String.toList ‹String.ofList [c] = _›
    rw [String.toList_ofList] at htext
    obtain rfl := List.cons.inj htext |>.1
    decide

theorem ne_of_symbol {c d : Char} {token : Token}
    (h : Token.ofSymbol? (String.ofList [c]) = some token) (hd : d ∉ "()^*/+-".toList) : c ≠ d := by
  rintro rfl
  exact hd (mem_symbols h)

/-- All symbols but the parentheses are operators. -/
theorem exists_operator {c : Char} {token : Token}
    (h : Token.ofSymbol? (String.ofList [c]) = some token) (hclose : c ≠ ')') (hopen : c ≠ '(') :
    ∃ op, token = .operator op := by
  have hc := mem_symbols h
  simp only [String.reduceToList, List.mem_cons, List.not_mem_nil, or_false] at hc
  rcases hc with rfl | rfl | rfl | rfl | rfl | rfl | rfl
  · exact absurd rfl hopen
  · exact absurd rfl hclose
  all_goals exact ⟨_, (Option.some.inj h).symm⟩

theorem isWord_symbol {c : Char} {token : Token}
    (h : Token.ofSymbol? (String.ofList [c]) = some token) : Text.IsWord [c] := by
  have hblank : "()^*/+-".toList.all (fun d => !Text.isBlank d) = true := by decide
  have hc := List.all_eq_true.1 hblank c (mem_symbols h)
  exact ⟨by simp, by simpa using hc⟩

theorem tokensOf_symbol {c : Char} {token : Token}
    (h : Token.ofSymbol? (String.ofList [c]) = some token) : tokensOf [c] = [some token] := by
  rw [tokensOf_word (isWord_symbol h), Token.ofWord?, h]

/-! ## Texts that read as tokens -/

namespace Reads

theorem nil : Reads [] [] :=
  ⟨List.not_mem_nil, .inl rfl, rfl⟩

variable {text : List Char} {tokens : List Token}

theorem append_blank (h : Reads text tokens) : Reads (text ++ [' ']) tokens := by
  refine ⟨?_, .inr ⟨text, rfl⟩, ?_⟩
  · rw [List.mem_append, not_or]
    exact ⟨h.no_marker, by decide⟩
  · rw [tokensOf_append_blank, h.tokensOf_eq]

theorem append_word (h : Reads text tokens) {word : List Char} {token : Token}
    (hmarker : resultMarker ∉ word) (hword : tokensOf word = [some token]) :
    Reads (text ++ word ++ [' ']) (tokens ++ [token]) := by
  refine ⟨?_, .inr ⟨text ++ word, rfl⟩, ?_⟩
  · simp only [List.mem_append, not_or]
    exact ⟨⟨h.no_marker, hmarker⟩, by decide⟩
  · rw [tokensOf_append_blank, tokensOf_append h.closed, h.tokensOf_eq, hword, List.map_append]
    rfl

theorem append_literal (h : Reads text tokens) {entry : List Char} {literal : Literal}
    (hentry : Literal.ofChars? entry = some literal) :
    Reads (text ++ entry ++ [' ']) (tokens ++ [.number literal.toFloat]) :=
  h.append_word (Literal.not_mem_of_ofChars? hentry (by decide)) (tokensOf_literal hentry)

theorem append_symbol (h : Reads text tokens) {c : Char} {token : Token}
    (hc : Token.ofSymbol? (String.ofList [c]) = some token) :
    Reads (text ++ [c, ' ']) (tokens ++ [token]) := by
  have hmarker : resultMarker ∉ [c] := by
    rw [List.mem_singleton]
    exact (ne_of_symbol hc (by decide)).symm
  have hreads := h.append_word hmarker (tokensOf_symbol hc)
  rw [List.append_assoc] at hreads
  exact hreads

end Reads

/-! ## Displays -/

/-- Behind its marker a display reads as the tokens of its tape. -/
theorem Shows.reads {display : List Char} {tape : Tape} (h : Shows display tape) :
    ∃ earlier front, display = earlier ++ front ∧ IsEarlier earlier ∧ Reads front tape.tokens := by
  cases h with
  | empty => exact ⟨[], [], rfl, .inl rfl, .nil⟩
  | result value =>
      refine ⟨(Decimal.literalText value).toList ++ [' ', ' ', resultMarker], [' ', ' '], ?_, ?_, ?_⟩
      · simp [Session.resultDisplay]
      · exact .inr ⟨(Decimal.literalText value).toList ++ [' ', ' '], by simp⟩
      · exact Reads.nil.append_blank.append_blank
  | @symbol earlier front c tokens token hearlier hfront htoken =>
      exact ⟨earlier, front ++ [c, ' '], by simp, hearlier, hfront.append_symbol htoken⟩

theorem afterMarker_append {earlier front : List Char} (hearlier : IsEarlier earlier)
    (hfront : resultMarker ∉ front) : Batch.afterMarker (earlier ++ front) = front := by
  have hall : ∀ c ∈ front.reverse, (decide (c ≠ resultMarker)) = true := by
    intro c hc
    rw [decide_eq_true_eq]
    rintro rfl
    exact hfront (List.mem_reverse.1 hc)
  have hstop : earlier.reverse.takeWhile (fun c => decide (c ≠ resultMarker)) = [] := by
    rcases hearlier with rfl | ⟨before, rfl⟩
    · rfl
    · simp
  unfold Batch.afterMarker
  rw [List.reverse_append, List.takeWhile_append_of_pos hall, hstop, List.append_nil,
    List.reverse_reverse]

/-- What stands behind the last marker of a display reads as the tokens of its tape. -/
theorem Shows.reads_afterMarker {display : List Char} {tape : Tape} (h : Shows display tape) :
    Reads (Batch.afterMarker display) tape.tokens := by
  obtain ⟨earlier, front, rfl, hearlier, hfront⟩ := h.reads
  rw [afterMarker_append hearlier hfront.no_marker]
  exact hfront

theorem lastSymbol?_append (front : List Char) (c : Char) :
    lastSymbol? (front ++ [c, ' ']) = some c := by
  simp [lastSymbol?]

theorem lastSymbol?_resultDisplay (value : Float) :
    lastSymbol? (Session.resultDisplay value) = some ' ' := by
  simp [lastSymbol?, Session.resultDisplay]

/-! ## The symbol written last -/

/-- A display that ends like a shown result is one. -/
theorem Shows.eq_result {display : List Char} {tape : Tape} (h : Shows display tape)
    (hlast : lastSymbol? display = some ' ') :
    ∃ value, display = Session.resultDisplay value ∧ tape = ⟨[], some value⟩ := by
  cases h with
  | empty => cases hlast
  | result value => exact ⟨value, rfl, rfl⟩
  | symbol hearlier hfront htoken =>
      rw [lastSymbol?_append] at hlast
      exact absurd (Option.some.inj hlast) (ne_of_symbol htoken (by decide))

theorem Shows.eq_group {display : List Char} {tape : Tape} (h : Shows display tape)
    (hlast : lastSymbol? display = some ')') :
    ∃ earlier front tokens, IsEarlier earlier ∧ Reads front tokens ∧
      display = earlier ++ front ++ [')', ' '] ∧ tape = ⟨tokens ++ [.closeParen], none⟩ := by
  cases h with
  | empty => cases hlast
  | result value =>
      rw [lastSymbol?_resultDisplay] at hlast
      cases hlast
  | @symbol earlier front c tokens token hearlier hfront htoken =>
      rw [lastSymbol?_append] at hlast
      obtain rfl := Option.some.inj hlast
      obtain rfl : Token.closeParen = token := Option.some.inj htoken
      exact ⟨earlier, front, tokens, hearlier, hfront, rfl, rfl⟩

/-- A display that ends otherwise, and not with an open parenthesis, ends with an operator. -/
theorem Shows.eq_operator {display : List Char} {tape : Tape} (h : Shows display tape)
    (hdisplay : display ≠ []) (hlast : ∀ c ∈ [' ', ')', '('], lastSymbol? display ≠ some c) :
    ∃ earlier front c tokens op, IsEarlier earlier ∧ Reads front tokens ∧
      display = earlier ++ front ++ [c, ' '] ∧ tape = ⟨tokens ++ [.operator op], none⟩ := by
  cases h with
  | empty => exact absurd rfl hdisplay
  | result value => exact absurd (lastSymbol?_resultDisplay value) (hlast ' ' (by simp))
  | @symbol earlier front c tokens token hearlier hfront htoken =>
      have hother : ∀ d ∈ [' ', ')', '('], c ≠ d := by
        intro d hd hcd
        exact hlast d hd (hcd ▸ lastSymbol?_append _ c)
      obtain ⟨op, rfl⟩ := exists_operator htoken (hother ')' (by simp)) (hother '(' (by simp))
      exact ⟨earlier, front, c, tokens, op, hearlier, hfront, rfl, rfl⟩

end InfixCalculator
