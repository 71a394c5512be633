import InfixCalculator.Batch.Outcome
import InfixCalculator.Proofs.Batch.Line
import InfixCalculator.Proofs.Keypad.Refusals

/-!
# A display as a document

What the keypad shows may be copied into a document.  It is a single line there, since nothing on a
display breaks a line or starts a comment (`isShown`), and it holds one request, since a complete
expression has a word.  The expression of the request is the expression of the session without
blanks at its ends, which has the same words.  So the request has the outcome that `equals` shows
(`reached_line`).
-/

namespace InfixCalculator

/-- The characters of a display: those of number literals, the symbols, the blank and the marker. -/
def isShown (c : Char) : Bool :=
  Literal.isPart c || "()^*/ ~".toList.contains c

/-- A text of characters of a display. -/
def IsShown (text : List Char) : Prop :=
  ∀ c ∈ text, isShown c = true

/-- What a session shows: the display and the entry behind it. -/
def Session.line (s : Session) : List Char :=
  s.display ++ s.entry

/-- `equals` gives what became of a request: its value and its diagnostics, or the reason why it is
too long. -/
def Session.EqualsGives (s : Session) (outcome : Batch.Outcome) : Prop :=
  (∃ evaluation next, s.press .equals = .ok (some evaluation, next) ∧
      outcome.value = some evaluation.value ∧ outcome.diagnostics = evaluation.diagnostics ∧
        outcome.error = none) ∨
    ∃ count limit, s.press .equals = .error (.rejected (.tooLong count limit)) ∧
      outcome.value = none ∧ outcome.diagnostics = [] ∧
        outcome.error = some (Refusal.rejected (.tooLong count limit)).message

variable {s next : Session} {tape : Tape} {key : Key}

/-! ## The characters of a display -/

theorem isBreak_of_isShown {c : Char} (hc : isShown c = true) : Text.isBreak c = false := by
  rw [isShown, Bool.or_eq_true] at hc
  rcases hc with hpart | hother
  · cases hbreak : Text.isBreak c with
    | false => rfl
    | true =>
        have hblank := Literal.isBlank_of_isPart hpart
        rw [Text.isBlank_of_isBreak hbreak] at hblank
        cases hblank
  · have hall : "()^*/ ~".toList.all (fun d => !Text.isBreak d) = true := by decide
    simpa using List.all_eq_true.1 hall c (List.contains_iff_mem.1 hother)

theorem isShown_of_forall_isPart {text : List Char} (h : ∀ c ∈ text, Literal.isPart c = true) :
    IsShown text := by
  intro c hc
  rw [isShown, h c hc, Bool.true_or]

theorem IsShown.append {first second : List Char} (hfirst : IsShown first)
    (hsecond : IsShown second) : IsShown (first ++ second) :=
  List.forall_mem_append.2 ⟨hfirst, hsecond⟩

theorem isShown_blank : IsShown [' '] :=
  List.forall_mem_singleton.2 (by decide)

theorem isShown_symbol {c : Char} {token : Token}
    (h : Token.ofSymbol? (String.ofList [c]) = some token) : IsShown [c] := by
  have hall : "()^*/+-".toList.all isShown = true := by decide
  exact List.forall_mem_singleton.2 (List.all_eq_true.1 hall c (mem_symbols h))

theorem IsShown.append_symbol {text : List Char} (h : IsShown text) {c : Char} {token : Token}
    (htoken : Token.ofSymbol? (String.ofList [c]) = some token) : IsShown (text ++ [c, ' ']) :=
  h.append ((isShown_symbol htoken).append isShown_blank)

theorem IsShown.shownResult? {display value : List Char} (hdisplay : IsShown display)
    (h : Session.shownResult? display = some value) : IsShown value := by
  intro c hc
  apply hdisplay
  unfold Session.shownResult? at h
  split at h <;> cases h <;> exact List.mem_of_mem_take hc

theorem IsShown.placed (h : IsShown s.display) {c : Char} {token : Token}
    (htoken : Token.ofSymbol? (String.ofList [c]) = some token) (hplaces : s.Places [c] next) :
    IsShown next.display := by
  have hsymbol := isShown_symbol htoken
  have hspaced := isShown_blank.append hsymbol
  cases hplaces with
  | result _ _ hvalue => exact ((h.shownResult? hvalue).append hspaced).append isShown_blank
  | group => exact (h.append hspaced).append isShown_blank
  | replaced =>
      have hfront : IsShown (Session.dropEnd 2 s.display) :=
        fun c hc => h c (List.mem_of_mem_take hc)
      exact (hfront.append hsymbol).append isShown_blank
  | entry _ _ hread =>
      have hentry := isShown_of_forall_isPart (Literal.forall_isPart hread)
      exact ((h.append hentry).append hspaced).append isShown_blank

theorem isShown_resultDisplay (value : Float) : IsShown (Session.resultDisplay value) := by
  obtain ⟨literal, hread, -⟩ := Decimal.literalText_reads value
  have hmarker : [' ', ' ', resultMarker, ' ', ' '].all isShown = true := by decide
  exact (isShown_of_forall_isPart (Literal.forall_isPart hread)).append (List.all_eq_true.1 hmarker)

/-- An accepted key writes nothing else than characters of a display. -/
theorem IsShown.accepted (h : IsShown s.display) {evaluation? : Option Evaluation}
    (haccepts : s.Accepts key evaluation? next) : IsShown next.display := by
  cases haccepts with
  | edit => exact h
  | operator hkey hplaces =>
      obtain ⟨c, op, rfl, hsymbol⟩ := exists_operator_of_key hkey
      rw [String.toList_ofList] at hplaces
      exact h.placed hsymbol hplaces
  | openParen => exact h.append_symbol (c := '(') rfl
  | closeEntry _ hplaces => exact h.placed rfl hplaces
  | closeGroup => exact h.append_symbol (c := ')') rfl
  | clearAll => exact List.forall_mem_nil _
  | @equals evaluation => exact isShown_resultDisplay evaluation.value

theorem reached_isShown (settings : Settings) (keys : List Key) :
    IsShown (Session.reached settings keys).display := by
  refine Session.reached_of_accepts (P := fun s _ => IsShown s.display)
    (List.forall_mem_nil _) ?_ keys
  intro s _ key evaluation? next h haccepts
  exact h.accepted haccepts

/-! ## The line of a session -/

theorem Session.IsComplete.forall_isPart (h : s.IsComplete) :
    ∀ c ∈ s.entry, Literal.isPart c = true := by
  rcases h.entry_cases with hnil | hnumber
  · rw [hnil]
    exact List.forall_mem_nil _
  · obtain ⟨literal, hread⟩ := Option.isSome_iff_exists.1 hnumber
    exact Literal.forall_isPart hread

theorem Session.IsComplete.isShown_line (h : s.IsComplete) (hdisplay : IsShown s.display) :
    IsShown s.line :=
  hdisplay.append (isShown_of_forall_isPart h.forall_isPart)

/-- An entry without a marker goes on with the expression of the display. -/
theorem Shows.afterMarker_line (h : Shows s.display tape) (hentry : resultMarker ∉ s.entry) :
    Batch.afterMarker s.line = s.expression := by
  obtain ⟨earlier, front, hdisplay, hearlier, hfront⟩ := h.reads
  have hmarker : resultMarker ∉ front ++ s.entry := by
    rw [List.mem_append, not_or]
    exact ⟨hfront.no_marker, hentry⟩
  rw [Session.line, Session.expression, hdisplay, List.append_assoc,
    afterMarker_append hearlier hmarker, afterMarker_append hearlier hfront.no_marker]

/-- A complete expression has a word. -/
theorem Tape.InTurn.words_ne_nil (hturn : tape.InTurn) (h : Shows s.display tape)
    (hcomplete : s.IsComplete) : Text.words s.expression ≠ [] := by
  intro hnil
  have htokens := h.tokensOf_expression hcomplete.entry_cases
  have hempty : tokensOf s.expression = [] := by
    simp [tokensOf, expressionWords, String.toList_ofList, hnil]
  have hafter := hturn.complete h hcomplete
  rw [hempty] at htokens
  rw [List.map_eq_nil_iff.1 htokens.symm] at hafter
  cases hafter

/-- The line of a complete expression holds one request, which is evaluated like the expression. -/
theorem Tape.InTurn.exists_request (hturn : tape.InTurn) (h : Shows s.display tape)
    (hdisplay : IsShown s.display) (hcomplete : s.IsComplete) (source : String) :
    ∃ request, Batch.requests (String.ofList s.line) source = [request] ∧ request.lineNumber = 1 ∧
      ∀ settings, evaluate request.expression settings =
        evaluate (String.ofList s.expression) settings := by
  have hline := hcomplete.isShown_line hdisplay
  have hcomment : Batch.commentMark ∉ s.line := by
    intro hmem
    exact absurd (hline _ hmem) (by decide)
  have hmarker : resultMarker ∉ s.entry := by
    intro hmem
    exact absurd (hcomplete.forall_isPart _ hmem) (by decide)
  have hexpression := h.afterMarker_line hmarker
  have hword : Text.words (Batch.afterMarker s.line) ≠ [] := by
    rw [hexpression]
    exact hturn.words_ne_nil h hcomplete
  refine ⟨_, requests_of_line (fun c hc => isBreak_of_isShown (hline c hc)) hcomment hword source,
    rfl, ?_⟩
  intro settings
  apply evaluate_congr
  simp only [expressionWords, String.toList_ofList, Text.words_trim, hexpression]

/-- `equals` gives what becomes of a request that is evaluated like a complete expression. -/
theorem Tape.InTurn.equalsGives (hturn : tape.InTurn) (h : Shows s.display tape)
    (hcomplete : s.IsComplete) {request : Batch.Request}
    (hrequest : evaluate request.expression s.settings =
      evaluate (String.ofList s.expression) s.settings) :
    s.EqualsGives (request.outcome s.settings) := by
  rcases hturn.evaluated h hcomplete with ⟨evaluation, heq, -⟩ | ⟨count, limit, -, heq⟩
  · obtain ⟨next, hpress⟩ := Session.press_equals_of_ok hcomplete heq
    rw [Batch.outcome_of_ok (hrequest.trans heq)]
    exact .inl ⟨evaluation, next, hpress, rfl, rfl, rfl⟩
  · rw [Batch.outcome_of_error (hrequest.trans heq)]
    exact .inr ⟨count, limit, Session.press_equals_of_error hcomplete heq, rfl, rfl, rfl⟩

/-- **The keypad and a document agree.**  After any keys that leave `equals` with an expression that
it does not refuse for the entry, what the keypad shows is the single request of a document, on its
first line, and `equals` gives what becomes of this request. -/
theorem reached_line (settings : Settings) (keys : List Key) (source : String)
    (haccepted : ∀ flaw, (Session.reached settings keys).press .equals ≠ .error (.entry flaw)) :
    ∃ request,
      Batch.requests (String.ofList (Session.reached settings keys).line) source = [request] ∧
        request.lineNumber = 1 ∧
          (Session.reached settings keys).EqualsGives (request.outcome settings) := by
  have hcomplete := Session.isComplete_iff.2 haccepted
  have hshows := reached_shows settings keys
  have hturn := reached_inTurn settings keys
  obtain ⟨request, hrequests, hnumber, hevaluate⟩ :=
    hturn.exists_request hshows (reached_isShown settings keys) hcomplete source
  have hgives := hturn.equalsGives hshows hcomplete (hevaluate _)
  rw [Session.reached_settings] at hgives
  exact ⟨request, hrequests, hnumber, hgives⟩

/-- A quotient by zero in a group that is closed twice is a request as it stands on the display. -/
theorem line_closedTwice :
    let keys : List Key := [.openParen, .digit "1", .operator "/", .digit "0", .closeParen,
      .closeParen]
    let s := Session.reached { maxTokens := some 4 } keys
    (∀ flaw, s.press .equals ≠ .error (.entry flaw)) ∧
      ∃ request, Batch.requests "( 1 / 0 ) ) " "" = [request] ∧ request.lineNumber = 1 ∧
        s.EqualsGives (request.outcome { maxTokens := some 4 }) := by
  intro keys s
  have hcomplete : s.IsComplete := by
    decide +kernel
  have haccepted := Session.isComplete_iff.1 hcomplete
  have hline : String.ofList s.line = "( 1 / 0 ) ) " := by
    decide +kernel
  obtain ⟨request, hrequests, hnumber, hgives⟩ :=
    reached_line { maxTokens := some 4 } keys "" haccepted
  exact ⟨haccepted, request, hline ▸ hrequests, hnumber, hgives⟩

end InfixCalculator
