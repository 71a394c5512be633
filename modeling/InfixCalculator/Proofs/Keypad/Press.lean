import InfixCalculator.Proofs.Decimal.LiteralText
import InfixCalculator.Proofs.Keypad.Tape
import InfixCalculator.Proofs.Results
import Mathlib.Tactic.SplitIfs

/-!
# What an accepted key does

Six keys change nothing but the entry.  Of the others every one has its conditions on the entry
and on the symbol written last.  `Session.Accepts` lists them with what the key leaves behind, and
`Session.Places` does so for a symbol that is placed.  `Session.accepts_of_press` reads this off
`Session.press`, and `Session.reached_of_accepts` is the induction on the keys, so that an invariant
of the keypad is proved by cases on `Accepts` and need not look into any key.
-/

namespace InfixCalculator

/-- Whether a key changes nothing but the entry. -/
def Key.editsEntry : Key → Bool
  | .digit _ | .decimal | .negate | .squareRoot | .delete | .clearEntry => true
  | .operator _ | .openParen | .closeParen | .clearAll | .equals => false

namespace Session

/-- The expression ends with an operand: a group without an entry after it, or a number that is
being typed. -/
def IsComplete (s : Session) : Prop :=
  if lastSymbol? s.display = some ')' then s.entry = []
  else (Literal.ofChars? s.entry).isSome = true

instance (s : Session) : Decidable s.IsComplete :=
  inferInstanceAs (Decidable (if lastSymbol? s.display = some ')' then s.entry = []
    else (Literal.ofChars? s.entry).isSome = true))

theorem IsComplete.entry_cases {s : Session} (h : s.IsComplete) :
    s.entry = [] ∨ (Literal.ofChars? s.entry).isSome = true := by
  unfold IsComplete at h
  split_ifs at h
  · exact .inl h
  · exact .inr h

/-- What a symbol may be placed behind, and the session after it: the value of a shown result, a
group, what was before another operator, or an entry that is a number. -/
inductive Places (s : Session) (symbol : List Char) : Session → Prop where
  | result {value : List Char} (hentry : s.entry = []) (hlast : lastSymbol? s.display = some ' ')
      (hvalue : shownResult? s.display = some value) :
      Places s symbol { s with display := value ++ ' ' :: symbol ++ [' '] }
  | group (hentry : s.entry = []) (hlast : lastSymbol? s.display = some ')') :
      Places s symbol { s with display := s.display ++ ' ' :: symbol ++ [' '] }
  | replaced (hentry : s.entry = []) (hdisplay : s.display ≠ [])
      (hlast : ∀ c ∈ [' ', ')', '('], lastSymbol? s.display ≠ some c) :
      Places s symbol { s with display := dropEnd 2 s.display ++ symbol ++ [' '] }
  | entry {literal : Literal} (hlast : lastSymbol? s.display ≠ some ')') (hentry : s.entry ≠ [])
      (hread : Literal.ofChars? s.entry = some literal) :
      Places s symbol
        { s with display := s.display ++ s.entry ++ ' ' :: symbol ++ [' '], entry := [] }

/-- What a key may do: the evaluation that it shows, if any, and the session after it. -/
inductive Accepts (s : Session) : Key → Option Evaluation → Session → Prop where
  | edit {key : Key} (hkey : key.editsEntry = true) (entry : List Char) :
      Accepts s key none { s with entry := entry }
  | operator {label : String} {next : Session} (hkey : operatorKeys.contains label = true)
      (hplaces : s.Places label.toList next) : Accepts s (.operator label) none next
  | openParen (hentry : s.entry = []) (hlast : lastSymbol? s.display ≠ some ')') :
      Accepts s .openParen none { s with display := s.display ++ ['(', ' '] }
  | closeEntry {next : Session} (hentry : s.entry ≠ []) (hplaces : s.Places [')'] next) :
      Accepts s .closeParen none next
  | closeGroup (hentry : s.entry = []) (hlast : lastSymbol? s.display = some ')') :
      Accepts s .closeParen none { s with display := s.display ++ [')', ' '] }
  | clearAll : Accepts s .clearAll none { s with entry := [], display := [] }
  | equals {evaluation : Evaluation} (hcomplete : s.IsComplete)
      (hevaluate : evaluate (String.ofList s.expression) s.settings = .ok evaluation) :
      Accepts s .equals (some evaluation)
        { s with display := resultDisplay evaluation.value, entry := [] }

variable {s next : Session} {key : Key} {evaluation? : Option Evaluation}

/-! ## Keys of the entry -/

theorem pressDigit_eq {label : String} (h : s.pressDigit label = .ok next) :
    ∃ entry, next = { s with entry := entry } := by
  unfold pressDigit at h
  split at h
  · split at h <;> cases h
    exact ⟨_, rfl⟩
  · cases h

theorem pressDecimal_eq (s : Session) : ∃ entry, s.pressDecimal = { s with entry := entry } := by
  unfold pressDecimal
  split
  · exact ⟨s.entry, rfl⟩
  · exact ⟨_, rfl⟩

theorem negate_eq (h : s.negate = .ok next) : ∃ entry, next = { s with entry := entry } := by
  unfold negate at h
  split_ifs at h <;> cases h <;> exact ⟨_, rfl⟩

theorem squareRoot_eq (h : s.squareRoot = .ok next) : ∃ entry, next = { s with entry := entry } := by
  unfold squareRoot at h
  split_ifs at h
  split at h
  · cases h
  · split at h <;> cases h
    exact ⟨_, rfl⟩

theorem delete_eq (h : s.delete = .ok next) : ∃ entry, next = { s with entry := entry } := by
  unfold delete at h
  split_ifs at h
  cases h
  exact ⟨_, rfl⟩

/-! ## Keys of the display -/

/-- A symbol that is placed stands where it may. -/
theorem places_of_place {symbol : List Char} (h : s.place symbol = .ok next) :
    s.Places symbol next := by
  simp only [place, Bool.and_eq_true, decide_eq_true_eq, ne_eq] at h
  split_ifs at h with hfirst hresult hclose hvalue hreplace hread
  · obtain ⟨hentry, hlast⟩ := hresult
    split at h
    · cases h
    · cases h
      exact .result hentry hlast ‹_›
  · cases h
    exact .group hvalue hclose
  · cases h
    obtain ⟨hentry, hopen⟩ := hreplace
    refine .replaced hentry (fun hdisplay => hfirst ⟨hentry, hdisplay⟩) ?_
    simp only [List.forall_mem_cons]
    exact ⟨fun hlast => hresult ⟨hentry, hlast⟩, hclose, hopen, List.forall_mem_nil _⟩
  · cases h
    have hentry : s.entry ≠ [] := by
      intro hnil
      rw [hnil, Literal.ofChars?_nil] at hread
      exact hread rfl
    cases hliteral : Literal.ofChars? s.entry with
    | none => exact absurd (by rw [hliteral]; rfl) hread
    | some literal => exact .entry hclose hentry hliteral

theorem openParen_eq (h : s.openParen = .ok next) :
    s.entry = [] ∧ lastSymbol? s.display ≠ some ')' ∧
      next = { s with display := s.display ++ ['(', ' '] } := by
  unfold openParen at h
  split_ifs at h with hentry hlast
  cases h
  exact ⟨Decidable.of_not_not hentry, hlast, rfl⟩

theorem closeParen_eq (hentry : s.entry = []) (h : s.closeParen = .ok next) :
    lastSymbol? s.display = some ')' ∧ next = { s with display := s.display ++ [')', ' '] } := by
  unfold closeParen at h
  split_ifs at h with hvalue hfirst hlast
  · exact absurd hentry hvalue
  · cases h
    exact ⟨Decidable.of_not_not hlast, rfl⟩

/-! ## Evaluating -/

/-- `equals` refuses an expression that is not complete. -/
theorem equals_of_not_isComplete (h : ¬ s.IsComplete) : ∃ flaw, s.equals = .error (.entry flaw) := by
  unfold IsComplete at h
  simp only [equals]
  split_ifs at h with hlast
  · exact ⟨.resultAfterGroup, by simp [hlast, h]⟩
  · have hread : (Literal.ofChars? s.entry).isNone = true := by simpa using h
    exact ⟨.invalidEntry, by simp [hlast, hread]⟩

/-- Neither refusal of `equals` for the entry applies to a complete expression. -/
theorem IsComplete.accepted (h : s.IsComplete) :
    ¬ (lastSymbol? s.display ≠ some ')' && (Literal.ofChars? s.entry).isNone) = true ∧
      ¬ (lastSymbol? s.display = some ')' && s.entry ≠ []) = true := by
  unfold IsComplete at h
  split_ifs at h with hlast
  · simp [hlast, h]
  · have hread : (Literal.ofChars? s.entry).isNone = false := by simpa using h
    simp [hlast, hread]

theorem equals_of_ok {evaluation : Evaluation} (h : s.IsComplete)
    (heq : evaluate (String.ofList s.expression) s.settings = .ok evaluation) :
    s.equals =
      .ok (evaluation, { s with display := resultDisplay evaluation.value, entry := [] }) := by
  obtain ⟨hnumber, hvalue⟩ := h.accepted
  simp only [equals, if_neg hnumber, if_neg hvalue, heq]

theorem equals_of_error {rejection : Rejection} (h : s.IsComplete)
    (heq : evaluate (String.ofList s.expression) s.settings = .error rejection) :
    s.equals = .error (.rejected rejection) := by
  obtain ⟨hnumber, hvalue⟩ := h.accepted
  simp only [equals, if_neg hnumber, if_neg hvalue, heq]

theorem equals_eq {evaluation : Evaluation} (h : s.equals = .ok (evaluation, next)) :
    s.IsComplete ∧ evaluate (String.ofList s.expression) s.settings = .ok evaluation ∧
      next = { s with display := resultDisplay evaluation.value, entry := [] } := by
  by_cases hcomplete : s.IsComplete
  · cases heq : evaluate (String.ofList s.expression) s.settings with
    | error rejection =>
        rw [equals_of_error hcomplete heq] at h
        cases h
    | ok evaluated =>
        rw [equals_of_ok hcomplete heq] at h
        cases h
        exact ⟨hcomplete, rfl, rfl⟩
  · obtain ⟨flaw, hflaw⟩ := equals_of_not_isComplete hcomplete
    rw [hflaw] at h
    cases h

theorem press_equals_of_not_isComplete (h : ¬ s.IsComplete) :
    ∃ flaw, s.press .equals = .error (.entry flaw) := by
  obtain ⟨flaw, hflaw⟩ := equals_of_not_isComplete h
  exact ⟨flaw, by rw [press, hflaw]; rfl⟩

theorem press_equals_of_ok {evaluation : Evaluation} (h : s.IsComplete)
    (heq : evaluate (String.ofList s.expression) s.settings = .ok evaluation) :
    ∃ next, s.press .equals = .ok (some evaluation, next) :=
  ⟨_, by rw [press, equals_of_ok h heq]; rfl⟩

theorem press_equals_of_error {rejection : Rejection} (h : s.IsComplete)
    (heq : evaluate (String.ofList s.expression) s.settings = .error rejection) :
    s.press .equals = .error (.rejected rejection) := by
  rw [press, equals_of_error h heq]
  rfl

/-- The complete expressions are those that `equals` does not refuse for the entry. -/
theorem isComplete_iff : s.IsComplete ↔ ∀ flaw, s.press .equals ≠ .error (.entry flaw) := by
  constructor
  · intro h flaw hpress
    cases heq : evaluate (String.ofList s.expression) s.settings with
    | error rejection =>
        rw [press_equals_of_error h heq] at hpress
        cases hpress
    | ok evaluation =>
        obtain ⟨next, hshown⟩ := press_equals_of_ok h heq
        rw [hshown] at hpress
        cases hpress
  · intro h
    by_cases hcomplete : s.IsComplete
    · exact hcomplete
    · obtain ⟨flaw, hflaw⟩ := press_equals_of_not_isComplete hcomplete
      exact absurd hflaw (h flaw)

/-! ## All keys -/

/-- A key that is accepted does what it may do. -/
theorem accepts_of_press (h : s.press key = .ok (evaluation?, next)) :
    s.Accepts key evaluation? next := by
  cases key with
  | digit label =>
      obtain ⟨_, hdigit, heq⟩ := map_eq_ok.1 h
      cases heq
      obtain ⟨entry, rfl⟩ := pressDigit_eq hdigit
      exact .edit rfl entry
  | operator label =>
      obtain ⟨_, hoperator, heq⟩ := map_eq_ok.1 h
      cases heq
      unfold pressOperator at hoperator
      split at hoperator
      · exact .operator ‹_› (places_of_place hoperator)
      · cases hoperator
  | decimal =>
      cases h
      obtain ⟨entry, hnext⟩ := pressDecimal_eq s
      rw [hnext]
      exact .edit rfl entry
  | openParen =>
      obtain ⟨_, hopen, heq⟩ := map_eq_ok.1 h
      cases heq
      obtain ⟨hentry, hlast, rfl⟩ := openParen_eq hopen
      exact .openParen hentry hlast
  | closeParen =>
      obtain ⟨_, hclose, heq⟩ := map_eq_ok.1 h
      cases heq
      by_cases hentry : s.entry = []
      · obtain ⟨hlast, rfl⟩ := closeParen_eq hentry hclose
        exact .closeGroup hentry hlast
      · rw [closeParen, if_pos hentry] at hclose
        exact .closeEntry hentry (places_of_place hclose)
  | negate =>
      obtain ⟨_, hnegate, heq⟩ := map_eq_ok.1 h
      cases heq
      obtain ⟨entry, rfl⟩ := negate_eq hnegate
      exact .edit rfl entry
  | squareRoot =>
      obtain ⟨_, hroot, heq⟩ := map_eq_ok.1 h
      cases heq
      obtain ⟨entry, rfl⟩ := squareRoot_eq hroot
      exact .edit rfl entry
  | delete =>
      obtain ⟨_, hdelete, heq⟩ := map_eq_ok.1 h
      cases heq
      obtain ⟨entry, rfl⟩ := delete_eq hdelete
      exact .edit rfl entry
  | clearEntry =>
      cases h
      exact .edit rfl []
  | clearAll =>
      cases h
      exact .clearAll
  | equals =>
      obtain ⟨⟨evaluation, _⟩, hequals, heq⟩ := map_eq_ok.1 h
      cases heq
      obtain ⟨hcomplete, hevaluate, rfl⟩ := equals_eq hequals
      exact .equals hcomplete hevaluate

theorem Places.settings_eq {symbol : List Char} (h : s.Places symbol next) :
    next.settings = s.settings := by
  cases h <;> rfl

theorem Accepts.settings_eq (h : s.Accepts key evaluation? next) : next.settings = s.settings := by
  cases h with
  | operator _ hplaces => exact hplaces.settings_eq
  | closeEntry _ hplaces => exact hplaces.settings_eq
  | _ => rfl

/-- What every accepted key keeps holds of the session that any keys reach and of its tape. -/
theorem reached_of_accepts {P : Session → Tape → Prop} {settings : Settings}
    (hstart : P { settings := settings } {})
    (haccepts : ∀ s tape key evaluation? next, P s tape → s.Accepts key evaluation? next →
      P next (tape.record key s.entry evaluation?)) (keys : List Key) :
    P (reached settings keys) (tape settings keys) := by
  refine reached_induction hstart ?_ keys
  intro s tape key h
  unfold pressed Tape.after
  cases hpress : s.press key with
  | ok result => exact haccepts s tape key _ _ h (accepts_of_press hpress)
  | error refusal => exact h

/-- No key changes the settings. -/
theorem reached_settings (settings : Settings) (keys : List Key) :
    (reached settings keys).settings = settings := by
  refine reached_of_accepts (P := fun s _ => s.settings = settings) rfl ?_ keys
  intro s _ key evaluation? next hsettings haccepts
  exact haccepts.settings_eq.trans hsettings

end Session

end InfixCalculator
