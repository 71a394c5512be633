import InfixCalculator.Keypad.Action
import InfixCalculator.Proofs.Keypad.Press

/-!
# Keys are atomic

A key that is refused leaves the session as it was, although it assigns the fields one after the
other and may be refused at many points: whatever the fields hold, no refusal comes after an
assignment.  This is shown key by key, where `Action.perform` is run on a session and compared with
`Session.press`, which has no session to return with a refusal (`perform_run`).  What an accepted key
leaves alone is then read off `Session.Accepts`.
-/

namespace InfixCalculator

namespace Action

variable {α : Type}

/-- The end of an action that assigns nothing before it is refused, in terms of what it gives. -/
def outcome (s : Session) : Except Refusal (α × Session) → EStateM.Result Refusal Session α
  | .ok (result, next) => .ok result next
  | .error refusal => .error refusal s

/-! ## Steps -/

theorem run_ite (c : Prop) [Decidable c] (x y : Action α) (s : Session) :
    (if c then x else y).run s = if c then x.run s else y.run s := by
  split <;> rfl

theorem setEntry_run (entry : List Char) (s : Session) :
    (setEntry entry).run s = .ok () { s with entry := entry } := rfl

theorem setDisplay_run (display : List Char) (s : Session) :
    (setDisplay display).run s = .ok () { s with display := display } := rfl

theorem refuse_run (flaw : EntryFlaw) (s : Session) :
    (refuse flaw).run s = .error (.entry flaw) s := rfl

/-- Giving a fixed result in the end changes nothing else. -/
theorem run_then_none {x : Action Unit} {s : Session} (next : Except Refusal Session)
    (h : x.run s = outcome s (next.map ((), ·))) :
    (do x; return none : Action (Option Evaluation)).run s = outcome s (next.map (none, ·)) := by
  rw [EStateM.run_bind, h]
  cases next <;> rfl

/-! ## Keys of the entry -/

theorem digit_run (label : String) (s : Session) :
    (digit label).run s = outcome s ((s.pressDigit label).map ((), ·)) := by
  unfold digit Session.pressDigit
  rcases label.toList with _ | ⟨c, _ | ⟨d, rest⟩⟩
  · rfl
  · cases hc : Literal.isDigit c <;> simp only [hc] <;> rfl
  · rfl

theorem decimal_run (s : Session) :
    decimal.run s = outcome s (.ok ((), s.pressDecimal)) := by
  simp only [decimal, Session.pressDecimal, EStateM.run_bind, EStateM.run_get, run_ite,
    setEntry_run]
  cases s.entry.contains '.' <;> rfl

theorem negate_run (s : Session) : negate.run s = outcome s (s.negate.map ((), ·)) := by
  simp only [negate, Session.negate, EStateM.run_bind, EStateM.run_get, run_ite, refuse_run,
    setEntry_run]
  split_ifs <;> rfl

theorem squareRoot_run (s : Session) :
    squareRoot.run s = outcome s (s.squareRoot.map ((), ·)) := by
  simp only [squareRoot, Session.squareRoot, EStateM.run_bind, EStateM.run_get, run_ite, refuse_run]
  split_ifs
  · rfl
  · rfl
  · cases Literal.ofChars? s.entry with
    | none => rfl
    | some literal =>
        cases hroot : realRoot literal.toFloat <;> simp only [hroot] <;> rfl

theorem delete_run (s : Session) : delete.run s = outcome s (s.delete.map ((), ·)) := by
  simp only [delete, Session.delete, EStateM.run_bind, EStateM.run_get, run_ite, refuse_run,
    setEntry_run]
  split_ifs <;> rfl

/-! ## Keys of the display -/

theorem place_run (symbol : List Char) (s : Session) :
    (place symbol).run s = outcome s ((s.place symbol).map ((), ·)) := by
  simp only [place, Session.place, EStateM.run_bind, EStateM.run_get, run_ite, refuse_run,
    setEntry_run, setDisplay_run]
  split_ifs
  · rfl
  · cases Session.shownResult? s.display <;> rfl
  all_goals rfl

theorem operator_run (label : String) (s : Session) :
    (operator label).run s = outcome s ((s.pressOperator label).map ((), ·)) := by
  unfold operator Session.pressOperator
  cases Session.operatorKeys.contains label with
  | false => rfl
  | true => exact place_run label.toList s

theorem openParen_run (s : Session) : openParen.run s = outcome s (s.openParen.map ((), ·)) := by
  simp only [openParen, Session.openParen, EStateM.run_bind, EStateM.run_get, run_ite, refuse_run,
    setDisplay_run]
  split_ifs <;> rfl

theorem closeParen_run (s : Session) : closeParen.run s = outcome s (s.closeParen.map ((), ·)) := by
  simp only [closeParen, Session.closeParen, EStateM.run_bind, EStateM.run_get, run_ite, refuse_run,
    setDisplay_run, place_run]
  split_ifs <;> rfl

theorem equals_run (s : Session) : equals.run s = outcome s s.equals := by
  simp only [equals, Session.equals, EStateM.run_bind, EStateM.run_get, run_ite, refuse_run]
  split_ifs
  · rfl
  · rfl
  · cases evaluate (String.ofList s.expression) s.settings <;> rfl

/-! ## All keys -/

/-- Performing a key ends as pressing it does, and on the same session if it is refused. -/
theorem perform_run (key : Key) (s : Session) : (perform key).run s = outcome s (s.press key) := by
  cases key with
  | digit label => exact run_then_none _ (digit_run label s)
  | operator label => exact run_then_none _ (operator_run label s)
  | decimal => exact run_then_none (.ok s.pressDecimal) (decimal_run s)
  | openParen => exact run_then_none _ (openParen_run s)
  | closeParen => exact run_then_none _ (closeParen_run s)
  | negate => exact run_then_none _ (negate_run s)
  | squareRoot => exact run_then_none _ (squareRoot_run s)
  | delete => exact run_then_none _ (delete_run s)
  | clearEntry => rfl
  | clearAll => rfl
  | equals =>
      rw [perform, EStateM.run_bind, equals_run, Session.press]
      cases s.equals <;> rfl

end Action

namespace Session

variable {s next : Session} {key : Key} {evaluation? : Option Evaluation}

/-! ## What a key leaves alone -/

theorem Accepts.display_eq (h : s.Accepts key evaluation? next) (hkey : key.editsEntry = true) :
    next.display = s.display := by
  cases h with
  | edit => rfl
  | _ => cases hkey

theorem Accepts.entry_eq (h : s.Accepts .openParen evaluation? next) : next.entry = s.entry := by
  cases h with
  | edit hkey => cases hkey
  | openParen => rfl

end Session

/-- **Keys are atomic.**  Whatever a session holds, a key that is refused leaves it as it was.  A key
that is accepted leaves the display alone if it edits the entry, and the entry if it opens a
parenthesis. -/
theorem perform_atomic (key : Key) (s : Session) :
    match (Action.perform key).run s with
    | .error refusal after => after = s ∧ s.press key = .error refusal
    | .ok evaluation? after =>
      s.press key = .ok (evaluation?, after) ∧
        (key.editsEntry = true → after.display = s.display) ∧
        (key = .openParen → after.entry = s.entry) := by
  rw [Action.perform_run]
  cases hpress : s.press key with
  | error refusal => exact ⟨rfl, rfl⟩
  | ok result =>
      have haccepts := Session.accepts_of_press hpress
      refine ⟨rfl, haccepts.display_eq, ?_⟩
      rintro rfl
      exact haccepts.entry_eq

end InfixCalculator
