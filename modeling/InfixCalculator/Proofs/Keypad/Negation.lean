import InfixCalculator.Proofs.Decimal.Sign
import InfixCalculator.Proofs.Keypad.Entry

/-!
# Turning the sign of an entry

The sign key does not look for a sign in front but for a minus sign anywhere, and if there is one it
takes away the first character.  On a number this turns the sign as long as no minus sign stands
behind the first character, and then the key undoes itself.  A square root below `0.0001` is written
with an exponent whose sign is a minus.  On such an entry the key removes a digit instead, and so it
does when it is pressed again: nothing is restored.

`reached_negate` says this of every number that the keys can bring about.
-/

namespace InfixCalculator

open Decimal

namespace Session

variable {s : Session}

/-! ## What the key does -/

theorem press_negate_of_mem (hminus : '-' ∈ s.entry) :
    s.press .negate = .ok (none, { s with entry := s.entry.drop 1 }) := by
  have hne : s.entry ≠ [] := List.ne_nil_of_mem hminus
  by_cases hsign : s.entry = ['-']
  · simp only [press, negate, if_neg hne, if_pos hsign]
    rw [hsign]
    rfl
  · simp only [press, negate, if_neg hne, if_neg hsign, List.contains_iff_mem.2 hminus, if_true]
    rfl

theorem press_negate_of_not_mem (hminus : '-' ∉ s.entry) (hne : s.entry ≠ []) :
    s.press .negate = .ok (none, { s with entry := '-' :: s.entry }) := by
  have hsign : s.entry ≠ ['-'] := fun hsign => hminus (hsign ▸ List.mem_singleton_self _)
  have hcontains : s.entry.contains '-' = false := by simpa using hminus
  simp only [press, negate, if_neg hne, if_neg hsign, hcontains]
  rfl

/-! ## Numbers -/

/-- On a number with no minus sign but one in front, the key turns the sign and undoes itself. -/
theorem negate_turns {literal : Literal} (hliteral : Literal.ofChars? s.entry = some literal)
    (hsigned : WellSigned s.entry) (hminus : '-' ∉ s.entry.drop 1) :
    ∃ next negated, s.press .negate = .ok (none, next) ∧ next.display = s.display ∧
      Literal.ofChars? next.entry = some negated ∧ negated.toFloat = -literal.toFloat ∧
      next.press .negate = .ok (none, s) := by
  obtain ⟨entry, display, settings⟩ := s
  cases entry with
  | nil => cases hliteral
  | cons first body =>
      by_cases hfirst : first = '-'
      · -- what follows the sign is a number without a sign
        subst hfirst
        obtain ⟨size, hsize, rfl⟩ := Option.map_eq_some_iff.1 hliteral
        have hbody : body ≠ [] := by
          rintro rfl
          cases hsize
        exact ⟨⟨body, display, settings⟩, ⟨false, size⟩, press_negate_of_mem List.mem_cons_self,
          rfl, (Literal.ofChars?_of_size? hsize).1, Literal.toFloat_not true size,
          press_negate_of_not_mem hminus hbody⟩
      · -- the number has no sign at all
        have hnone : '-' ∉ first :: body :=
          fun hmem => (List.mem_cons.1 hmem).elim (fun heq => hfirst heq.symm) hminus
        have hplus := hsigned.no_leading_plus hnone
        have hsplit : Literal.splitSign (first :: body) = (false, first :: body) := by
          unfold Literal.splitSign
          split <;> simp_all
        rw [Literal.ofChars?, hsplit] at hliteral
        obtain ⟨size, hsize, rfl⟩ := Option.map_eq_some_iff.1 hliteral
        exact ⟨⟨'-' :: first :: body, display, settings⟩, ⟨true, size⟩,
          press_negate_of_not_mem hnone (by simp), rfl, (Literal.ofChars?_of_size? hsize).2,
          Literal.toFloat_not false size, press_negate_of_mem List.mem_cons_self⟩

/-- Where a minus sign stands behind the first character, the key takes that character away and does
not bring it back. -/
theorem negate_shortens (hminus : '-' ∈ s.entry.drop 1) :
    ∃ next, s.press .negate = .ok (none, next) ∧ next.display = s.display ∧
      next.entry = s.entry.drop 1 ∧
      ∀ last, next.press .negate = .ok (none, last) → last.entry ≠ s.entry := by
  refine ⟨_, press_negate_of_mem (List.mem_of_mem_drop hminus), rfl, rfl, ?_⟩
  intro last hlast hsame
  rw [press_negate_of_mem hminus] at hlast
  cases hlast
  have hlength := congrArg List.length hsame
  have hpositive := List.length_pos_of_mem hminus
  simp only [List.length_drop] at hlength hpositive
  omega

/-- **Turning the sign of a number.**  On a number that any keys have brought about the sign key is
accepted and leaves the display alone.  If no minus sign stands behind the first character, the
entry becomes a number with the opposite value, and the key restores it when it is pressed again.
If one does, as in a negative exponent, the first character is lost and is not restored. -/
theorem reached_negate (settings : Settings) (keys : List Key) {literal : Literal}
    (hliteral : Literal.ofChars? (reached settings keys).entry = some literal) :
    ∃ next, (reached settings keys).press .negate = .ok (none, next) ∧
      next.display = (reached settings keys).display ∧
      ('-' ∉ (reached settings keys).entry.drop 1 →
        (∃ negated, Literal.ofChars? next.entry = some negated ∧
          negated.toFloat = -literal.toFloat) ∧
        next.press .negate = .ok (none, reached settings keys)) ∧
      ('-' ∈ (reached settings keys).entry.drop 1 →
        next.entry = (reached settings keys).entry.drop 1 ∧
        ∀ last, next.press .negate = .ok (none, last) →
          last.entry ≠ (reached settings keys).entry) := by
  by_cases hminus : '-' ∈ (reached settings keys).entry.drop 1
  · obtain ⟨next, hpress, hdisplay, hentry, hlast⟩ := negate_shortens hminus
    exact ⟨next, hpress, hdisplay, fun hnone => absurd hminus hnone, fun _ => ⟨hentry, hlast⟩⟩
  · obtain ⟨next, negated, hpress, hdisplay, hread, hvalue, hback⟩ :=
      negate_turns hliteral (wellSigned_reached settings keys) hminus
    exact ⟨next, hpress, hdisplay, fun _ => ⟨⟨negated, hread, hvalue⟩, hback⟩,
      fun hmem => absurd hmem hminus⟩

/-- The root of four, on which the sign is turned and turned back. -/
theorem negate_rootOfFour :
    let s := reached {} [.digit "4", .squareRoot]
    Literal.ofChars? s.entry = some ⟨false, .decimal ['2'] ['0'] 0⟩ ∧ '-' ∉ s.entry.drop 1 ∧
      ∃ next negated, s.press .negate = .ok (none, next) ∧
        Literal.ofChars? next.entry = some negated ∧
        negated.toFloat = -(⟨false, .decimal ['2'] ['0'] 0⟩ : Literal).toFloat ∧
        next.press .negate = .ok (none, s) := by
  intro s
  have hliteral : Literal.ofChars? s.entry = some ⟨false, .decimal ['2'] ['0'] 0⟩ := by
    decide +kernel
  have hminus : '-' ∉ s.entry.drop 1 := by decide +kernel
  obtain ⟨next, hpress, -, hturned, -⟩ := reached_negate {} [.digit "4", .squareRoot] hliteral
  obtain ⟨⟨negated, hread, hvalue⟩, hback⟩ := hturned hminus
  exact ⟨hliteral, hminus, next, negated, hpress, hread, hvalue, hback⟩

/-- A root that is written with a negative exponent is a number, but the sign key cuts it off from
the front. -/
theorem negate_smallRoot :
    let s := reached {}
      (.decimal :: List.replicate 9 (.digit "0") ++ [.digit "1", .squareRoot])
    s.entry = "1e-05".toList ∧ (Literal.ofChars? s.entry).isSome = true ∧
      (s.pressed .negate).entry = "e-05".toList ∧
      Literal.ofChars? (s.pressed .negate).entry = none ∧
      ((s.pressed .negate).pressed .negate).entry = "-05".toList := by
  decide +kernel

end Session

end InfixCalculator
