import InfixCalculator.Proofs.Decimal.Sign
import InfixCalculator.Proofs.Double.SquareRoot
import InfixCalculator.Proofs.Keypad.Entry

/-!
# The square root of an entry

The root key takes any minus sign in an entry for the sign of a negative number.  A positive number
without one has a root, and the entry becomes the text of that root, which is positive again.  Below
`0.0001` this text is written with an exponent, whose minus sign the key takes for the sign of a
number as well (`squareRoot_again`): so such a root is refused, though it is positive.

Nothing else is refused: a positive number that was only typed has no minus sign, and where there is
one, some square root was taken before (`squareRoot_mem_of_minus`).  `reached_squareRoot` puts this
together for all numbers that the keys can bring about.
-/

namespace InfixCalculator

open Decimal Double

namespace Session

variable {s : Session}

/-! ## What the key does -/

theorem press_squareRoot_of_mem (hminus : '-' ∈ s.entry) :
    s.press .squareRoot = .error (.entry .negativeRoot) := by
  have hne : s.entry ≠ [] := List.ne_nil_of_mem hminus
  simp only [press, squareRoot, if_neg hne, List.contains_iff_mem.2 hminus, if_true]
  rfl

theorem press_squareRoot_of_not_mem {literal : Literal}
    (hliteral : Literal.ofChars? s.entry = some literal) (hminus : '-' ∉ s.entry) :
    s.press .squareRoot =
      .ok (none, { s with entry := (literalText literal.toFloat.sqrt).toList }) := by
  have hne : s.entry ≠ [] := by
    intro hnil
    rw [hnil, Literal.ofChars?_nil] at hliteral
    cases hliteral
  have hcontains : s.entry.contains '-' = false := by simpa using hminus
  simp only [press, squareRoot, if_neg hne, hcontains, hliteral,
    Literal.realRoot_toFloat hliteral hminus]
  rfl

/-! ## Roots of numbers -/

/-- The root of a positive number is one, of which the root can be taken in turn unless it is below
`0.0001`. -/
theorem squareRoot_again {literal : Literal}
    (hliteral : Literal.ofChars? s.entry = some literal) (hpositive : 0 < literal.toFloat)
    (hminus : '-' ∉ s.entry) :
    ∃ next root, s.press .squareRoot = .ok (none, next) ∧ next.display = s.display ∧
      Literal.ofChars? next.entry = some root ∧ root.toFloat = literal.toFloat.sqrt ∧
      0 < root.toFloat ∧
      (root.toFloat < 0.0001 → next.press .squareRoot = .error (.entry .negativeRoot)) ∧
      (¬ root.toFloat < 0.0001 → ∃ last, next.press .squareRoot = .ok (none, last)) := by
  obtain ⟨root, hroot, hvalue⟩ := literalText_reads literal.toFloat.sqrt
  have hsign : isNegative literal.toFloat.sqrt = false :=
    isNegative_sqrt (Literal.isNegative_toFloat (Literal.negative_of_not_mem hliteral hminus))
  have hrooted : 0 < literal.toFloat.sqrt := sqrt_pos hpositive
  refine ⟨_, root, press_squareRoot_of_not_mem hliteral hminus, rfl, hroot, hvalue, ?_, ?_, ?_⟩
  · rw [hvalue]
    exact hrooted
  · intro hsmall
    rw [hvalue] at hsmall
    exact press_squareRoot_of_mem ((minus_mem_literalText_iff hsign).mpr ⟨hrooted, hsmall⟩)
  · intro hlarge
    rw [hvalue] at hlarge
    have hnone : '-' ∉ (literalText literal.toFloat.sqrt).toList :=
      fun hmem => hlarge ((minus_mem_literalText_iff hsign).mp hmem).2
    exact ⟨_, press_squareRoot_of_not_mem hroot hnone⟩

/-- A minus sign in a positive number comes from a square root that was taken before. -/
theorem squareRoot_mem_of_minus (settings : Settings) {keys : List Key} {literal : Literal}
    (hliteral : Literal.ofChars? (reached settings keys).entry = some literal)
    (hpositive : 0 < literal.toFloat) (hminus : '-' ∈ (reached settings keys).entry) :
    .squareRoot ∈ keys := by
  by_contra hkeys
  have hbehind := no_minus_behind_reached settings hkeys
  generalize (reached settings keys).entry = entry at hliteral hminus hbehind
  cases entry with
  | nil => cases hminus
  | cons first rest =>
      rcases List.mem_cons.mp hminus with rfl | hmem
      · obtain ⟨size, -, rfl⟩ := Option.map_eq_some_iff.1 hliteral
        exact Literal.not_pos_toFloat size hpositive
      · exact hbehind hmem

/-- **The square root of a number.**  On a positive number that any keys have brought about the root
key is accepted if there is no minus sign in the entry.  It leaves the display alone and makes the
entry a positive number that denotes the root, and it is accepted again unless this root is below
`0.0001`.  If there is a minus sign in the entry, the key refuses the number as negative, and it was
pressed before. -/
theorem reached_squareRoot (settings : Settings) (keys : List Key) {literal : Literal}
    (hliteral : Literal.ofChars? (reached settings keys).entry = some literal)
    (hpositive : 0 < literal.toFloat) :
    ('-' ∉ (reached settings keys).entry →
      ∃ next root, (reached settings keys).press .squareRoot = .ok (none, next) ∧
        next.display = (reached settings keys).display ∧
        Literal.ofChars? next.entry = some root ∧ root.toFloat = literal.toFloat.sqrt ∧
        0 < root.toFloat ∧
        (root.toFloat < 0.0001 → next.press .squareRoot = .error (.entry .negativeRoot)) ∧
        (¬ root.toFloat < 0.0001 → ∃ last, next.press .squareRoot = .ok (none, last))) ∧
      ('-' ∈ (reached settings keys).entry →
        (reached settings keys).press .squareRoot = .error (.entry .negativeRoot) ∧
          .squareRoot ∈ keys) := by
  constructor
  · exact squareRoot_again hliteral hpositive
  · intro hminus
    exact ⟨press_squareRoot_of_mem hminus,
      squareRoot_mem_of_minus settings hliteral hpositive hminus⟩

/-- The root of sixteen, of which the root is taken again. -/
theorem squareRoot_rootOfSixteen :
    let s := reached {} [.digit "1", .digit "6", .squareRoot]
    Literal.ofChars? s.entry = some ⟨false, .decimal ['4'] ['0'] 0⟩ ∧
      0 < (⟨false, .decimal ['4'] ['0'] 0⟩ : Literal).toFloat ∧ '-' ∉ s.entry ∧
      ∃ next root, s.press .squareRoot = .ok (none, next) ∧
        Literal.ofChars? next.entry = some root ∧
        root.toFloat = (⟨false, .decimal ['4'] ['0'] 0⟩ : Literal).toFloat.sqrt := by
  intro s
  have hliteral : Literal.ofChars? s.entry = some ⟨false, .decimal ['4'] ['0'] 0⟩ := by
    decide +kernel
  have hpositive : 0 < (⟨false, .decimal ['4'] ['0'] 0⟩ : Literal).toFloat := by decide +kernel
  have hminus : '-' ∉ s.entry := by decide +kernel
  obtain ⟨hrooted, -⟩ := reached_squareRoot {} [.digit "1", .digit "6", .squareRoot] hliteral hpositive
  obtain ⟨next, root, hpress, -, hread, hvalue, -⟩ := hrooted hminus
  exact ⟨hliteral, hpositive, hminus, next, root, hpress, hread, hvalue⟩

/-- A root that is written with a negative exponent is a positive number, but the root key refuses it
as a negative one. -/
theorem squareRoot_smallRoot :
    let s := reached {}
      (.decimal :: List.replicate 9 (.digit "0") ++ [.digit "1", .squareRoot])
    s.entry = "1e-05".toList ∧
      Literal.ofChars? s.entry = some ⟨false, .decimal ['1'] [] (-5)⟩ ∧
      0 < (⟨false, .decimal ['1'] [] (-5)⟩ : Literal).toFloat ∧
      s.press .squareRoot = .error (.entry .negativeRoot) := by
  intro s
  have hminus : '-' ∈ s.entry := by decide +kernel
  exact ⟨by decide +kernel, by decide +kernel, by decide +kernel, press_squareRoot_of_mem hminus⟩

end Session

end InfixCalculator
