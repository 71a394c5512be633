import InfixCalculator.Arithmetic
import InfixCalculator.Proofs.Decimal.LiteralText
import InfixCalculator.Proofs.Double.Order
import InfixCalculator.Proofs.Double.Rounding

/-!
# The sign of a literal

A number is rounded without its sign and gets the sign back afterwards, also when it was rounded to
zero or to infinity.  So a text that holds no minus sign is never read as a number below zero, and
its square root is defined (`realRoot_toFloat`).  With the other sign the same text denotes the
opposite number (`toFloat_not`).
-/

namespace InfixCalculator

open Double

namespace Literal

theorem roundDecimal_le_infinityIndex (coefficient length : Nat) (exponent : Int) :
    roundDecimal coefficient length exponent ≤ infinityIndex := by
  unfold roundDecimal
  split_ifs
  · exact Nat.zero_le _
  · exact Nat.le_refl _
  · exact Nat.zero_le _
  · cases exponent with
    | ofNat e => exact roundRatio_le_infinityIndex _ _
    | negSucc e => exact roundRatio_le_infinityIndex _ _

/-- A literal without a minus sign does not denote a double with the sign bit set. -/
theorem isNegative_toFloat {literal : Literal} (h : literal.negative = false) :
    isNegative literal.toFloat = false := by
  unfold toFloat
  split
  · decide
  · rw [h]
    exact isNegative_ofIndex false (Nat.le_refl _)
  · rw [h]
    exact isNegative_ofIndex false (roundDecimal_le_infinityIndex _ _ _)

theorem negative_of_not_mem {text : List Char} {literal : Literal}
    (h : ofChars? text = some literal) (hminus : '-' ∉ text) : literal.negative = false := by
  simp only [ofChars?] at h
  obtain ⟨size, -, rfl⟩ := Option.map_eq_some_iff.1 h
  show (splitSign text).1 = false
  unfold splitSign
  split
  · rfl
  · exact absurd List.mem_cons_self hminus
  · rfl

/-- The number on an entry without a minus sign has a square root. -/
theorem realRoot_toFloat {text : List Char} {literal : Literal}
    (h : ofChars? text = some literal) (hminus : '-' ∉ text) :
    realRoot literal.toFloat = .ok literal.toFloat.sqrt := by
  have hpositive := isNegative_toFloat (negative_of_not_mem h hminus)
  simp [realRoot, isBelowZero, hpositive]

/-! ## The other sign -/

/-- A literal with the other sign denotes the opposite number. -/
theorem toFloat_not (negative : Bool) (size : Size) :
    (Literal.mk (!negative) size).toFloat = -(Literal.mk negative size).toFloat := by
  cases size with
  | nan => exact neg_nan.symm
  | infinity => exact (neg_ofIndex negative (Nat.le_refl _)).symm
  | decimal whole fraction exponent =>
      exact (neg_ofIndex negative (roundDecimal_le_infinityIndex _ _ _)).symm

/-- With a minus sign in front no literal denotes a number above zero. -/
theorem not_pos_toFloat (size : Size) : ¬ 0 < (Literal.mk true size).toFloat := by
  cases size with
  | nan => exact not_lt_nan 0
  | infinity => exact not_zero_lt_ofIndex (Nat.le_refl _)
  | decimal whole fraction exponent =>
      exact not_zero_lt_ofIndex (roundDecimal_le_infinityIndex _ _ _)

/-- What follows the sign of a number begins with no other sign. -/
theorem splitSign_of_size? {text : List Char} {size : Size} (h : size? text = some size) :
    splitSign text = (false, text) := by
  unfold splitSign
  split
  · cases h
  · cases h
  · rfl

/-- A text that is read without a sign may be written with either. -/
theorem ofChars?_of_size? {text : List Char} {size : Size} (h : size? text = some size) :
    ofChars? text = some ⟨false, size⟩ ∧ ofChars? ('-' :: text) = some ⟨true, size⟩ := by
  constructor
  · simp only [ofChars?, splitSign_of_size? h, h, Option.map_some]
  · simp only [ofChars?, splitSign, h, Option.map_some]

end Literal

end InfixCalculator
