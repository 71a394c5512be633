import InfixCalculator.Proofs.Decimal.Grammar
import InfixCalculator.Proofs.Decimal.Nearest
import InfixCalculator.Proofs.Double.CorrectRounding

/-!
# The value of a literal

A decimal denotes the rational number that its digits, its point and its exponent say, `decimalValue`.
It is read as the double that this number is correctly rounded to, and the named literals as what they
name (`IsReadAs`).  No other double will do (`Spells.isReadAs_iff`).

The digits are rounded all at once, as a whole number with the exponent of the last digit
(`decimalValue_eq`), and a power of ten with a negative exponent is put into the denominator
(`ratio_eq`), so that nothing is lost before the ratio is rounded.
-/

namespace InfixCalculator.Literal

open Double

variable {text whole fraction : List Char} {exponent : Int} {literal : Literal} {x : Float}

/-- The number that a decimal denotes apart from its sign. -/
def decimalValue (whole fraction : List Char) (exponent : Int) : ℚ :=
  (ofDigits whole + ofDigits fraction / 10 ^ fraction.length) * 10 ^ exponent

/-- A double that is what a literal says. -/
def IsReadAs (literal : Literal) (x : Float) : Prop :=
  match literal.size with
  | .nan => x = Double.nan
  | .infinity => x = Double.infinity literal.negative
  | .decimal whole fraction exponent =>
    IsRounded literal.negative (signed literal.negative (decimalValue whole fraction exponent)) x

/-! ## Decimals as ratios -/

theorem decimalValue_nonneg (whole fraction : List Char) (exponent : Int) :
    0 ≤ decimalValue whole fraction exponent := by
  unfold decimalValue
  positivity

/-- All digits may be read as one whole number. -/
theorem decimalValue_eq (whole fraction : List Char) (exponent : Int) :
    decimalValue whole fraction exponent =
      ofDigits (whole ++ fraction) * 10 ^ (exponent - fraction.length) := by
  have hten : (10 : ℚ) ≠ 0 := by norm_num
  rw [decimalValue, ofDigits_append, Nat.cast_add, Nat.cast_mul, Nat.pow_eq, Nat.cast_pow,
    zpow_sub₀ hten, zpow_natCast]
  field_simp
  push_cast
  ring

/-- The ratio that a whole number with an exponent is rounded as. -/
theorem ratio_eq (coefficient : Nat) (exponent : Int) :
    ((coefficient * Nat.pow 10 exponent.toNat : Nat) : ℚ) / (Nat.pow 10 (-exponent).toNat : Nat) =
      coefficient * 10 ^ exponent := by
  simp only [Nat.pow_eq]
  cases exponent with
  | ofNat e =>
      have hwhole : (-(e : Int)).toNat = 0 := by omega
      rw [Int.ofNat_eq_natCast, Int.toNat_natCast, hwhole, zpow_natCast]
      push_cast
      ring
  | negSucc e =>
      have hplaces : (-Int.negSucc e).toNat = e + 1 := rfl
      rw [Int.toNat_negSucc, hplaces, zpow_negSucc]
      push_cast
      ring

/-- A decimal is rounded correctly, however many digits it has and whatever its exponent is. -/
theorem isRounded_roundDigits (hwhole : AllDigits whole) (hfraction : AllDigits fraction)
    (exponent : Int) (negative : Bool) :
    IsRounded negative (signed negative (decimalValue whole fraction exponent))
      (ofIndex negative (roundDigits whole fraction exponent)) := by
  have hround : roundDigits whole fraction exponent =
      Decimal.nearest ⟨ofDigits (whole ++ fraction), exponent - fraction.length⟩ :=
    Decimal.roundDecimal_eq_nearest _ (ofDigits_lt (hwhole.append hfraction))
  obtain ⟨i, hnearest, hindex⟩ := exists_isNearest
    (ofDigits (whole ++ fraction) * Nat.pow 10 (exponent - fraction.length).toNat)
    (Decimal.pow_ten_pos (-(exponent - fraction.length)).toNat)
  rw [ratio_eq, ← decimalValue_eq] at hnearest
  rw [hround, Decimal.nearest, hindex]
  exact hnearest.isRounded (decimalValue_nonneg whole fraction exponent) negative

/-! ## Literals -/

theorem IsCoefficient.allDigits {coefficient : List Char}
    (h : IsCoefficient whole fraction coefficient) : AllDigits whole ∧ AllDigits fraction := by
  have hnone : AllDigits [] := allDigits_zeros 0
  cases h with
  | whole hwhole => exact ⟨hwhole.2, hnone⟩
  | point hwhole hfraction => exact ⟨hwhole.2, hfraction⟩
  | pointFirst hfraction => exact ⟨hnone, hfraction.2⟩

/-- What the grammar derives is read as what it says. -/
theorem Spells.toFloat_isReadAs (h : Spells literal text) : literal.IsReadAs literal.toFloat := by
  obtain ⟨hsign, hsize⟩ := h
  cases hsize with
  | nan => exact rfl
  | infinity => exact rfl
  | decimal hcoefficient =>
      obtain ⟨hwhole, hfraction⟩ := hcoefficient.allDigits
      exact isRounded_roundDigits hwhole hfraction _ _

theorem IsReadAs.unique {y : Float} (hx : literal.IsReadAs x) (hy : literal.IsReadAs y) : x = y := by
  obtain ⟨negative, size⟩ := literal
  cases size with
  | nan => exact Eq.trans hx (Eq.symm hy)
  | infinity => exact Eq.trans hx (Eq.symm hy)
  | decimal whole fraction exponent => exact IsRounded.unique hx hy

/-- Nothing else is. -/
theorem Spells.isReadAs_iff (h : Spells literal text) :
    literal.IsReadAs x ↔ x = literal.toFloat := by
  constructor
  · exact fun hx => hx.unique h.toFloat_isReadAs
  · rintro rfl
    exact h.toFloat_isReadAs

end InfixCalculator.Literal
