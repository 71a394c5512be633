import InfixCalculator.Proofs.Decimal.Digits
import InfixCalculator.Proofs.Double.Rounding

/-!
# The double nearest to a decimal

Reading takes two shortcuts, for decimals that are far too large and for those that are far too
small.  Neither changes the result (`roundDecimal_eq_nearest`), so that a decimal is read by its
value alone and zeros at its end do not matter (`nearest_shift`).  The decimal chosen for a
double is read as that double: the candidates were tried, and the exact expansion, which is
taken when none was found, is the value of the double (`nearest_shortest`).
-/

namespace InfixCalculator.Decimal

open Double

/-- The index of the double nearest to a decimal. -/
def nearest (decimal : Scaled) : Nat :=
  roundRatio (decimal.coefficient * Nat.pow 10 decimal.exponent.toNat)
    (Nat.pow 10 (-decimal.exponent).toNat)

theorem pow_ten_pos (k : Nat) : 0 < Nat.pow 10 k := Nat.pow_pos (by decide)

theorem pow_ten_add (j k : Nat) : Nat.pow 10 (j + k) = Nat.pow 10 j * Nat.pow 10 k := Nat.pow_add ..

theorem pow_ten_le {j k : Nat} (h : j ≤ k) : Nat.pow 10 j ≤ Nat.pow 10 k :=
  Nat.pow_le_pow_right (by decide) h

/-! ## The shortcuts -/

theorem nearest_zero (exponent : Int) : nearest ⟨0, exponent⟩ = 0 := by
  apply roundRatio_eq_zero
  rw [Nat.zero_mul, Nat.zero_mul]
  exact pow_ten_pos _

/-- No double but infinity is near to a decimal beyond the upper bound. -/
theorem nearest_of_large {coefficient : Nat} {exponent : Int} (hcoefficient : coefficient ≠ 0)
    (h : exponent > Literal.exponentBound) : nearest ⟨coefficient, exponent⟩ = infinityIndex := by
  have hbound : exponent > 400 := h
  have hnatural : (-exponent).toNat = 0 := by omega
  have hlarge : Nat.pow 2 1024 ≤ Nat.pow 10 401 := by decide +kernel
  unfold nearest
  rw [hnatural]
  apply roundRatio_eq_infinityIndex
  calc Nat.pow 2 1024
    _ ≤ Nat.pow 10 401 := hlarge
    _ ≤ Nat.pow 10 exponent.toNat := pow_ten_le (by omega)
    _ ≤ coefficient * Nat.pow 10 exponent.toNat :=
        Nat.le_mul_of_pos_left _ (Nat.pos_of_ne_zero hcoefficient)

/-- No double but zero is near to a decimal beyond the lower bound. -/
theorem nearest_of_small {coefficient length : Nat} {exponent : Int}
    (hlength : coefficient < Nat.pow 10 length)
    (h : exponent + length < -(Literal.exponentBound : Int)) :
    nearest ⟨coefficient, exponent⟩ = 0 := by
  have hbound : exponent + length < -400 := h
  have hwhole : exponent.toNat = 0 := by omega
  have hsmall : 2 * unitsPerOne ≤ Nat.pow 10 401 := by decide +kernel
  unfold nearest
  rw [hwhole]
  apply roundRatio_eq_zero
  calc 2 * (coefficient * 1 * unitsPerOne)
    _ = coefficient * (2 * unitsPerOne) := by rw [Nat.mul_one, Nat.mul_left_comm]
    _ ≤ coefficient * Nat.pow 10 401 := Nat.mul_le_mul_left _ hsmall
    _ < Nat.pow 10 length * Nat.pow 10 401 :=
        Nat.mul_lt_mul_of_pos_right hlength (pow_ten_pos 401)
    _ = Nat.pow 10 (length + 401) := (pow_ten_add _ _).symm
    _ ≤ Nat.pow 10 (-exponent).toNat := pow_ten_le (by omega)

/-- A decimal is read as the double nearest to it. -/
theorem roundDecimal_eq_nearest {coefficient length : Nat} (exponent : Int)
    (hlength : coefficient < Nat.pow 10 length) :
    Literal.roundDecimal coefficient length exponent = nearest ⟨coefficient, exponent⟩ := by
  unfold Literal.roundDecimal
  split
  · rename_i hzero
    subst hzero
    exact (nearest_zero exponent).symm
  · rename_i hcoefficient
    split
    · rename_i hlarge
      exact (nearest_of_large hcoefficient hlarge).symm
    · split
      · -- the bound counts the digits, so that long coefficients are not cut off
        rename_i hsmall
        exact (nearest_of_small hlength hsmall).symm
      · cases exponent with
        | ofNat e =>
            show roundRatio (coefficient * Nat.pow 10 e) 1
              = roundRatio (coefficient * Nat.pow 10 e) (Nat.pow 10 (-(e : Int)).toNat)
            rw [show (-(e : Int)).toNat = 0 by omega]
        | negSucc e =>
            show roundRatio coefficient (Nat.pow 10 (e + 1))
              = roundRatio (coefficient * 1) (Nat.pow 10 (e + 1))
            rw [Nat.mul_one]

/-! ## The value alone counts -/

theorem nearest_shift (coefficient count : Nat) (exponent : Int) :
    nearest ⟨coefficient * Nat.pow 10 count, exponent - count⟩ = nearest ⟨coefficient, exponent⟩ := by
  apply roundRatio_congr (pow_ten_pos _) (pow_ten_pos _)
  have hexponents : count + (exponent - count).toNat + (-exponent).toNat
      = exponent.toNat + (-(exponent - count)).toNat := by omega
  calc coefficient * Nat.pow 10 count * Nat.pow 10 (exponent - count).toNat
        * Nat.pow 10 (-exponent).toNat
    _ = coefficient * Nat.pow 10 (count + (exponent - count).toNat + (-exponent).toNat) := by
        rw [pow_ten_add, pow_ten_add, Nat.mul_assoc, Nat.mul_assoc, Nat.mul_assoc]
    _ = coefficient * Nat.pow 10 exponent.toNat * Nat.pow 10 (-(exponent - count)).toNat := by
        rw [hexponents, pow_ten_add, Nat.mul_assoc]

/-! ## The shortest decimal -/

theorem pow_five_mul_pow_two (k : Nat) : Nat.pow 5 k * Nat.pow 2 k = Nat.pow 10 k :=
  (Nat.mul_pow 5 2 k).symm

theorem nearest_expansion {index : Nat} (hfinite : index < infinityIndex) :
    nearest ⟨expansion index, -exactPlaces⟩ = index := by
  have hwhole : (-(exactPlaces : Int)).toNat = 0 := Int.toNat_neg_natCast exactPlaces
  have hplaces : (- -(exactPlaces : Int)).toNat = exactPlaces := by
    rw [Int.neg_neg, Int.toNat_natCast]
  have hone : Nat.pow 10 0 = 1 := rfl
  have hunits : unitsPerOne = Nat.pow 2 exactPlaces := by
    rw [unitsPerOne, exactPlaces]
  unfold nearest
  simp only [hwhole, hplaces]
  apply roundRatio_units (pow_ten_pos _) _ hfinite
  calc expansion index * Nat.pow 10 0 * unitsPerOne
    _ = units index * Nat.pow 5 exactPlaces * unitsPerOne := by rw [hone, Nat.mul_one, expansion]
    _ = units index * Nat.pow 10 exactPlaces := by
        rw [hunits, Nat.mul_assoc, pow_five_mul_pow_two]

theorem nearest_of_readsBack {index : Nat} {decimal : Scaled}
    (h : readsBack index decimal = true) : nearest decimal = index := by
  rw [← roundDecimal_eq_nearest decimal.exponent (lt_pow_digitCount decimal.coefficient)]
  exact beq_iff_eq.1 h

theorem nearest_of_candidate {index exact cut : Nat} {decimal : Scaled}
    (h : candidate? index exact cut = some decimal) : nearest decimal = index := by
  apply nearest_of_readsBack
  simp only [candidate?] at h
  split at h
  · cases h
  · rename_i hlower _
    cases h
    exact hlower
  · rename_i _ hupper
    cases h
    exact hupper
  · rename_i hlower hupper
    split at h <;> cases h
    · exact hlower
    · exact hupper

theorem nearest_shortestFrom {index : Nat} (hfinite : index < infinityIndex) (cut : Nat) :
    nearest (shortestFrom index (expansion index) cut) = index := by
  induction cut with
  | zero =>
      rw [shortestFrom]
      exact nearest_expansion hfinite
  | succ cut ih =>
      rw [shortestFrom]
      split
      · rename_i hcandidate
        exact nearest_of_candidate hcandidate
      · exact ih

/-- The shortest decimal of a finite double is read as that double. -/
theorem nearest_shortest {index : Nat} (hfinite : index < infinityIndex) :
    nearest (shortest index) = index := by
  rw [shortest]
  exact nearest_shortestFrom hfinite _

end InfixCalculator.Decimal
