import InfixCalculator.Double.Power
import InfixCalculator.Proofs.Double.Bits
import InfixCalculator.Proofs.Double.Rounding

/-!
# Powers that are not finite

Every power of two doubles is NaN or has the sign that an odd exponent takes over from the base, with
an index of at most infinity.  So a power that is not finite is NaN or the infinity of that sign
(`power_of_not_finite`).  Zero to a finite exponent below zero is such an infinity
(`power_of_isZero`).
-/

namespace InfixCalculator.Double

variable {x y : Float}

/-! ## Doubles that are not finite -/

theorem isFinite_ofIndex (negative : Bool) {i : Nat} (h : i ≤ infinityIndex) :
    isFinite (ofIndex negative i) = decide (i < infinityIndex) := by
  rw [isFinite, index_ofIndex negative h]

theorem isFinite_infinity (negative : Bool) : isFinite (infinity negative) = false := by
  rw [infinity, isFinite_ofIndex negative (Nat.le_refl _), decide_eq_false (Nat.lt_irrefl _)]

theorem isNaN_infinity (negative : Bool) : isNaN (infinity negative) = false := by
  rw [isNaN, infinity, index_ofIndex negative (Nat.le_refl _), decide_eq_false (Nat.lt_irrefl _)]

theorem isFinite_nan : isFinite nan = false := by decide +kernel

theorem isNaN_nan : isNaN nan = true := by decide +kernel

theorem isNaN_eq_false_of_isFinite (h : isFinite x = true) : isNaN x = false :=
  decide_eq_false (Nat.lt_asymm (of_decide_eq_true h))

/-- Infinity of either sign. -/
def IsInfinite (x : Float) : Prop :=
  ∃ negative, x = infinity negative

theorem IsInfinite.isFinite_eq_false (h : IsInfinite x) : isFinite x = false := by
  obtain ⟨negative, rfl⟩ := h
  exact isFinite_infinity negative

theorem IsInfinite.isNaN_eq_false (h : IsInfinite x) : isNaN x = false := by
  obtain ⟨negative, rfl⟩ := h
  exact isNaN_infinity negative

theorem IsInfinite.ne_nan (h : IsInfinite x) : x ≠ nan := by
  intro heq
  have hnumber := h.isNaN_eq_false
  rw [heq, isNaN_nan] at hnumber
  cases hnumber

/-! ## The index of a power -/

theorem roundDyadic_le_infinityIndex (coefficient : Nat) (exponent : Int) :
    roundDyadic coefficient exponent ≤ infinityIndex := by
  unfold roundDyadic
  split_ifs
  · exact Nat.zero_le _
  · exact Nat.le_refl _
  · exact Nat.zero_le _
  · cases exponent with
    | ofNat e => exact roundRatio_le_infinityIndex _ _
    | negSucc e => exact roundRatio_le_infinityIndex _ _

theorem roundExp2_le_infinityIndex (precision margin : Nat) (power : Enclosure) :
    (Enclosure.roundExp2 precision margin power).1 ≤ infinityIndex ∧
      (Enclosure.roundExp2 precision margin power).2 ≤ infinityIndex := by
  unfold Enclosure.roundExp2
  dsimp only
  split_ifs
  · exact ⟨Nat.le_refl _, Nat.le_refl _⟩
  · exact ⟨Nat.zero_le _, Nat.zero_le _⟩
  · exact ⟨roundDyadic_le_infinityIndex _ _, roundDyadic_le_infinityIndex _ _⟩

/-- The bounds hold whatever the machine's own power function answers. -/
theorem finitePowerIndex_le_infinityIndex (x y : Float) : finitePowerIndex x y ≤ infinityIndex := by
  have hbounds : (powerBounds (dyadic x) (isNegative y) (dyadic y)).1 ≤ infinityIndex ∧
      (powerBounds (dyadic x) (isNegative y) (dyadic y)).2 ≤ infinityIndex := by
    unfold powerBounds
    exact roundExp2_le_infinityIndex _ _ _
  unfold finitePowerIndex
  generalize powerBounds (dyadic x) (isNegative y) (dyadic y) = bounds at hbounds
  exact Nat.max_le.mpr ⟨hbounds.1, Nat.le_trans (Nat.min_le_left _ _) hbounds.2⟩

theorem powerIndex_le_infinityIndex (x y : Float) : powerIndex x y ≤ infinityIndex := by
  have hone : oneIndex ≤ infinityIndex := by decide
  unfold powerIndex
  dsimp only
  split_ifs
  all_goals first
    | exact hone
    | exact Nat.le_refl _
    | exact Nat.zero_le _
    | exact finitePowerIndex_le_infinityIndex x y

/-! ## Powers -/

/-- A power is NaN, or one, or takes its sign from the base under an odd exponent. -/
theorem power_cases (x y : Float) :
    power x y = nan ∨ power x y = ofIndex false oneIndex ∨
      power x y = ofIndex (isNegative x && isOdd y) (powerIndex x y) := by
  unfold power
  split_ifs
  · exact .inr (.inl rfl)
  · exact .inl rfl
  · exact .inl rfl
  · exact .inr (.inr rfl)

/-- A power that is not finite is NaN, or infinite with the sign of the base under an odd exponent. -/
theorem power_of_not_finite (h : isFinite (power x y) = false) :
    power x y = nan ∨ power x y = infinity (isNegative x && isOdd y) := by
  rcases power_cases x y with heq | heq | heq
  · exact .inl heq
  · exfalso
    rw [heq, isFinite_ofIndex false (by decide)] at h
    exact absurd h (by decide)
  · right
    have hbound := powerIndex_le_infinityIndex x y
    rw [heq, isFinite_ofIndex _ hbound] at h
    have hindex : powerIndex x y = infinityIndex :=
      Nat.le_antisymm hbound (Nat.le_of_not_lt (of_decide_eq_false h))
    rw [heq, hindex, infinity]

/-- A finite power of zero is zero or infinite, according to the sign of the exponent. -/
theorem power_of_isZero (hx : isZero x = true) (hy : isFinite y = true) (hne : isZero y = false) :
    power x y = ofIndex (isNegative x && isOdd y) (if isNegative y then infinityIndex else 0) := by
  have hindex : index x = 0 := of_decide_eq_true hx
  have hone : index x ≠ oneIndex := by
    rw [hindex]
    decide
  have hnan : isNaN x = false := by
    rw [isNaN, hindex]
    decide
  have hpower : powerIndex x y = if isNegative y then infinityIndex else 0 := by
    cases hsign : isNegative y <;> simp [powerIndex, hone, hx, hy, hsign]
  simp [power, hx, hne, hnan, isNaN_eq_false_of_isFinite hy, hone, hpower]

end InfixCalculator.Double
