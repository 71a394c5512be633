import InfixCalculator.Double.Power
import InfixCalculator.Proofs.Double.Rounding
import Mathlib.Algebra.Ring.Int.Parity
import Mathlib.Tactic.Positivity
import Mathlib.Tactic.Ring

/-!
# Odd whole numbers among the doubles

`isOdd` looks at the exponent that is left when all factors two are taken out of the coefficient.
It is true of the doubles whose value is an odd whole number, and of no others (`isOdd_iff`): an odd
coefficient times a power of two is an odd whole number only if the power is one
(`odd_mul_zpow_iff`).  So it does not matter that all doubles from `2 ^ 53` on are whole and even, or
that a fraction has a coefficient as odd as the one of a whole number.
-/

namespace InfixCalculator.Double

/-! ## The value of a double -/

/-- The size of a double, which is its value without the sign. -/
def size (x : Float) : ℚ :=
  units (index x) / unitsPerOne

/-- The value of a finite double. -/
def value (x : Float) : ℚ :=
  if isNegative x then -size x else size x

/-- A double whose value is an odd whole number. -/
def IsOddInteger (x : Float) : Prop :=
  isFinite x = true ∧ ∃ n : ℤ, Odd n ∧ value x = n

/-- The value of a dyadic number. -/
def Dyadic.value (x : Dyadic) : ℚ :=
  x.coefficient * 2 ^ x.exponent

/-! ## Odd coefficients -/

theorem Dyadic.value_reduce (fuel : Nat) (x : Dyadic) : (x.reduce fuel).value = x.value := by
  induction fuel generalizing x with
  | zero => rfl
  | succ fuel ih =>
      rw [Dyadic.reduce]
      split
      · rename_i heven
        have hhalf : ((x.coefficient / 2 : Nat) : ℚ) * 2 = x.coefficient := by
          exact_mod_cast Nat.div_mul_cancel (Nat.dvd_of_mod_eq_zero heven)
        calc (Dyadic.reduce fuel ⟨x.coefficient / 2, x.exponent + 1⟩).value
          _ = ((x.coefficient / 2 : Nat) : ℚ) * 2 ^ (x.exponent + 1) := ih _
          _ = ((x.coefficient / 2 : Nat) : ℚ) * 2 * 2 ^ x.exponent := by
              rw [zpow_add_one₀ two_ne_zero]
              ring
          _ = x.value := by rw [hhalf, Dyadic.value]
      · rfl

/-- The fuel suffices for a coefficient of as many binary digits. -/
theorem Dyadic.odd_reduce {fuel : Nat} {x : Dyadic} (hpos : 0 < x.coefficient)
    (hlt : x.coefficient < 2 ^ fuel) : Odd (x.reduce fuel).coefficient := by
  induction fuel generalizing x with
  | zero => omega
  | succ fuel ih =>
      rw [Dyadic.reduce]
      split
      · rename_i heven
        apply ih
        · show 0 < x.coefficient / 2
          omega
        · show x.coefficient / 2 < 2 ^ fuel
          rw [pow_succ] at hlt
          omega
      · rename_i hodd
        exact Nat.odd_iff.mpr (Nat.mod_two_ne_zero.mp hodd)

theorem cast_pow_two (k : Nat) : ((Nat.pow 2 k : Nat) : ℚ) = 2 ^ (k : ℤ) := by
  rw [zpow_natCast]
  exact Nat.cast_pow 2 k

/-- The size of a double before its factors two are taken out. -/
theorem exists_raw (x : Float) :
    ∃ raw : Dyadic, dyadic x = raw.reduce 53 ∧ raw.value = size x ∧
      raw.coefficient < 2 ^ 53 ∧ (index x ≠ 0 → 0 < raw.coefficient) := by
  have hunits : (unitsPerOne : ℚ) = 2 ^ (1074 : ℤ) := by
    unfold unitsPerOne
    simp only [cast_pow_two, Nat.cast_ofNat]
  by_cases hsmall : index x < binade
  · -- near zero the coefficient is the index itself
    refine ⟨⟨index x, -1074⟩, by simp only [dyadic, if_pos hsmall], ?_, ?_, ?_⟩
    · rw [Dyadic.value, size, units, if_pos hsmall, hunits, zpow_neg, div_eq_mul_inv]
    · exact Nat.lt_of_lt_of_le hsmall (by decide)
    · exact Nat.pos_of_ne_zero
  · -- from there on its leading bit is implied
    have hmod : index x % binade < 2 ^ 52 := Nat.mod_lt _ binade_pos
    have hbinade : binade = 2 ^ 52 := rfl
    have hquotient : 1 ≤ index x / binade := Nat.div_pos (by omega) binade_pos
    refine ⟨⟨binade + index x % binade, (index x / binade : Nat) - (1075 : Int)⟩,
      by simp only [dyadic, if_neg hsmall], ?_, ?_, ?_⟩
    · have hpow : ((Nat.pow 2 (index x / binade - 1) : Nat) : ℚ)
          = 2 ^ (((index x / binade : Nat) : ℤ) - 1) := by
        rw [cast_pow_two, Nat.cast_sub hquotient, Nat.cast_one]
      calc Dyadic.value ⟨binade + index x % binade, (index x / binade : Nat) - (1075 : Int)⟩
        _ = ((binade + index x % binade : Nat) : ℚ)
              * 2 ^ (((index x / binade : Nat) : ℤ) - 1 - 1074) := by
            rw [Dyadic.value, sub_sub]
            rfl
        _ = ((binade + index x % binade : Nat) : ℚ)
              * 2 ^ (((index x / binade : Nat) : ℤ) - 1) / 2 ^ (1074 : ℤ) := by
            rw [zpow_sub₀ two_ne_zero, mul_div_assoc]
        _ = size x := by
            rw [size, units, if_neg hsmall, hunits, Nat.cast_mul, hpow]
    · show binade + index x % binade < 2 ^ 53
      omega
    · intro _
      show 0 < binade + index x % binade
      omega

theorem value_dyadic (x : Float) : (dyadic x).value = size x := by
  obtain ⟨raw, hdyadic, hvalue, -, -⟩ := exists_raw x
  rw [hdyadic, Dyadic.value_reduce, hvalue]

theorem odd_dyadic {x : Float} (hne : index x ≠ 0) : Odd (dyadic x).coefficient := by
  obtain ⟨raw, hdyadic, -, hlt, hpos⟩ := exists_raw x
  rw [hdyadic]
  exact Dyadic.odd_reduce (hpos hne) hlt

/-! ## Odd values -/

/-- An odd number times a power of two is an odd whole number only if the power is one. -/
theorem odd_mul_zpow_iff {c : Nat} (hc : Odd c) (e : ℤ) :
    (∃ n : ℤ, Odd n ∧ (c : ℚ) * 2 ^ e = n) ↔ e = 0 := by
  constructor
  · rintro ⟨n, hn, heq⟩
    rcases e with (_ | k) | k
    · rfl
    · -- a whole number with a factor two to spare
      exfalso
      have hwhole : (c : ℤ) * 2 ^ (k + 1) = n := by
        have hcast : (c : ℚ) * 2 ^ (k + 1) = n := heq
        exact_mod_cast hcast
      have heven : Even n := by
        rw [← hwhole, pow_succ]
        exact (even_two.mul_left _).mul_left _
      exact Int.not_even_iff_odd.mpr hn heven
    · -- the odd number would be a multiple of two
      exfalso
      have hwhole : (c : ℤ) = n * 2 ^ (k + 1) := by
        have hcast : (c : ℚ) = n * 2 ^ (k + 1) := by
          rw [← heq, zpow_negSucc, inv_mul_cancel_right₀ (by positivity)]
        exact_mod_cast hcast
      have heven : Even (c : ℤ) := by
        rw [hwhole, pow_succ]
        exact (even_two.mul_left _).mul_left _
      exact Int.not_even_iff_odd.mpr ((Int.odd_coe_nat c).mpr hc) heven
  · rintro rfl
    exact ⟨c, (Int.odd_coe_nat c).mpr hc, by simp⟩

/-- The sign does not matter to whether a value is odd. -/
theorem exists_odd_value_iff (x : Float) :
    (∃ n : ℤ, Odd n ∧ value x = n) ↔ ∃ n : ℤ, Odd n ∧ size x = n := by
  unfold value
  split
  · constructor
    · rintro ⟨n, hn, heq⟩
      exact ⟨-n, hn.neg, by rw [Int.cast_neg, ← heq, neg_neg]⟩
    · rintro ⟨n, hn, heq⟩
      exact ⟨-n, hn.neg, by rw [Int.cast_neg, ← heq]⟩
  · rfl

/-- The test for an odd exponent finds the odd whole numbers among all doubles. -/
theorem isOdd_iff (x : Float) : isOdd x = true ↔ IsOddInteger x := by
  by_cases hzero : index x = 0
  · -- zero is even
    have hsize : size x = 0 := by
      rw [size, hzero, units, if_pos binade_pos, Nat.cast_zero, zero_div]
    have hnot : ¬ ∃ n : ℤ, Odd n ∧ size x = n := by
      rintro ⟨n, hn, heq⟩
      rw [hsize] at heq
      have hn0 : n = 0 := by exact_mod_cast heq.symm
      rw [hn0] at hn
      exact absurd hn (by decide)
    simp only [isOdd, isZero, hzero, IsOddInteger, exists_odd_value_iff, hnot, decide_true,
      Bool.not_true, Bool.and_false, Bool.false_and, Bool.false_eq_true, and_false]
  · have hodd := odd_mul_zpow_iff (odd_dyadic hzero) (dyadic x).exponent
    have hvalue : ((dyadic x).coefficient : ℚ) * 2 ^ (dyadic x).exponent = size x :=
      value_dyadic x
    rw [hvalue] at hodd
    simp only [isOdd, isZero, hzero, IsOddInteger, exists_odd_value_iff, hodd, decide_false,
      Bool.not_false, Bool.and_true, Bool.and_eq_true, decide_eq_true_eq]

end InfixCalculator.Double
