import InfixCalculator.Proofs.Double.Order
import InfixCalculator.Proofs.Double.Parity

/-!
# The points of the grid

Every double of sign `+` is a point on the line, `point` of its index.  Points are told by an exponent
and a number of steps (`exists_steps`), a step being a power of two units (`units_steps`).  The same
two numbers are unpacked from a double, so that its size is the number that it stands for
(`size_of_unpack`).

A number of steps may be as large as `2 * binade`, which is where the next exponent begins.  So the
point above another one is always one step further, also from one exponent to the next, and the
points are strictly increasing (`strictMono_point`).  They go on beyond infinity, whose point is
`2 ^ 1024`.
-/

namespace InfixCalculator.Double

open Float.Model (UnpackedFloat)
open Float.Model.UnpackedFloat

variable {exponent steps : Nat}

/-- The number at an index. -/
def point (index : Nat) : ℚ :=
  units index / unitsPerOne

theorem size_eq_point (x : Float) : size x = point (index x) := rfl

/-! ## Steps -/

/-- The first step of the second exponent is the leading bit. -/
theorem units_leading (exponent : Nat) {rest : Nat} (h : rest < binade) :
    units ((exponent + 1) * binade + rest) = (binade + rest) * Nat.pow 2 exponent := by
  have hlarge : ¬ (exponent + 1) * binade + rest < binade := by
    rw [Nat.succ_mul]
    omega
  have hmod : ((exponent + 1) * binade + rest) % binade = rest := by
    rw [Nat.mul_add_mod_self_right, Nat.mod_eq_of_lt h]
  have hdiv : ((exponent + 1) * binade + rest) / binade = exponent + 1 := by
    rw [Nat.add_comm, Nat.add_mul_div_right _ _ binade_pos, Nat.div_eq_of_lt h, Nat.zero_add]
  rw [units, if_neg hlarge, hmod, hdiv, Nat.add_sub_cancel]

/-- A point is as many steps away from zero as its exponent and its index say. -/
theorem units_steps (hlow : exponent ≠ 0 → binade ≤ steps) (hhigh : steps ≤ 2 * binade) :
    units (exponent * binade + steps) = steps * Nat.pow 2 exponent := by
  rcases Nat.lt_or_ge steps binade with hsmall | hlarge
  · -- without the leading bit there is no exponent
    obtain rfl : exponent = 0 := by
      by_contra hne
      exact absurd (hlow hne) (Nat.not_le.2 hsmall)
    have hindex : 0 * binade + steps = steps := by rw [Nat.zero_mul, Nat.zero_add]
    rw [hindex, units, if_pos hsmall]
    exact (Nat.mul_one steps).symm
  · rcases Nat.lt_or_eq_of_le hhigh with hlt | rfl
    · obtain ⟨rest, rfl⟩ := Nat.exists_eq_add_of_le hlarge
      have hindex : exponent * binade + (binade + rest) = (exponent + 1) * binade + rest := by
        rw [Nat.succ_mul, Nat.add_assoc]
      rw [hindex, units_leading exponent (by omega)]
    · -- the end of one exponent is the beginning of the next
      have hindex : exponent * binade + 2 * binade = (exponent + 1 + 1) * binade + 0 := by
        rw [Nat.add_zero, Nat.add_assoc, Nat.add_mul]
      have hpow : Nat.pow 2 (exponent + 1) = Nat.pow 2 exponent * 2 := rfl
      rw [hindex, units_leading (exponent + 1) binade_pos, hpow, Nat.add_zero, Nat.mul_comm 2 binade,
        Nat.mul_assoc, Nat.mul_comm 2]

/-- Every index is made of an exponent and a number of steps. -/
theorem exists_steps (index : Nat) :
    ∃ exponent steps, index = exponent * binade + steps ∧ (exponent ≠ 0 → binade ≤ steps) ∧
      steps < 2 * binade := by
  have hmod : index % binade < binade := Nat.mod_lt _ binade_pos
  have hindex := Nat.div_add_mod' index binade
  cases hquotient : index / binade with
  | zero =>
      rw [hquotient] at hindex
      exact ⟨0, index % binade, hindex.symm, fun hne => absurd rfl hne, by omega⟩
  | succ exponent =>
      rw [hquotient, Nat.succ_mul] at hindex
      exact ⟨exponent, binade + index % binade, by omega, fun _ => Nat.le_add_right _ _, by omega⟩

/-! ## The line -/

theorem units_lt_succ (index : Nat) : units index < units (index + 1) := by
  obtain ⟨exponent, steps, rfl, hlow, hhigh⟩ := exists_steps index
  have hlow' : exponent ≠ 0 → binade ≤ steps + 1 := fun hne => Nat.le_succ_of_le (hlow hne)
  rw [Nat.add_assoc, units_steps hlow hhigh.le, units_steps hlow' hhigh]
  exact Nat.mul_lt_mul_of_pos_right (Nat.lt_succ_self steps) (pow_two_pos exponent)

theorem cast_unitsPerOne_pos : (0 : ℚ) < unitsPerOne :=
  Nat.cast_pos.2 unitsPerOne_pos

theorem strictMono_point : StrictMono point := by
  refine strictMono_nat_of_lt_succ fun index => ?_
  exact div_lt_div_of_pos_right (Nat.cast_lt.2 (units_lt_succ index)) cast_unitsPerOne_pos

theorem point_zero : point 0 = 0 := by
  rw [point, units, if_pos binade_pos, Nat.cast_zero, zero_div]

theorem point_nonneg (index : Nat) : 0 ≤ point index := by
  rw [← point_zero]
  exact strictMono_point.monotone (Nat.zero_le index)

theorem cast_unitsPerOne : (unitsPerOne : ℚ) = 2 ^ (1074 : ℤ) := by
  unfold unitsPerOne
  simp only [cast_pow_two, Nat.cast_ofNat]

theorem point_steps (hlow : exponent ≠ 0 → binade ≤ steps) (hhigh : steps ≤ 2 * binade) :
    point (exponent * binade + steps) = steps * 2 ^ ((exponent : ℤ) - 1074) := by
  rw [point, units_steps hlow hhigh, Nat.cast_mul, cast_pow_two, cast_unitsPerOne, mul_div_assoc,
    zpow_sub₀ two_ne_zero]

/-- The size of a finite double is the number that its mantissa and its exponent stand for. -/
theorem size_of_unpack {x : Float} {sign : Sign} {mantissa : Nat} {exponent : Int}
    {hpos : 0 < mantissa}
    (h : unpack .binary64 (pattern x) = .finite sign mantissa exponent hpos) :
    size x = mantissa * 2 ^ exponent := by
  by_cases hindex : index x ≤ infinityIndex
  · have hunpacked := unpacked_ofIndex (isNegative x) hindex
    rw [ofIndex_index, h] at hunpacked
    rw [size_eq_point]
    generalize index x = i at hunpacked
    cases hunpacked with
    | finite exponent _ _ hlt hle => exact point_steps hle hlt.le
  · rw [eq_nan_of_index (Nat.lt_of_not_le hindex), unpack_nan] at h
    cases h

end InfixCalculator.Double
