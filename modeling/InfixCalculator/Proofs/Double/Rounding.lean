import InfixCalculator.Double.Grid

/-!
# Rounding a ratio

`roundRatio` sees only the value of a ratio, not its terms (`roundRatio_congr`).  A ratio that is
the value of a finite double is rounded to that double (`roundRatio_units`), one below half a unit
to zero and one from `2 ^ 1024` on to infinity.  A larger ratio is not rounded to a smaller double
(`roundRatio_mono`).
-/

namespace InfixCalculator.Double

theorem binade_pos : 0 < binade := by decide

theorem pow_two_pos (k : Nat) : 0 < Nat.pow 2 k := Nat.two_pow_pos k

theorem unitsPerOne_pos : 0 < unitsPerOne := pow_two_pos 1074

theorem log2_mul_pow_two (n k : Nat) (hn : n ≠ 0) : (n * Nat.pow 2 k).log2 = n.log2 + k := by
  induction k with
  | zero => exact congrArg Nat.log2 (Nat.mul_one n)
  | succ k ih =>
      have hdouble : n * Nat.pow 2 (k + 1) = 2 * (n * Nat.pow 2 k) := by
        rw [← Nat.mul_assoc, Nat.mul_comm 2, Nat.mul_assoc, Nat.mul_comm 2]
        rfl
      have hpos : n * Nat.pow 2 k ≠ 0 := Nat.mul_ne_zero hn (Nat.ne_of_gt (pow_two_pos k))
      rw [hdouble, Nat.log2_two_mul hpos, ih]
      omega

theorem roundRatio_le_infinityIndex (numerator denominator : Nat) :
    roundRatio numerator denominator ≤ infinityIndex :=
  Nat.min_le_right ..

/-! ## Equal ratios -/

theorem roundRatio_mul_right {numerator denominator factor : Nat} (hfactor : 0 < factor) :
    roundRatio (numerator * factor) (denominator * factor) = roundRatio numerator denominator := by
  have hscaled : numerator * factor * unitsPerOne = numerator * unitsPerOne * factor :=
    Nat.mul_right_comm ..
  have hratio : numerator * unitsPerOne * factor / (denominator * factor)
      = numerator * unitsPerOne / denominator := Nat.mul_div_mul_right _ _ hfactor
  simp only [roundRatio, hscaled, hratio]
  generalize (numerator * unitsPerOne / denominator).log2 - 52 = exponent
  have hstep : denominator * factor * Nat.pow 2 exponent
      = denominator * Nat.pow 2 exponent * factor := Nat.mul_right_comm ..
  rw [hstep, Nat.mul_div_mul_right _ _ hfactor, Nat.mul_mod_mul_right]
  generalize numerator * unitsPerOne % (denominator * Nat.pow 2 exponent) = rest
  generalize denominator * Nat.pow 2 exponent = step
  have hlt : 2 * (rest * factor) > step * factor ↔ 2 * rest > step := by
    rw [← Nat.mul_assoc]
    exact Nat.mul_lt_mul_right hfactor
  have heq : 2 * (rest * factor) = step * factor ↔ 2 * rest = step := by
    rw [← Nat.mul_assoc]
    exact Nat.mul_left_inj (by omega)
  simp only [hlt, heq, Bool.beq_eq_decide_eq]

/-- Ratios of one value are rounded alike. -/
theorem roundRatio_congr {a b c d : Nat} (hb : 0 < b) (hd : 0 < d) (h : a * d = c * b) :
    roundRatio a b = roundRatio c d := by
  calc roundRatio a b
    _ = roundRatio (a * d) (b * d) := (roundRatio_mul_right hd).symm
    _ = roundRatio (c * b) (d * b) := by rw [h, Nat.mul_comm b d]
    _ = roundRatio c d := roundRatio_mul_right hb

/-! ## Whole numbers of units -/

/-- A ratio of whole units is rounded to itself if the step divides it. -/
theorem roundRatio_of_dvd (mantissa exponent : Nat) {numerator denominator u : Nat}
    (hdenominator : 0 < denominator) (hscaled : numerator * unitsPerOne = u * denominator)
    (hu : u = mantissa * Nat.pow 2 exponent) (hexponent : u.log2 - 52 = exponent) :
    roundRatio numerator denominator = min (exponent * binade + mantissa) infinityIndex := by
  have hpow : 0 < Nat.pow 2 exponent := pow_two_pos _
  have hsteps : u * denominator = mantissa * (denominator * Nat.pow 2 exponent) := by
    rw [hu, Nat.mul_assoc, Nat.mul_comm (Nat.pow 2 exponent)]
  have hstep : 0 < denominator * Nat.pow 2 exponent := Nat.mul_pos hdenominator hpow
  simp only [roundRatio, hscaled, Nat.mul_div_cancel _ hdenominator, hexponent]
  rw [hsteps, Nat.mul_div_cancel _ hstep, Nat.mul_mod_left]
  generalize denominator * Nat.pow 2 exponent = step at hstep
  -- nothing is left over, so the nearest step is the one below
  have hbelow : ¬ (2 * 0 > step || (2 * 0 == step && mantissa % 2 == 1)) = true := by
    simp only [Bool.or_eq_true, Bool.and_eq_true, decide_eq_true_eq, beq_iff_eq]
    omega
  rw [if_neg hbelow]

/-- The value of a finite double is rounded to that double. -/
theorem roundRatio_units {numerator denominator index : Nat} (hdenominator : 0 < denominator)
    (hscaled : numerator * unitsPerOne = units index * denominator)
    (hfinite : index < infinityIndex) :
    roundRatio numerator denominator = index := by
  have hbinade : binade = 2 ^ 52 := rfl
  by_cases hsmall : index < binade
  · -- the steps near zero are single units
    have hunits : units index = index := if_pos hsmall
    have hlog : index.log2 - 52 = 0 := by
      rcases Nat.eq_zero_or_pos index with rfl | hpos
      · rfl
      · have := (Nat.log2_lt (by omega)).mpr (hbinade ▸ hsmall)
        omega
    rw [hunits] at hscaled
    rw [roundRatio_of_dvd index 0 hdenominator hscaled (Nat.mul_one _).symm hlog]
    omega
  · -- from the second binade on the leading bit is implied, and a step is a power of two
    have hunits : units index
        = (binade + index % binade) * Nat.pow 2 (index / binade - 1) := if_neg hsmall
    have hmod : index % binade < binade := Nat.mod_lt _ binade_pos
    have hquotient : 0 < index / binade := Nat.div_pos (by omega) binade_pos
    have hlog : (units index).log2 - 52 = index / binade - 1 := by
      have hvalue := log2_mul_pow_two (binade + index % binade) (index / binade - 1) (by omega)
      have hmantissa : (binade + index % binade).log2 = 52 := by
        rw [Nat.log2_eq_iff (by omega), ← hbinade]
        omega
      rw [hunits, hvalue, hmantissa]
      omega
    rw [roundRatio_of_dvd _ _ hdenominator hscaled hunits hlog, Nat.sub_mul, Nat.one_mul]
    have hindex := Nat.div_add_mod' index binade
    have hle : binade ≤ index / binade * binade := Nat.le_mul_of_pos_left _ hquotient
    rw [← Nat.add_assoc, Nat.sub_add_cancel hle, hindex]
    exact Nat.min_eq_left (Nat.le_of_lt hfinite)

/-! ## Beyond the finite doubles -/

theorem roundRatio_eq_zero {numerator denominator : Nat}
    (h : 2 * (numerator * unitsPerOne) < denominator) : roundRatio numerator denominator = 0 := by
  have hratio : numerator * unitsPerOne / denominator = 0 := Nat.div_eq_of_lt (by omega)
  have hstep : denominator * Nat.pow 2 (Nat.log2 0 - 52) = denominator := Nat.mul_one _
  simp only [roundRatio, hratio, hstep]
  rw [Nat.mod_eq_of_lt (by omega)]
  generalize numerator * unitsPerOne = scaled at h
  have hbelow : ¬ (2 * scaled > denominator || (2 * scaled == denominator && 0 % 2 == 1)) = true := by
    simp only [Bool.or_eq_true, Bool.and_eq_true, decide_eq_true_eq, beq_iff_eq]
    omega
  rw [if_neg hbelow]
  rfl

theorem roundRatio_eq_infinityIndex {numerator : Nat} (h : Nat.pow 2 1024 ≤ numerator) :
    roundRatio numerator 1 = infinityIndex := by
  have hpos : numerator ≠ 0 := Nat.ne_of_gt (Nat.lt_of_lt_of_le (pow_two_pos 1024) h)
  have hlarge : 1024 ≤ numerator.log2 := (Nat.le_log2 hpos).mpr h
  have hlog : (numerator * unitsPerOne).log2 = numerator.log2 + 1074 :=
    log2_mul_pow_two numerator 1074 hpos
  have hscaled : numerator * unitsPerOne ≠ 0 :=
    Nat.mul_ne_zero hpos (Nat.ne_of_gt unitsPerOne_pos)
  simp only [roundRatio, Nat.div_one, Nat.one_mul]
  generalize numerator * unitsPerOne = scaled at hlog hscaled
  have hsteps : binade ≤ scaled / Nat.pow 2 (scaled.log2 - 52) := by
    refine (Nat.le_div_iff_mul_le (pow_two_pos _)).mpr ?_
    calc binade * Nat.pow 2 (scaled.log2 - 52)
      _ = 2 ^ (52 + (scaled.log2 - 52)) := (Nat.pow_add 2 52 _).symm
      _ = 2 ^ scaled.log2 := by congr 1; omega
      _ ≤ scaled := Nat.log2_self_le hscaled
  have hexponent : 2046 * binade ≤ (scaled.log2 - 52) * binade :=
    Nat.mul_le_mul_right _ (by omega)
  have hinfinity : infinityIndex = 2046 * binade + binade := Nat.succ_mul 2046 binade
  rw [hinfinity]
  apply Nat.min_eq_right
  split <;> omega

/-! ## Monotonicity -/

/-- The number of steps nearest to a size, of two equally near ones the even one. -/
def nearestStep (size step : Nat) : Nat :=
  if 2 * (size % step) > step || (2 * (size % step) == step && size / step % 2 == 1) then
    size / step + 1
  else size / step

/-- The power of two that the step between neighbours has where a ratio lies. -/
def stepExponent (numerator denominator : Nat) : Nat :=
  (numerator * unitsPerOne / denominator).log2 - 52

theorem add_nearestStep (offset size step : Nat) :
    offset + nearestStep size step =
      if 2 * (size % step) > step || (2 * (size % step) == step && size / step % 2 == 1) then
        offset + size / step + 1
      else offset + size / step := by
  unfold nearestStep
  split <;> omega

theorem roundRatio_eq (numerator denominator : Nat) :
    roundRatio numerator denominator =
      min (stepExponent numerator denominator * binade +
        nearestStep (numerator * unitsPerOne)
          (denominator * Nat.pow 2 (stepExponent numerator denominator))) infinityIndex := by
  simp only [roundRatio, stepExponent, add_nearestStep]

theorem le_nearestStep (size step : Nat) : size / step ≤ nearestStep size step := by
  unfold nearestStep
  split <;> omega

theorem nearestStep_le (size step : Nat) : nearestStep size step ≤ size / step + 1 := by
  unfold nearestStep
  split <;> omega

theorem nearestStep_mono {small large : Nat} (step : Nat) (h : small ≤ large) :
    nearestStep small step ≤ nearestStep large step := by
  have hsteps : small / step ≤ large / step := Nat.div_le_div_right h
  rcases Nat.lt_or_eq_of_le hsteps with hlt | heq
  · calc nearestStep small step
      _ ≤ small / step + 1 := nearestStep_le small step
      _ ≤ large / step := hlt
      _ ≤ nearestStep large step := le_nearestStep large step
  · -- both lie above the same step, so only their rests differ
    have hrest : small % step ≤ large % step := by
      have hsmall := Nat.div_add_mod small step
      have hlarge := Nat.div_add_mod large step
      rw [heq] at hsmall
      omega
    unfold nearestStep
    rw [heq]
    simp only [Bool.or_eq_true, Bool.and_eq_true, decide_eq_true_eq, beq_iff_eq]
    split <;> split <;> omega

theorem log2_mono {small large : Nat} (h : small ≤ large) : small.log2 ≤ large.log2 := by
  rcases Nat.eq_zero_or_pos small with rfl | hpos
  · exact Nat.zero_le _
  · refine (Nat.le_log2 (by omega)).mpr ?_
    exact Nat.le_trans (Nat.log2_self_le (by omega)) h

/-- A ratio is less than twice `binade` of the steps where it lies. -/
theorem steps_lt (size denominator : Nat) :
    size / (denominator * Nat.pow 2 ((size / denominator).log2 - 52)) < 2 * binade := by
  rw [← Nat.div_div_eq_div_mul, Nat.div_lt_iff_lt_mul (pow_two_pos _)]
  calc size / denominator
    _ < 2 ^ ((size / denominator).log2 + 1) := Nat.lt_log2_self
    _ ≤ 2 ^ (53 + ((size / denominator).log2 - 52)) :=
        Nat.pow_le_pow_right (by decide) (by omega)
    _ = 2 * binade * Nat.pow 2 ((size / denominator).log2 - 52) := Nat.pow_add 2 53 _

/-- From the second exponent on a ratio is at least `binade` of the steps where it lies. -/
theorem binade_le_steps {size denominator : Nat} (h : 0 < (size / denominator).log2 - 52) :
    binade ≤ size / (denominator * Nat.pow 2 ((size / denominator).log2 - 52)) := by
  have hpos : size / denominator ≠ 0 := by
    intro hzero
    rw [hzero] at h
    exact absurd h (by decide)
  rw [← Nat.div_div_eq_div_mul, Nat.le_div_iff_mul_le (pow_two_pos _)]
  calc binade * Nat.pow 2 ((size / denominator).log2 - 52)
    _ = 2 ^ (52 + ((size / denominator).log2 - 52)) := (Nat.pow_add 2 52 _).symm
    _ = 2 ^ (size / denominator).log2 := by congr 1; omega
    _ ≤ size / denominator := Nat.log2_self_le hpos

/-- A larger numerator is not rounded to a smaller double. -/
theorem roundRatio_mono_numerator {small large denominator : Nat}
    (h : small ≤ large) : roundRatio small denominator ≤ roundRatio large denominator := by
  have hscaled : small * unitsPerOne ≤ large * unitsPerOne := Nat.mul_le_mul_right _ h
  have hratio : small * unitsPerOne / denominator ≤ large * unitsPerOne / denominator :=
    Nat.div_le_div_right hscaled
  rw [roundRatio_eq, roundRatio_eq]
  refine Nat.le_min.mpr ⟨Nat.le_trans (Nat.min_le_left _ _) ?_, Nat.min_le_right _ _⟩
  unfold stepExponent
  generalize small * unitsPerOne = size at hscaled hratio
  generalize large * unitsPerOne = size' at hscaled hratio
  by_cases hexponents : (size / denominator).log2 - 52 = (size' / denominator).log2 - 52
  · rw [hexponents]
    exact Nat.add_le_add_left (nearestStep_mono _ hscaled) _
  · -- the steps of the smaller ratio end where the exponent of the larger one begins
    have hlt : (size / denominator).log2 - 52 < (size' / denominator).log2 - 52 := by
      have := log2_mono hratio
      omega
    have hbelow := steps_lt size denominator
    have habove := binade_le_steps (Nat.lt_of_le_of_lt (Nat.zero_le _) hlt)
    have hsmall := nearestStep_le size (denominator * Nat.pow 2 ((size / denominator).log2 - 52))
    have hlarge :=
      le_nearestStep size' (denominator * Nat.pow 2 ((size' / denominator).log2 - 52))
    have hexponent := Nat.mul_le_mul_right binade (Nat.succ_le_of_lt hlt)
    rw [Nat.succ_mul] at hexponent
    omega

/-- A larger ratio is not rounded to a smaller double. -/
theorem roundRatio_mono {a b c d : Nat} (hb : 0 < b) (hd : 0 < d) (h : a * d ≤ c * b) :
    roundRatio a b ≤ roundRatio c d := by
  calc roundRatio a b
    _ = roundRatio (a * d) (b * d) := (roundRatio_mul_right hd).symm
    _ ≤ roundRatio (c * b) (b * d) := roundRatio_mono_numerator h
    _ = roundRatio (c * b) (d * b) := by rw [Nat.mul_comm b d]
    _ = roundRatio c d := roundRatio_mul_right hb

end InfixCalculator.Double
