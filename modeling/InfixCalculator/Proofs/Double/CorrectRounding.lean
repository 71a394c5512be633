import InfixCalculator.Proofs.Double.Grid

/-!
# Correct rounding

`IsRounded` says what rounding to nearest is: the double is finite and no other finite double is nearer
to the number, and if another one is as near, the index of the double is even, which is to say the
last bit of its mantissa is zero.  From half a step beyond the largest finite double on it is infinity.
The sign is kept, also by zero and infinity.  There is only one such double (`IsRounded.unique`).

`roundRatio` rounds correctly (`exists_isNearest`, `IsNearest.isRounded`).  It takes the points on both
sides of a ratio, which are one step apart, and all other points are behind these (`isNearest_below`,
`isNearest_above`).  Points beyond the largest finite double need no argument of their own: the point
of infinity is the next one, it is even, and so the ratios that are rounded up to it are those from half
way on (`IsNearest.lt_infinityIndex_iff`).
-/

namespace InfixCalculator.Double

variable {q magnitude : ℚ} {i j below : Nat} {negative : Bool} {x y : Float}

/-- Half a step beyond the largest finite double. -/
def overflowBound : ℚ :=
  2 ^ 1024 - 2 ^ 970

/-- A number with a sign and a magnitude. -/
def signed (negative : Bool) (magnitude : ℚ) : ℚ :=
  if negative then -magnitude else magnitude

/-- The double that a number is rounded to, with the sign given. -/
structure IsRounded (negative : Bool) (q : ℚ) (x : Float) : Prop where
  sign_eq : isNegative x = negative
  infinite : overflowBound ≤ |q| → x = infinity negative
  finite : |q| < overflowBound → isFinite x = true
  nearest : |q| < overflowBound → ∀ y, isFinite y = true → |q - value x| ≤ |q - value y|
  even : |q| < overflowBound → ∀ y, isFinite y = true → value y ≠ value x →
    |q - value y| = |q - value x| → Even (index x)

/-- The index of the point nearest to a number, of two equally near ones the even one. -/
structure IsNearest (q : ℚ) (i : Nat) : Prop where
  nearest : ∀ j, |q - point i| ≤ |q - point j|
  even : ∀ j, j ≠ i → |q - point j| = |q - point i| → Even i

/-! ## Points on both sides -/

theorem sub_le_distance (h : j ≤ i) : q - point i ≤ |q - point j| :=
  (sub_le_sub_left (strictMono_point.monotone h) q).trans (le_abs_self _)

theorem sub_lt_distance (h : j < i) : q - point i < |q - point j| :=
  (sub_lt_sub_left (strictMono_point h) q).trans_le (le_abs_self _)

theorem le_distance (h : i ≤ j) : point i - q ≤ |q - point j| := by
  rw [abs_sub_comm]
  exact (sub_le_sub_right (strictMono_point.monotone h) q).trans (le_abs_self _)

theorem lt_distance (h : i < j) : point i - q < |q - point j| := by
  rw [abs_sub_comm]
  exact (sub_lt_sub_right (strictMono_point h) q).trans_le (le_abs_self _)

theorem isNearest_below (hbelow : point below ≤ q) (hnear : q - point below ≤ point (below + 1) - q)
    (heven : q - point below = point (below + 1) - q → Even below) : IsNearest q below := by
  have hdistance : |q - point below| = q - point below := abs_of_nonneg (sub_nonneg.2 hbelow)
  constructor
  · intro j
    rw [hdistance]
    rcases Nat.lt_or_ge below j with habove | hle
    · exact hnear.trans (le_distance habove)
    · exact sub_le_distance hle
  · intro j hne htie
    rw [hdistance] at htie
    rcases Nat.lt_or_gt_of_ne hne with hlt | habove
    · exact absurd htie (sub_lt_distance hlt).ne'
    · exact heven (hnear.antisymm (htie ▸ le_distance habove))

theorem isNearest_above (habove : q ≤ point (below + 1))
    (hnear : point (below + 1) - q ≤ q - point below)
    (heven : point (below + 1) - q = q - point below → Even (below + 1)) :
    IsNearest q (below + 1) := by
  have hdistance : |q - point (below + 1)| = point (below + 1) - q := by
    rw [abs_sub_comm]
    exact abs_of_nonneg (sub_nonneg.2 habove)
  constructor
  · intro j
    rw [hdistance]
    rcases Nat.lt_or_ge below j with hge | hle
    · exact le_distance hge
    · exact hnear.trans (sub_le_distance hle)
  · intro j hne htie
    rw [hdistance] at htie
    rcases Nat.lt_or_gt_of_ne hne with hlt | hgt
    · exact heven (hnear.antisymm (htie ▸ sub_le_distance (Nat.le_of_lt_succ hlt)))
    · exact absurd htie (lt_distance hgt).ne'

/-! ## Rounding a ratio -/

section Parts

variable {step rest : Nat} {parts : ℚ}

/-- Up to half a step the point below is the nearest. -/
theorem isNearest_of_rest_le (hparts : 0 < parts) (hbelow : q - point below = rest / parts)
    (habove : point (below + 1) - q = (step - rest) / parts) (hrest : 2 * rest ≤ step)
    (heven : 2 * rest = step → Even below) : IsNearest q below := by
  have hcast : (rest : ℚ) + rest ≤ step := by exact_mod_cast Nat.two_mul rest ▸ hrest
  apply isNearest_below
  · rw [← sub_nonneg, hbelow]
    positivity
  · rw [hbelow, habove, div_le_div_iff_of_pos_right hparts]
    linarith
  · intro htie
    rw [hbelow, habove, div_left_inj' hparts.ne'] at htie
    have hhalf : (rest : ℚ) + rest = step := by linarith
    exact heven (Nat.two_mul rest ▸ by exact_mod_cast hhalf)

/-- From half a step on it is the point above. -/
theorem isNearest_of_le_rest (hparts : 0 < parts) (hbelow : q - point below = rest / parts)
    (habove : point (below + 1) - q = (step - rest) / parts) (hlt : rest < step)
    (hrest : step ≤ 2 * rest) (heven : 2 * rest = step → Even (below + 1)) :
    IsNearest q (below + 1) := by
  have hcast : (step : ℚ) ≤ rest + rest := by exact_mod_cast Nat.two_mul rest ▸ hrest
  have hlt' : (rest : ℚ) < step := Nat.cast_lt.2 hlt
  apply isNearest_above
  · rw [← sub_nonneg, habove]
    exact div_nonneg (by linarith) hparts.le
  · rw [hbelow, habove, div_le_div_iff_of_pos_right hparts]
    linarith
  · intro htie
    rw [hbelow, habove, div_left_inj' hparts.ne'] at htie
    have hhalf : (rest : ℚ) + rest = step := by linarith
    exact heven (Nat.two_mul rest ▸ by exact_mod_cast hhalf)

end Parts

/-- How far a ratio lies beyond a point, in parts of a unit that its denominator gives. -/
theorem ratio_sub_point (numerator : Nat) {denominator exponent steps : Nat}
    (hdenominator : 0 < denominator) (hlow : exponent ≠ 0 → binade ≤ steps)
    (hhigh : steps ≤ 2 * binade) :
    (numerator : ℚ) / denominator - point (exponent * binade + steps) =
      ((numerator * unitsPerOne : Nat) - (steps * (denominator * Nat.pow 2 exponent) : Nat)) /
        (denominator * unitsPerOne : Nat) := by
  have hdenominator' : (denominator : ℚ) ≠ 0 := Nat.cast_ne_zero.2 hdenominator.ne'
  have hunits : (unitsPerOne : ℚ) ≠ 0 := cast_unitsPerOne_pos.ne'
  rw [point, units_steps hlow hhigh]
  generalize unitsPerOne = perOne at hunits ⊢
  generalize Nat.pow 2 exponent = power
  push_cast
  field_simp

theorem even_index_iff (exponent steps : Nat) : Even (exponent * binade + steps) ↔ steps % 2 = 0 := by
  have hbinade : Even (exponent * binade) := Even.mul_left (by decide) exponent
  rw [Nat.even_add, iff_true_left hbinade, Nat.even_iff]

/-- Where a ratio is less than `2 * binade` steps from zero, the nearest step is at the nearest point. -/
theorem isNearest_nearestStep {numerator denominator exponent : Nat} (hdenominator : 0 < denominator)
    (hlow : exponent ≠ 0 → binade ≤ numerator * unitsPerOne / (denominator * Nat.pow 2 exponent))
    (hhigh : numerator * unitsPerOne / (denominator * Nat.pow 2 exponent) < 2 * binade) :
    IsNearest ((numerator : ℚ) / denominator) (exponent * binade +
      nearestStep (numerator * unitsPerOne) (denominator * Nat.pow 2 exponent)) := by
  have hbelow := ratio_sub_point numerator hdenominator hlow hhigh.le
  have habove := ratio_sub_point numerator hdenominator
    (fun hne => Nat.le_succ_of_le (hlow hne)) hhigh
  have hparts : (0 : ℚ) < (denominator * unitsPerOne : Nat) :=
    Nat.cast_pos.2 (Nat.mul_pos hdenominator unitsPerOne_pos)
  have hrest := Nat.mod_lt (numerator * unitsPerOne)
    (Nat.mul_pos hdenominator (pow_two_pos exponent))
  have hsplit := Nat.div_add_mod' (numerator * unitsPerOne) (denominator * Nat.pow 2 exponent)
  have heven := even_index_iff exponent
  unfold nearestStep
  generalize denominator * Nat.pow 2 exponent = step at *
  generalize numerator * unitsPerOne / step = steps at *
  generalize numerator * unitsPerOne % step = rest at *
  rw [← hsplit, Nat.cast_add, add_sub_cancel_left] at hbelow
  have hahead : point (exponent * binade + steps + 1) - (numerator : ℚ) / denominator =
      (step - rest) / (denominator * unitsPerOne : Nat) := by
    rw [← neg_sub, Nat.add_assoc, habove, ← neg_div, ← hsplit, Nat.succ_mul, Nat.cast_add,
      Nat.cast_add, add_sub_add_left_eq_sub, neg_sub]
  simp only [Bool.or_eq_true, Bool.and_eq_true, decide_eq_true_eq, beq_iff_eq]
  split
  · rename_i hup
    rw [← Nat.add_assoc]
    refine isNearest_of_le_rest hparts hbelow hahead hrest (by omega) fun htie => ?_
    rw [Nat.add_assoc, heven]
    omega
  · rename_i hdown
    refine isNearest_of_rest_le hparts hbelow hahead (by omega) fun htie => ?_
    rw [heven]
    omega

/-- A ratio is rounded to the nearest point, or to infinity if that lies behind. -/
theorem exists_isNearest (numerator : Nat) {denominator : Nat} (hdenominator : 0 < denominator) :
    ∃ i, IsNearest ((numerator : ℚ) / denominator) i ∧
      roundRatio numerator denominator = min i infinityIndex := by
  refine ⟨_, ?_, roundRatio_eq numerator denominator⟩
  apply isNearest_nearestStep hdenominator
  · exact fun hne => binade_le_steps (Nat.pos_of_ne_zero hne)
  · exact steps_lt _ _

/-! ## Overflow -/

/-- What is rounded below an even point is less than half way to it. -/
theorem IsNearest.lt_succ_iff (h : IsNearest q i) (heven : Even (below + 1)) :
    i < below + 1 ↔ 2 * q < point below + point (below + 1) := by
  constructor
  · intro hlt
    by_contra hhalf
    have hi : q - point below ≤ |q - point i| := sub_le_distance (Nat.le_of_lt_succ hlt)
    have hbelow : point below < point (below + 1) := strictMono_point (Nat.lt_succ_self below)
    have habove : |q - point (below + 1)| ≤ q - point below := by
      rw [abs_le]
      constructor <;> linarith
    -- so the two are equally near, and the even one would have been taken
    have htie : |q - point (below + 1)| = |q - point i| := (habove.trans hi).antisymm (h.nearest _)
    have hsame : i = below := by
      by_contra hne
      have hlower : q - point below < |q - point i| := sub_lt_distance (by omega)
      linarith
    have hodd := h.even (below + 1) (by omega) htie
    rw [hsame] at hodd
    exact Nat.even_add_one.1 heven hodd
  · intro hhalf
    by_contra hge
    have hi : point (below + 1) - q ≤ |q - point i| := le_distance (Nat.le_of_not_lt hge)
    have hbelow : point below < point (below + 1) := strictMono_point (Nat.lt_succ_self below)
    have hnearer : |q - point below| < point (below + 1) - q := by
      rw [abs_lt]
      constructor <;> linarith
    exact absurd (h.nearest below) (not_le.2 (hnearer.trans_le hi))

theorem point_infinityIndex : point infinityIndex = 2 ^ 1024 := by
  have hindex : infinityIndex = 2046 * binade + binade := Nat.succ_mul 2046 binade
  rw [hindex, point_steps (fun _ => Nat.le_refl _) (Nat.le_mul_of_pos_left _ two_pos), binade,
    cast_pow_two, ← zpow_add₀ two_ne_zero]
  norm_num

/-- The largest finite double. -/
theorem point_last : point (infinityIndex - 1) = 2 ^ 1024 - 2 ^ 971 := by
  have hindex : infinityIndex - 1 = 2045 * binade + (2 * binade - 1) := by decide
  have hmantissa : ((2 * binade - 1 : Nat) : ℚ) = 2 ^ 53 - 1 := by
    rw [binade]
    norm_num
  have hpower : (2 : ℚ) ^ (((2045 : Nat) : ℤ) - 1074) = 2 ^ 971 := by norm_num
  rw [hindex, point_steps (fun _ => by decide) (by decide), hmantissa, hpower, sub_mul, one_mul,
    ← pow_add]

theorem IsNearest.lt_infinityIndex_iff (h : IsNearest q i) :
    i < infinityIndex ↔ q < overflowBound := by
  have hlast : infinityIndex = infinityIndex - 1 + 1 := by decide
  have heven : Even (infinityIndex - 1 + 1) := by decide
  have hiff := h.lt_succ_iff heven
  rw [← hlast, point_infinityIndex, point_last] at hiff
  have hdouble : (2 : ℚ) ^ 1024 - 2 ^ 971 + 2 ^ 1024 = 2 * overflowBound := by
    have hhalf : (2 : ℚ) ^ 971 = 2 ^ 970 * 2 := pow_succ 2 970
    rw [overflowBound, hhalf]
    generalize (2 : ℚ) ^ 1024 = infinite
    generalize (2 : ℚ) ^ 970 = half
    ring
  rw [hiff, hdouble]
  exact mul_lt_mul_iff_right₀ two_pos

/-! ## Signs -/

theorem value_eq (x : Float) : value x = signed (isNegative x) (size x) := rfl

theorem size_nonneg (x : Float) : 0 ≤ size x :=
  point_nonneg (index x)

theorem abs_signed (negative : Bool) (h : 0 ≤ magnitude) :
    |signed negative magnitude| = magnitude := by
  cases negative with
  | true => exact (abs_neg magnitude).trans (abs_of_nonneg h)
  | false => exact abs_of_nonneg h

theorem distance_signed (negative : Bool) (a b : ℚ) :
    |signed negative a - signed negative b| = |a - b| := by
  cases negative with
  | true =>
      show |-a - -b| = |a - b|
      rw [neg_sub_neg, abs_sub_comm]
  | false => rfl

/-- With the other sign a double is as far from a number as both magnitudes together. -/
theorem distance_signed_not (negative : Bool) {a b : ℚ} (ha : 0 ≤ a) (hb : 0 ≤ b) :
    |signed negative a - signed (!negative) b| = a + b := by
  cases negative with
  | true =>
      show |-a - b| = a + b
      rw [← neg_add', abs_neg, abs_of_nonneg (add_nonneg ha hb)]
  | false =>
      show |a - -b| = a + b
      rw [sub_neg_eq_add, abs_of_nonneg (add_nonneg ha hb)]

/-- No double is nearer to a number than its size is to the magnitude. -/
theorem distance_size_le (negative : Bool) (hmagnitude : 0 ≤ magnitude) (y : Float) :
    |magnitude - size y| ≤ |signed negative magnitude - value y| := by
  rw [value_eq]
  by_cases hsign : isNegative y = negative
  · rw [hsign, distance_signed]
  · rw [Bool.eq_not.2 hsign, distance_signed_not negative hmagnitude (size_nonneg y), abs_le]
    have hsize := size_nonneg y
    constructor <;> linarith

/-! ## The double of a point -/

theorem value_ofIndex (negative : Bool) (h : i ≤ infinityIndex) :
    value (ofIndex negative i) = signed negative (point i) := by
  rw [value_eq, isNegative_ofIndex negative h, size_eq_point, index_ofIndex negative h]

/-- A double that is as near as the nearest point has another index, or is zero with another sign. -/
theorem IsNearest.even_of_tie (h : IsNearest magnitude i) (hmagnitude : 0 ≤ magnitude)
    (hvalue : value y ≠ signed negative (point i))
    (htie : |signed negative magnitude - value y| = |magnitude - point i|) : Even i := by
  by_cases hindex : index y = i
  · have hsign : isNegative y = !negative := by
      refine Bool.eq_not.2 fun hsame => hvalue ?_
      rw [value_eq, hsame, size_eq_point, hindex]
    have hfar : |signed negative magnitude - value y| = magnitude + point i := by
      rw [value_eq, hsign, size_eq_point, hindex,
        distance_signed_not negative hmagnitude (point_nonneg i)]
    have hnear : |magnitude - point i| ≤ magnitude := by
      have hzero := h.nearest 0
      rwa [point_zero, sub_zero, abs_of_nonneg hmagnitude] at hzero
    have hpoint : point i = point 0 := by
      rw [point_zero]
      exact le_antisymm (by linarith) (point_nonneg i)
    rw [strictMono_point.injective hpoint]
    exact Even.zero
  · have hle := (distance_size_le negative hmagnitude y).trans_eq htie
    exact h.even (index y) hindex (hle.antisymm (h.nearest _))

/-- What is rounded to the nearest point is rounded correctly. -/
theorem IsNearest.isRounded (h : IsNearest magnitude i) (hmagnitude : 0 ≤ magnitude)
    (negative : Bool) :
    IsRounded negative (signed negative magnitude) (ofIndex negative (min i infinityIndex)) := by
  have hle : min i infinityIndex ≤ infinityIndex := Nat.min_le_right _ _
  have hsign := isNegative_ofIndex negative hle
  have hindex := index_ofIndex negative hle
  have hvalue := value_ofIndex negative hle
  have habs := abs_signed negative hmagnitude
  constructor
  case sign_eq => exact hsign
  case infinite =>
    intro hlarge
    rw [habs, ← not_lt, ← h.lt_infinityIndex_iff, Nat.not_lt] at hlarge
    rw [Nat.min_eq_right hlarge]
    rfl
  all_goals
    intro hsmall
    rw [habs, ← h.lt_infinityIndex_iff] at hsmall
    rw [Nat.min_eq_left hsmall.le] at hindex hvalue ⊢
  case finite =>
    rw [isFinite, hindex]
    exact decide_eq_true hsmall
  case nearest =>
    intro y _
    rw [hvalue, distance_signed]
    exact (h.nearest _).trans (distance_size_le negative hmagnitude y)
  case even =>
    intro y _ hne htie
    rw [hvalue] at hne htie
    rw [distance_signed] at htie
    rw [hindex]
    exact h.even_of_tie hmagnitude hne htie

/-! ## There is only one -/

/-- A number between two others is nearer to what these are equally near to. -/
theorem distance_lt_of_between {a b c : ℚ} (hab : a < b) (hbc : b < c) (htie : |q - a| = |q - c|) :
    |q - b| < |q - a| := by
  have hmiddle : q - a = c - q := by
    rcases abs_eq_abs.1 htie with heq | heq <;> linarith
  have hdistance : |q - a| = q - a := abs_of_nonneg (by linarith)
  rw [hdistance, abs_lt]
  constructor <;> linarith

theorem signed_injective (negative : Bool) : Function.Injective (signed negative) := by
  cases negative with
  | true => exact neg_injective
  | false => exact Function.injective_id

/-- Of three numbers with one sign the middle one is nearer to what the outer ones are equally near
to. -/
theorem distance_signed_lt (negative : Bool) {a b c : ℚ} (hab : a < b) (hbc : b < c)
    (htie : |q - signed negative a| = |q - signed negative c|) :
    |q - signed negative b| < |q - signed negative a| := by
  cases negative with
  | true =>
      rw [htie]
      exact distance_lt_of_between (neg_lt_neg hbc) (neg_lt_neg hab) htie.symm
  | false => exact distance_lt_of_between hab hbc htie

theorem IsRounded.value_eq (h : IsRounded negative q x) :
    value x = signed negative (point (index x)) := by
  rw [Double.value_eq, h.sign_eq, size_eq_point]

/-- Between two doubles with even indices there is a third, which would be nearer than both. -/
theorem IsRounded.not_index_lt (hx : IsRounded negative q x) (hy : IsRounded negative q y)
    (hsmall : |q| < overflowBound) : ¬ index x < index y := by
  intro hlt
  have htie : |q - value x| = |q - value y| :=
    (hx.nearest hsmall y (hy.finite hsmall)).antisymm (hy.nearest hsmall x (hx.finite hsmall))
  have hne : value x ≠ value y := by
    rw [hx.value_eq, hy.value_eq]
    exact fun heq => (strictMono_point hlt).ne (signed_injective negative heq)
  have heven := hx.even hsmall y (hy.finite hsmall) hne.symm htie.symm
  have heven' := hy.even hsmall x (hx.finite hsmall) hne htie
  rw [Nat.even_iff] at heven heven'
  have hbetween : index x + 1 < index y := by omega
  have hfinite : index y < infinityIndex := of_decide_eq_true (hy.finite hsmall)
  have hle : index x + 1 ≤ infinityIndex := (hbetween.trans hfinite).le
  have hnearest := hx.nearest hsmall (ofIndex negative (index x + 1)) (by
    rw [isFinite, index_ofIndex negative hle]
    exact decide_eq_true (hbetween.trans hfinite))
  rw [hx.value_eq, hy.value_eq] at htie
  rw [hx.value_eq, value_ofIndex negative hle] at hnearest
  exact absurd hnearest (not_le.2 (distance_signed_lt negative
    (strictMono_point (Nat.lt_succ_self _)) (strictMono_point hbetween) htie))

/-- A number is correctly rounded to one double only. -/
theorem IsRounded.unique (hx : IsRounded negative q x) (hy : IsRounded negative q y) : x = y := by
  rcases le_or_gt overflowBound |q| with hlarge | hsmall
  · rw [hx.infinite hlarge, hy.infinite hlarge]
  · have hindex : index x = index y :=
      Nat.le_antisymm (Nat.le_of_not_lt (hy.not_index_lt hx hsmall))
        (Nat.le_of_not_lt (hx.not_index_lt hy hsmall))
    rw [← ofIndex_index x, ← ofIndex_index y, hx.sign_eq, hy.sign_eq, hindex]

/-- Up to half a unit a number is rounded to zero, which keeps the sign. -/
theorem IsRounded.eq_zero (h : IsRounded negative (signed negative magnitude) x)
    (hmagnitude : 0 ≤ magnitude) (hsmall : magnitude ≤ 2 ^ (-1075 : ℤ)) :
    x = ofIndex negative 0 := by
  have hunit : point (0 + 1) = 2 ^ (-1075 : ℤ) * 2 := by
    have hpoint : point (0 * binade + 1) = _ :=
      point_steps (fun hne => absurd rfl hne) (by decide)
    have hexponent : ((0 : Nat) : ℤ) - 1074 = -1075 + 1 := by norm_num
    rw [Nat.zero_mul, hexponent, zpow_add_one₀ two_ne_zero, Nat.cast_one, one_mul] at hpoint
    exact hpoint
  have hnearest : IsNearest magnitude 0 := by
    apply isNearest_below
    · rwa [point_zero]
    · rw [point_zero, hunit]
      linarith
    · exact fun _ => Even.zero
  have hzero := hnearest.isRounded hmagnitude negative
  rw [Nat.zero_min] at hzero
  exact h.unique hzero

end InfixCalculator.Double
