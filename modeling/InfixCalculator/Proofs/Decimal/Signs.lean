import InfixCalculator.Proofs.Decimal.ReadBack
import InfixCalculator.Proofs.Double.Order

/-!
# The signs in the text of a double

Digits and points are no signs, so that apart from the sign in front only an exponent brings a sign
into the text of a double.  It is a minus below `0.0001`, where the positional notation ends: the
decimal written for a double is below `0.0001` exactly where the double is, because rounding is
monotone and `0.0001` is written for the double nearest to it (`point_lt_iff`).  So the text of a
double that is not negative holds a minus sign if and only if the double lies between zero and
`0.0001` (`minus_mem_literalText_iff`).
-/

namespace InfixCalculator

open Double

/-! ## Texts without signs -/

/-- Neither sign is in a text. -/
structure SignFree (text : List Char) : Prop where
  no_plus : '+' ∉ text
  no_minus : '-' ∉ text

namespace SignFree

variable {first second text : List Char}

theorem nil : SignFree [] :=
  ⟨List.not_mem_nil, List.not_mem_nil⟩

theorem append (hfirst : SignFree first) (hsecond : SignFree second) : SignFree (first ++ second) :=
  ⟨by simp [hfirst.no_plus, hsecond.no_plus], by simp [hfirst.no_minus, hsecond.no_minus]⟩

theorem point_cons (h : SignFree text) : SignFree ('.' :: text) :=
  append (show SignFree ['.'] from ⟨by decide, by decide⟩) h

theorem of_allDigits (h : Literal.AllDigits text) : SignFree text where
  no_plus := fun hmem => absurd (h '+' hmem) (by decide)
  no_minus := fun hmem => absurd (h '-' hmem) (by decide)

end SignFree

namespace Decimal

open Literal

variable {digits : List Char}

/-! ## Positional notation and exponents -/

theorem signFree_positional (h : Literal.AllDigits digits) (point : Int) :
    SignFree (positional digits point) := by
  unfold positional
  split
  · refine .append (.of_allDigits (Literal.allDigits_zeros 1)) (.point_cons ?_)
    exact .of_allDigits ((Literal.allDigits_zeros _).append h)
  · refine .append (.of_allDigits ((h.take _).append (Literal.allDigits_zeros _))) (.point_cons ?_)
    split
    · exact .of_allDigits (Literal.allDigits_zeros 1)
    · exact .of_allDigits (h.drop _)

/-- In scientific notation the only sign is the one of the exponent. -/
theorem scientific_parts (h : Literal.AllDigits digits) (width : Nat) (exponent : Int) :
    ∃ front back, SignFree front ∧ SignFree back ∧
      scientific width digits exponent =
        front ++ 'e' :: (if exponent < 0 then '-' else '+') :: back := by
  refine ⟨_, _, .append (.of_allDigits (h.take 1)) ?_,
    .of_allDigits ((Literal.allDigits_zeros _).append (allDigits_digits exponent.natAbs)), rfl⟩
  split
  · exact .nil
  · exact .point_cons (.of_allDigits (h.drop 1))

theorem minus_mem_scientific_iff (h : Literal.AllDigits digits) (width : Nat) (exponent : Int) :
    '-' ∈ scientific width digits exponent ↔ exponent < 0 := by
  obtain ⟨front, back, hfront, hback, heq⟩ := scientific_parts h width exponent
  rw [heq]
  by_cases hnegative : exponent < 0
  · simp [hnegative]
  · simp [hnegative, hfront.no_minus, hback.no_minus]

/-! ## Where positional notation ends -/

theorem minus_mem_digitsText_iff (h : AllDigits digits) (point : Int) :
    '-' ∈ literal.digitsText digits point ↔ point < -3 := by
  have hleast : literal.leastPoint = -3 := rfl
  have hgreatest : literal.greatestPoint = 16 := rfl
  unfold Layout.digitsText
  rw [hleast, hgreatest]
  by_cases hpositional : -3 ≤ point ∧ point ≤ 16
  · rw [if_pos (by simpa using hpositional)]
    exact iff_of_false (signFree_positional h point).no_minus (by omega)
  · rw [if_neg (by simpa using hpositional), minus_mem_scientific_iff h]
    omega

/-- Where the decimal point stands, counted from the first digit. -/
def Scaled.point (decimal : Scaled) : Int :=
  (Decimal.digits decimal.coefficient).length + decimal.exponent

/-- The digits of a number begin with no zero. -/
theorem pow_length_digits_le {n : Nat} (hne : n ≠ 0) :
    Nat.pow 10 ((Decimal.digits n).length - 1) ≤ n := by
  fun_induction Decimal.digits n with
  | case1 => exact absurd rfl hne
  | case2 n hn ih =>
      rw [List.length_append, List.length_singleton, Nat.add_sub_cancel]
      by_cases hfront : n / 10 = 0
      · have hnil : Decimal.digits (n / 10) = [] := by rw [hfront, Decimal.digits, if_pos rfl]
        rw [hnil]
        exact Nat.one_le_iff_ne_zero.mpr hn
      · have hlength : (Decimal.digits (n / 10)).length ≠ 0 := by
          rw [Decimal.digits, if_neg hfront, List.length_append, List.length_singleton]
          omega
        calc Nat.pow 10 (Decimal.digits (n / 10)).length
          _ = Nat.pow 10 ((Decimal.digits (n / 10)).length - 1) * 10 := by
              rw [← Nat.sub_one_add_one hlength, Nat.add_sub_cancel]
              rfl
          _ ≤ n / 10 * 10 := Nat.mul_le_mul_right _ (ih hfront)
          _ ≤ n := Nat.div_mul_le_self n 10

/-- The index of `0.0001`. -/
def leastPositional : Nat :=
  roundRatio 1 (Nat.pow 10 4)

/-- What is written for the double with that index. -/
theorem shortest_leastPositional : shortest leastPositional = ⟨1, -4⟩ := by decide +kernel

theorem nearest_le_leastPositional {decimal : Scaled} (h : decimal.point ≤ -4) :
    nearest decimal ≤ leastPositional := by
  unfold Scaled.point at h
  have hlt : decimal.coefficient < Nat.pow 10 (Decimal.digits decimal.coefficient).length := by
    have hdigits := ofDigits_lt (allDigits_digits decimal.coefficient)
    rwa [ofDigits_digits] at hdigits
  apply roundRatio_mono (pow_ten_pos _) (pow_ten_pos 4)
  have hwhole : decimal.exponent.toNat = 0 := by omega
  rw [hwhole]
  calc decimal.coefficient * Nat.pow 10 0 * Nat.pow 10 4
    _ ≤ Nat.pow 10 (Decimal.digits decimal.coefficient).length * Nat.pow 10 0 * Nat.pow 10 4 :=
        Nat.mul_le_mul_right _ (Nat.mul_le_mul_right _ (Nat.le_of_lt hlt))
    _ = Nat.pow 10 ((Decimal.digits decimal.coefficient).length + 0 + 4) := by
        rw [pow_ten_add, pow_ten_add]
    _ ≤ Nat.pow 10 (-decimal.exponent).toNat := pow_ten_le (by omega)
    _ = 1 * Nat.pow 10 (-decimal.exponent).toNat := (Nat.one_mul _).symm

theorem leastPositional_le_nearest {decimal : Scaled} (hne : decimal.coefficient ≠ 0)
    (h : -3 ≤ decimal.point) : leastPositional ≤ nearest decimal := by
  unfold Scaled.point at h
  have hle := pow_length_digits_le hne
  apply roundRatio_mono (pow_ten_pos 4) (pow_ten_pos _)
  calc 1 * Nat.pow 10 (-decimal.exponent).toNat
    _ = Nat.pow 10 (-decimal.exponent).toNat := Nat.one_mul _
    _ ≤ Nat.pow 10 ((Decimal.digits decimal.coefficient).length - 1 + decimal.exponent.toNat + 4) :=
        pow_ten_le (by omega)
    _ = Nat.pow 10 ((Decimal.digits decimal.coefficient).length - 1)
          * Nat.pow 10 decimal.exponent.toNat * Nat.pow 10 4 := by
        rw [pow_ten_add, pow_ten_add]
    _ ≤ decimal.coefficient * Nat.pow 10 decimal.exponent.toNat * Nat.pow 10 4 :=
        Nat.mul_le_mul_right _ (Nat.mul_le_mul_right _ hle)

/-- The decimal of a double begins behind the third decimal place exactly below `0.0001`. -/
theorem point_lt_iff {index : Nat} (hpositive : index ≠ 0) (hfinite : index < infinityIndex) :
    (shortest index).point < -3 ↔ index < leastPositional := by
  have hcoefficient := coefficient_shortest_ne_zero hpositive hfinite
  have hnearest := nearest_shortest hfinite
  constructor
  · intro hpoint
    have hle : index ≤ leastPositional := by
      rw [← hnearest]
      exact nearest_le_leastPositional (by omega)
    -- the decimal may be rounded up, but not to the double for which `0.0001` is written
    have hpointed : (⟨1, -4⟩ : Scaled).point = -3 := by decide +kernel
    refine Nat.lt_of_le_of_ne hle fun heq => ?_
    rw [heq, shortest_leastPositional, hpointed] at hpoint
    omega
  · intro hlt
    by_contra hpoint
    have hle := leastPositional_le_nearest hcoefficient (by omega)
    rw [hnearest] at hle
    omega

/-- A minus sign is written without the one in front exactly between zero and `0.0001`. -/
theorem minus_mem_sizeText_iff {index : Nat} (hfinite : index < infinityIndex) :
    '-' ∈ literal.sizeText index ↔ index ≠ 0 ∧ index < leastPositional := by
  unfold Layout.sizeText
  by_cases hzero : index = 0
  · rw [if_pos hzero]
    simp [hzero]
  · rw [if_neg hzero, ← point_lt_iff hzero hfinite]
    have hdigits := allDigits_dropTrailingZeros (allDigits_digits (shortest index).coefficient)
    rw [Layout.scaledText, minus_mem_digitsText_iff hdigits]
    exact ⟨fun hlt => ⟨hzero, hlt⟩, And.right⟩

/-- A minus sign in the text of a double that is not negative is the sign of an exponent. -/
theorem minus_mem_literalText_iff {x : Float} (h : isNegative x = false) :
    '-' ∈ (literalText x).toList ↔ 0 < x ∧ x < 0.0001 := by
  have hleast : (0.0001 : Float) = ofIndex false leastPositional := by decide +kernel
  have hbound : leastPositional ≤ infinityIndex := roundRatio_le_infinityIndex _ _
  rcases Nat.lt_trichotomy (index x) infinityIndex with hfinite | hinfinite | hnan
  · have hx : ofIndex false (index x) = x := by
      rw [← h]
      exact ofIndex_index x
    have horder : 0 < x ∧ x < 0.0001 ↔ index x ≠ 0 ∧ index x < leastPositional := by
      rw [← hx, hleast, zero_eq, ofIndex_lt_iff (Nat.zero_le _) (Nat.le_of_lt hfinite),
        ofIndex_lt_iff (Nat.le_of_lt hfinite) hbound, hx, Nat.pos_iff_ne_zero]
    rw [horder, ← minus_mem_sizeText_iff hfinite, literalText, Layout.text]
    simp only [h, Nat.not_lt_of_lt hfinite, Nat.ne_of_lt hfinite, if_false, Bool.false_eq_true]
    simp
  · have hx : x = ofIndex false infinityIndex := by
      rw [← h, ← hinfinite, ofIndex_index]
    rw [hx, hleast, ofIndex_lt_iff (Nat.le_refl _) hbound]
    have hminus : '-' ∉ (literalText (ofIndex false infinityIndex)).toList := by decide +kernel
    exact iff_of_false hminus fun hbetween => Nat.not_lt_of_le hbound hbetween.2
  · rw [eq_nan_of_index hnan]
    have hminus : '-' ∉ (literalText nan).toList := by decide +kernel
    exact iff_of_false hminus fun hbetween => not_lt_nan 0 hbetween.1

end Decimal

end InfixCalculator
