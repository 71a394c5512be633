import InfixCalculator.Proofs.Double.Negation

/-!
# The order of the doubles

Doubles are compared by what is unpacked from them: the exponent first, then the mantissa.  For
doubles of sign `+` this is the order of their indices (`ofIndex_lt_iff`), because an index is its
exponent and its mantissa written one after the other: zero, finite doubles and infinity are the
three shapes of `Unpacked`, and the comparison is made on these.  NaN is not greater than any double,
and no double with the sign bit set is greater than zero.
-/

namespace InfixCalculator.Double

open Float.Model (Format UnpackedFloat)
open Float.Model.UnpackedFloat

/-! ## Unpacked doubles -/

/-- What is unpacked from the double with a sign and an index. -/
inductive Unpacked (sign : Sign) : Nat → UnpackedFloat → Prop where
  | zero : Unpacked sign 0 (.zero sign)
  | finite (exponent mantissa : Nat) (hpos : 0 < mantissa) (hlt : mantissa < 2 * binade)
      (hle : exponent ≠ 0 → binade ≤ mantissa)
      (hfinite : exponent * binade + mantissa < infinityIndex) :
      Unpacked sign (exponent * binade + mantissa)
        (.finite sign mantissa ((exponent : Int) - 1074) hpos)
  | infinity : Unpacked sign infinityIndex (.infinity sign)

theorem Unpacked.of_finite {sign : Sign} {i mantissa : Nat} {e : Int} {hpos : 0 < mantissa}
    (exponent : Nat) (hi : i = exponent * binade + mantissa) (he : e = (exponent : Int) - 1074)
    (hlt : mantissa < 2 * binade) (hle : exponent ≠ 0 → binade ≤ mantissa)
    (hfinite : i < infinityIndex) : Unpacked sign i (.finite sign mantissa e hpos) := by
  subst hi he
  exact .finite exponent mantissa hpos hlt hle hfinite

/-- Zero, a finite double or infinity, according to the index. -/
theorem unpacked_ofIndex (negative : Bool) {i : Nat} (h : i ≤ infinityIndex) :
    Unpacked (Sign.ofBitVec (BitVec.ofBool negative)) i
      (unpack .binary64 (pattern (ofIndex negative i))) := by
  have hbound : i ≤ 2047 * 2 ^ 52 := h
  have hbinade : binade = 2 ^ 52 := rfl
  obtain ⟨hexponent, hmantissa, -⟩ := unpack_ofIndex negative h
  have hones : unpackExponent (pattern (ofIndex negative i)) = (-1#_) ↔ i / 2 ^ 52 = 2047 := by
    rw [← BitVec.toNat_inj, hexponent]
    rfl
  have hnone : unpackExponent (pattern (ofIndex negative i)) = 0#_ ↔ i / 2 ^ 52 = 0 := by
    rw [← BitVec.toNat_inj, hexponent]
    rfl
  have hzero : unpackMantissa (pattern (ofIndex negative i)) = 0#_ ↔ i % 2 ^ 52 = 0 := by
    rw [← BitVec.toNat_inj, hmantissa]
    rfl
  have hbias : ((Format.binary64.exponentBias : Nat) : Int) = 1023 := rfl
  have hwidth : ((Format.binary64.mantissaBitsWithoutImplicit : Nat) : Int) = 52 := rfl
  unfold unpack
  simp only [unpackSign_ofIndex negative h, hones, hnone, hzero]
  split_ifs with hinfinite hwhole hsmall hwhole
  · obtain rfl : i = infinityIndex := by
      show i = 2047 * 2 ^ 52
      omega
    exact .infinity
  · omega
  · obtain rfl : i = 0 := by omega
    exact .zero
  · -- a subnormal double has the least exponent and no leading bit
    apply Unpacked.of_finite 0
    · rw [hmantissa]
      omega
    · rw [hexponent, hsmall, hbias, hwidth]
      rfl
    · rw [hmantissa, hbinade]
      omega
    · exact fun hne => absurd rfl hne
    · show i < 2047 * 2 ^ 52
      omega
  · -- the leading bit of the mantissa is not stored
    have hleading : (1#1 ++ unpackMantissa (pattern (ofIndex negative i))).toNat
        = 2 ^ 52 + i % 2 ^ 52 := by
      rw [BitVec.toNat_append, hmantissa, ← Nat.shiftLeft_add_eq_or_of_lt (Nat.mod_lt _ (by decide))]
      rfl
    apply Unpacked.of_finite (i / 2 ^ 52 - 1)
    · rw [hleading, hbinade]
      omega
    · rw [hexponent, hbias, hwidth]
      omega
    · rw [hleading, hbinade]
      omega
    · intro _
      rw [hleading, hbinade]
      omega
    · show i < 2047 * 2 ^ 52
      omega

theorem Unpacked.eq_zero {sign : Sign} {i : Nat} {x : UnpackedFloat} (h : Unpacked sign i x)
    (hi : i = 0) : x = .zero sign := by
  cases h with
  | zero => rfl
  | finite => omega
  | infinity => exact absurd hi (by decide)

/-- Unpacked doubles of sign `+` are compared like their indices. -/
theorem Unpacked.lt_iff {i j : Nat} {x y : UnpackedFloat} (hx : Unpacked .positive i x)
    (hy : Unpacked .positive j y) : x.lt y = true ↔ i < j := by
  have hbinade : binade = 2 ^ 52 := rfl
  cases hx with
  | zero =>
      cases hy with
      | zero => decide
      | finite exponent mantissa hpos _ _ _ =>
          have hlt : 0 < exponent * binade + mantissa := by omega
          simp [UnpackedFloat.lt, UnpackedFloat.compare, hlt]
      | infinity => decide
  | finite exponent mantissa hpos hlt hle hfinite =>
      cases hy with
      | zero => simp [UnpackedFloat.lt, UnpackedFloat.compare]
      | finite exponent' mantissa' hpos' hlt' hle' hfinite' =>
          have hcompare : (compare ((exponent : Int) - 1074) (exponent' - 1074)).then
              (compare mantissa mantissa') = .lt ↔
              exponent < exponent' ∨ exponent = exponent' ∧ mantissa < mantissa' := by
            rw [Ordering.then_eq_lt, compare_lt_iff_lt, compare_lt_iff_lt, compare_eq_iff_eq]
            omega
          simp only [UnpackedFloat.lt, UnpackedFloat.compare, beq_iff_eq, Option.some.injEq,
            hcompare]
          -- a greater exponent makes up for any mantissa, as it comes with a leading bit
          rw [hbinade] at hlt hle hlt' hle' ⊢
          omega
      | infinity => simp [UnpackedFloat.lt, UnpackedFloat.compare, hfinite]
  | infinity =>
      cases hy with
      | zero => simp [UnpackedFloat.lt, UnpackedFloat.compare]
      | finite exponent mantissa hpos _ _ hfinite =>
          have hnot : ¬ infinityIndex < exponent * binade + mantissa := by omega
          simp [UnpackedFloat.lt, UnpackedFloat.compare, hnot]
      | infinity => simp [UnpackedFloat.lt, UnpackedFloat.compare]

/-- NaN is compared with nothing. -/
theorem unpack_nan : unpack .binary64 (pattern nan) = .notANumber := by
  unfold unpack
  dsimp only
  rw [if_pos (by decide +kernel), if_neg (by decide +kernel)]

/-! ## Comparisons -/

theorem lt_iff_unpack (x y : Float) :
    x < y ↔ (unpack .binary64 (pattern x)).lt (unpack .binary64 (pattern y)) = true :=
  decide_eq_true_iff

/-- Doubles of sign `+` are in the order of their indices. -/
theorem ofIndex_lt_iff {i j : Nat} (hi : i ≤ infinityIndex) (hj : j ≤ infinityIndex) :
    ofIndex false i < ofIndex false j ↔ i < j := by
  rw [lt_iff_unpack]
  exact Unpacked.lt_iff (unpacked_ofIndex false hi) (unpacked_ofIndex false hj)

/-- NaN is not greater than any double. -/
theorem not_lt_nan (x : Float) : ¬ x < nan := by
  rw [lt_iff_unpack, unpack_nan]
  cases unpack .binary64 (pattern x) <;> simp [UnpackedFloat.lt, UnpackedFloat.compare]

theorem zero_eq : (0 : Float) = ofIndex false 0 := rfl

/-- No double with the sign bit set is greater than zero. -/
theorem not_zero_lt_ofIndex {i : Nat} (hi : i ≤ infinityIndex) : ¬ 0 < ofIndex true i := by
  have hzero : Unpacked .positive 0 (unpack .binary64 (pattern 0)) :=
    unpacked_ofIndex false (Nat.zero_le infinityIndex)
  have hother : Unpacked .negative i (unpack .binary64 (pattern (ofIndex true i))) :=
    unpacked_ofIndex true hi
  rw [lt_iff_unpack, hzero.eq_zero rfl]
  generalize unpack .binary64 (pattern (ofIndex true i)) = y at hother
  cases hother <;> simp [UnpackedFloat.lt, UnpackedFloat.compare]

end InfixCalculator.Double
