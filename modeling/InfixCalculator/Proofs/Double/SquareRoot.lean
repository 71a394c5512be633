import InfixCalculator.Proofs.Double.Order

/-!
# The square root of a double

A square root is taken of the unpacked double, rounded and packed again.  It is packed with the sign
`+` unless it is the root of a zero, which keeps its sign (`isNegative_sqrt`).  The root of a double
above zero is above zero (`sqrt_pos`): the mantissa of a root is not zero, and rounding shifts out
no more of it than leaves its leading bit, because the exponent is nowhere near the least one.
-/

namespace InfixCalculator.Double

open Float.Model (Format UnpackedFloat totalExponent)
open Float.Model.UnpackedFloat

/-! ## The sign -/

/-- NaN, or a double of sign `+`. -/
inductive SignPlus : UnpackedFloat → Prop where
  | nan : SignPlus .notANumber
  | infinity : SignPlus (.infinity .positive)
  | zero : SignPlus (.zero .positive)
  | finite {mantissa : Nat} {exponent : Int} {hpos : 0 < mantissa} :
      SignPlus (.finite .positive mantissa exponent hpos)

theorem msb_packComponents (exponent : BitVec Format.binary64.exponentBits)
    (mantissa : BitVec Format.binary64.mantissaBitsWithoutImplicit) :
    (packComponents .binary64 .positive exponent mantissa).msb = false := by
  rw [packComponents, BitVec.msb_append, if_neg (by decide), BitVec.msb_append,
    if_neg (by decide)]
  rfl

/-- The sign bit is not set in what is packed with the sign `+`. -/
theorem SignPlus.msb_pack {x : UnpackedFloat} (h : SignPlus x) : (pack .binary64 x).msb = false := by
  cases h with
  | nan => exact msb_packComponents _ _
  | infinity => exact msb_packComponents _ _
  | zero => exact msb_packComponents _ _
  | finite =>
      rw [pack]
      split_ifs
      · exact msb_packComponents _ _
      · exact msb_packComponents _ _
      · exact msb_packComponents _ _

theorem SignPlus.sqrt {x : UnpackedFloat} (h : SignPlus x) : SignPlus (x.sqrt .binary64) := by
  cases h with
  | nan => exact .nan
  | infinity => exact .infinity
  | zero => exact .zero
  | finite =>
      unfold UnpackedFloat.sqrt roundWithAccuracy
      dsimp only
      split
      · exact .zero
      · exact .finite

theorem Unpacked.signPlus {i : Nat} {x : UnpackedFloat} (h : Unpacked .positive i x) :
    SignPlus x := by
  cases h with
  | zero => exact .zero
  | finite => exact .finite
  | infinity => exact .infinity

/-- What is not negative is unpacked with the sign `+`. -/
theorem signPlus_unpack {x : Float} (h : isNegative x = false) :
    SignPlus (unpack .binary64 (pattern x)) := by
  by_cases hindex : index x ≤ infinityIndex
  · have hunpacked := unpacked_ofIndex (isNegative x) hindex
    rw [ofIndex_index x, h] at hunpacked
    exact Unpacked.signPlus hunpacked
  · rw [eq_nan_of_index (Nat.lt_of_not_le hindex), unpack_nan]
    exact .nan

/-- A double that is not negative has no negative square root. -/
theorem isNegative_sqrt {x : Float} (h : isNegative x = false) : isNegative x.sqrt = false := by
  have hroot : (pattern x.sqrt).msb = false := (signPlus_unpack h).sqrt.msb_pack
  have hlt : 2 * x.sqrt.toBits.toNat < 2 ^ 64 := BitVec.msb_eq_false_iff_two_mul_lt.mp hroot
  have hsign : signBit = 2 ^ 63 := rfl
  rw [isNegative, decide_eq_false_iff_not, hsign]
  omega

/-! ## Rounding -/

theorem mantissa_shiftRight (extended : ExtendedMantissa) (count : Nat) :
    (extended >>> count).mantissa = extended.mantissa / 2 ^ count := by
  induction count with
  | zero => exact (Nat.div_one _).symm
  | succ count ih =>
      show (extended >>> count).mantissa / 2 = _
      rw [ih, Nat.div_div_eq_div_mul, pow_succ]

theorem mantissa_ofMantissaAndAccuracy (mantissa : Nat) (accuracy : Accuracy) :
    (ExtendedMantissa.ofMantissaAndAccuracy mantissa accuracy).mantissa = mantissa := by
  rcases accuracy with _ | _ | _ | _ <;> rfl

/-- Rounding does not make a mantissa smaller. -/
theorem mantissa_le_roundedMantissa (extended : ExtendedMantissa) :
    extended.mantissa ≤ extended.roundedMantissa := by
  unfold ExtendedMantissa.roundedMantissa
  cases extended.accuracy with
  | exact => exact Nat.le_refl _
  | inexact relative =>
      cases relative with
      | lt => exact Nat.le_refl _
      | eq => exact Nat.le_add_right _ _
      | gt => exact Nat.le_succ _

/-- The shift to the target exponent leaves the leading bit of a mantissa and 52 bits behind it at
most. -/
theorem shiftToTargetExponent_bounds {mantissa : Nat} {exponent : Int} (accuracy : Accuracy)
    (hpos : 0 < mantissa) (hexponent : -1074 ≤ exponent) :
    0 < (shiftToTargetExponent .binary64 mantissa exponent accuracy).1.mantissa ∧
      (shiftToTargetExponent .binary64 mantissa exponent accuracy).1.mantissa < 2 ^ 53 ∧
      -1074 ≤ (shiftToTargetExponent .binary64 mantissa exponent accuracy).2 := by
  have htarget : Format.binary64.targetExponent (totalExponent mantissa exponent) =
      max (mantissa.log2 + 1 + exponent - 53) (-1074) := rfl
  unfold shiftToTargetExponent shiftToExponent
  dsimp only
  rw [mantissa_shiftRight, mantissa_ofMantissaAndAccuracy, htarget]
  obtain ⟨count, hcount⟩ : ∃ count,
      count = (max (mantissa.log2 + 1 + exponent - 53) (-1074) - exponent).toNat := ⟨_, rfl⟩
  rw [← hcount]
  refine ⟨Nat.div_pos ?_ (Nat.two_pow_pos _), ?_, by omega⟩
  · calc 2 ^ count
      _ ≤ 2 ^ mantissa.log2 := Nat.pow_le_pow_right (by decide) (by omega)
      _ ≤ mantissa := Nat.log2_self_le hpos.ne'
  · rw [Nat.div_lt_iff_lt_mul (Nat.two_pow_pos _), ← Nat.pow_add]
    calc mantissa
      _ < 2 ^ (mantissa.log2 + 1) := Nat.lt_log2_self
      _ ≤ 2 ^ (53 + count) := Nat.pow_le_pow_right (by decide) (by omega)

/-- What is positive is not rounded to zero. -/
theorem exists_roundWithAccuracy {mantissa : Nat} {exponent : Int} (accuracy : Accuracy)
    (hpos : 0 < mantissa) (hexponent : -1074 ≤ exponent) :
    ∃ (rounded : Nat) (shifted : Int) (h : 0 < rounded),
      roundWithAccuracy .binary64 .positive mantissa exponent accuracy =
        .finite .positive rounded shifted h ∧ rounded < 2 ^ 53 ∧ -1074 ≤ shifted := by
  obtain ⟨hfirst, -, hexponent'⟩ := shiftToTargetExponent_bounds accuracy hpos hexponent
  have hrounded := Nat.lt_of_lt_of_le hfirst (mantissa_le_roundedMantissa _)
  obtain ⟨hfinal, hlt, hshifted⟩ := shiftToTargetExponent_bounds .exact hrounded hexponent'
  refine ⟨_, _, hfinal, ?_, hlt, hshifted⟩
  unfold roundWithAccuracy
  dsimp only
  rw [dif_neg hfinal.ne']

/-! ## Packing -/

theorem unpackSign_packComponents {format : Format} (sign : Sign)
    (exponent : BitVec format.exponentBits)
    (mantissa : BitVec format.mantissaBitsWithoutImplicit) :
    unpackSign (packComponents format sign exponent mantissa) = sign.toBitVec := by
  apply BitVec.eq_of_getLsbD_eq
  intro i hi
  obtain rfl : i = 0 := by omega
  simp [unpackSign, packComponents, BitVec.getLsbD_append, BitVec.getElem_append]

/-- Components of sign `+` that are neither those of zero nor of NaN are a double above zero. -/
theorem zero_lt_packComponents {exponent : BitVec Format.binary64.exponentBits}
    {mantissa : BitVec Format.binary64.mantissaBitsWithoutImplicit}
    (hnan : exponent = (-1#_) → mantissa = 0#_) (hzero : exponent = 0#_ → mantissa ≠ 0#_) :
    (UnpackedFloat.zero .positive).lt
      (unpack .binary64 (packComponents .binary64 .positive exponent mantissa)) = true := by
  have hsign : Sign.ofBitVec (Sign.toBitVec .positive) = .positive := rfl
  unfold unpack
  simp only [unpackExponent_packComponents, unpackMantissa_packComponents,
    unpackSign_packComponents, hsign]
  split_ifs with hones hmantissa hwhole hmantissa
  · rfl
  · exact absurd (hnan hones) hmantissa
  · exact absurd hmantissa (hzero hwhole)
  · rfl
  · rfl

/-- A rounded double of sign `+` is packed as a double above zero, or as infinity. -/
theorem zero_lt_pack {mantissa : Nat} {exponent : Int} (hpos : 0 < mantissa)
    (hlt : mantissa < 2 ^ 53) (hexponent : -1074 ≤ exponent) :
    (UnpackedFloat.zero .positive).lt
      (unpack .binary64 (pack .binary64 (.finite .positive mantissa exponent hpos))) = true := by
  have hbias : (exponent + (Format.binary64.exponentBias : Nat)
      + (Format.binary64.mantissaBitsWithoutImplicit : Nat)).toNat = (exponent + 1075).toNat := by
    rw [add_assoc]
    rfl
  have hbits : Format.binary64.mantissaBits = 53 := rfl
  have hpower : 2 ^ Format.binary64.exponentBits = 2048 := rfl
  rw [pack]
  simp only [hbias, hbits, hpower]
  split_ifs with hlarge hnormal
  · exact zero_lt_packComponents (fun _ => rfl) (fun hzero => absurd hzero (by decide))
  · -- the biased exponent is neither the one of zero nor the one of infinity
    have hvalue : (BitVec.ofNat 11 (exponent + 1075).toNat).toNat = (exponent + 1075).toNat := by
      rw [BitVec.toNat_ofNat, Nat.mod_eq_of_lt (by omega)]
    apply zero_lt_packComponents
    · intro hones
      have hall : (BitVec.ofNat 11 (exponent + 1075).toNat).toNat = 2047 :=
        congrArg BitVec.toNat hones
      omega
    · intro hzero
      have hnone : (BitVec.ofNat 11 (exponent + 1075).toNat).toNat = 0 :=
        congrArg BitVec.toNat hzero
      omega
  · apply zero_lt_packComponents
    · exact fun hones => absurd hones (by decide)
    · intro _ hzero
      have hsmall : mantissa < 2 ^ 52 := by
        by_contra hle
        have hlog : mantissa.log2 = 52 := by
          rw [Nat.log2_eq_iff hpos.ne']
          omega
        omega
      have hnone : (BitVec.ofNat 52 mantissa).toNat = 0 := congrArg BitVec.toNat hzero
      rw [BitVec.toNat_ofNat, Nat.mod_eq_of_lt hsmall] at hnone
      omega

/-! ## Roots -/

theorem exists_sqrt_finite {mantissa : Nat} {exponent : Int} (hpos : 0 < mantissa)
    (hexponent : -1074 ≤ exponent) :
    ∃ (rounded : Nat) (shifted : Int) (h : 0 < rounded),
      (UnpackedFloat.finite .positive mantissa exponent hpos).sqrt .binary64 =
        .finite .positive rounded shifted h ∧ rounded < 2 ^ 53 ∧ -1074 ≤ shifted := by
  unfold UnpackedFloat.sqrt sqrtCore
  dsimp only
  apply exists_roundWithAccuracy
  · rw [Nat.sqrt_pos, Nat.shiftLeft_eq]
    exact Nat.mul_pos hpos (Nat.two_pow_pos _)
  · have hhalf : -1074 ≤ exponent / 2 := by omega
    exact le_min hhalf (le_max_right _ _)

/-- The square root of a double above zero is above zero. -/
theorem sqrt_pos {x : Float} (h : 0 < x) : 0 < x.sqrt := by
  have hroot : pattern x.sqrt =
      pack .binary64 ((unpack .binary64 (pattern x)).sqrt .binary64) := rfl
  have hzero : unpack .binary64 (pattern 0) = .zero .positive :=
    (unpacked_ofIndex false (Nat.zero_le infinityIndex)).eq_zero rfl
  have hindex : index x ≤ infinityIndex := by
    by_contra hnan
    rw [eq_nan_of_index (Nat.lt_of_not_le hnan)] at h
    exact not_lt_nan 0 h
  have hunpacked := unpacked_ofIndex (isNegative x) hindex
  rw [lt_iff_unpack, hzero] at h ⊢
  rw [ofIndex_index] at hunpacked
  rw [hroot]
  generalize unpack .binary64 (pattern x) = unpacked at h hunpacked ⊢
  generalize Sign.ofBitVec (BitVec.ofBool (isNegative x)) = sign at hunpacked
  generalize index x = i at hunpacked
  cases sign with
  | negative => cases hunpacked <;> cases h
  | positive =>
      cases hunpacked with
      | zero => cases h
      | finite exponent mantissa hpos =>
          obtain ⟨rounded, shifted, hrounded, hsqrt, hlt, hshifted⟩ :=
            exists_sqrt_finite hpos (show -1074 ≤ (exponent : Int) - 1074 by omega)
          rw [hsqrt]
          exact zero_lt_pack hrounded hlt hshifted
      | infinity => rfl

end InfixCalculator.Double
