import InfixCalculator.Proofs.Double.Bits

/-!
# The opposite of a double

The opposite of a double has the other sign and the same index.  Both its exponent and its mantissa
stay as they are, so that unpacking the pattern with the other sign gives what negation makes of
the unpacked double (`neg_eq`).  NaN is its own opposite, as there is only one.
-/

namespace InfixCalculator.Double

open Float.Model (Format)
open Float.Model.UnpackedFloat

/-- The bit pattern of a double. -/
def pattern (x : Float) : BitVec Format.binary64.numBits :=
  x.toBits.toBitVec

/-- Doubles that differ in the sign only are opposites. -/
theorem neg_eq {x y : Float} (hexponent : unpackExponent (pattern y) = unpackExponent (pattern x))
    (hmantissa : unpackMantissa (pattern y) = unpackMantissa (pattern x))
    (hsign : Sign.ofBitVec (unpackSign (pattern y)) = -Sign.ofBitVec (unpackSign (pattern x))) :
    -x = y := by
  have hunpack : y.toModel.unpack = x.toModel.unpack.neg := by
    show unpack .binary64 (pattern y) = (unpack .binary64 (pattern x)).neg
    unfold unpack
    simp only [hexponent, hmantissa, hsign]
    split_ifs <;> rfl
  calc -x = .ofModel (.pack x.toModel.unpack.neg) := rfl
    _ = .ofModel (.pack y.toModel.unpack) := by rw [hunpack]
    _ = Float.ofBits y.toBits := rfl
    _ = y := Float.ofBits_toBits y

/-- The parts of the pattern of a double with a sign and an index. -/
theorem unpack_ofIndex (negative : Bool) {i : Nat} (h : i ≤ infinityIndex) :
    (unpackExponent (pattern (ofIndex negative i))).toNat = i / 2 ^ 52 ∧
      (unpackMantissa (pattern (ofIndex negative i))).toNat = i % 2 ^ 52 ∧
      (unpackSign (pattern (ofIndex negative i))).toNat = negative.toNat := by
  have hbound : i ≤ 2047 * 2 ^ 52 := h
  have hbits : (pattern (ofIndex negative i)).toNat = negative.toNat * 2 ^ 63 + i := by
    refine (toBits_ofIndex negative h).trans ?_
    cases negative <;> simp [signBit]
  have hsign := Bool.toNat_le negative
  refine ⟨?_, ?_, ?_⟩
  · show (BitVec.extractLsb 62 52 (pattern (ofIndex negative i))).toNat = _
    rw [BitVec.extractLsb_toNat, Nat.shiftRight_eq_div_pow, hbits]
    show _ / 2 ^ 52 % 2 ^ 11 = _
    omega
  · show (BitVec.extractLsb 51 0 (pattern (ofIndex negative i))).toNat = _
    rw [BitVec.extractLsb_toNat, Nat.shiftRight_zero, hbits]
    show _ % 2 ^ 52 = _
    omega
  · show (BitVec.extractLsb 63 63 (pattern (ofIndex negative i))).toNat = _
    rw [BitVec.extractLsb_toNat, Nat.shiftRight_eq_div_pow, hbits]
    show _ / 2 ^ 63 % 2 ^ 1 = _
    omega

theorem unpackSign_ofIndex (negative : Bool) {i : Nat} (h : i ≤ infinityIndex) :
    unpackSign (pattern (ofIndex negative i)) = BitVec.ofBool negative :=
  BitVec.eq_of_toNat_eq ((unpack_ofIndex negative h).2.2.trans (BitVec.toNat_ofBool negative).symm)

/-- The opposite has the other sign and the same index. -/
theorem neg_ofIndex (negative : Bool) {i : Nat} (h : i ≤ infinityIndex) :
    -(ofIndex negative i) = ofIndex (!negative) i := by
  obtain ⟨hexponent, hmantissa, -⟩ := unpack_ofIndex negative h
  obtain ⟨hexponent', hmantissa', -⟩ := unpack_ofIndex (!negative) h
  refine neg_eq ?_ ?_ ?_
  · exact BitVec.eq_of_toNat_eq (hexponent'.trans hexponent.symm)
  · exact BitVec.eq_of_toNat_eq (hmantissa'.trans hmantissa.symm)
  · rw [unpackSign_ofIndex negative h, unpackSign_ofIndex (!negative) h]
    cases negative <;> rfl

theorem neg_nan : -nan = nan := by
  rfl

end InfixCalculator.Double
