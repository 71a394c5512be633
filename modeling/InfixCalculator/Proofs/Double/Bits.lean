import InfixCalculator.Double.Grid
import Mathlib

/-!
# A double is its sign and its index

The sign bit and the index of a double are together its bit pattern, so `ofIndex` gives the
double back.  Above the index of infinity this says little: the pattern of a double is valid, and
so there is only the one of `nan`.  Up to that index every pattern is valid, and `ofIndex` makes a
double with the sign and the index it was given.

All of Mathlib is imported for `Float.ofBits_toBits`, which no smaller part of it brings along.
-/

namespace InfixCalculator.Double

open Float.Model (Format)
open Float.Model.UnpackedFloat

/-- A double is made of its sign and its index. -/
theorem ofIndex_index (x : Float) : ofIndex (isNegative x) (index x) = x := by
  have hlt : x.toBits.toNat < 2 * signBit := by
    show x.toBits.toNat < 2 ^ 64
    exact x.toBits.toNat_lt
  have hbits : (if isNegative x then signBit + index x else index x) = x.toBits.toNat := by
    unfold isNegative index
    split
    · rename_i hnegative
      have hge : signBit ≤ x.toBits.toNat := of_decide_eq_true hnegative
      rw [Nat.mod_eq_sub_mod hge, Nat.mod_eq_of_lt (by omega)]
      omega
    · rename_i hpositive
      have hlt : x.toBits.toNat < signBit := by
        simpa using hpositive
      exact Nat.mod_eq_of_lt hlt
  unfold ofIndex
  rw [hbits, UInt64.ofNat_toNat]
  exact Float.ofBits_toBits x

/-- Above the index of infinity there is only the one pattern of NaN. -/
theorem eq_nan_of_index {x : Float} (h : infinityIndex < index x) : x = nan := by
  have hmod : 2047 * 2 ^ 52 < x.toBits.toNat % 2 ^ 63 := h
  -- beyond infinity all bits of the exponent are set, and some of the mantissa
  have hexponent :
      @unpackExponent .binary64 x.toBits.toBitVec = (-1#11) := by
    apply BitVec.eq_of_toNat_eq
    show (BitVec.extractLsb 62 52 x.toBits.toBitVec).toNat = 2047
    rw [BitVec.extractLsb_toNat, Nat.shiftRight_eq_div_pow]
    show x.toBits.toNat / 2 ^ 52 % 2 ^ 11 = 2047
    omega
  have hmantissa : @unpackMantissa .binary64 x.toBits.toBitVec ≠ 0#52 := by
    intro hzero
    have hvalue : (BitVec.extractLsb 51 0 x.toBits.toBitVec).toNat = 0 :=
      congrArg BitVec.toNat hzero
    rw [BitVec.extractLsb_toNat, Nat.shiftRight_zero] at hvalue
    have hlow : x.toBits.toNat % 2 ^ 52 = 0 := hvalue
    omega
  have hpattern := x.toModel.valid.eq_packedNaN hexponent hmantissa
  have hbits : x.toBits = UInt64.ofNat (infinityIndex + binade / 2) :=
    UInt64.toBitVec_inj.mp (hpattern.trans (by decide +kernel))
  rw [← Float.ofBits_toBits x, hbits]
  rfl

/-- Infinity of either sign is at its own index. -/
theorem eq_infinity_of_index {x : Float} (h : index x = infinityIndex) :
    x = infinity (isNegative x) := by
  unfold infinity
  rw [← h, ofIndex_index]

/-! ## Doubles of a sign and an index -/

theorem lt_signBit {i : Nat} (h : i ≤ infinityIndex) : i < signBit :=
  Nat.lt_of_le_of_lt h (by decide)

/-- Up to the index of infinity a sign and an index are a valid bit pattern. -/
theorem toBits_ofIndex (negative : Bool) {i : Nat} (h : i ≤ infinityIndex) :
    (ofIndex negative i).toBits.toNat = if negative then signBit + i else i := by
  have hbound : i ≤ 2047 * 2 ^ 52 := h
  have hsign : signBit = 2 ^ 63 := rfl
  obtain ⟨n, hn⟩ : ∃ n, n = if negative then signBit + i else i := ⟨_, rfl⟩
  have hfields : n < 2 ^ 64 ∧ n % 2 ^ 63 = i := by
    cases negative <;> simp only [if_true, Bool.false_eq_true, if_false] at hn <;> omega
  have htoNat : (UInt64.ofNat n).toNat = n := UInt64.toNat_ofNat_of_lt' hfields.1
  have hvalid : Format.Valid .binary64 (UInt64.ofNat n).toBitVec := by
    refine ⟨fun hexponent hmantissa => absurd ?_ hmantissa⟩
    -- all bits of the exponent are set at infinity only, whose mantissa is zero
    have hones : n / 2 ^ 52 % 2 ^ 11 = 2047 := by
      have hvalue : (BitVec.extractLsb 62 52 (UInt64.ofNat n).toBitVec).toNat = 2047 :=
        congrArg BitVec.toNat hexponent
      rw [BitVec.extractLsb_toNat, Nat.shiftRight_eq_div_pow, UInt64.toNat_toBitVec,
        htoNat] at hvalue
      exact hvalue
    apply BitVec.eq_of_toNat_eq
    show (BitVec.extractLsb 51 0 (UInt64.ofNat n).toBitVec).toNat = 0
    rw [BitVec.extractLsb_toNat, Nat.shiftRight_zero, UInt64.toNat_toBitVec, htoNat]
    show n % 2 ^ 52 = 0
    omega
  have hpacked := Float.ofBits_toBits ⟨⟨UInt64.ofNat n, hvalid⟩⟩
  unfold ofIndex
  rw [← hn]
  exact (congrArg (·.toBits.toNat) hpacked).trans htoNat

theorem isNegative_ofIndex (negative : Bool) {i : Nat} (h : i ≤ infinityIndex) :
    isNegative (ofIndex negative i) = negative := by
  unfold isNegative
  rw [toBits_ofIndex negative h]
  cases negative with
  | true => simp
  | false => simpa using lt_signBit h

theorem index_ofIndex (negative : Bool) {i : Nat} (h : i ≤ infinityIndex) :
    index (ofIndex negative i) = i := by
  have hlt := lt_signBit h
  unfold index
  rw [toBits_ofIndex negative h]
  cases negative with
  | true =>
      simp only [if_true]
      rw [Nat.add_mod_left, Nat.mod_eq_of_lt hlt]
  | false => exact Nat.mod_eq_of_lt hlt

end InfixCalculator.Double
