import InfixCalculator.Decimal.Text
import Mathlib.Data.List.Induction
import Mathlib.Data.List.TakeWhile

/-!
# Digits

The digits that are written for a number are read as that number again.  Zeros in front do not
count, and zeros at the end are factors ten.
-/

namespace InfixCalculator

namespace Literal

/-- A text of digits only. -/
def AllDigits (text : List Char) : Prop :=
  ∀ c ∈ text, isDigit c = true

/-! ## Reading digits -/

theorem ofDigits_concat (digits : List Char) (c : Char) :
    ofDigits (digits ++ [c]) = 10 * ofDigits digits + digitValue c := by
  simp [ofDigits]

theorem ofDigits_append (front back : List Char) :
    ofDigits (front ++ back) = ofDigits front * Nat.pow 10 back.length + ofDigits back := by
  induction back using List.reverseRecOn with
  | nil =>
      rw [List.append_nil]
      exact (Nat.mul_one _).symm
  | append_singleton back c ih =>
      rw [← List.append_assoc, ofDigits_concat, ofDigits_concat, ih, List.length_append]
      show _ = ofDigits front * (Nat.pow 10 back.length * 10) + _
      rw [← Nat.mul_assoc]
      omega

theorem ofDigits_replicate_zero (count : Nat) : ofDigits (List.replicate count '0') = 0 := by
  induction count with
  | zero => rfl
  | succ count ih =>
      rw [List.replicate_succ', ofDigits_concat, ih]
      rfl

theorem ofDigits_zeros_append (count : Nat) (digits : List Char) :
    ofDigits (List.replicate count '0' ++ digits) = ofDigits digits := by
  rw [ofDigits_append, ofDigits_replicate_zero, Nat.zero_mul, Nat.zero_add]

theorem ofDigits_append_zeros (digits : List Char) (count : Nat) :
    ofDigits (digits ++ List.replicate count '0') = ofDigits digits * Nat.pow 10 count := by
  rw [ofDigits_append, ofDigits_replicate_zero, List.length_replicate, Nat.add_zero]

theorem digitValue_le {c : Char} (hc : isDigit c = true) : digitValue c ≤ 9 := by
  have hrange : 48 ≤ c.toNat ∧ c.toNat ≤ 57 := by
    simpa [isDigit, Char.le_def, UInt32.le_iff_toNat_le] using hc
  show c.toNat - 48 ≤ 9
  omega

theorem ofDigits_lt {digits : List Char} (h : AllDigits digits) :
    ofDigits digits < Nat.pow 10 digits.length := by
  induction digits using List.reverseRecOn with
  | nil => exact Nat.one_pos
  | append_singleton digits c ih =>
      have hfront := ih fun d hd => h d (List.mem_append_left _ hd)
      have hlast := digitValue_le (h c (List.mem_append_right _ (List.mem_singleton_self c)))
      rw [ofDigits_concat, List.length_append]
      show _ < Nat.pow 10 digits.length * 10
      omega

/-! ## Texts of digits -/

theorem AllDigits.append {front back : List Char} (hfront : AllDigits front)
    (hback : AllDigits back) : AllDigits (front ++ back) :=
  List.forall_mem_append.2 ⟨hfront, hback⟩

theorem AllDigits.take {digits : List Char} (h : AllDigits digits) (count : Nat) :
    AllDigits (digits.take count) :=
  fun c hc => h c (List.mem_of_mem_take hc)

theorem AllDigits.drop {digits : List Char} (h : AllDigits digits) (count : Nat) :
    AllDigits (digits.drop count) :=
  fun c hc => h c (List.mem_of_mem_drop hc)

theorem allDigits_zeros (count : Nat) : AllDigits (List.replicate count '0') := by
  intro c hc
  rw [List.eq_of_mem_replicate hc]
  decide

end Literal

namespace Decimal

open Literal

/-! ## The digits of a number -/

theorem isDigit_ofNat {d : Nat} (hd : d < 10) : isDigit (Char.ofNat ('0'.toNat + d)) = true :=
  (by decide : ∀ d < 10, isDigit (Char.ofNat ('0'.toNat + d)) = true) d hd

theorem digitValue_ofNat {d : Nat} (hd : d < 10) : digitValue (Char.ofNat ('0'.toNat + d)) = d :=
  (by decide : ∀ d < 10, digitValue (Char.ofNat ('0'.toNat + d)) = d) d hd

theorem allDigits_digits (n : Nat) : AllDigits (digits n) := by
  fun_induction digits n with
  | case1 => exact fun c hc => absurd hc List.not_mem_nil
  | case2 n hn ih =>
      refine ih.append fun c hc => ?_
      rw [List.mem_singleton.1 hc]
      exact isDigit_ofNat (Nat.mod_lt _ (by decide))

/-- What is written for a number is read as it. -/
theorem ofDigits_digits (n : Nat) : ofDigits (digits n) = n := by
  fun_induction digits n with
  | case1 => rfl
  | case2 n hn ih =>
      rw [ofDigits_concat, ih, digitValue_ofNat (Nat.mod_lt _ (by decide))]
      exact Nat.div_add_mod n 10

theorem digits_eq_toDigits {n : Nat} (h : n ≠ 0) : digits n = Nat.toDigits 10 n := by
  have hdigit : ∀ d < 10, Char.ofNat ('0'.toNat + d) = Nat.digitChar d := by decide
  induction n using digits.induct with
  | case1 => exact absurd rfl h
  | case2 n hne ih =>
      rw [digits, if_neg hne, Nat.toDigits_eq_if (by decide), hdigit _ (Nat.mod_lt n (by decide))]
      split
      · rename_i hlt
        rw [Nat.div_eq_of_lt hlt, Nat.mod_eq_of_lt hlt, digits, if_pos rfl, List.nil_append]
      · rw [ih (by omega)]

/-- What is written for a number is its decimal representation. -/
theorem natText_eq_toString (n : Nat) : natText n = toString n := by
  rw [← String.toList_inj, natText, String.toList_ofList, Nat.toString_eq_repr, Nat.toList_repr]
  split
  · rename_i hzero
    rw [hzero, Nat.toDigits_zero]
  · rename_i hne
    exact digits_eq_toDigits hne

/-- A number is below the power of ten that its count of digits gives. -/
theorem lt_pow_digitCount (n : Nat) : n < Nat.pow 10 (digitCount n) := by
  fun_induction digitCount n with
  | case1 => exact Nat.one_pos
  | case2 n hn hsmall ih =>
      show n < Nat.pow 10 (digitCount (n / 10)) * 10
      omega
  | case3 n hn hlarge ih =>
      -- a whole block of digits is counted, and what is in front of it by induction
      have hsplit : Nat.pow 10 (digitCount (n / Nat.pow 10 digitBlock) + digitBlock)
          = Nat.pow 10 (digitCount (n / Nat.pow 10 digitBlock)) * Nat.pow 10 digitBlock :=
        Nat.pow_add ..
      rw [hsplit]
      exact (Nat.div_lt_iff_lt_mul (Nat.pow_pos (by decide))).mp ih

/-- Only zeros are dropped from the end. -/
theorem exists_dropTrailingZeros (digits : List Char) :
    ∃ count, digits = dropTrailingZeros digits ++ List.replicate count '0' := by
  have hsplit := List.takeWhile_append_dropWhile (p := (· == '0')) (l := digits.reverse)
  have hzeros : ∀ c ∈ digits.reverse.takeWhile (· == '0'), c = '0' := by
    intro c hc
    simpa using List.mem_takeWhile_imp hc
  refine ⟨(digits.reverse.takeWhile (· == '0')).length, ?_⟩
  calc digits
    _ = digits.reverse.reverse := (List.reverse_reverse digits).symm
    _ = dropTrailingZeros digits ++ (digits.reverse.takeWhile (· == '0')).reverse := by
        rw [← hsplit, List.reverse_append, hsplit]
        rfl
    _ = _ := by
        rw [List.eq_replicate_of_mem (a := '0') fun c hc => hzeros c (List.mem_reverse.1 hc),
          List.length_reverse]

theorem allDigits_dropTrailingZeros {digits : List Char} (h : AllDigits digits) :
    AllDigits (dropTrailingZeros digits) := by
  obtain ⟨count, hzeros⟩ := exists_dropTrailingZeros digits
  intro c hc
  refine h c ?_
  rw [hzeros]
  exact List.mem_append_left _ hc

end Decimal

end InfixCalculator
