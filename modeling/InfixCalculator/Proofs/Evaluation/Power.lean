import InfixCalculator.Proofs.Double.Parity
import InfixCalculator.Proofs.Double.Power
import InfixCalculator.Proofs.Evaluation.Reduction

/-!
# Powers keep their value

The power function refuses finite operands without a finite power, and it has two refusals for that:
an overflow where the power of a base other than zero is infinite (`finitePower_eq_overflow_iff`), and
a domain error where there is no power at all or a base of zero stands under an exponent below zero
(`finitePower_eq_domain_iff`).  What `^` puts in the place of a refused power is made from the
operands alone:

* after an overflow, infinity with the sign of the base under an odd exponent;
* after a domain error with a base of zero, the same;
* after any other domain error, NaN.

In all three cases this is the power that was refused (`Operator.compute_power`).  So `^` always
leaves the power on the stack, with one report if finite operands have no finite power, and none
otherwise (`Machine.apply_power`).
-/

namespace InfixCalculator

open Double

variable {lhs rhs : Float}

/-! ## The refusals of the power function -/

/-- Finite operands without a finite power. -/
def LacksPower (lhs rhs : Float) : Prop :=
  isFinite lhs = true ∧ isFinite rhs = true ∧ isFinite (power lhs rhs) = false

instance : Decidable (LacksPower lhs rhs) :=
  inferInstanceAs (Decidable (_ ∧ _ ∧ _))

theorem LacksPower.isInfinite (h : LacksPower lhs rhs) (hnan : power lhs rhs ≠ nan) :
    IsInfinite (power lhs rhs) :=
  ⟨_, (power_of_not_finite h.2.2).resolve_left hnan⟩

/-- The finite exponents under which zero has no finite power are those below zero. -/
theorem isFinite_power_of_isZero (hzero : isZero lhs = true) (hrhs : isFinite rhs = true) :
    isFinite (power lhs rhs) = !isBelowZero rhs := by
  by_cases hrhszero : isZero rhs = true
  · have hone : power lhs rhs = ofIndex false oneIndex := by simp [power, hrhszero]
    rw [hone, isFinite_ofIndex false (by decide), isBelowZero, hrhszero, Bool.not_true,
      Bool.and_false]
    decide
  · rw [Bool.not_eq_true] at hrhszero
    rw [power_of_isZero hzero hrhs hrhszero, isBelowZero, hrhszero]
    cases isNegative rhs with
    | true =>
        rw [if_pos rfl, isFinite_ofIndex _ (Nat.le_refl _)]
        decide
    | false =>
        rw [if_neg Bool.false_ne_true, isFinite_ofIndex _ (Nat.zero_le _)]
        decide

theorem finitePower_of_not_lacks (h : ¬ LacksPower lhs rhs) :
    finitePower lhs rhs = .ok (power lhs rhs) := by
  have hguard : (!isFinite lhs || !isFinite rhs || isFinite (power lhs rhs)) = true := by
    by_contra hguard
    simp only [Bool.or_eq_true, Bool.not_eq_true', not_or, Bool.not_eq_false, Bool.not_eq_true]
      at hguard
    exact h ⟨hguard.1.1, hguard.1.2, hguard.2⟩
  simp only [finitePower, hguard, if_true]

theorem finitePower_of_lacks (h : LacksPower lhs rhs) :
    finitePower lhs rhs =
      if power lhs rhs = nan ∨ isZero lhs = true then .error .domain else .error .overflow := by
  obtain ⟨hlhs, hrhs, hpower⟩ := h
  have hnan : isNaN (power lhs rhs) = true ↔ power lhs rhs = nan := by
    constructor
    · intro hindex
      exact eq_nan_of_index (of_decide_eq_true hindex)
    · intro heq
      rw [heq, isNaN_nan]
  simp only [finitePower, hlhs, hrhs, hpower, Bool.not_true, Bool.or_self, Bool.false_eq_true,
    if_false, Bool.or_eq_true, hnan]

theorem finitePower_eq_ok_iff {value : Float} :
    finitePower lhs rhs = .ok value ↔ ¬ LacksPower lhs rhs ∧ power lhs rhs = value := by
  by_cases h : LacksPower lhs rhs
  · rw [finitePower_of_lacks h]
    split_ifs <;> simp [h]
  · rw [finitePower_of_not_lacks h, Except.ok.injEq]
    simp [h]

theorem finitePower_eq_overflow_iff :
    finitePower lhs rhs = .error .overflow ↔
      isFinite lhs = true ∧ isFinite rhs = true ∧ isZero lhs = false ∧
        IsInfinite (power lhs rhs) := by
  constructor
  · intro hrefused
    by_cases h : LacksPower lhs rhs
    · rw [finitePower_of_lacks h] at hrefused
      split_ifs at hrefused with hcause
      · cases hrefused
      · rw [not_or, Bool.not_eq_true] at hcause
        exact ⟨h.1, h.2.1, hcause.2, h.isInfinite hcause.1⟩
    · rw [finitePower_of_not_lacks h] at hrefused
      cases hrefused
  · rintro ⟨hlhs, hrhs, hzero, hinfinite⟩
    rw [finitePower_of_lacks ⟨hlhs, hrhs, hinfinite.isFinite_eq_false⟩, if_neg]
    rw [not_or, Bool.not_eq_true]
    exact ⟨hinfinite.ne_nan, hzero⟩

theorem finitePower_eq_domain_iff :
    finitePower lhs rhs = .error .domain ↔
      isFinite lhs = true ∧ isFinite rhs = true ∧
        (power lhs rhs = nan ∨ isZero lhs = true ∧ isBelowZero rhs = true) := by
  constructor
  · intro hrefused
    by_cases h : LacksPower lhs rhs
    · refine ⟨h.1, h.2.1, ?_⟩
      rw [finitePower_of_lacks h] at hrefused
      split_ifs at hrefused with hcause
      · refine hcause.imp_right fun hzero => ⟨hzero, ?_⟩
        have hbelow := isFinite_power_of_isZero hzero h.2.1
        rwa [h.2.2, eq_comm, Bool.not_eq_false'] at hbelow
      · cases hrefused
    · rw [finitePower_of_not_lacks h] at hrefused
      cases hrefused
  · rintro ⟨hlhs, hrhs, hcause⟩
    have hpower : isFinite (power lhs rhs) = false := by
      rcases hcause with hnan | ⟨hzero, hbelow⟩
      · rw [hnan, isFinite_nan]
      · rw [isFinite_power_of_isZero hzero hrhs, hbelow, Bool.not_true]
    rw [finitePower_of_lacks ⟨hlhs, hrhs, hpower⟩, if_pos]
    exact hcause.imp_right And.left

/-! ## What takes the place of a refused power -/

/-- The infinity that takes the place of an infinite power has the sign of the power. -/
theorem signedInfinity_eq_power (h : IsInfinite (power lhs rhs)) :
    signedInfinity lhs rhs = power lhs rhs := by
  rcases power_of_not_finite h.isFinite_eq_false with hnan | heq
  · exact absurd hnan h.ne_nan
  · rw [heq, signedInfinity, Bool.and_comm]

/-- The sign is negative if the base has its sign bit set and the exponent is odd. -/
theorem exists_sign_of_isInfinite (h : IsInfinite (power lhs rhs)) :
    ∃ negative, power lhs rhs = infinity negative ∧
      (negative = true ↔ isNegative lhs = true ∧ IsOddInteger rhs) := by
  refine ⟨isNegative lhs && isOdd rhs, ?_, ?_⟩
  · rw [← signedInfinity_eq_power h, signedInfinity, Bool.and_comm]
  · rw [Bool.and_eq_true, isOdd_iff]

/-- Zero under a finite exponent below zero has an infinite power. -/
theorem isInfinite_power_of_isZero (hzero : isZero lhs = true) (hrhs : isFinite rhs = true)
    (hbelow : isBelowZero rhs = true) : IsInfinite (power lhs rhs) := by
  obtain ⟨hnegative, hne⟩ : isNegative rhs = true ∧ isZero rhs = false := by
    simpa [isBelowZero] using hbelow
  rw [power_of_isZero hzero hrhs hne, if_pos hnegative]
  exact ⟨_, rfl⟩

namespace Operator

/-- The words for a power that is lacking. -/
def powerMessage (lhs rhs : Float) : String :=
  if isZero lhs && isBelowZero rhs then "Zero raised to a negative power " ++ powerText lhs rhs
  else if isNaN (Double.power lhs rhs) then
    "Invalid exponentiation " ++ powerText lhs rhs ++ ": math domain error"
  else "Exponentiation overflow " ++ powerText lhs rhs

/-- What there is to report on a power. -/
def powerAnomaly (lhs rhs : Float) : Option Anomaly :=
  if LacksPower lhs rhs then some ⟨.invalidPower, powerMessage lhs rhs⟩ else none

/-- The value is the power of the operands, also where the power function refuses them. -/
theorem compute_power (lhs rhs : Float) :
    Operator.power.compute lhs rhs = .ok ⟨Double.power lhs rhs, powerAnomaly lhs rhs⟩ := by
  have hguard : ¬ (decide (Operator.power = divide) && isZero rhs) = true := by simp
  simp only [compute, if_neg hguard, operate]
  cases hfinite : finitePower lhs rhs with
  | ok value =>
      obtain ⟨hnot, rfl⟩ := finitePower_eq_ok_iff.mp hfinite
      simp only [powerAnomaly, if_neg hnot]
  | error reason =>
      cases reason with
      | zeroDivisor =>
          have hop : Operator.power.operate lhs rhs = .error .zeroDivisor := hfinite
          exact absurd (operate_eq_zeroDivisor hop).1 (by decide)
      | overflow =>
          obtain ⟨hlhs, hrhs, hzero, hinfinite⟩ := finitePower_eq_overflow_iff.mp hfinite
          have hlacks : LacksPower lhs rhs := ⟨hlhs, hrhs, hinfinite.isFinite_eq_false⟩
          -- a base other than zero and a power other than NaN are left for the last message
          simp [powerAnomaly, powerMessage, hlacks, hzero, hinfinite.isNaN_eq_false, overflowed,
            signedInfinity_eq_power hinfinite]
      | domain =>
          obtain ⟨hlhs, hrhs, hcause⟩ := finitePower_eq_domain_iff.mp hfinite
          -- the operands alone tell whether zero was raised to an exponent below zero
          by_cases hzero : isZero lhs = true ∧ isBelowZero rhs = true
          · have hinfinite := isInfinite_power_of_isZero hzero.1 hrhs hzero.2
            have hlacks : LacksPower lhs rhs := ⟨hlhs, hrhs, hinfinite.isFinite_eq_false⟩
            simp [powerAnomaly, powerMessage, hlacks, hzero, unreal,
              signedInfinity_eq_power hinfinite]
          · have hnan := hcause.resolve_right hzero
            have hlacks : LacksPower lhs rhs := ⟨hlhs, hrhs, by rw [hnan, isFinite_nan]⟩
            have hguard : (isZero lhs && isBelowZero rhs) = false := by
              rw [Bool.eq_false_iff, ne_eq, Bool.and_eq_true]
              exact hzero
            simp only [powerAnomaly, if_pos hlacks, powerMessage, hguard, unreal,
              hnan, isNaN_nan, Bool.false_eq_true, if_false, if_true]

end Operator

namespace Machine

/-- On two operands `^` leaves their power, and reports once that finite operands have no finite
one.  An infinite power of finite operands, such as of zero under an exponent below zero, is
negative exactly where the base has its sign bit set and the exponent is an odd whole number. -/
theorem apply_power (position : Nat) (m : Machine) (lhs rhs : Float) :
    ∃ reports : List Diagnostic,
      apply position (.operator .power) ((m.push lhs).push rhs) =
          .ok { m with
            operands := Double.power lhs rhs :: m.operands
            diagnostics := reports ++ m.diagnostics } ∧
        (LacksPower lhs rhs → ∃ message, reports = [⟨.invalidPower, message, position⟩]) ∧
        (¬ LacksPower lhs rhs → reports = []) ∧
        (isFinite lhs = true → isFinite rhs = true →
          IsInfinite (Double.power lhs rhs) ∨ isZero lhs = true ∧ isBelowZero rhs = true →
          ∃ negative, Double.power lhs rhs = infinity negative ∧
            (negative = true ↔ isNegative lhs = true ∧ IsOddInteger rhs)) := by
  have hcomputed : Operator.power.computed lhs rhs =
      ⟨Double.power lhs rhs, Operator.powerAnomaly lhs rhs⟩ := by
    rw [Operator.computed, Operator.compute_power]
  have happly : apply position (.operator .power) ((m.push lhs).push rhs) =
      .ok ((m.reportAny position (Operator.powerAnomaly lhs rhs)).push (Double.power lhs rhs)) := by
    calc apply position (.operator .power) ((m.push lhs).push rhs)
      _ = .ok (((m.push lhs).push rhs).applied position (.operator .power)) := apply_eq rfl
      _ = .ok ((m.reportAny position (Operator.power.computed lhs rhs).anomaly).push
            (Operator.power.computed lhs rhs).value) := rfl
      _ = .ok ((m.reportAny position (Operator.powerAnomaly lhs rhs)).push
            (Double.power lhs rhs)) := by rw [hcomputed]
  refine ⟨if LacksPower lhs rhs then [⟨.invalidPower, Operator.powerMessage lhs rhs, position⟩]
    else [], ?_, ?_, ?_, ?_⟩
  · rw [happly, Operator.powerAnomaly]
    split_ifs <;> rfl
  · intro hlacks
    rw [if_pos hlacks]
    exact ⟨_, rfl⟩
  · intro hnot
    rw [if_neg hnot]
  · intro hlhs hrhs hcause
    apply exists_sign_of_isInfinite
    rcases hcause with hinfinite | ⟨hzero, hbelow⟩
    · exact hinfinite
    · exact isInfinite_power_of_isZero hzero hrhs hbelow

end Machine

end InfixCalculator
