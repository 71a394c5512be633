import InfixCalculator.Decimal.Text
import InfixCalculator.Diagnostic
import InfixCalculator.Double.Power
import InfixCalculator.Token

/-!
# The rule of each operator

`Operator.operate` is the operation of an operator on two doubles, undefined on a
zero divisor, and on finite operands whose power is infinite or not a number.
`Operator.compute` keeps clear of these gaps or fills them, and says what it did:

* a zero divisor leaves the dividend as it is;
* a power that overflows, or of zero to a negative exponent, is infinite, and
  negative exactly under `isOdd` with a negative base;
* any other undefined power is not a number.

So `^` always yields what `Double.power` does, and the gaps only decide whether an
anomaly is reported.  A quotient is left alone where the divisor is zero, so that no
gap is left over: `compute_ok`.
-/

namespace InfixCalculator

/-- Why an operation is undefined on its operands. -/
inductive Undefined where
  | zeroDivisor
  | overflow
  | domain
deriving DecidableEq

/-- An anomaly in words, still without its position. -/
structure Anomaly where
  kind : DiagnosticKind
  message : String
deriving DecidableEq

/-- A value and the anomaly met on the way to it, if any. -/
structure Computed where
  value : Float
  anomaly : Option Anomaly

/-- Infinity with the sign that a power of these operands has. -/
def signedInfinity (base exponent : Float) : Float :=
  Double.infinity (Double.isOdd exponent && Double.isNegative base)

/-- Whether a double is less than zero. -/
def isBelowZero (x : Float) : Bool :=
  Double.isNegative x && !Double.isZero x

/-- A power, undefined where finite operands give none that is finite. -/
def finitePower (base exponent : Float) : Except Undefined Float :=
  let value := Double.power base exponent
  if !Double.isFinite base || !Double.isFinite exponent || Double.isFinite value then .ok value
  else if Double.isNaN value || Double.isZero base then .error .domain
  else .error .overflow

/-- A quotient, undefined on a zero divisor. -/
def quotient (dividend divisor : Float) : Except Undefined Float :=
  if Double.isZero divisor then .error .zeroDivisor else .ok (dividend / divisor)

/-- A square root, undefined below zero. -/
def realRoot (x : Float) : Except Undefined Float :=
  if isBelowZero x then .error .domain else .ok x.sqrt

namespace Operator

/-- The operation of an operator. -/
def operate : Operator → Float → Float → Except Undefined Float
  | power, lhs, rhs => finitePower lhs rhs
  | multiply, lhs, rhs => .ok (lhs * rhs)
  | divide, lhs, rhs => quotient lhs rhs
  | add, lhs, rhs => .ok (lhs + rhs)
  | subtract, lhs, rhs => .ok (lhs - rhs)

/-- The operands of a power as messages show them. -/
def powerText (lhs rhs : Float) : String :=
  Decimal.plainText lhs ++ " ^ " ++ Decimal.plainText rhs

/-- What takes the place of a power that overflows. -/
def overflowed (lhs rhs : Float) : Computed :=
  ⟨signedInfinity lhs rhs, some ⟨.invalidPower, "Exponentiation overflow " ++ powerText lhs rhs⟩⟩

/-- What takes the place of a power without a real value, or of zero to a negative exponent. -/
def unreal (lhs rhs : Float) : Computed :=
  if Double.isZero lhs && isBelowZero rhs then
    ⟨signedInfinity lhs rhs,
      some ⟨.invalidPower, "Zero raised to a negative power " ++ powerText lhs rhs⟩⟩
  else
    ⟨Double.nan,
      some ⟨.invalidPower,
        "Invalid exponentiation " ++ powerText lhs rhs ++ ": math domain error"⟩⟩

/-- The value that an operator gives on two operands, and what there is to report. -/
def compute (op : Operator) (lhs rhs : Float) : Except Undefined Computed :=
  if op = divide && Double.isZero rhs then
    .ok ⟨lhs, some ⟨.divisionByZero, "Division by zero"⟩⟩
  else match op.operate lhs rhs with
    | .ok value => .ok ⟨value, none⟩
    | .error .overflow => .ok (overflowed lhs rhs)
    | .error .domain => .ok (unreal lhs rhs)
    | .error .zeroDivisor => .error .zeroDivisor

/-- An operation is left undefined only by a zero divisor, and only under `/`. -/
theorem operate_eq_zeroDivisor {op : Operator} {lhs rhs : Float}
    (h : op.operate lhs rhs = .error .zeroDivisor) : op = divide ∧ Double.isZero rhs = true := by
  cases op with
  | power =>
    simp only [operate, finitePower] at h
    split at h
    · cases h
    · split at h <;> cases h
  | multiply => cases h
  | divide =>
    refine ⟨rfl, ?_⟩
    simp only [operate, quotient] at h
    split at h
    · assumption
    · cases h
  | add => cases h
  | subtract => cases h

/-- Every operator gives a value on every two operands. -/
theorem compute_ok (op : Operator) (lhs rhs : Float) : ∃ c, op.compute lhs rhs = .ok c := by
  unfold compute
  split
  · exact ⟨_, rfl⟩
  · rename_i hguard
    cases h : op.operate lhs rhs with
    | ok value => exact ⟨_, rfl⟩
    | error reason =>
      cases reason with
      | overflow => exact ⟨_, rfl⟩
      | domain => exact ⟨_, rfl⟩
      | zeroDivisor =>
        obtain ⟨hop, hzero⟩ := operate_eq_zeroDivisor h
        exact absurd (by simp [hop, hzero]) hguard

end Operator

end InfixCalculator
