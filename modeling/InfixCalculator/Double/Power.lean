import InfixCalculator.Double.Enclosure

/-!
# Powers of doubles

`power x y` is a double next to `x ^ y`, with the limits of the real function
where an operand is zero or infinite: the sign of the base counts only under an
odd whole exponent, a negative base under an exponent that is not whole has no
power, and `x ^ 0` and `1 ^ y` are one whatever the other operand is.

The size of a finite power is enclosed between two bounds that are about a tenth of
the step between neighbouring doubles away from it.  Nearly always both bounds have
the same nearest double, and that is the one nearest to the power.  Otherwise the
power lies about half-way between two doubles, and the machine's own power function
decides, as far as it stays within the bounds.
-/

namespace InfixCalculator.Double

/-- The index of one. -/
def oneIndex : Nat := 1023 * binade

/-! ## Whole exponents -/

/-- Whether a double is not a number. -/
def isNaN (x : Float) : Bool :=
  index x > infinityIndex

/-- Whether a double is zero of either sign. -/
def isZero (x : Float) : Bool :=
  index x = 0

/-- Whether a double is a finite whole number. -/
def isWhole (x : Float) : Bool :=
  isFinite x && (isZero x || (dyadic x).exponent ≥ 0)

/-- Whether a double is a finite odd whole number. -/
def isOdd (x : Float) : Bool :=
  isFinite x && !isZero x && (dyadic x).exponent = 0

/-! ## Powers -/

/-- The number of binary places in which logarithms and powers of two are enclosed.  An exponent
whose power is neither zero nor infinite takes less than seventy of them. -/
def powerPrecision : Nat := 192

/-- How far the bounds of a power are moved apart: `2 ^ (-powerMargin)` of its size. -/
def powerMargin : Nat := 56

/-- The indices of the doubles nearest to two bounds of a power of a positive dyadic number. -/
def powerBounds (x : Dyadic) (negative : Bool) (y : Dyadic) : Nat × Nat :=
  let exponent : Int := if negative then -(y.coefficient : Int) else y.coefficient
  Enclosure.roundExp2 powerPrecision powerMargin
    (((Enclosure.log2 powerPrecision x).mulInt exponent).shift y.exponent)

/-- The index of a power of the sizes of two finite doubles other than zero. -/
def finitePowerIndex (x y : Float) : Nat :=
  let (low, high) := powerBounds (dyadic x) (isNegative y) (dyadic y)
  max low (min high (index (Float.pow x y)))

/-- The index of the size of a power; neither operand is NaN and the exponent is not zero. -/
def powerIndex (x y : Float) : Nat :=
  let grows := !isNegative y
  if index x = oneIndex then oneIndex
  else if !isFinite y then if (index x > oneIndex) == grows then infinityIndex else 0
  else if isZero x then if grows then 0 else infinityIndex
  else if !isFinite x then if grows then infinityIndex else 0
  else finitePowerIndex x y

/-- The power of two doubles. -/
def power (x y : Float) : Float :=
  if isZero y || (index x = oneIndex && !isNegative x) then ofIndex false oneIndex
  else if isNaN x || isNaN y then nan
  else if isNegative x && isFinite x && !isZero x && isFinite y && !isWhole y then nan
  else ofIndex (isNegative x && isOdd y) (powerIndex x y)

end InfixCalculator.Double
