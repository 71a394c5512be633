import InfixCalculator.Double.Grid

/-!
# Enclosures of logarithms and powers of two

Reals are held between two bounds that are whole multiples of `2 ^ (-precision)`.
Both functions of this module are sums of positive terms, every term rounded
down, so that a sum is a lower bound and the sum plus `slack` an upper one:

* `artanh z = z + z ^ 3 / 3 + z ^ 5 / 5 + …`, from which
  `log2 f = artanh ((f - 1) / (f + 1)) / artanh (1 / 3)` for `1 ≤ f < 2`;
* `exp u = 1 + u + u ^ 2 / 2! + …`, from which `2 ^ t = exp (t * ln 2)`, where
  `ln 2 = 2 * artanh (1 / 3)`.

In the first series consecutive powers fall by a factor nine or more, so that
`termCount` terms leave a rest below one unit, and a rounding down costs at most
three units a term.
-/

namespace InfixCalculator.Double

/-- A real number between `lower` and `upper`, in units that the context fixes. -/
structure Enclosure where
  lower : Int
  upper : Int

namespace Enclosure

/-- The unit's inverse. -/
def scale (precision : Nat) : Nat := Nat.pow 2 precision

/-- How many terms of a series are added. -/
def termCount (precision : Nat) : Nat := precision / 3 + 10

/-- A bound for what rounding down and leaving off the last terms take from a sum. -/
def slack (precision : Nat) : Nat := 2 * precision + 64

/-- The terms from number `k` on of the series for `artanh (p / q)`, whose power is `power`. -/
def artanhFrom (p q : Nat) : (terms k power : Nat) → Nat
  | 0, _, _ => 0
  | terms + 1, k, power =>
    power / (2 * k + 1) + artanhFrom p q terms (k + 1) (power * (p * p) / (q * q))

/-- A lower bound of `artanh (p / q)` for a ratio of at most one third. -/
def artanh (precision p q : Nat) : Nat :=
  artanhFrom p q (termCount precision) 0 (scale precision * p / q)

/-- The terms after number `k` of the series for `exp (u / scale)`, the last of which was `term`. -/
def expFrom (precision u : Nat) : (terms k term : Nat) → Nat
  | 0, _, term => term
  | terms + 1, k, term =>
    term + expFrom precision u terms (k + 1) (term * u / ((k + 1) * scale precision))

/-- A lower bound of `exp (u / scale)` for a small `u`. -/
def exp (precision u : Nat) : Nat :=
  expFrom precision u (termCount precision) 0 (scale precision)

/-- The logarithm to base two of a positive dyadic number. -/
def log2 (precision : Nat) (x : Dyadic) : Enclosure :=
  let top := x.coefficient.log2
  let numerator := artanh precision (x.coefficient - Nat.pow 2 top) (x.coefficient + Nat.pow 2 top)
  let denominator := artanh precision 1 3
  let whole := (x.exponent + top) * scale precision
  ⟨whole + (numerator * scale precision / (denominator + slack precision) : Nat),
    whole + ((numerator + slack precision) * scale precision / denominator + 1 : Nat)⟩

/-- The product with a whole number. -/
def mulInt (e : Enclosure) (n : Int) : Enclosure :=
  if n < 0 then ⟨e.upper * n, e.lower * n⟩ else ⟨e.lower * n, e.upper * n⟩

/-- The product with a power of two. -/
def shift (e : Enclosure) : Int → Enclosure
  | .ofNat k => ⟨e.lower * Nat.pow 2 k, e.upper * Nat.pow 2 k⟩
  | .negSucc k => ⟨e.lower / Nat.pow 2 (k + 1), e.upper / Nat.pow 2 (k + 1) + 1⟩

/-- The bounds of two to a power, moved apart by `2 ^ (-margin)` of their size, by the indices of the
doubles nearest to them. -/
def roundExp2 (precision margin : Nat) (power : Enclosure) : Nat × Nat :=
  let bound : Int := exponentBound * scale precision
  if power.lower > bound then (infinityIndex, infinityIndex)
  else if power.upper < -bound then (0, 0)
  else
    let halfLn2 := artanh precision 1 3
    let whole := power.lower / scale precision
    let low := exp precision
      ((power.lower - whole * scale precision).toNat * (2 * halfLn2) / scale precision)
    let high := slack precision + exp precision
      ((power.upper - whole * scale precision).toNat * (2 * (halfLn2 + slack precision)) /
        scale precision + 1)
    (roundDyadic (low - low / Nat.pow 2 margin) (whole - precision),
      roundDyadic (high + high / Nat.pow 2 margin) (whole - precision))

end Enclosure

end InfixCalculator.Double
