import InfixCalculator.Decimal.Literal

/-!
# The shortest decimal of a double

A positive finite double is a whole number of units of `10 ^ (-1074)`, so its
exact decimal expansion is a natural number, `expansion`.  Cutting digits off
its end gives a coarser decimal grid; the two neighbours of the double on that
grid are the candidates with that many digits.

`shortest` takes the fewest digits for which a candidate reads back, that is,
for which the double nearest to the candidate is the one given.  Of two such
candidates it takes the nearer, and of two equally near ones the even one.  With
no digit cut off the lower candidate is the double itself, so the search always
ends with a decimal that reads back.
-/

namespace InfixCalculator.Decimal

/-- A decimal `coefficient * 10 ^ exponent`. -/
structure Scaled where
  coefficient : Nat
  exponent : Int
deriving DecidableEq

/-- How many digits of a long number are counted at once. -/
def digitBlock : Nat := 48

/-- The number of decimal digits of a natural number; zero has none. -/
def digitCount (n : Nat) : Nat :=
  if n = 0 then 0
  else if n < Nat.pow 10 digitBlock then digitCount (n / 10) + 1
  else digitCount (n / Nat.pow 10 digitBlock) + digitBlock
termination_by n
decreasing_by
  · omega
  · exact Nat.div_lt_self (by omega) (by decide)

/-- The decimal digits of a natural number, the most significant first; zero has none. -/
def digits (n : Nat) : List Char :=
  if n = 0 then [] else digits (n / 10) ++ [Char.ofNat ('0'.toNat + n % 10)]
termination_by n
decreasing_by omega

/-- The number of decimal places in which every double is exact. -/
def exactPlaces : Nat := 1074

/-- A finite double by its index, in units of `10 ^ (-1074)`. -/
def expansion (index : Nat) : Nat :=
  Double.units index * Nat.pow 5 exactPlaces

/-- Whether the double nearest to a decimal is the one with the index. -/
def readsBack (index : Nat) (decimal : Scaled) : Bool :=
  Literal.roundDecimal decimal.coefficient (digitCount decimal.coefficient) decimal.exponent == index

/-- The decimal to choose when `cut` digits of the exact expansion are cut off, if one reads
back. -/
def candidate? (index exact cut : Nat) : Option Scaled :=
  let unit := Nat.pow 10 cut
  let lower : Scaled := ⟨exact / unit, (cut : Int) - exactPlaces⟩
  let upper : Scaled := ⟨exact / unit + 1, (cut : Int) - exactPlaces⟩
  let rest := exact % unit
  match readsBack index lower, readsBack index upper with
  | false, false => none
  | true, false => some lower
  | false, true => some upper
  | true, true =>
    if 2 * rest < unit || (2 * rest == unit && lower.coefficient % 2 == 0) then some lower
    else some upper

/-- The candidate with the most digits cut off, at most `cut`. -/
def shortestFrom (index exact : Nat) : (cut : Nat) → Scaled
  | 0 => ⟨exact, -exactPlaces⟩
  | cut + 1 =>
    match candidate? index exact (cut + 1) with
    | some decimal => decimal
    | none => shortestFrom index exact cut

/-- The shortest decimal that reads back as the double with a positive finite index. -/
def shortest (index : Nat) : Scaled :=
  let exact := expansion index
  shortestFrom index exact (digitCount exact - 1)

end InfixCalculator.Decimal
