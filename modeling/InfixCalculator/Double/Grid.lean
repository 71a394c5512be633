/-!
# The grid of the doubles

The doubles of sign `+`, from zero up to infinity, are numbered in increasing
order: number `0` is zero, number `1` the least positive double, and number
`infinityIndex` is infinity.  The number of a double, its *index*, is its bit
pattern without the sign.

Every finite double is a whole number of *units* of `2 ^ (-1074)`; `units` gives
that number for an index.  So questions about rounding are questions about
natural numbers.  `roundRatio` is the one rounding rule of the library: the index
of the double nearest to a ratio, of two equally near ones the even one, and
infinity from half a step beyond the largest finite double on.
-/

namespace InfixCalculator.Double

/-- How many doubles share a sign and an exponent. -/
def binade : Nat := Nat.pow 2 52

/-- The denominator that makes every finite double a whole number of units. -/
def unitsPerOne : Nat := Nat.pow 2 1074

/-- The index of infinity, which is also the number of finite doubles of one sign. -/
def infinityIndex : Nat := 2047 * binade

/-- The bit that holds the sign. -/
def signBit : Nat := Nat.pow 2 63

/-- The double with an index, in units of `2 ^ (-1074)`. -/
def units (index : Nat) : Nat :=
  if index < binade then index
  else (binade + index % binade) * Nat.pow 2 (index / binade - 1)

/-- The index of the double nearest to `numerator / denominator`, ties to the even index.

The step between neighbours at `x` units is `2 ^ (log2 x - 52)`, or one unit for a
small `x`.  The ratio is cut into whole steps and a rest, and the rest decides whether the
upper neighbour is nearer. -/
def roundRatio (numerator denominator : Nat) : Nat :=
  let scaled := numerator * unitsPerOne
  let exponent := (scaled / denominator).log2 - 52
  let step := denominator * Nat.pow 2 exponent
  let steps := scaled / step
  let rest := scaled % step
  let below := exponent * binade + steps
  let nearest :=
    if 2 * rest > step || (2 * rest == step && steps % 2 == 1) then below + 1 else below
  min nearest infinityIndex

/-- Beyond this power of two no double but infinity, and below its inverse none but zero, is near. -/
def exponentBound : Nat := 1200

/-- The index of the double nearest to `coefficient * 2 ^ exponent`. -/
def roundDyadic (coefficient : Nat) (exponent : Int) : Nat :=
  if coefficient = 0 then 0
  else if exponent > exponentBound then infinityIndex
  else if exponent + coefficient.log2 < -exponentBound then 0
  else match exponent with
    | .ofNat e => roundRatio (coefficient * Nat.pow 2 e) 1
    | .negSucc e => roundRatio coefficient (Nat.pow 2 (e + 1))

/-! ## Doubles and their indices -/

/-- The double with a sign and an index. -/
def ofIndex (negative : Bool) (index : Nat) : Float :=
  Float.ofBits (UInt64.ofNat (if negative then signBit + index else index))

/-- Whether the sign bit is set. -/
def isNegative (x : Float) : Bool :=
  x.toBits.toNat ≥ signBit

/-- The index of a double without its sign. -/
def index (x : Float) : Nat :=
  x.toBits.toNat % signBit

/-- Whether a double is a number and not infinite. -/
def isFinite (x : Float) : Bool :=
  index x < infinityIndex

/-- Infinity, or its negative. -/
def infinity (negative : Bool) : Float :=
  ofIndex negative infinityIndex

/-- Not a number. -/
def nan : Float :=
  ofIndex false (infinityIndex + binade / 2)

/-- A finite double's size as `coefficient * 2 ^ exponent` with an odd coefficient. -/
structure Dyadic where
  coefficient : Nat
  exponent : Int

/-- Moves the factors two of a positive coefficient into the exponent; `fuel` bounds their number. -/
def Dyadic.reduce (fuel : Nat) (x : Dyadic) : Dyadic :=
  match fuel with
  | 0 => x
  | fuel + 1 =>
    if x.coefficient % 2 = 0 then reduce fuel ⟨x.coefficient / 2, x.exponent + 1⟩ else x

/-- The size of a finite double other than zero. -/
def dyadic (x : Float) : Dyadic :=
  let i := index x
  let raw : Dyadic :=
    if i < binade then ⟨i, -1074⟩
    else ⟨binade + i % binade, (i / binade : Nat) - (1075 : Int)⟩
  raw.reduce 53

end InfixCalculator.Double
