import InfixCalculator.Double.Grid

/-!
# Number literals

A number is written as an optional sign followed by `NaN`, by `Infinity`, or by a
decimal: ASCII digits with at most one point among them, at least one digit in
all, and optionally an exponent of ten after `e` or `E`.  Nothing else is a
number: no blank, no separator between digits, no digit outside of ASCII.

`Literal.ofChars?` takes such a text apart and `Literal.toFloat` gives the double
nearest to the number that it denotes, with the sign of the literal also when
that double is zero or infinite.
-/

namespace InfixCalculator

/-- What a literal says apart from its sign. -/
inductive Literal.Size where
  | nan
  | infinity
  /-- The digits before and after the point, read with a power of ten. -/
  | decimal (whole fraction : List Char) (exponent : Int)
deriving DecidableEq

/-- A number literal. -/
structure Literal where
  negative : Bool
  size : Literal.Size
deriving DecidableEq

namespace Literal

/-! ## Digits -/

/-- The ten ASCII digits. -/
def isDigit (c : Char) : Bool :=
  '0' ≤ c && c ≤ '9'

/-- The value of a digit. -/
def digitValue (c : Char) : Nat :=
  c.toNat - '0'.toNat

/-- The number that some digits denote, the most significant one first. -/
def ofDigits (digits : List Char) : Nat :=
  digits.foldl (fun value c => 10 * value + digitValue c) 0

/-! ## Taking a literal apart -/

/-- Splits off a sign; a text without one counts as positive. -/
def splitSign : List Char → Bool × List Char
  | '+' :: rest => (false, rest)
  | '-' :: rest => (true, rest)
  | rest => (false, rest)

/-- Reads the exponent that ends a decimal: nothing, or a mark, an optional sign and digits. -/
def exponent? : List Char → Option Int
  | [] => some 0
  | mark :: rest =>
    if mark = 'e' || mark = 'E' then
      let (negative, digits) := splitSign rest
      if digits ≠ [] && digits.all isDigit then
        some (if negative then -(ofDigits digits : Int) else ofDigits digits)
      else none
    else none

/-- Splits off a point and the digits after it. -/
def splitFraction : List Char → List Char × List Char
  | '.' :: rest => (rest.takeWhile isDigit, rest.dropWhile isDigit)
  | rest => ([], rest)

/-- Reads a decimal without a sign. -/
def decimal? (text : List Char) : Option Size :=
  let whole := text.takeWhile isDigit
  let (fraction, rest) := splitFraction (text.dropWhile isDigit)
  if whole = [] && fraction = [] then none
  else (exponent? rest).map (Size.decimal whole fraction)

/-- Reads what follows the sign. -/
def size? (text : List Char) : Option Size :=
  if text = "NaN".toList then some .nan
  else if text = "Infinity".toList then some .infinity
  else decimal? text

/-- Reads a literal; `none` if the text is not one. -/
def ofChars? (text : List Char) : Option Literal :=
  let (negative, rest) := splitSign text
  (size? rest).map (Literal.mk negative)

/-! ## The double that a literal denotes -/

/-- Beyond this power of ten every positive decimal is read as infinity, and below its inverse
as zero. -/
def exponentBound : Nat := 400

/-- The index of the double nearest to `coefficient * 10 ^ exponent`, where the coefficient has at
most `length` digits. -/
def roundDecimal (coefficient length : Nat) (exponent : Int) : Nat :=
  if coefficient = 0 then 0
  else if exponent > exponentBound then Double.infinityIndex
  else if exponent + length < -exponentBound then 0
  else match exponent with
    | .ofNat e => Double.roundRatio (coefficient * Nat.pow 10 e) 1
    | .negSucc e => Double.roundRatio coefficient (Nat.pow 10 (e + 1))

/-- The index of the double nearest to a decimal. -/
def roundDigits (whole fraction : List Char) (exponent : Int) : Nat :=
  let digits := whole ++ fraction
  roundDecimal (ofDigits digits) digits.length (exponent - fraction.length)

/-- The double that a literal denotes. -/
def toFloat (literal : Literal) : Float :=
  match literal.size with
  | .nan => Double.nan
  | .infinity => Double.infinity literal.negative
  | .decimal whole fraction exponent =>
    Double.ofIndex literal.negative (roundDigits whole fraction exponent)

end Literal

/-- Whether a text is a number literal. -/
def isNumber (text : String) : Bool :=
  (Literal.ofChars? text.toList).isSome

end InfixCalculator
