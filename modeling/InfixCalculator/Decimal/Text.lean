import InfixCalculator.Decimal.Shortest

/-!
# The text of a double

`Layout` holds the decisions of a number format: where positional notation ends,
how wide an exponent is written, and the names of what is not a finite number.
Two formats are in use and differ in those names only.  `plainText` is written in
messages and reports; `literalText` is written where the text is to be read again,
so that its names are the ones number literals have.
-/

namespace InfixCalculator.Decimal

/-- The decisions of a number format. -/
structure Layout where
  /-- The least position of the decimal point, counted from the first digit, that is still
  written positionally. -/
  leastPoint : Int
  /-- The greatest such position. -/
  greatestPoint : Int
  /-- The least number of digits in an exponent. -/
  exponentWidth : Nat
  nanName : String
  infinityName : String

/-- A natural number in digits, zero included. -/
def natText (n : Nat) : String :=
  String.ofList (if n = 0 then ['0'] else digits n)

/-- An integer in digits with a minus sign where needed. -/
def intText (n : Int) : String :=
  if n < 0 then "-" ++ natText n.natAbs else natText n.natAbs

/-- Digits without the zeros that end them. -/
def dropTrailingZeros (digits : List Char) : List Char :=
  (digits.reverse.dropWhile (· == '0')).reverse

/-- Digits with the decimal point after the first `point` of them, and at least one digit on each
side of it. -/
def positional (digits : List Char) (point : Int) : List Char :=
  if point ≤ 0 then
    '0' :: '.' :: (List.replicate point.natAbs '0' ++ digits)
  else
    let whole := digits.take point.toNat
    let fraction := digits.drop point.toNat
    whole ++ List.replicate (point.toNat - whole.length) '0' ++
      '.' :: (if fraction = [] then ['0'] else fraction)

/-- An exponent of ten: its mark, its sign and at least `width` digits. -/
def exponentText (width : Nat) (exponent : Int) : List Char :=
  let ds := digits exponent.natAbs
  'e' :: (if exponent < 0 then '-' else '+') ::
    (List.replicate (width - ds.length) '0' ++ ds)

/-- Digits with a point after the first, if there are more, and an exponent of ten. -/
def scientific (width : Nat) (digits : List Char) (exponent : Int) : List Char :=
  let fraction := digits.drop 1
  digits.take 1 ++ (if fraction = [] then [] else '.' :: fraction) ++ exponentText width exponent

/-- The digits of a decimal, its point before the digit number `point`. -/
def Layout.digitsText (layout : Layout) (digits : List Char) (point : Int) : List Char :=
  if layout.leastPoint ≤ point && point ≤ layout.greatestPoint then positional digits point
  else scientific layout.exponentWidth digits (point - 1)

/-- The text of a positive decimal. -/
def Layout.scaledText (layout : Layout) (decimal : Scaled) : List Char :=
  let all := digits decimal.coefficient
  layout.digitsText (dropTrailingZeros all) (all.length + decimal.exponent)

/-- The text of a finite double without its sign. -/
def Layout.sizeText (layout : Layout) (index : Nat) : List Char :=
  if index = 0 then "0.0".toList else layout.scaledText (shortest index)

/-- The text of a double. -/
def Layout.text (layout : Layout) (x : Float) : String :=
  let index := Double.index x
  let sign := if Double.isNegative x then "-" else ""
  if index > Double.infinityIndex then layout.nanName
  else if index = Double.infinityIndex then sign ++ layout.infinityName
  else sign ++ String.ofList (layout.sizeText index)

/-- Positional from `0.0001` up to sixteen digits before the point, exponents of two digits or more. -/
def plain : Layout :=
  ⟨-3, 16, 2, "nan", "inf"⟩

/-- Like `plain`, with the names that number literals have. -/
def literal : Layout :=
  { plain with nanName := "NaN", infinityName := "Infinity" }

/-- The text of a double in messages and reports. -/
def plainText (x : Float) : String :=
  plain.text x

/-- The text of a double as it is typed and read again. -/
def literalText (x : Float) : String :=
  literal.text x

end InfixCalculator.Decimal
