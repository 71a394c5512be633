import InfixCalculator.Text.Digit

/-!
# Whole numbers written loosely

A *plain* numeral is an optional minus sign and ASCII digits, which start with a zero
only if it stands alone.  A numeral may also be written loosely, with blanks around it,
a plus sign, zeros in front, a fraction of zeros, and low lines between its digits.
`normalize?` takes all of these away, so that a loose numeral becomes the plain one of
the same value, and `value?` reads what is left.

Behind a minus sign zeros in front are not taken away, so that only the plain zero may
follow it, and a low line may stand between the sign and the digits.  Low lines that
follow zeros in front go with them, however many there are.
-/

namespace InfixCalculator.Text.Numeral

/-- The digits that a plain numeral may start with, apart from zero. -/
def isLeading (c : Char) : Bool :=
  '1' ≤ c && c ≤ '9'

/-! ## Normal form -/

/-- Removes a plus sign; `none` if a minus sign follows it. -/
def dropPlus? : List Char → Option (List Char)
  | '+' :: '-' :: _ => none
  | '+' :: rest => some rest
  | text => some text

/-- What is left of a text after a zero, or a low line behind one, in front of it.  A point and the
end of the text keep the character before them. -/
def afterZero? (before : Char) : List Char → Option (List Char)
  | [] => some [before]
  | c :: rest =>
    if c = '0' || c = '_' then afterZero? c rest
    else if isLeading c then some (c :: rest)
    else if c = '.' then some (before :: c :: rest)
    else none

/-- Removes the zeros in front; `none` if a text starts with neither a digit nor a minus sign. -/
def dropZeros? : List Char → Option (List Char)
  | [] => none
  | c :: rest =>
    if c = '0' then afterZero? c rest
    else if isLeading c || c = '-' then some (c :: rest)
    else none

/-- Removes a fraction that has no digits but zeros, with its point. -/
def dropFraction (text : List Char) : List Char :=
  match text.dropWhile (· ≠ '.') with
  | [] => text
  | _ :: fraction => if fraction.all (· = '0') then text.takeWhile (· ≠ '.') else text

/-- The plain numeral that a loose one stands for; for other texts there may be none. -/
def normalize? (text : List Char) : Option (List Char) := do
  let unsigned ← dropPlus? (trimBy isMargin text)
  let digits := dropFraction (← dropZeros? unsigned)
  return (dropSeparators? digits).getD digits

/-! ## Value -/

/-- Whether digits stand without needless zeros in front. -/
def isPlain : List Char → Bool
  | [] => false
  | c :: rest => if c = '0' then rest.isEmpty else isLeading c && rest.all Char.isDigit

/-- The number that plain digits denote. -/
def natValue? (digits : List Char) : Option Nat :=
  if isPlain digits then natOfDigits? digits else none

/-- The number that a plain numeral denotes. -/
def value? : List Char → Option Int
  | '-' :: digits => (natValue? digits).map fun n => -(n : Int)
  | digits => (natValue? digits).map Int.ofNat

/-- Whether a text starts with more digits than a limit allows, and not with a zero. -/
def isOversizedBy (limit : Nat) (text : List Char) : Bool :=
  isLeading (text.headD '0') && limit < (text.takeWhile Char.isDigit).length

/-- Whether a text starts with a numeral that has too many characters to be read. -/
def isOversized : List Char → Bool
  | '-' :: digits => isOversizedBy (digitLimit - 1) digits
  | digits => isOversizedBy digitLimit digits

end InfixCalculator.Text.Numeral
