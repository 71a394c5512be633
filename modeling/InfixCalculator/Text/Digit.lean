import InfixCalculator.Text.Blank

/-!
# Whole numbers in digits of any script

Unicode assigns the decimal digits of each script to ten consecutive code points
in the order of their values.  The table holds the zeros of general category
`Nd` of Unicode 14.

Whole numbers on the command line may be written in any of these scripts, with
low lines between digits; number literals in expressions may not.
-/

namespace InfixCalculator.Text

/-- The zero of every run of ten digits, in order. -/
def zeroDigits : Array Nat := #[
  0x30, 0x660, 0x6F0, 0x7C0, 0x966, 0x9E6, 0xA66, 0xAE6, 0xB66, 0xBE6, 0xC66, 0xCE6, 0xD66, 0xDE6,
  0xE50, 0xED0, 0xF20, 0x1040, 0x1090, 0x17E0, 0x1810, 0x1946, 0x19D0, 0x1A80, 0x1A90, 0x1B50,
  0x1BB0, 0x1C40, 0x1C50, 0xA620, 0xA8D0, 0xA900, 0xA9D0, 0xA9F0, 0xAA50, 0xABF0, 0xFF10, 0x104A0,
  0x10D30, 0x11066, 0x110F0, 0x11136, 0x111D0, 0x112F0, 0x11450, 0x114D0, 0x11650, 0x116C0,
  0x11730, 0x118E0, 0x11950, 0x11C50, 0x11D50, 0x11DA0, 0x16A60, 0x16AC0, 0x16B50, 0x1D7CE,
  0x1D7D8, 0x1D7E2, 0x1D7EC, 0x1D7F6, 0x1E140, 0x1E2F0, 0x1E950, 0x1FBF0]

/-- The value of a decimal digit of any script. -/
def digitValue? (c : Char) : Option Nat :=
  (zeroDigits.find? fun start => start ≤ c.toNat && c.toNat < start + 10).map (c.toNat - ·)

/-! ## Whole numbers -/

/-- The most digits that a whole number may have. -/
def digitLimit : Nat := 4300

/-- Removes the low lines between digits; `none` if one stands elsewhere. -/
def dropSeparators? : List Char → Option (List Char)
  | [] => some []
  | ['_'] => none
  | '_' :: '_' :: _ => none
  | '_' :: c :: rest => (dropSeparators? rest).map (c :: ·)
  | c :: rest => (dropSeparators? rest).map (c :: ·)

/-- The number that digits of any script denote. -/
def natOfDigits? (digits : List Char) : Option Nat :=
  digits.foldlM (fun value c => (digitValue? c).map (10 * value + ·)) 0

/-- Reads digits, at least one, which low lines may separate. -/
def unsigned? (text : List Char) : Option Nat :=
  match text with
  | [] => none
  | '_' :: _ => none
  | _ => do
    let digits ← dropSeparators? text
    if digits.length > digitLimit then none else natOfDigits? digits

/-- The blanks that may surround a whole number: all but the four separators. -/
def isMargin (c : Char) : Bool :=
  isBlank c && !(0x1C ≤ c.toNat && c.toNat ≤ 0x1F)

/-- Reads a whole number with an optional sign, between blanks. -/
def whole? (text : List Char) : Option Int :=
  match trimBy isMargin text with
  | '-' :: digits => (unsigned? digits).map fun n => -(n : Int)
  | '+' :: digits => (unsigned? digits).map Int.ofNat
  | digits => (unsigned? digits).map Int.ofNat

end InfixCalculator.Text
