import InfixCalculator.Text.Piece

/-!
# Lines of a text

`lines` splits a text at its line breaks.  A break is a single character of
`isBreak`, or a carriage return followed by a line feed, which counts once.  A
break ends a line, so that nothing follows a final break and the empty text has
no line.

`unifyBreaks` is a reader's normal form of line ends: the three conventions
`\r\n`, `\r` and `\n` all become `\n`, and no other break is touched.
-/

namespace InfixCalculator.Text

/-- The characters that end a line. -/
def isBreak (c : Char) : Bool :=
  let n := c.toNat
  (0x0A ≤ n && n ≤ 0x0D) || (0x1C ≤ n && n ≤ 0x1E) || n == 0x85 || n == 0x2028 || n == 0x2029

/-- The lines of a text, without the breaks that end them. -/
def lines : List Char → List (List Char)
  | [] => []
  | '\r' :: '\n' :: rest => [] :: lines rest
  | c :: rest => if isBreak c then [] :: lines rest else consFirst c (lines rest)

/-- Writes every line end `\r\n` or `\r` as `\n`. -/
def unifyBreaks : List Char → List Char
  | [] => []
  | '\r' :: '\n' :: rest => '\n' :: unifyBreaks rest
  | c :: rest => (if c = '\r' then '\n' else c) :: unifyBreaks rest

end InfixCalculator.Text
