/-!
# Pieces of a text

A text is cut at every occurrence of a mark.  There is one piece more than there are
marks, and a piece may be empty.
-/

namespace InfixCalculator.Text

/-- Puts a character in front of the first of some texts. -/
def consFirst (c : Char) : List (List Char) → List (List Char)
  | [] => [[c]]
  | first :: rest => (c :: first) :: rest

theorem consFirst_ne_nil (c : Char) (texts : List (List Char)) : consFirst c texts ≠ [] := by
  cases texts <;> simp [consFirst]

/-- The pieces of a text between the occurrences of a mark. -/
def pieces (mark : Char) : List Char → List (List Char)
  | [] => [[]]
  | c :: rest => if c = mark then [] :: pieces mark rest else consFirst c (pieces mark rest)

/-- There is always a piece. -/
theorem pieces_ne_nil (mark : Char) (text : List Char) : pieces mark text ≠ [] := by
  cases text with
  | nil => simp [pieces]
  | cons c rest =>
    simp only [pieces]
    split
    · simp
    · exact consFirst_ne_nil c _

end InfixCalculator.Text
