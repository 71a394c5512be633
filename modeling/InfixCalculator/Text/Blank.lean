import InfixCalculator.Text.Piece

/-!
# Blank characters, words and trimming

A text is a list of characters.  Its *words* are its maximal runs of characters
that are not blank; `trim` removes the blank characters at both ends.  The blank
characters are those with the Unicode property `White_Space` together with the
four separators `U+001C` to `U+001F`.

The lemmas below say what a reader of `words` may rely on: every word is non-empty
and holds no blank.
-/

namespace InfixCalculator.Text

/-- The characters that separate words. -/
def isBlank (c : Char) : Bool :=
  let n := c.toNat
  (0x09 ≤ n && n ≤ 0x0D) || (0x1C ≤ n && n ≤ 0x20) || n == 0x85 || n == 0xA0 || n == 0x1680 ||
    (0x2000 ≤ n && n ≤ 0x200A) || n == 0x2028 || n == 0x2029 || n == 0x202F || n == 0x205F ||
    n == 0x3000

/-! ## Words -/

/-- Whether a word starts where the text does. -/
def startsWord : List Char → Bool
  | [] => false
  | c :: _ => !isBlank c

/-- The maximal runs of characters that are not blank, in order. -/
def words : List Char → List (List Char)
  | [] => []
  | c :: rest =>
    if isBlank c then words rest
    else if startsWord rest then consFirst c (words rest)
    else [c] :: words rest

/-- A text has a first word if a word starts with it. -/
theorem words_ne_nil_of_startsWord {s : List Char} (h : startsWord s = true) : words s ≠ [] := by
  cases s with
  | nil => simp [startsWord] at h
  | cons c rest =>
    have hc : isBlank c = false := by simpa [startsWord] using h
    rw [words, if_neg (by simp [hc])]
    split
    · exact consFirst_ne_nil c _
    · simp

/-- Every word is non-empty and holds no blank. -/
theorem solid_of_mem_words {s w : List Char} (h : w ∈ words s) :
    w ≠ [] ∧ ∀ c ∈ w, isBlank c = false := by
  induction s generalizing w with
  | nil => simp [words] at h
  | cons c rest ih =>
    rw [words] at h
    split at h
    · exact ih h
    · rename_i hc
      have hsolid : isBlank c = false := by simpa using hc
      split at h
      · cases hw : words rest with
        | nil =>
          rw [hw] at h
          have hwc : w = [c] := by simpa [consFirst] using h
          subst hwc
          simp [hsolid]
        | cons first others =>
          rw [hw] at h
          rcases List.mem_cons.1 h with rfl | h
          · have hfirst := ih (hw ▸ List.mem_cons_self)
            refine ⟨by simp, ?_⟩
            intro d hd
            rcases List.mem_cons.1 hd with rfl | hd
            · exact hsolid
            · exact hfirst.2 d hd
          · exact ih (hw ▸ List.mem_cons_of_mem _ h)
      · rcases List.mem_cons.1 h with rfl | h
        · simp [hsolid]
        · exact ih h

/-! ## Trimming -/

/-- Removes the characters of a class at both ends. -/
def trimBy (isMargin : Char → Bool) (s : List Char) : List Char :=
  ((s.dropWhile isMargin).reverse.dropWhile isMargin).reverse

/-- Removes the blank characters at both ends. -/
def trim (s : List Char) : List Char :=
  trimBy isBlank s

end InfixCalculator.Text
