import InfixCalculator.Text.Blank
import InfixCalculator.Text.Line

/-!
# Lines and their ends

A text without a break is one line, if it is anything (`lines_of_unbroken`).  Writing all of the
three common line ends as `\n` moves no line (`lines_unifyBreaks`): a carriage return ends a line as
the line feed in its place does, and one with a line feed behind it ends a single line either way.
-/

namespace InfixCalculator.Text

variable {text : List Char}

theorem isBlank_of_isBreak {c : Char} (hc : isBreak c = true) : isBlank c = true := by
  simp only [isBreak, isBlank] at *
  simp at *
  omega

theorem lines_of_unbroken (hne : text ≠ []) (htext : ∀ c ∈ text, isBreak c = false) :
    lines text = [text] := by
  induction text with
  | nil => exact absurd rfl hne
  | cons c text ih =>
      obtain ⟨hc, htext⟩ := List.forall_mem_cons.1 htext
      have hlines : lines (c :: text) = consFirst c (lines text) := by
        rw [lines, if_neg (by simp [hc])]
        rintro rest rfl
        cases hc
      rw [hlines]
      cases text with
      | nil => rfl
      | cons d text =>
          rw [ih (by simp) htext]
          rfl

/-! ## Unified line ends -/

theorem lines_of_ne_return {c : Char} (hc : c ≠ '\r') (rest : List Char) :
    lines (c :: rest) = if isBreak c then [] :: lines rest else consFirst c (lines rest) := by
  rw [lines]
  rintro _ rfl
  exact absurd rfl hc

theorem lines_newline (rest : List Char) : lines ('\n' :: rest) = [] :: lines rest := by
  rw [lines_of_ne_return (by decide), if_pos (by decide)]

/-- A text has the same lines with its line ends unified. -/
theorem lines_unifyBreaks (text : List Char) : lines (unifyBreaks text) = lines text := by
  fun_induction unifyBreaks text with
  | case1 => rfl
  | case2 rest ih => rw [lines_newline, ih, lines]
  | case3 c rest hpair ih =>
      by_cases hc : c = '\r'
      · subst hc
        rw [if_pos rfl, lines_newline, ih, lines, if_pos (by decide)]
        rintro behind - rfl
        exact hpair behind rfl rfl
      · rw [if_neg hc, lines_of_ne_return hc, lines_of_ne_return hc, ih]

end InfixCalculator.Text
