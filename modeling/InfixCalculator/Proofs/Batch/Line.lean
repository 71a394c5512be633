import InfixCalculator.Batch.Request
import InfixCalculator.Evaluation
import InfixCalculator.Proofs.Text.Line
import InfixCalculator.Proofs.Text.Spelling

/-!
# Documents of one line

A document that is a single line without a comment holds one request, if a word follows the last
marker of the line (`requests_of_line`).  Its expression is what follows the marker, without the
blanks at the ends; these do not count for its words, and only the words are evaluated
(`evaluate_congr`).
-/

namespace InfixCalculator

/-- A line without a comment holds the request for what follows its last marker. -/
theorem requests_of_line {line : List Char} (hbreak : ∀ c ∈ line, Text.isBreak c = false)
    (hcomment : Batch.commentMark ∉ line) (hword : Text.words (Batch.afterMarker line) ≠ [])
    (source : String) :
    Batch.requests (String.ofList line) source =
      [⟨String.ofList (Text.trim (Batch.afterMarker line)), 1, source⟩] := by
  have hne : line ≠ [] := by
    rintro rfl
    exact hword rfl
  have hexpression : Text.trim (Batch.afterMarker line) ≠ [] := by
    intro hnil
    rw [← Text.words_trim, hnil] at hword
    exact hword rfl
  have hbefore : Batch.beforeComment line = line := by
    unfold Batch.beforeComment
    rw [List.takeWhile_eq_self_iff]
    intro c hc
    rw [decide_eq_true_eq]
    rintro rfl
    exact hcomment hc
  simp only [Batch.requests, String.toList_ofList, Text.lines_of_unbroken hne hbreak,
    Batch.requestsFrom, Batch.lineExpression, hbefore, if_neg hexpression]

theorem evaluate_congr {expression other : String}
    (h : expressionWords expression = expressionWords other) (settings : Settings) :
    evaluate expression settings = evaluate other settings := by
  unfold evaluate
  rw [h]

end InfixCalculator
