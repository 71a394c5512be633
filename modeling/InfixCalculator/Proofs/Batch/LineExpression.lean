import InfixCalculator.Batch.Request
import InfixCalculator.Proofs.Text.EndedLine
import InfixCalculator.Proofs.Text.Spelling

/-!
# The expressions of a document

What counts of a line stands before its comment and after the last result marker in front of it; a
marker inside the comment is part of the comment (`Counts`).  The line holds an expression if this
is not blank, namely this without the blanks at its ends (`Holds`).

`requests_written` lays a document out as lines with their ends and says which requests are found
in it: one for every line that holds an expression, with the number of the line, and no other.  The
line breaks are blanks as well, so that the order of the steps matters: a text is first cut into
lines, and only then is a line cut and trimmed.
-/

namespace InfixCalculator.Batch

/-- What counts of a line. -/
def Counts (counted line : List Char) : Prop :=
  ∃ earlier comment, line = earlier ++ counted ++ comment ∧
    (∀ c ∈ comment.head?, c = '#') ∧ '#' ∉ earlier ++ counted ∧
    (∀ c ∈ earlier.getLast?, c = '~') ∧ '~' ∉ counted

/-- The expression that a line holds. -/
def Holds (line expression : List Char) : Prop :=
  ∃ counted, Counts counted line ∧ ¬ Text.IsGap counted ∧ Text.IsTrimmed expression counted

variable {line expression counted : List Char} {source : String} {request : Request}

/-! ## Cutting a line -/

/-- The part of a text before the first mark is the only one without a mark and in front of one. -/
theorem eq_takeWhile_iff {front text : List Char} {mark : Char} :
    front = text.takeWhile (· ≠ mark) ↔
      ∃ rest, text = front ++ rest ∧ (∀ c ∈ rest.head?, c = mark) ∧ mark ∉ front := by
  constructor
  · rintro rfl
    refine ⟨_, List.takeWhile_append_dropWhile.symm, ?_, ?_⟩
    · intro c hc
      have hhead := List.head?_dropWhile_not (fun c => decide (c ≠ mark)) text
      rw [Option.mem_def.1 hc] at hhead
      simpa using hhead
    · intro hmark
      simpa using List.mem_takeWhile_imp hmark
  · rintro ⟨rest, rfl, hrest, hfront⟩
    have hinside : ∀ c ∈ front, decide (c ≠ mark) = true := by
      intro c hc
      rw [decide_eq_true_eq]
      rintro rfl
      exact hfront hc
    rw [List.takeWhile_append_of_pos hinside]
    cases rest with
    | nil => rw [List.takeWhile_nil, List.append_nil]
    | cons c rest => rw [List.takeWhile_cons_of_neg (by simpa using hrest c rfl), List.append_nil]

theorem eq_beforeComment_iff {front : List Char} : front = beforeComment line ↔
    ∃ comment, line = front ++ comment ∧ (∀ c ∈ comment.head?, c = '#') ∧ '#' ∉ front :=
  eq_takeWhile_iff

theorem eq_afterMarker_iff {text : List Char} : counted = afterMarker text ↔
    ∃ earlier, text = earlier ++ counted ∧ (∀ c ∈ earlier.getLast?, c = '~') ∧ '~' ∉ counted := by
  have hreverse : ∀ rest,
      text.reverse = counted.reverse ++ rest ↔ text = rest.reverse ++ counted := by
    intro rest
    rw [← List.reverse_inj, List.reverse_reverse, List.reverse_append, List.reverse_reverse]
  rw [afterMarker, ← List.reverse_inj, List.reverse_reverse, eq_takeWhile_iff]
  constructor
  · rintro ⟨rest, htext, hrest, hcounted⟩
    rw [List.mem_reverse] at hcounted
    refine ⟨rest.reverse, (hreverse rest).1 htext, ?_, hcounted⟩
    rwa [List.getLast?_reverse]
  · rintro ⟨earlier, rfl, hearlier, hcounted⟩
    refine ⟨earlier.reverse, List.reverse_append, ?_, ?_⟩
    · rwa [List.head?_reverse]
    · rwa [List.mem_reverse]

theorem counts_iff : Counts counted line ↔ counted = afterMarker (beforeComment line) := by
  constructor
  · rintro ⟨earlier, comment, hline, hcomment, hno_comment, hearlier, hno_marker⟩
    rw [← eq_beforeComment_iff.2 ⟨comment, hline, hcomment, hno_comment⟩]
    exact eq_afterMarker_iff.2 ⟨earlier, rfl, hearlier, hno_marker⟩
  · intro hcounted
    obtain ⟨comment, hline, hcomment, hno_comment⟩ :=
      eq_beforeComment_iff.1 (Eq.refl (beforeComment line))
    obtain ⟨earlier, htext, hearlier, hno_marker⟩ := eq_afterMarker_iff.1 hcounted
    rw [htext] at hline hno_comment
    exact ⟨earlier, comment, hline, hcomment, hno_comment, hearlier, hno_marker⟩

theorem holds_iff : Holds line expression ↔ expression = lineExpression line ∧ expression ≠ [] := by
  rw [lineExpression]
  constructor
  · rintro ⟨counted, hcounts, hgap, htrimmed⟩
    obtain rfl := counts_iff.1 hcounts
    obtain rfl := Text.isTrimmed_iff.1 htrimmed
    exact ⟨rfl, mt Text.trim_eq_nil_iff.1 hgap⟩
  · rintro ⟨rfl, hne⟩
    exact ⟨_, counts_iff.2 rfl, mt Text.trim_eq_nil_iff.2 hne, Text.isTrimmed_trim _⟩

theorem Counts.subset (h : Counts counted line) : counted ⊆ line := by
  obtain ⟨earlier, comment, rfl, -⟩ := h
  intro c hc
  exact List.mem_append_left _ (List.mem_append_right _ hc)

theorem Holds.subset (h : Holds line expression) :
    expression ⊆ line := by
  obtain ⟨counted, hcounts, -, ⟨left, right, -, -, htext⟩, -, -⟩ := h
  intro c hc
  refine hcounts.subset ?_
  rw [htext]
  exact List.mem_append_left _ (List.mem_append_right _ hc)

/-! ## Numbered lines -/

/-- The request on a line with a number. -/
def numberedRequest (source : String) (numbered : List Char × Nat) : Option Request :=
  if lineExpression numbered.1 = [] then none
  else some ⟨String.ofList (lineExpression numbered.1), numbered.2, source⟩

theorem requestsFrom_eq (source : String) (number : Nat) (lines : List (List Char)) :
    requestsFrom source number lines =
      (lines.zipIdx number).filterMap (numberedRequest source) := by
  induction lines generalizing number with
  | nil => rfl
  | cons line lines ih =>
      rw [requestsFrom, List.zipIdx_cons, List.filterMap_cons, numberedRequest, ih]
      split <;> rfl

theorem numberedRequest_eq_some_iff {number : Nat} :
    numberedRequest source (line, number) = some request ↔
      request.source = source ∧ request.lineNumber = number ∧
        Holds line request.expression.toList := by
  obtain ⟨expression, lineNumber, origin⟩ := request
  rw [holds_iff, numberedRequest]
  split
  · rename_i hnil
    rw [hnil]
    simp
  · rename_i hne
    have htext : String.ofList (lineExpression line) = expression ↔
        lineExpression line = expression.toList := by
      rw [← String.toList_inj, String.toList_ofList]
    simp only [Option.some.injEq, Request.mk.injEq, htext]
    constructor
    · rintro ⟨hexpression, rfl, rfl⟩
      exact ⟨rfl, rfl, hexpression.symm, hexpression ▸ hne⟩
    · rintro ⟨rfl, rfl, hexpression, -⟩
      exact ⟨hexpression.symm, rfl, rfl⟩

/-- The requests are found in the order of the lines, so that no line is read twice. -/
theorem pairwise_requestsFrom (source : String) (number : Nat) (lines : List (List Char)) :
    (requestsFrom source number lines).Pairwise (·.lineNumber < ·.lineNumber) := by
  have hnumbers : (lines.zipIdx number).Pairwise fun a b => a.2 < b.2 := by
    rw [← List.pairwise_map, List.zipIdx_map_snd]
    exact List.pairwise_lt_range'
  rw [requestsFrom_eq]
  refine hnumbers.filterMap _ ?_
  intro first second hlt a ha b hb
  obtain ⟨-, hfirst, -⟩ := numberedRequest_eq_some_iff.1 ha
  obtain ⟨-, hsecond, -⟩ := numberedRequest_eq_some_iff.1 hb
  rwa [hfirst, hsecond]

theorem mem_requestsFrom_iff {number : Nat} {lines : List (List Char)} :
    request ∈ requestsFrom source number lines ↔ request.source = source ∧
      ∃ i line, lines[i]? = some line ∧ request.lineNumber = number + i ∧
        Holds line request.expression.toList := by
  simp only [requestsFrom_eq, List.mem_filterMap, Prod.exists, numberedRequest_eq_some_iff]
  constructor
  · rintro ⟨line, found, hmem, hsource, rfl, hholds⟩
    obtain ⟨hle, hline⟩ := List.mk_mem_zipIdx_iff_le_and_getElem?_sub.1 hmem
    exact ⟨hsource, _, line, hline, (Nat.add_sub_of_le hle).symm, hholds⟩
  · rintro ⟨hsource, i, line, hline, hnumber, hholds⟩
    refine ⟨line, number + i, ?_, hsource, hnumber, hholds⟩
    rw [List.mk_mem_zipIdx_iff_le_and_getElem?_sub, Nat.add_sub_cancel_left]
    exact ⟨Nat.le_add_right _ _, hline⟩

/-! ## Documents -/

/-- **A document has the requests of its lines.**  However the lines are ended, those that hold an
expression have a request each, in their order. -/
theorem requests_written {lines : List Text.EndedLine} (h : Text.WellEnded lines)
    (source : String) :
    (requests (String.ofList (Text.written lines)) source).Pairwise
        (·.lineNumber < ·.lineNumber) ∧
      ∀ request, request ∈ requests (String.ofList (Text.written lines)) source ↔
        request.source = source ∧ ∃ i line, lines[i]? = some line ∧
          request.lineNumber = i + 1 ∧ Holds line.text request.expression.toList := by
  rw [requests, String.toList_ofList, Text.lines_written h]
  refine ⟨pairwise_requestsFrom source 1 _, fun request => ?_⟩
  rw [mem_requestsFrom_iff]
  simp only [List.getElem?_map, Option.map_eq_some_iff, Nat.add_comm 1]
  constructor
  · rintro ⟨hsource, i, -, ⟨line, hline, rfl⟩, hnumber, hholds⟩
    exact ⟨hsource, i, line, hline, hnumber, hholds⟩
  · rintro ⟨hsource, i, line, hline, hnumber, hholds⟩
    exact ⟨hsource, i, line.text, ⟨line, hline, rfl⟩, hnumber, hholds⟩

/-- Five lines with different ends, two of them without an expression. -/
def mixedEnds : List Text.EndedLine :=
  [⟨"2 + 3 # first".toList, ['\r', '\n']⟩, ⟨[], ['\r']⟩,
    ⟨"8 ~ -1 ~ 4 * 2".toList, ['\u2028']⟩, ⟨" # no ~ 5".toList, ['\x85']⟩, ⟨"\t1 # ~".toList, []⟩]

theorem requests_mixedEnds :
    Text.WellEnded mixedEnds ∧
      ∀ request, request ∈ requests (String.ofList (Text.written mixedEnds)) "notes" ↔
        request.source = "notes" ∧ ∃ i line, mixedEnds[i]? = some line ∧
          request.lineNumber = i + 1 ∧ Holds line.text request.expression.toList := by
  have hended : Text.WellEnded mixedEnds := by decide
  exact ⟨hended, (requests_written hended "notes").2⟩

example : requests (String.ofList (Text.written mixedEnds)) "notes" =
    [⟨"2 + 3", 1, "notes"⟩, ⟨"4 * 2", 3, "notes"⟩, ⟨"1", 5, "notes"⟩] := by
  decide

end InfixCalculator.Batch
