import InfixCalculator.Batch.Report
import InfixCalculator.Proofs.Batch.LineExpression

/-!
# Expressions as a normal form

An expression that is found in a document holds neither a break, a comment mark nor a result marker,
and no blank is at its ends.  So it is all that counts of a line of its own (`Holds.self`), and a
document that writes the expressions one per line has exactly these, on the lines from the first on
(`requests_onePerLine`).  It does not matter how its lines are ended: no expression is empty, so no
two ends run into each other (`OnePerLine.wellEnded`).

An outcome depends on nothing of a request but the expression, so the second document is evaluated
as the first one is (`Outcome.SameResult`).
-/

namespace InfixCalculator.Batch

open Text (EndedLine IsEnd IsUnbroken WellEnded written)

/-- A line that is nothing but the expression it holds. -/
structure IsNormal (line : List Char) : Prop where
  unbroken : IsUnbroken line
  holds : Holds line line

/-- A text that writes expressions one per line.  The last line needs no end. -/
structure OnePerLine (expressions : List String) (lines : List EndedLine) : Prop where
  texts : lines.map EndedLine.text = expressions.map String.toList
  ended : ∀ line ∈ lines.dropLast, IsEnd line.ending
  last : ∀ line ∈ lines.getLast?, IsEnd line.ending ∨ line.ending = []

/-- Outcomes with the same value, the same diagnostics and the same error. -/
structure Outcome.SameResult (outcome other : Outcome) : Prop where
  value_eq : outcome.value = other.value
  diagnostics_eq : outcome.diagnostics = other.diagnostics
  error_eq : outcome.error = other.error

variable {line expression : List Char} {expressions : List String} {lines : List EndedLine}
  {text source : String}

/-! ## Lines that are expressions -/

/-- An expression is found again on a line of its own. -/
theorem Holds.self (h : Holds line expression) : Holds expression expression := by
  obtain ⟨counted, ⟨earlier, comment, -, -, hcomment, -, hmarker⟩, hgap, htrimmed⟩ := h
  have hsubset : expression ⊆ counted := by
    obtain ⟨left, right, -, -, rfl⟩ := htrimmed.framed
    intro c hc
    exact List.mem_append_left _ (List.mem_append_right _ hc)
  have hcounts : Counts expression expression := by
    refine ⟨[], [], (List.append_nil _).symm, by simp, ?_, by simp, ?_⟩
    · exact fun hmem => hcomment (List.mem_append_right _ (hsubset hmem))
    · exact fun hmem => hmarker (hsubset hmem)
  have hself : Text.IsTrimmed expression expression :=
    ⟨⟨[], [], by simp [Text.IsGap], by simp [Text.IsGap], by simp⟩, htrimmed.first, htrimmed.last⟩
  refine ⟨expression, hcounts, ?_, hself⟩
  -- a blank expression would have nothing left after trimming
  intro hblank
  refine hgap (Text.trim_eq_nil_iff.1 ?_)
  rw [← Text.isTrimmed_iff.1 htrimmed, Text.isTrimmed_iff.1 hself, Text.trim_of_isGap hblank]

theorem isNormal_of_mem_requests {request : Request} (h : request ∈ requests text source) :
    IsNormal request.expression.toList := by
  obtain ⟨-, i, line, hline, -, hholds⟩ := mem_requestsFrom_iff.1 h
  obtain ⟨hunbroken, -⟩ := Text.isUnbroken_of_mem_lines (List.mem_of_getElem? hline)
  exact ⟨fun c hc => hunbroken c (hholds.subset hc), hholds.self⟩

theorem IsNormal.ne_nil (h : IsNormal line) : line ≠ [] :=
  (holds_iff.1 h.holds).2

/-- Lines that are expressions are requested one after the other. -/
theorem requestsFrom_of_isNormal {found : List Request}
    (h : ∀ request ∈ found, IsNormal request.expression.toList) (source : String) (number : Nat) :
    requestsFrom source number (found.map fun request => request.expression.toList) =
      found.mapIdx fun i request => ⟨request.expression, number + i, source⟩ := by
  induction found generalizing number with
  | nil => rfl
  | cons request found ih =>
      obtain ⟨hrequest, hfound⟩ := List.forall_mem_cons.1 h
      obtain ⟨hline, hne⟩ := holds_iff.1 hrequest.holds
      rw [List.map_cons, requestsFrom, List.mapIdx_cons, ih hfound, ← hline]
      simp only [if_neg hne, String.ofList_toList, Nat.add_zero, Nat.add_assoc, Nat.add_comm 1]

/-! ## Writing expressions again -/

theorem OnePerLine.wellEnded (h : OnePerLine expressions lines)
    (hnormal : ∀ expression ∈ expressions, IsNormal expression.toList) : WellEnded lines := by
  have hlines : ∀ line ∈ lines, IsNormal line.text := by
    intro line hline
    have htext : line.text ∈ expressions.map String.toList := h.texts ▸ List.mem_map_of_mem hline
    obtain ⟨expression, hexpression, heq⟩ := List.mem_map.1 htext
    exact heq ▸ hnormal expression hexpression
  refine ⟨fun line hline => (hlines line hline).unbroken, h.ended, ?_, ?_⟩
  · intro line hline
    have hne := (hlines line (List.mem_of_getLast? hline)).ne_nil
    exact (h.last line hline).imp_right fun hnone => ⟨hnone, hne⟩
  · -- the second part of a pair of ends would stand behind an empty line
    refine List.Pairwise.isChain (List.pairwise_of_forall_mem_list ?_)
    rintro line - next hnext ⟨-, hempty, -⟩
    exact (hlines next hnext).ne_nil hempty

theorem outcome_sameResult {request other : Request}
    (h : request.expression = other.expression) (settings : Settings) :
    (request.outcome settings).SameResult (other.outcome settings) := by
  unfold Request.outcome
  rw [h]
  split <;> exact ⟨rfl, rfl, rfl⟩

/-- **Expressions are a normal form.**  Written one per line the expressions of a document are found
again, on the lines from the first on, and are evaluated to the same results under any settings. -/
theorem requests_onePerLine (text source other : String)
    (h : OnePerLine ((requests text source).map (·.expression)) lines) (settings : Settings) :
    requests (String.ofList (written lines)) other =
        (requests text source).mapIdx (fun i request => ⟨request.expression, i + 1, other⟩) ∧
      List.Forall₂ Outcome.SameResult (run settings (requests text source)).outcomes
        (run settings (requests (String.ofList (written lines)) other)).outcomes := by
  have hnormal : ∀ request ∈ requests text source, IsNormal request.expression.toList :=
    fun request => isNormal_of_mem_requests
  have hfound : requests (String.ofList (written lines)) other =
      (requests text source).mapIdx (fun i request => ⟨request.expression, i + 1, other⟩) := by
    have hended := h.wellEnded (List.forall_mem_map.2 hnormal)
    have htexts := requestsFrom_of_isNormal hnormal other 1
    simp only [Nat.add_comm 1] at htexts
    rw [requests, String.toList_ofList, Text.lines_written hended, h.texts, List.map_map]
    exact htexts
  refine ⟨hfound, ?_⟩
  rw [hfound, run, run, List.forall₂_map_left_iff, List.forall₂_map_right_iff,
    List.forall₂_iff_get]
  refine ⟨List.length_mapIdx.symm, ?_⟩
  intro i hfirst hsecond
  apply outcome_sameResult
  rw [List.get_eq_getElem, List.get_eq_getElem, List.getElem_mapIdx]

/-- A document with comments, earlier results and breaks of four kinds. -/
def scatteredText : String :=
  "# sums\r\n\u3000 1 / 0 x\x0b\n8 ~ -1 ~\t( 4 * 2 # ~ 5\x852 ~\n  NaN ^ 0"

/-- Its expressions, with other ends. -/
def rewrittenLines : List EndedLine :=
  [⟨"1 / 0 x".toList, ['\r']⟩, ⟨"( 4 * 2".toList, ['\u2028']⟩, ⟨"NaN ^ 0".toList, []⟩]

theorem requests_rewrittenLines :
    OnePerLine ((requests scatteredText "notes").map (·.expression)) rewrittenLines ∧
      requests (String.ofList (written rewrittenLines)) "copy" =
        (requests scatteredText "notes").mapIdx
          (fun i request => ⟨request.expression, i + 1, "copy"⟩) ∧
      List.Forall₂ Outcome.SameResult
        (run { maxTokens := some 3 } (requests scatteredText "notes")).outcomes
        (run { maxTokens := some 3 }
          (requests (String.ofList (written rewrittenLines)) "copy")).outcomes := by
  have hlines : OnePerLine ((requests scatteredText "notes").map (·.expression)) rewrittenLines :=
    ⟨by decide, by decide, by decide⟩
  exact ⟨hlines, requests_onePerLine scatteredText "notes" "copy" hlines { maxTokens := some 3 }⟩

example : requests scatteredText "notes" =
    [⟨"1 / 0 x", 2, "notes"⟩, ⟨"( 4 * 2", 4, "notes"⟩, ⟨"NaN ^ 0", 6, "notes"⟩] := by
  decide

end InfixCalculator.Batch
