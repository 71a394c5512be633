import InfixCalculator.Proofs.Text.Line
import InfixCalculator.Proofs.Text.Pieces
import Mathlib.Data.List.Chain

/-!
# Lines that a text is written in

A text is written by putting after every line what ends it: one of ten characters, or the two of
`\r\n`.  `lines_written` reads the lines back, whatever mixture of ends they have.  What has to be
excluded is a `\r` in front of an empty line that ends with `\n`, since these two are one end, and a
last line that is empty and has no end, since it would not be there at all.

Read the other way round, the lines of a text hold everything but the ends, so that there is no
break in any of them (`isUnbroken_of_mem_lines`).
-/

namespace InfixCalculator.Text

/-- The characters that break a line. -/
def breaks : List Char :=
  ['\n', '\r', '\x0b', '\x0c', '\x1c', '\x1d', '\x1e', '\x85', '\u2028', '\u2029']

/-- A text on a single line. -/
def IsUnbroken (text : List Char) : Prop :=
  ∀ c ∈ text, c ∉ breaks

/-- What ends a line. -/
def IsEnd (ending : List Char) : Prop :=
  ending = ['\r', '\n'] ∨ ∃ c ∈ breaks, ending = [c]

/-- A line and what stands after it. -/
structure EndedLine where
  text : List Char
  ending : List Char

/-- The text that lines are written as. -/
def written (lines : List EndedLine) : List Char :=
  lines.flatMap fun line => line.text ++ line.ending

/-- Every line has its end, and none of them runs into the next line. -/
structure WellEnded (lines : List EndedLine) : Prop where
  unbroken : ∀ line ∈ lines, IsUnbroken line.text
  ended : ∀ line ∈ lines.dropLast, IsEnd line.ending
  /-- The last line needs no end unless it is empty. -/
  last : ∀ line ∈ lines.getLast?, IsEnd line.ending ∨ line.ending = [] ∧ line.text ≠ []
  apart : lines.IsChain fun line next =>
    ¬ (line.ending = ['\r'] ∧ next.text = [] ∧ next.ending = ['\n'])

-- The instances are named, since there are others that run through all characters.
instance (text : List Char) : Decidable (IsUnbroken text) :=
  List.decidableBAll (· ∉ breaks) text

instance (ending : List Char) : Decidable (IsEnd ending) :=
  haveI : Decidable (∃ c ∈ breaks, ending = [c]) := List.decidableBEx (ending = [·]) breaks
  inferInstanceAs (Decidable (_ ∨ _))

instance (lines : List EndedLine) : Decidable (WellEnded lines) :=
  decidable_of_iff
    ((∀ line ∈ lines, IsUnbroken line.text) ∧ (∀ line ∈ lines.dropLast, IsEnd line.ending) ∧
      (∀ line ∈ lines.getLast?, IsEnd line.ending ∨ line.ending = [] ∧ line.text ≠ []) ∧
      lines.IsChain fun line next =>
        ¬ (line.ending = ['\r'] ∧ next.text = [] ∧ next.ending = ['\n']))
    ⟨fun ⟨unbroken, ended, last, apart⟩ => ⟨unbroken, ended, last, apart⟩,
      fun ⟨unbroken, ended, last, apart⟩ => ⟨unbroken, ended, last, apart⟩⟩

variable {text rest ending : List Char} {c : Char} {line : EndedLine} {lines : List EndedLine}

/-! ## Breaks -/

theorem mem_breaks_iff : c ∈ breaks ↔ isBreak c = true := by
  have hcode : ∀ d : Char, c = d ↔ c.toNat = d.toNat := fun d => Char.toNat_inj.symm
  simp only [breaks, List.mem_cons, List.not_mem_nil, or_false, hcode, isBreak]
  simp
  omega

theorem isBreak_eq_false_iff : isBreak c = false ↔ c ∉ breaks := by
  rw [mem_breaks_iff, Bool.not_eq_true]

theorem IsUnbroken.isBreak_eq_false (h : IsUnbroken text) : ∀ c ∈ text, isBreak c = false :=
  fun c hc => isBreak_eq_false_iff.2 (h c hc)

theorem IsUnbroken.append {other : List Char} (h : IsUnbroken text) (hother : IsUnbroken other) :
    IsUnbroken (text ++ other) :=
  List.forall_mem_append.2 ⟨h, hother⟩

theorem isUnbroken_append {a b : String} (ha : IsUnbroken a.toList)
    (hb : IsUnbroken b.toList) : IsUnbroken (a ++ b).toList := by
  rw [String.toList_append]
  exact ha.append hb

theorem isUnbroken_of_solid {text : List Char} (h : ∀ c ∈ text, isBlank c = false) :
    IsUnbroken text := by
  intro c hc hbreak
  have hblank := isBlank_of_isBreak (mem_breaks_iff.1 hbreak)
  rw [h c hc] at hblank
  cases hblank

theorem isUnbroken_intercalate {separator : String} {texts : List String}
    (hseparator : IsUnbroken separator.toList) (htexts : ∀ text ∈ texts, IsUnbroken text.toList) :
    IsUnbroken (separator.intercalate texts).toList := by
  induction texts with
  | nil => exact (by decide : IsUnbroken "".toList)
  | cons text texts ih =>
      obtain ⟨htext, hrest⟩ := List.forall_mem_cons.1 htexts
      cases texts with
      | nil => rwa [String.intercalate_singleton]
      | cons next texts =>
          rw [String.intercalate_cons_cons]
          exact isUnbroken_append (isUnbroken_append htext hseparator) (ih hrest)

/-- The lines of a text are all of it but the breaks. -/
theorem flatten_lines (text : List Char) :
    (Text.lines text).flatten = text.filter fun c => !isBreak c := by
  fun_induction Text.lines text with
  | case1 => rfl
  | case2 rest ih => simpa [isBreak] using ih
  | case3 c rest hpair hc ih => simpa [hc] using ih
  | case4 c rest hpair hc ih =>
      rw [flatten_consFirst, ih, List.filter_cons_of_pos (by simpa using hc)]

theorem isUnbroken_of_mem_lines {line : List Char} (h : line ∈ Text.lines text) :
    IsUnbroken line ∧ line ⊆ text := by
  have hmem : ∀ c ∈ line, c ∈ text ∧ c ∉ breaks := by
    intro c hc
    have hflatten := List.mem_flatten_of_mem h hc
    rwa [flatten_lines, List.mem_filter, Bool.not_eq_true', isBreak_eq_false_iff] at hflatten
  exact ⟨fun c hc => (hmem c hc).2, fun c hc => (hmem c hc).1⟩

/-! ## Reading one line -/

/-- What stands before the first end is the first line. -/
theorem lines_append (h : IsUnbroken text) {later : List (List Char)}
    (hrest : Text.lines rest = [] :: later) : Text.lines (text ++ rest) = text :: later := by
  induction text with
  | nil => exact hrest
  | cons c text ih =>
      obtain ⟨hc, htext⟩ := List.forall_mem_cons.1 h
      have hreturn : c ≠ '\r' := by
        rintro rfl
        exact hc (by decide)
      rw [List.cons_append, lines_of_ne_return hreturn, isBreak_eq_false_iff.2 hc, ih htext]
      rfl

/-- An end is read as one, if no `\n` turns a `\r` into another end. -/
theorem lines_ending (h : IsEnd ending) (hrest : ending = ['\r'] → rest.head? ≠ some '\n') :
    Text.lines (ending ++ rest) = [] :: Text.lines rest := by
  rcases h with rfl | ⟨c, hc, rfl⟩
  · rfl
  · have hbreak := mem_breaks_iff.1 hc
    rw [List.singleton_append, Text.lines, if_pos hbreak]
    rintro behind rfl rfl
    exact hrest rfl rfl

/-! ## Reading all lines -/

theorem WellEnded.tail (h : WellEnded (line :: lines)) : WellEnded lines where
  unbroken := (List.forall_mem_cons.1 h.unbroken).2
  ended := by
    cases lines with
    | nil => simp
    | cons next lines => exact (List.forall_mem_cons.1 h.ended).2
  last := by
    cases lines with
    | nil => simp
    | cons next lines => exact h.last
  apart := h.apart.of_cons

/-- What is written starts with a `\n` only if the first line is empty and ends with it. -/
theorem WellEnded.head?_written (h : WellEnded (line :: lines))
    (hhead : (written (line :: lines)).head? = some '\n') :
    line.text = [] ∧ line.ending = ['\n'] := by
  have hending : IsEnd line.ending ∨ line.ending = [] ∧ line.text ≠ [] := by
    cases lines with
    | nil => exact h.last line rfl
    | cons next lines => exact .inl (h.ended line List.mem_cons_self)
  obtain ⟨text, ending⟩ := line
  cases text with
  | cons c text =>
      obtain rfl : c = '\n' := Option.some.inj hhead
      exact absurd (show '\n' ∈ breaks by decide)
        (h.unbroken _ List.mem_cons_self '\n' List.mem_cons_self)
  | nil =>
      refine ⟨rfl, ?_⟩
      rcases hending with (hpair | ⟨c, -, hc⟩) | ⟨-, hne⟩
      · obtain rfl : ending = ['\r', '\n'] := hpair
        cases hhead
      · obtain rfl : ending = [c] := hc
        exact congrArg (fun c => [c]) (Option.some.inj hhead)
      · exact absurd rfl hne

/-- A text has the lines that it is written in. -/
theorem lines_written (h : WellEnded lines) :
    Text.lines (written lines) = lines.map EndedLine.text := by
  induction lines with
  | nil => rfl
  | cons line lines ih =>
      have hline := h.unbroken line List.mem_cons_self
      have hwritten : written (line :: lines) = line.text ++ (line.ending ++ written lines) := by
        rw [← List.append_assoc]
        rfl
      have hended : IsEnd line.ending → Text.lines (written (line :: lines)) =
          (line :: lines).map EndedLine.text := by
        intro hend
        have hapart : line.ending = ['\r'] → (written lines).head? ≠ some '\n' := by
          intro hreturn hhead
          cases lines with
          | nil => cases hhead
          | cons next lines =>
              exact (List.isChain_cons_cons.1 h.apart).1 ⟨hreturn, h.tail.head?_written hhead⟩
        rw [hwritten, lines_append hline (lines_ending hend hapart), ih h.tail, List.map_cons]
      cases lines with
      | cons next lines => exact hended (h.ended line List.mem_cons_self)
      | nil =>
          rcases h.last line rfl with hend | ⟨hnone, hne⟩
          · exact hended hend
          · rw [hwritten, hnone]
            simp only [written, List.flatMap_nil, List.append_nil]
            exact lines_of_unbroken hne hline.isBreak_eq_false

/-- Lines that all end with `\n` are read back. -/
theorem lines_flatMap_newline {texts : List (List Char)} (h : ∀ text ∈ texts, IsUnbroken text) :
    Text.lines (texts.flatMap (· ++ ['\n'])) = texts := by
  induction texts with
  | nil => rfl
  | cons text texts ih =>
      obtain ⟨htext, htexts⟩ := List.forall_mem_cons.1 h
      rw [List.flatMap_cons, List.append_assoc, List.singleton_append,
        lines_append htext (lines_newline _), ih htexts]

end InfixCalculator.Text
