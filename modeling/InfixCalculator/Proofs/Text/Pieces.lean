import InfixCalculator.Text.Piece

/-!
# Pieces between marks

A text without the mark is one piece, and the pieces of two texts with a mark between them are the
pieces of the one and of the other.  Every text with a mark has a last one (`exists_last_mark`), so
that both together give the last piece of any text.

The pieces are all of a text but the marks (`flatten_pieces`), and with another character in the
places of the marks they are the text with this character there (`joined_pieces`).
-/

namespace InfixCalculator.Text

variable {mark : Char} {text : List Char}

theorem pieces_of_not_mem (h : mark ∉ text) : pieces mark text = [text] := by
  induction text with
  | nil => rfl
  | cons c text ih =>
      rw [List.mem_cons, not_or] at h
      rw [pieces, if_neg (Ne.symm h.1), ih h.2]
      rfl

theorem consFirst_append (c : Char) {first : List (List Char)} (hfirst : first ≠ [])
    (second : List (List Char)) : consFirst c (first ++ second) = consFirst c first ++ second := by
  cases first with
  | nil => exact absurd rfl hfirst
  | cons text first => rfl

/-- A mark ends a piece. -/
theorem pieces_append (mark : Char) (s t : List Char) :
    pieces mark (s ++ mark :: t) = pieces mark s ++ pieces mark t := by
  induction s with
  | nil => simp [pieces]
  | cons c s ih =>
      rw [List.cons_append, pieces, pieces, ih]
      split
      · rfl
      · exact consFirst_append c (pieces_ne_nil mark s) _

theorem exists_last_mark (h : mark ∈ text) :
    ∃ front last, text = front ++ mark :: last ∧ mark ∉ last := by
  obtain ⟨after, before, hreverse, hafter⟩ := List.eq_append_cons_of_mem (List.mem_reverse.2 h)
  refine ⟨before.reverse, after.reverse, ?_, ?_⟩
  · rw [← List.reverse_reverse text, hreverse]
    simp
  · rwa [List.mem_reverse]

theorem getLast?_pieces {last : List Char} (front : List Char) (hlast : mark ∉ last) :
    (pieces mark (front ++ mark :: last)).getLast? = some last := by
  rw [pieces_append, pieces_of_not_mem hlast, List.getLast?_append]
  rfl

/-- The piece that ends a text stands behind its last mark. -/
theorem exists_of_drop_pieces {earlier : List (List Char)} {last : List Char}
    (h : (pieces mark text).drop 1 = earlier ++ [last]) :
    ∃ front, text = front ++ mark :: last ∧ (pieces mark front).drop 1 = earlier := by
  by_cases hmark : mark ∈ text
  · obtain ⟨front, rest, rfl, hrest⟩ := exists_last_mark hmark
    have hfront : 1 ≤ (pieces mark front).length := List.length_pos_iff.2 (pieces_ne_nil mark front)
    rw [pieces_append, pieces_of_not_mem hrest, List.drop_append_of_le_length hfront] at h
    obtain ⟨hearlier, hlast⟩ := List.append_inj' h rfl
    obtain rfl := List.singleton_inj.1 hlast
    exact ⟨front, rfl, hearlier⟩
  · rw [pieces_of_not_mem hmark] at h
    simp at h

theorem flatten_consFirst (c : Char) (texts : List (List Char)) :
    (consFirst c texts).flatten = c :: texts.flatten := by
  cases texts <;> rfl

/-- The pieces are all of a text but the marks. -/
theorem flatten_pieces (mark : Char) (text : List Char) :
    (pieces mark text).flatten = text.filter (· ≠ mark) := by
  induction text with
  | nil => rfl
  | cons c text ih =>
      rw [pieces]
      split
      · rename_i hc
        rw [List.flatten_cons, ih, List.nil_append, List.filter_cons_of_neg (by simpa using hc)]
      · rename_i hc
        rw [flatten_consFirst, ih, List.filter_cons_of_pos (by simpa using hc)]

theorem mem_of_mem_pieces {c : Char} {piece : List Char} (hpiece : piece ∈ pieces mark text)
    (hc : c ∈ piece) : c ∈ text ∧ c ≠ mark := by
  have hmem := List.mem_flatten_of_mem hpiece hc
  rwa [flatten_pieces, List.mem_filter, decide_eq_true_eq] at hmem

/-- The pieces of a text with another character in the places of the mark. -/
theorem joined_pieces (mark other : Char) (text : List Char) :
    (pieces mark text).headD [] ++ ((pieces mark text).drop 1).flatMap (other :: ·) =
      text.map fun c => if c = mark then other else c := by
  induction text with
  | nil => rfl
  | cons c text ih =>
      obtain ⟨first, rest, hpieces⟩ := List.exists_cons_of_ne_nil (pieces_ne_nil mark text)
      rw [hpieces] at ih
      rw [pieces, List.map_cons, ← ih, hpieces]
      split <;> rfl

end InfixCalculator.Text
