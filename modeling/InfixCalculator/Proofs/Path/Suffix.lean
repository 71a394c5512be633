import InfixCalculator.Path
import InfixCalculator.Proofs.Text.Pieces
import Mathlib.Data.List.TakeWhile
import Mathlib.Tactic.SplitIfs

/-!
# Suffixes of names

A name has a suffix if and only if it ends with the dot and the suffix behind at least one character
(`suffix_eq_iff`), and its last two suffixes are given if and only if it ends with both, each behind
its dot, and something else than a dot comes before them (`lastSuffixes_eq_iff`).  The difference
is in the dots that a name starts with: for the last suffix these are characters as any other, while
they do not count where all suffixes are listed.
-/

namespace InfixCalculator.Path

variable {name first last : List Char}

/-- What follows a dot of a name and holds none itself. -/
def IsPart (text : List Char) : Prop :=
  text ≠ [] ∧ '.' ∉ text

/-! ## The last suffix -/

theorem suffix_append (hlast : IsPart last) {stem : List Char} (hstem : stem ≠ []) :
    suffix (stem ++ '.' :: last) = '.' :: last := by
  have hlength : 0 < stem.length := List.length_pos_iff.2 hstem
  rw [suffix, Text.getLast?_pieces stem hlast.2]
  simp only [List.length_append, List.length_cons]
  rw [if_neg]
  simp only [Bool.or_eq_true, decide_eq_true_eq, not_or]
  exact ⟨hlast.1, by omega⟩

theorem suffix_of_not_mem (h : '.' ∉ name) : suffix name = [] := by
  rw [suffix, Text.pieces_of_not_mem h]
  simp

/-- A name has the suffixes that it ends with, unless nothing comes before them. -/
theorem suffix_eq_iff (last : List Char) (hlast : IsPart last) :
    suffix name = '.' :: last ↔ ∃ stem, stem ≠ [] ∧ name = stem ++ '.' :: last := by
  constructor
  · intro h
    by_cases hdot : '.' ∈ name
    · obtain ⟨stem, rest, rfl, hrest⟩ := Text.exists_last_mark hdot
      rw [suffix, Text.getLast?_pieces stem hrest] at h
      simp only [List.length_append, List.length_cons] at h
      split_ifs at h with hnone
      obtain rfl : rest = last := (List.cons.inj h).2
      refine ⟨stem, ?_, rfl⟩
      rintro rfl
      simp at hnone
    · rw [suffix_of_not_mem hdot] at h
      cases h
  · rintro ⟨stem, hstem, rfl⟩
    exact suffix_append hlast hstem

/-! ## The last two suffixes -/

theorem IsPart.getLast?_ne (hlast : IsPart last) (front : List Char) :
    (front ++ '.' :: last).getLast? ≠ some '.' := by
  rw [← List.singleton_append, ← List.append_assoc, List.getLast?_append,
    List.getLast?_eq_some_getLast hlast.1]
  intro hdot
  exact hlast.2 (Option.some.inj hdot ▸ List.getLast_mem hlast.1)

/-- Dots in front of a name do not count for its suffixes. -/
theorem suffixes_append (hfirst : IsPart first) (hlast : IsPart last) {stem : List Char}
    (hstem : ∃ c ∈ stem, c ≠ '.') :
    ∃ earlier, suffixes (stem ++ '.' :: first ++ '.' :: last) = earlier ++ [first, last] := by
  have hcore : stem.dropWhile (· = '.') ≠ [] := by
    obtain ⟨c, hc, hdot⟩ := hstem
    intro hnil
    exact hdot (by simpa using List.dropWhile_eq_nil_iff.1 hnil c hc)
  have hdrop : (stem ++ '.' :: first ++ '.' :: last).dropWhile (· = '.') =
      stem.dropWhile (· = '.') ++ '.' :: first ++ '.' :: last := by
    rw [List.append_assoc, List.dropWhile_append, if_neg (by simpa using hcore),
      List.append_assoc]
  refine ⟨(Text.pieces '.' (stem.dropWhile (· = '.'))).drop 1, ?_⟩
  rw [suffixes, if_neg (hlast.getLast?_ne _), hdrop, Text.pieces_append, Text.pieces_append,
    Text.pieces_of_not_mem hfirst.2, Text.pieces_of_not_mem hlast.2, List.append_assoc,
    List.drop_append_of_le_length]
  · rfl
  · exact List.length_pos_iff.2 (Text.pieces_ne_nil '.' _)

theorem exists_of_suffixes (earlier : List (List Char))
    (h : suffixes name = earlier ++ [first, last]) :
    ∃ stem, (∃ c ∈ stem, c ≠ '.') ∧ name = stem ++ '.' :: first ++ '.' :: last := by
  unfold suffixes at h
  split_ifs at h with hend
  · simp at h
  · rw [← List.singleton_append, ← List.append_assoc] at h
    obtain ⟨front, hcore, hfront⟩ := Text.exists_of_drop_pieces h
    obtain ⟨stem, rfl, -⟩ := Text.exists_of_drop_pieces hfront
    refine ⟨name.takeWhile (· = '.') ++ stem, ?_, ?_⟩
    · have hhead := List.head?_dropWhile_not (· = '.') name
      rw [hcore] at hhead
      cases stem with
      | nil => simp at hhead
      | cons c stem => exact ⟨c, by simp, by simpa using hhead⟩
    · calc name
          = name.takeWhile (· = '.') ++ name.dropWhile (· = '.') :=
            List.takeWhile_append_dropWhile.symm
        _ = _ := by rw [hcore]; simp only [List.append_assoc]

/-- The last two suffixes of a name are those that it ends with, unless nothing but dots comes
before them. -/
theorem lastSuffixes_eq_iff (hfirst : IsPart first) (hlast : IsPart last) :
    (suffixes name).drop ((suffixes name).length - 2) = [first, last] ↔
      ∃ stem, (∃ c ∈ stem, c ≠ '.') ∧ name = stem ++ '.' :: first ++ '.' :: last := by
  constructor
  · intro h
    refine exists_of_suffixes ((suffixes name).take ((suffixes name).length - 2)) ?_
    rw [← h, List.take_append_drop]
  · rintro ⟨stem, hstem, rfl⟩
    obtain ⟨earlier, hsuffixes⟩ := suffixes_append hfirst hlast hstem
    rw [hsuffixes]
    simp

end InfixCalculator.Path
