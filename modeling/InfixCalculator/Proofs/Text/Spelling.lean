import InfixCalculator.Proofs.Text.Pieces
import InfixCalculator.Text.Blank
import Mathlib.Data.List.TakeWhile

/-!
# How words are spelled out

`Spells words text` says that a text writes some words: each one after a run of blanks,
which may be empty in front of the first word only, and with blanks after the last one
if one likes.  `words_of_spells` says that `words` undoes every such spelling, and
`spells_words` that every text is one, so that the two are the same relation.

The first goes through `words_append`, which cuts a text where no word goes on; it is
also how a text that grows at its end is read.
-/

namespace InfixCalculator.Text

variable {s t : List Char}

/-- A text that spells no word. -/
def IsGap (s : List Char) : Prop :=
  ∀ c ∈ s, isBlank c = true

/-- A text that can be a word. -/
def IsWord (s : List Char) : Prop :=
  s ≠ [] ∧ ∀ c ∈ s, isBlank c = false

/-- A text writes words: nothing but blanks if there is none, and otherwise blanks, the first word
and the spelling of the others, which starts with a blank unless it is empty. -/
inductive Spells : List (List Char) → List Char → Prop
  | none {gap : List Char} : IsGap gap → Spells [] gap
  | word {gap word rest : List Char} {words : List (List Char)} :
      IsGap gap → IsWord word → startsWord rest = false → Spells words rest →
      Spells (word :: words) (gap ++ word ++ rest)

/-! ## Cutting texts -/

theorem startsWord_append (hs : s ≠ []) : startsWord (s ++ t) = startsWord s := by
  cases s with
  | nil => exact absurd rfl hs
  | cons c s => rfl

/-- A text may be cut where no word starts. -/
theorem words_append (ht : startsWord t = false) (s : List Char) :
    words (s ++ t) = words s ++ words t := by
  induction s with
  | nil => rfl
  | cons c s ih =>
      rw [List.cons_append, words, words]
      by_cases hc : isBlank c = true
      · rw [if_pos hc, if_pos hc, ih]
      · rw [if_neg hc, if_neg hc]
        cases s with
        | nil =>
            rw [List.nil_append, ht]
            rfl
        | cons d s =>
            rw [startsWord_append (by simp), ih]
            cases hd : startsWord (d :: s) with
            | true =>
                rw [if_pos rfl, if_pos rfl, consFirst_append c (words_ne_nil_of_startsWord hd)]
            | false => rfl

theorem words_of_isGap (hs : IsGap s) : words s = [] := by
  induction s with
  | nil => rfl
  | cons c s ih =>
      rw [words, if_pos (hs c List.mem_cons_self)]
      exact ih fun d hd => hs d (List.mem_cons_of_mem c hd)

theorem words_gap_append (hs : IsGap s) (t : List Char) : words (s ++ t) = words t := by
  induction s with
  | nil => rfl
  | cons c s ih =>
      rw [List.cons_append, words, if_pos (hs c List.mem_cons_self)]
      exact ih fun d hd => hs d (List.mem_cons_of_mem c hd)

theorem words_append_gap (ht : IsGap t) (s : List Char) : words (s ++ t) = words s := by
  have hstart : startsWord t = false := by
    cases t with
    | nil => rfl
    | cons c t => simp [startsWord, ht c List.mem_cons_self]
  rw [words_append hstart, words_of_isGap ht, List.append_nil]

/-- A text may be cut after a blank. -/
theorem words_append_of_gap {gap : List Char} (hgap : IsGap gap) (hne : gap ≠ [])
    (s t : List Char) : words (s ++ gap ++ t) = words (s ++ gap) ++ words t := by
  have hstart : ∀ rest, startsWord (gap ++ rest) = false := by
    intro rest
    cases gap with
    | nil => exact absurd rfl hne
    | cons c gap => simp [startsWord, hgap c List.mem_cons_self]
  rw [List.append_assoc, words_append (hstart t), words_gap_append hgap, words_append_gap hgap]

theorem words_of_isWord (hs : IsWord s) : words s = [s] := by
  obtain ⟨hne, hsolid⟩ := hs
  induction s with
  | nil => exact absurd rfl hne
  | cons c s ih =>
      obtain ⟨hc, hs⟩ := List.forall_mem_cons.1 hsolid
      rw [words, if_neg (by simp [hc])]
      cases s with
      | nil => rfl
      | cons d s =>
          have hd : startsWord (d :: s) = true := by
            simp [startsWord, hs d List.mem_cons_self]
          rw [if_pos hd, ih (by simp) hs]
          rfl

/-! ## Trimming -/

theorem words_dropWhile (s : List Char) : words (s.dropWhile isBlank) = words s := by
  have hgap : IsGap (s.takeWhile isBlank) := fun c hc => List.mem_takeWhile_imp hc
  rw [← words_gap_append hgap, List.takeWhile_append_dropWhile]

/-- Trimming a text leaves its words as they are. -/
theorem words_trim (s : List Char) : words (trim s) = words s := by
  rw [trim, trimBy, ← words_dropWhile s]
  generalize s.dropWhile isBlank = t
  have hgap : IsGap (t.reverse.takeWhile isBlank).reverse := by
    intro c hc
    exact List.mem_takeWhile_imp (List.mem_reverse.1 hc)
  rw [← words_append_gap hgap, ← List.reverse_append, List.takeWhile_append_dropWhile,
    List.reverse_reverse]

/-- A text without blanks at its ends is another one without the blanks at its ends. -/
structure IsTrimmed (core text : List Char) : Prop where
  framed : ∃ left right, IsGap left ∧ IsGap right ∧ text = left ++ core ++ right
  first : ∀ c ∈ core.head?, isBlank c = false
  last : ∀ c ∈ core.getLast?, isBlank c = false

theorem dropWhile_gap_append {gap : List Char} (hgap : IsGap gap)
    (hs : ∀ c ∈ s.head?, isBlank c = false) : (gap ++ s).dropWhile isBlank = s := by
  rw [List.dropWhile_append_of_pos hgap]
  cases s with
  | nil => rfl
  | cons c s => exact List.dropWhile_cons_of_neg (by simp [hs c rfl])

theorem isGap_reverse : IsGap s.reverse ↔ IsGap s := by
  simp only [IsGap, List.mem_reverse]

theorem isTrimmed_trim (s : List Char) : IsTrimmed (trim s) s := by
  have hleft : IsGap (s.takeWhile isBlank) := fun c hc => List.mem_takeWhile_imp hc
  have hright : IsGap ((s.dropWhile isBlank).reverse.takeWhile isBlank).reverse :=
    isGap_reverse.2 fun c hc => List.mem_takeWhile_imp hc
  have hcore : s.dropWhile isBlank =
      trim s ++ ((s.dropWhile isBlank).reverse.takeWhile isBlank).reverse := by
    rw [trim, trimBy, ← List.reverse_append, List.takeWhile_append_dropWhile, List.reverse_reverse]
  refine ⟨⟨_, _, hleft, hright, ?_⟩, ?_, ?_⟩
  · rw [List.append_assoc, ← hcore, List.takeWhile_append_dropWhile]
  · intro c hc
    have hhead := List.head?_dropWhile_not isBlank s
    rw [hcore, List.head?_append, Option.mem_def.1 hc] at hhead
    exact hhead
  · intro c hc
    rw [trim, trimBy, List.getLast?_reverse] at hc
    have hlast := List.head?_dropWhile_not isBlank (s.dropWhile isBlank).reverse
    rw [Option.mem_def.1 hc] at hlast
    exact hlast

theorem trim_of_isGap (hs : IsGap s) : trim s = [] := by
  have hnil : s.dropWhile isBlank = [] := List.dropWhile_eq_nil_iff.2 hs
  rw [trim, trimBy, hnil]
  rfl

/-- Only one text is left when the blanks at the ends are taken away. -/
theorem isTrimmed_iff {core : List Char} : IsTrimmed core s ↔ core = trim s := by
  constructor
  · rintro ⟨⟨left, right, hleft, hright, rfl⟩, hfirst, hlast⟩
    cases core with
    | nil =>
        refine (trim_of_isGap ?_).symm
        rw [List.append_nil]
        exact List.forall_mem_append.2 ⟨hleft, hright⟩
    | cons c core =>
        have hstart : ∀ d ∈ (c :: core ++ right).head?, isBlank d = false := hfirst
        have hend : ∀ d ∈ (c :: core).reverse.head?, isBlank d = false := by
          rw [List.head?_reverse]
          exact hlast
        rw [trim, trimBy, List.append_assoc, dropWhile_gap_append hleft hstart, List.reverse_append,
          dropWhile_gap_append (isGap_reverse.2 hright) hend, List.reverse_reverse]
  · rintro rfl
    exact isTrimmed_trim s

theorem trim_eq_nil_iff : trim s = [] ↔ IsGap s := by
  refine ⟨fun hnil => ?_, trim_of_isGap⟩
  obtain ⟨⟨left, right, hleft, hright, heq⟩, -, -⟩ := isTrimmed_trim s
  rw [heq, hnil, List.append_nil]
  exact List.forall_mem_append.2 ⟨hleft, hright⟩

/-! ## Spellings -/

theorem words_of_spells {ws : List (List Char)} (hspells : Spells ws s) : words s = ws := by
  induction hspells with
  | none hgap => exact words_of_isGap hgap
  | word hgap hword hrest _ ih =>
      rw [List.append_assoc, words_gap_append hgap, words_append hrest, words_of_isWord hword, ih]
      rfl

/-! ## Every text is a spelling -/

theorem Spells.cons_blank {ws : List (List Char)} (hspells : Spells ws s) {c : Char}
    (hc : isBlank c = true) : Spells ws (c :: s) := by
  cases hspells with
  | none hgap => exact .none (List.forall_mem_cons.2 ⟨hc, hgap⟩)
  | @word gap word rest words hgap hword hrest htail =>
      have hgap : IsGap (c :: gap) := List.forall_mem_cons.2 ⟨hc, hgap⟩
      exact .word hgap hword hrest htail

/-- A text that starts with a word spells it without a gap. -/
theorem Spells.exists_first {ws : List (List Char)} (hspells : Spells ws s)
    (hs : startsWord s = true) :
    ∃ first rest others, ws = first :: others ∧ s = first ++ rest ∧ IsWord first ∧
      startsWord rest = false ∧ Spells others rest := by
  cases hspells with
  | none hgap =>
      cases s with
      | nil => cases hs
      | cons c s => simp [startsWord, hgap c List.mem_cons_self] at hs
  | @word gap word rest words hgap hword hrest htail =>
      cases gap with
      | nil => exact ⟨word, rest, words, rfl, rfl, hword, hrest, htail⟩
      | cons c gap => simp [startsWord, hgap c List.mem_cons_self] at hs

theorem spells_words (s : List Char) : Spells (words s) s := by
  have hnone : IsGap [] := by simp [IsGap]
  induction s with
  | nil => exact .none hnone
  | cons c s ih =>
      rw [words]
      cases hc : isBlank c with
      | true => exact ih.cons_blank hc
      | false =>
          rw [if_neg (by simp)]
          cases hs : startsWord s with
          | true =>
              -- the character goes on with the first word of the rest
              obtain ⟨first, rest, others, hwords, htext, hfirst, hrest, htail⟩ := ih.exists_first hs
              have hlonger : IsWord (c :: first) :=
                ⟨by simp, List.forall_mem_cons.2 ⟨hc, hfirst.2⟩⟩
              rw [if_pos rfl, hwords, htext]
              exact .word hnone hlonger hrest htail
          | false =>
              have hletter : IsWord [c] := ⟨by simp, by simpa using hc⟩
              exact .word hnone hletter hs ih

/-- A text spells its words and no others. -/
theorem spells_iff {ws : List (List Char)} : Spells ws s ↔ words s = ws :=
  ⟨words_of_spells, fun h => h ▸ spells_words s⟩

end InfixCalculator.Text
