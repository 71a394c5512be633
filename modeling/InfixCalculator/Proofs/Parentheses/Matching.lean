import InfixCalculator.Proofs.Evaluation.Tokens

/-!
# Segments and their parentheses

A malformed word ends what came before it, so that the parentheses of an expression can
only match within a *segment*, the words between two malformed ones.  Inside of a segment
matching is as usual, a closing parenthesis going with the nearest open one that is still
free: `loneClosers` counts the closing ones that find none, and `loneOpeners` the open
ones that are left over.

`repair` closes every gap: each segment is put between just enough parentheses to match
all of its own, and between one more pair.
-/

namespace InfixCalculator

/-- Whether a word stands for no token. -/
def isMalformed (word : String) : Bool :=
  (Token.ofWord? word).isNone

/-- The words between malformed ones. -/
def segments (words : List String) : List (List String) :=
  words.splitOnP isMalformed

/-- How many closing parentheses match none before them, where `free` open ones came earlier. -/
def loneClosers : (free : Nat) → List String → Nat
  | _, [] => 0
  | free, word :: rest =>
    if word = "(" then loneClosers (free + 1) rest
    else if word = ")" then
      match free with
      | 0 => loneClosers 0 rest + 1
      | free + 1 => loneClosers free rest
    else loneClosers free rest

/-- How many open parentheses are still free in the end, where `free` of them came earlier. -/
def loneOpeners : (free : Nat) → List String → Nat
  | free, [] => free
  | free, word :: rest =>
    if word = "(" then loneOpeners (free + 1) rest
    else if word = ")" then loneOpeners (free - 1) rest
    else loneOpeners free rest

/-- A segment between parentheses that match all of its own, and one more pair. -/
def repairSegment (segment : List String) : List String :=
  List.replicate (loneClosers 0 segment + 1) "(" ++ segment ++
    List.replicate (loneOpeners 0 segment + 1) ")"

/-- The segments of an expression, each with its parentheses repaired. -/
def repair (words : List String) : List String :=
  (segments words).flatMap repairSegment

/-! ## Words and their parentheses -/

theorem Token.ofWord?_eq_openParen {word : String} (h : ofWord? word = some .openParen) :
    word = "(" := by
  unfold ofWord? ofSymbol? at h
  split_ifs at h <;> simp_all

theorem Token.ofWord?_eq_closeParen {word : String} (h : ofWord? word = some .closeParen) :
    word = ")" := by
  unfold ofWord? ofSymbol? at h
  split_ifs at h <;> simp_all

theorem Token.ofWord?_ne_finish (word : String) : ofWord? word ≠ some .finish := by
  unfold ofWord? ofSymbol?
  split_ifs <;> simp

theorem exists_token {word : String} (h : isMalformed word = false) :
    ∃ token, Token.ofWord? word = some token := by
  cases hword : Token.ofWord? word with
  | some token => exact ⟨token, rfl⟩
  | none => simp [isMalformed, hword] at h

theorem loneClosers_other (free : Nat) {word : String} (rest : List String) (hopen : word ≠ "(")
    (hclose : word ≠ ")") : loneClosers free (word :: rest) = loneClosers free rest := by
  cases free <;> simp [loneClosers, hopen, hclose]

theorem loneOpeners_other (free : Nat) {word : String} (rest : List String) (hopen : word ≠ "(")
    (hclose : word ≠ ")") : loneOpeners free (word :: rest) = loneOpeners free rest := by
  simp [loneOpeners, hopen, hclose]

/-! ## Taking expressions apart -/

/-- An expression is a single segment, or it has a first malformed word. -/
theorem segment_or_malformed (words : List String) :
    (∀ word ∈ words, isMalformed word = false) ∨
      ∃ segment word rest, words = segment ++ word :: rest ∧
        (∀ other ∈ segment, isMalformed other = false) ∧ isMalformed word = true := by
  induction words with
  | nil => exact .inl (by simp)
  | cons first words ih =>
      cases hfirst : isMalformed first with
      | true => exact .inr ⟨[], first, words, rfl, by simp, hfirst⟩
      | false =>
          rcases ih with hall | ⟨segment, word, rest, rfl, hsegment, hword⟩
          · exact .inl (List.forall_mem_cons.2 ⟨hfirst, hall⟩)
          · exact .inr ⟨first :: segment, word, rest, rfl,
              List.forall_mem_cons.2 ⟨hfirst, hsegment⟩, hword⟩

theorem repair_segment {segment : List String}
    (hsegment : ∀ word ∈ segment, isMalformed word = false) :
    repair segment = repairSegment segment := by
  rw [repair, segments, List.splitOnP_eq_singleton hsegment, List.flatMap_singleton]

theorem repair_append {segment : List String} {word : String} (rest : List String)
    (hsegment : ∀ other ∈ segment, isMalformed other = false) (hword : isMalformed word = true) :
    repair (segment ++ word :: rest) = repairSegment segment ++ repair rest := by
  rw [repair, segments, List.splitOnP_append_cons_of_forall_mem hsegment word hword rest,
    List.flatMap_cons]
  rfl

example : repair ["1", "+", "2", ")", "x", "(", "3"] =
    ["(", "(", "1", "+", "2", ")", ")", "(", "(", "3", ")", ")"] := by decide

end InfixCalculator
