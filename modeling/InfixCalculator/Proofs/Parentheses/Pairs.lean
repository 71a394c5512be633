import InfixCalculator.Proofs.Evaluation.Pending

/-!
# Matching parentheses

Matching is a matter of words alone: `IsPair` says that the words between two parentheses have
matching parentheses among themselves and that none of them is malformed, which keeps a pair inside
of a segment.  From it come the parentheses without a partner, `IsLoneCloser` and `IsFreeOpener`.

The evaluation knows nothing of this.  It has open parentheses and operators on one stack, takes
the former off one by one, and loses all of them at a malformed word.  What connects the two are the
open parentheses that are pending after some words, `openersAfter`:

* words that match among themselves leave them as they were (`openersAfter_append`);
* the words after the last of them match among themselves (`exists_balanced`).

So a closing parenthesis goes with the last one that is pending (`isPair_iff`), and the pending
ones are those without a partner (`mem_openersAfter_take`).
-/

namespace InfixCalculator

/-! ## Pairs -/

/-- Words whose parentheses match among themselves and of which none is malformed. -/
inductive Balanced : List String → Prop
  | nil : Balanced []
  | other {word : String} {rest : List String} : isMalformed word = false → word ≠ "(" →
      word ≠ ")" → Balanced rest → Balanced (word :: rest)
  | group {inner rest : List String} : Balanced inner → Balanced rest →
      Balanced ("(" :: (inner ++ ")" :: rest))

/-- Two positions hold parentheses that match each other. -/
def IsPair (words : List String) (opener closer : Nat) : Prop :=
  ∃ before inner after, words = before ++ "(" :: (inner ++ ")" :: after) ∧ Balanced inner ∧
    before.length = opener ∧ opener + inner.length + 1 = closer

/-- A position holds a closing parenthesis that matches no opening one. -/
def IsLoneCloser (words : List String) (closer : Nat) : Prop :=
  words[closer]? = some ")" ∧ ∀ opener, ¬ IsPair words opener closer

/-- A position holds an open parenthesis of the segment that is in hand at `last`, and it matches no
closing one before `last`. -/
def IsFreeOpener (words : List String) (last opener : Nat) : Prop :=
  opener < last ∧ words[opener]? = some "(" ∧
    (∀ position, opener < position → position < last →
      ∀ word, words[position]? = some word → isMalformed word = false) ∧
    ∀ closer, closer < last → ¬ IsPair words opener closer

/-- A malformed word ends a segment, and so does the end of the words. -/
def EndsSegment (words : List String) (position : Nat) : Prop :=
  position = words.length ∨ ∃ word, words[position]? = some word ∧ isMalformed word = true

namespace Balanced

theorem append {first second : List String} (hfirst : Balanced first) (hsecond : Balanced second) :
    Balanced (first ++ second) := by
  induction hfirst with
  | nil => exact hsecond
  | other hword hopen hclose _ ih => exact .other hword hopen hclose ih
  | @group inner rest hinner _ _ ih =>
      rw [List.cons_append, List.append_assoc, List.cons_append]
      exact .group hinner ih

end Balanced

/-! ## Pending open parentheses -/

/-- Where the pending open parentheses come from, the last one first. -/
def openersIn (pending : List Pending) : List Nat :=
  (pending.filter (·.kind = .openParen)).map Pending.origin

theorem openersIn_append (first second : List Pending) :
    openersIn (first ++ second) = openersIn first ++ openersIn second := by
  rw [openersIn, List.filter_append, List.map_append]
  rfl

/-- Only the end applies open parentheses. -/
theorem openersIn_applies {token : Token} (pending : List Pending) (hfinish : token ≠ .finish) :
    openersIn (token.applies pending) = [] := by
  rw [openersIn, List.map_eq_nil_iff, List.filter_eq_nil_iff]
  intro entry hentry hopen
  cases token with
  | finish => exact hfinish rfl
  | number value => cases hentry
  | openParen => simp at hentry
  | operator op =>
      have hpasses := List.mem_takeWhile_imp
        (p := fun entry : Pending => (TokenKind.operator op).appliesBefore entry.kind) hentry
      rw [of_decide_eq_true hopen, TokenKind.operator_appliesBefore_openParen] at hpasses
      cases hpasses
  | closeParen =>
      have hpasses :=
        List.mem_takeWhile_imp (p := fun entry : Pending => !Machine.isBarrier entry.kind) hentry
      rw [of_decide_eq_true hopen] at hpasses
      cases hpasses

theorem openersIn_spares {token : Token} (pending : List Pending) (hfinish : token ≠ .finish) :
    openersIn (token.spares pending) = openersIn pending := by
  have hwhole := congrArg openersIn (Token.applies_append_spares token pending)
  rwa [openersIn_append, openersIn_applies pending hfinish, List.nil_append] at hwhole

/-- A closing parenthesis finds the last open one, if there is any. -/
theorem openersIn_closeParen {pending : List Pending} (h : AllApplicable pending) :
    openersIn (Token.closeParen.spares pending).tail = (openersIn pending).tail := by
  rw [← openersIn_spares pending (by simp : Token.closeParen ≠ .finish)]
  rcases (Token.spares_closeParen_cases h).2 with hnone | ⟨origin, outer, hopen⟩
  · rw [hnone]
    rfl
  · rw [hopen]
    simp [openersIn]

/-- A closing parenthesis is reported where no open one is pending. -/
theorem spares_closeParen_eq_nil {pending : List Pending} (h : AllApplicable pending) :
    Token.closeParen.spares pending = [] ↔ openersIn pending = [] := by
  rw [← openersIn_spares pending (by simp : Token.closeParen ≠ .finish)]
  rcases (Token.spares_closeParen_cases h).2 with hnone | ⟨origin, outer, hopen⟩
  · simp [hnone, openersIn]
  · simp [hopen, openersIn]

/-- The open parentheses that are pending after some words, the last one first. -/
def openersAfter (words : List String) : List Nat :=
  openersIn (pendingAfter words)

@[simp] theorem openersAfter_nil : openersAfter [] = [] := rfl

theorem openersAfter_openParen (words : List String) :
    openersAfter (words ++ ["("]) = words.length :: openersAfter words := by
  rw [openersAfter, pendingAfter_concat, wordToken_eq_openParen.2 rfl, Token.restack,
    Token.spares_openParen]
  rfl

theorem openersAfter_closeParen (words : List String) :
    openersAfter (words ++ [")"]) = (openersAfter words).tail := by
  rw [openersAfter, pendingAfter_concat, wordToken_eq_closeParen.2 rfl]
  exact openersIn_closeParen (allApplicable_pendingAfter words)

theorem openersAfter_malformed (words : List String) {word : String}
    (hmalformed : isMalformed word = true) : openersAfter (words ++ [word]) = [] := by
  rw [openersAfter, pendingAfter_concat, wordToken_eq_finish.2 hmalformed, Token.restack,
    Token.spares_finish (allApplicable_pendingAfter words)]
  rfl

theorem openersAfter_other (words : List String) {word : String} (hwell : isMalformed word = false)
    (hopen : word ≠ "(") (hclose : word ≠ ")") :
    openersAfter (words ++ [word]) = openersAfter words := by
  rw [openersAfter, pendingAfter_concat]
  cases htoken : wordToken word with
  | finish => rw [wordToken_eq_finish.1 htoken] at hwell; cases hwell
  | openParen => exact absurd (wordToken_eq_openParen.1 htoken) hopen
  | closeParen => exact absurd (wordToken_eq_closeParen.1 htoken) hclose
  | number value => rfl
  | operator op =>
      have hspares := openersIn_spares (pendingAfter words) (by simp : Token.operator op ≠ .finish)
      simpa [Token.restack, openersIn, openersAfter] using hspares

/-- What a word is to parentheses. -/
theorem word_cases (word : String) :
    isMalformed word = true ∨ word = "(" ∨ word = ")" ∨
      isMalformed word = false ∧ word ≠ "(" ∧ word ≠ ")" := by
  by_cases hopen : word = "("
  · exact .inr (.inl hopen)
  by_cases hclose : word = ")"
  · exact .inr (.inr (.inl hclose))
  cases hmalformed : isMalformed word with
  | true => exact .inl rfl
  | false => exact .inr (.inr (.inr ⟨rfl, hopen, hclose⟩))

/-! ## Pending parentheses and pairs -/

/-- Words that match among themselves leave the pending open parentheses as they were. -/
theorem openersAfter_append {inner : List String} (hinner : Balanced inner) (before : List String) :
    openersAfter (before ++ inner) = openersAfter before := by
  induction hinner generalizing before with
  | nil => rw [List.append_nil]
  | @other word rest hword hopen hclose _ ih =>
      rw [← List.singleton_append, ← List.append_assoc, ih,
        openersAfter_other before hword hopen hclose]
  | @group inner rest _ _ ihinner ihrest =>
      have hsplit : before ++ "(" :: (inner ++ ")" :: rest) =
          before ++ ["("] ++ inner ++ [")"] ++ rest := by
        simp
      rw [hsplit, ihrest, openersAfter_closeParen, ihinner, openersAfter_openParen, List.tail_cons]

/-- The words after the last pending open parenthesis match among themselves. -/
theorem exists_balanced {words : List String} {opener : Nat} {outer : List Nat}
    (h : openersAfter words = opener :: outer) :
    ∃ before inner, words = before ++ "(" :: inner ∧ Balanced inner ∧ before.length = opener ∧
      openersAfter before = outer := by
  -- a closing parenthesis at the end takes two turns, so the induction is on the number of words
  induction hcount : words.length using Nat.strong_induction_on generalizing words opener outer with
  | _ count ih =>
      subst hcount
      rcases List.eq_nil_or_concat' words with rfl | ⟨words, word, rfl⟩
      · cases h
      have hshorter : words.length < (words ++ [word]).length := by simp
      rcases word_cases word with hmalformed | rfl | rfl | ⟨hwell, hopen, hclose⟩
      · rw [openersAfter_malformed words hmalformed] at h
        cases h
      · rw [openersAfter_openParen] at h
        obtain ⟨rfl, rfl⟩ := List.cons.inj h
        exact ⟨words, [], rfl, .nil, rfl, rfl⟩
      · rw [openersAfter_closeParen] at h
        -- the closing parenthesis ends a group, before which the one in question is the last
        cases hpending : openersAfter words with
        | nil => simp [hpending] at h
        | cons last rest =>
            obtain ⟨middle, group, rfl, hgroup, -, hmiddle⟩ := ih _ hshorter hpending rfl
            rw [hpending, List.tail_cons] at h
            have hlt : middle.length < (middle ++ "(" :: group ++ [")"]).length := by simp
            obtain ⟨before, inner, rfl, hinner, hlength, hbefore⟩ := ih _ hlt (hmiddle.trans h) rfl
            refine ⟨before, inner ++ "(" :: (group ++ ")" :: []), by simp, ?_, hlength, hbefore⟩
            exact hinner.append (.group hgroup .nil)
      · rw [openersAfter_other words hwell hopen hclose] at h
        obtain ⟨before, inner, rfl, hinner, hlength, hbefore⟩ := ih _ hshorter h rfl
        refine ⟨before, inner ++ [word], by simp, ?_, hlength, hbefore⟩
        exact hinner.append (.other hwell hopen hclose .nil)

/-- A closing parenthesis matches the last open one that is pending. -/
theorem isPair_iff {words : List String} {opener closer : Nat} :
    IsPair words opener closer ↔
      words[closer]? = some ")" ∧ (openersAfter (words.take closer)).head? = some opener := by
  constructor
  · rintro ⟨before, inner, after, rfl, hinner, rfl, rfl⟩
    have hsplit : before ++ "(" :: (inner ++ ")" :: after) =
        (before ++ ["("] ++ inner) ++ ")" :: after := by
      simp
    have hlength : before.length + inner.length + 1 = (before ++ ["("] ++ inner).length := by
      simp
      omega
    rw [hsplit, hlength, List.take_left, openersAfter_append hinner, openersAfter_openParen]
    exact ⟨by simp, rfl⟩
  · rintro ⟨hclose, hhead⟩
    obtain ⟨outer, hpending⟩ := List.head?_eq_some_iff.1 hhead
    obtain ⟨before, inner, htake, hinner, hbefore, -⟩ := exists_balanced hpending
    obtain ⟨hlt, hword⟩ := List.getElem?_eq_some_iff.1 hclose
    have hlength := congrArg List.length htake
    rw [List.length_take, Nat.min_eq_left hlt.le, List.length_append, List.length_cons] at hlength
    refine ⟨before, inner, words.drop (closer + 1), ?_, hinner, hbefore, by omega⟩
    rw [← List.cons_append, ← List.append_assoc, ← htake, ← hword, List.getElem_cons_drop,
      List.take_append_drop]

theorem isLoneCloser_iff {words : List String} {closer : Nat} :
    IsLoneCloser words closer ↔
      words[closer]? = some ")" ∧ openersAfter (words.take closer) = [] := by
  simp only [IsLoneCloser, isPair_iff]
  refine and_congr_right fun hclose => ?_
  cases openersAfter (words.take closer) <;> simp [hclose]

theorem IsPair.lt {words : List String} {opener closer : Nat} (h : IsPair words opener closer) :
    opener < closer := by
  obtain ⟨_, _, _, _, _, _, hcloser⟩ := h
  omega

/-- The last pending open parenthesis is the nearest one. -/
theorem pairwise_openersAfter (words : List String) :
    (words.length :: openersAfter words).Pairwise (· > ·) := by
  induction words using List.reverseRecOn with
  | nil => simp
  | append_singleton words word ih =>
      have hlater : ∀ openers, openers.Sublist (words.length :: openersAfter words) →
          ((words ++ [word]).length :: openers).Pairwise (· > ·) := by
        intro openers hsublist
        refine List.pairwise_cons.2 ⟨fun opener hopener => ?_, ih.sublist hsublist⟩
        rw [List.length_append, List.length_singleton]
        rcases List.mem_cons.1 (hsublist.subset hopener) with rfl | hearlier
        · exact Nat.lt_succ_self _
        · exact Nat.lt_succ_of_lt (List.rel_of_pairwise_cons ih hearlier)
      rcases word_cases word with hmalformed | rfl | rfl | ⟨hwell, hopen, hclose⟩
      · exact openersAfter_malformed words hmalformed ▸ hlater [] (List.nil_sublist _)
      · exact openersAfter_openParen words ▸ hlater _ (List.Sublist.refl _)
      · exact openersAfter_closeParen words ▸
          hlater _ ((List.tail_sublist _).trans (List.sublist_cons_self _ _))
      · exact openersAfter_other words hwell hopen hclose ▸ hlater _ (List.sublist_cons_self _ _)

theorem nodup_openersAfter (words : List String) : (openersAfter words).Nodup :=
  (List.pairwise_cons.1 (pairwise_openersAfter words)).2.imp Nat.ne_of_gt

/-- One more word opens a parenthesis, or it leaves those free that it does not match. -/
theorem isFreeOpener_succ {words : List String} {last opener : Nat} {word : String}
    (hword : words[last]? = some word) :
    IsFreeOpener words (last + 1) opener ↔ opener = last ∧ word = "(" ∨
      IsFreeOpener words last opener ∧ isMalformed word = false ∧ ¬ IsPair words opener last := by
  constructor
  · rintro ⟨hlt, hopen, hwell, hfree⟩
    rcases Nat.lt_succ_iff_lt_or_eq.1 hlt with hearlier | rfl
    · refine .inr ⟨⟨hearlier, hopen, ?_, ?_⟩, hwell last hearlier (Nat.lt_succ_self _) word hword,
        hfree last (Nat.lt_succ_self _)⟩
      · exact fun position hafter hbefore => hwell position hafter (Nat.lt_succ_of_lt hbefore)
      · exact fun closer hcloser => hfree closer (Nat.lt_succ_of_lt hcloser)
    · exact .inl ⟨rfl, Option.some.inj (hword.symm.trans hopen)⟩
  · rintro (⟨rfl, rfl⟩ | ⟨⟨hlt, hopen, hwell, hfree⟩, hlast, hpair⟩)
    · refine ⟨Nat.lt_succ_self _, hword, fun _ hafter hbefore => by omega, ?_⟩
      intro closer hcloser hpair
      have := hpair.lt
      omega
    · refine ⟨Nat.lt_succ_of_lt hlt, hopen, fun position hafter hbefore other hother => ?_, ?_⟩
      · rcases Nat.lt_succ_iff_lt_or_eq.1 hbefore with hearlier | rfl
        · exact hwell position hafter hearlier other hother
        · obtain rfl := Option.some.inj (hword.symm.trans hother)
          exact hlast
      · intro closer hcloser
        rcases Nat.lt_succ_iff_lt_or_eq.1 hcloser with hearlier | rfl
        · exact hfree closer hearlier
        · exact hpair

/-- The open parentheses that are pending at a position are the free ones. -/
theorem mem_openersAfter_take {words : List String} {last opener : Nat}
    (hlast : last ≤ words.length) :
    opener ∈ openersAfter (words.take last) ↔ IsFreeOpener words last opener := by
  induction last with
  | zero => simp [IsFreeOpener]
  | succ last ih =>
      have hword : words[last]? = some words[last] := List.getElem?_eq_getElem hlast
      have hlength : (words.take last).length = last := List.length_take_of_le (by omega)
      rw [List.take_succ_eq_append_getElem hlast, isFreeOpener_succ hword, ← ih (by omega),
        isPair_iff, hword]
      rcases word_cases words[last] with hmalformed | hopen | hclose | ⟨hwell, hopen, hclose⟩
      · have hopen : words[last] ≠ "(" := fun hopen => by
          rw [hopen] at hmalformed
          cases hmalformed
        rw [openersAfter_malformed _ hmalformed]
        simp [hmalformed, hopen]
      · have hwell : isMalformed "(" = false := rfl
        simp [hopen, openersAfter_openParen, hlength, hwell]
      · have hwell : isMalformed ")" = false := rfl
        have hnodup := nodup_openersAfter (words.take last)
        rw [hclose, openersAfter_closeParen]
        cases hpending : openersAfter (words.take last) with
        | nil => simp
        | cons first rest =>
            rw [hpending] at hnodup
            constructor
            · refine fun hmem => .inr ⟨List.mem_cons_of_mem _ hmem, hwell, fun ⟨_, hhead⟩ => ?_⟩
              exact (List.nodup_cons.1 hnodup).1 (Option.some.inj hhead ▸ hmem)
            · rintro (⟨-, hopen⟩ | ⟨hmem, -, hpair⟩)
              · exact absurd hopen (by decide)
              · exact (List.mem_cons.1 hmem).resolve_left fun heq => hpair ⟨rfl, heq ▸ rfl⟩
      · rw [openersAfter_other _ hwell hopen hclose]
        simp [hwell, hopen, hclose]

end InfixCalculator
