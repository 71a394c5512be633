import InfixCalculator.Proofs.Evaluation.Reports
import InfixCalculator.Proofs.Evaluation.Safety
import InfixCalculator.Proofs.Parentheses.Matching
import Mathlib.Data.List.Basic
import Mathlib.Data.List.Induction

/-!
# What is pending at a word

Which kinds are stacked at a word, and which of them the word has applied, can be told from the
words alone: no operand takes part in it.  A stacked kind is remembered here together with the
index of its word, as `Pending`, so that one can say which of several equal operators is applied.

* `Token.applies`, `Token.spares` and `Token.restack` are what a token does to the pending kinds,
  `pendingAfter` is what is pending after some words.
* `Machine.Awaits pending m` says that these are the stack of a machine above its mark.
  `Awaits.step_eq` is the one place where a step is taken apart: it applies exactly
  `Token.applies`, top first, concludes with what its token asks for beside, and leaves
  `Token.restack`.
* `takeWords_induction` carries a property along the words, `evaluateWords_eq` adds the end, and
  `awaits_of_incoming` says what every step of an evaluation meets.
-/

namespace InfixCalculator

/-- A stacked kind and the index of its word. -/
structure Pending where
  kind : TokenKind
  origin : Nat
deriving DecidableEq

/-- The kinds alone. -/
def kindsOf (pending : List Pending) : List TokenKind :=
  pending.map Pending.kind

@[simp] theorem kindsOf_nil : kindsOf [] = [] := rfl

@[simp] theorem kindsOf_cons (entry : Pending) (pending : List Pending) :
    kindsOf (entry :: pending) = entry.kind :: kindsOf pending := rfl

@[simp] theorem kindsOf_append (first second : List Pending) :
    kindsOf (first ++ second) = kindsOf first ++ kindsOf second :=
  List.map_append

/-- Only what can be applied is ever pending. -/
def AllApplicable (pending : List Pending) : Prop :=
  ∀ entry ∈ pending, entry.kind.isApplicable = true

theorem AllApplicable.kinds {pending : List Pending} (h : AllApplicable pending) :
    ∀ kind ∈ kindsOf pending, kind.isApplicable = true :=
  List.forall_mem_map.2 h

/-! ## What a token does to the pending kinds -/

namespace Token

/-- What a token has applied, top first. -/
def applies (token : Token) (pending : List Pending) : List Pending :=
  match token.loopTest? with
  | none => []
  | some holds => pending.takeWhile (holds ·.kind)

/-- What a token does not apply. -/
def spares (token : Token) (pending : List Pending) : List Pending :=
  match token.loopTest? with
  | none => pending
  | some holds => pending.dropWhile (holds ·.kind)

/-- What is pending after a token.  A closing parenthesis takes away the opening one that its loop
has stopped at, if there is one. -/
def restack (position : Nat) (token : Token) (pending : List Pending) : List Pending :=
  match token with
  | finish => finish.spares pending
  | number value => (number value).spares pending
  | openParen => ⟨.openParen, position⟩ :: openParen.spares pending
  | closeParen => (closeParen.spares pending).tail
  | operator op => ⟨.operator op, position⟩ :: (operator op).spares pending

variable {token : Token} {pending : List Pending}

theorem applies_append_spares (token : Token) (pending : List Pending) :
    token.applies pending ++ token.spares pending = pending := by
  unfold applies spares
  cases token.loopTest? with
  | none => rfl
  | some holds => exact List.takeWhile_append_dropWhile

@[simp] theorem applies_number (value : Float) : (number value).applies pending = [] := rfl

@[simp] theorem spares_number (value : Float) : (number value).spares pending = pending := rfl

/-- An open parenthesis comes in above all others. -/
@[simp] theorem applies_openParen : openParen.applies pending = [] := by
  cases pending with
  | nil => rfl
  | cons entry rest =>
      show (entry :: rest).takeWhile (fun top => TokenKind.openParen.appliesBefore top.kind) = []
      rw [List.takeWhile_cons_of_neg (by simp [TokenKind.openParen_appliesBefore])]

@[simp] theorem spares_openParen : openParen.spares pending = pending := by
  have hwhole := applies_append_spares openParen pending
  rwa [applies_openParen, List.nil_append] at hwhole

/-- A token applies what passes its test. -/
theorem passes_of_applies {holds : TokenKind → Bool} (hholds : holds ∈ token.loopTest?) :
    ∀ kind ∈ kindsOf (token.applies pending), holds kind = true := by
  refine List.forall_mem_map.2 fun entry hentry => ?_
  simp only [applies, Option.mem_def.1 hholds] at hentry
  exact List.mem_takeWhile_imp (p := fun entry : Pending => holds entry.kind) hentry

/-- A token spares what its test fails first. -/
theorem fails_of_spares {holds : TokenKind → Bool} (hholds : token.loopTest? = some holds)
    {entry : Pending} {rest : List Pending} (hspares : token.spares pending = entry :: rest) :
    holds entry.kind = false := by
  simp only [spares, hholds] at hspares
  have hhead := List.head_dropWhile_not (fun entry : Pending => holds entry.kind) (l := pending)
    (by simp [hspares])
  simpa [hspares] using hhead

/-- The end applies all that is pending. -/
theorem applies_finish (h : AllApplicable pending) : finish.applies pending = pending :=
  List.takeWhile_eq_self_iff.2 fun entry hentry => TokenKind.finish_appliesBefore (h entry hentry)

theorem spares_finish (h : AllApplicable pending) : finish.spares pending = [] := by
  have hwhole := applies_append_spares finish pending
  rw [applies_finish h] at hwhole
  exact List.append_cancel_left (hwhole.trans (List.append_nil pending).symm)

/-- A closing parenthesis applies the operators down to the nearest open parenthesis, or all that
is pending if there is none. -/
theorem spares_closeParen_cases (h : AllApplicable pending) :
    (∀ entry ∈ closeParen.applies pending, entry.kind.isOperator = true) ∧
      (closeParen.spares pending = [] ∨ ∃ origin outer,
        closeParen.spares pending = ⟨.openParen, origin⟩ :: outer) := by
  have htest : ∀ kind : TokenKind, kind.isApplicable = true →
      (!Machine.isBarrier kind) = kind.isOperator := by
    intro kind hkind
    cases kind <;> simp_all [TokenKind.isApplicable, TokenKind.isOperator, Machine.isBarrier]
  constructor
  · intro entry hentry
    have hmem : entry ∈ pending := (List.takeWhile_prefix _).subset hentry
    have hpasses : (!Machine.isBarrier entry.kind) = true :=
      List.mem_takeWhile_imp (p := fun entry : Pending => !Machine.isBarrier entry.kind) hentry
    rw [← htest entry.kind (h entry hmem), hpasses]
  · cases hspares : closeParen.spares pending with
    | nil => exact .inl rfl
    | cons entry outer =>
        refine .inr ⟨entry.origin, outer, ?_⟩
        have hstops := fails_of_spares rfl hspares
        have hmem : entry ∈ closeParen.spares pending := hspares ▸ List.mem_cons_self
        have happlicable := h entry ((List.dropWhile_suffix _).subset hmem)
        obtain ⟨kind, origin⟩ := entry
        cases kind with
        | openParen => rfl
        | operator op => simp [Machine.isBarrier] at hstops
        | _ => simp [TokenKind.isApplicable] at happlicable

theorem allApplicable_applies (token : Token) (h : AllApplicable pending) :
    AllApplicable (token.applies pending) := by
  intro entry hentry
  refine h entry ?_
  rw [← applies_append_spares token pending]
  exact List.mem_append_left _ hentry

theorem allApplicable_spares (token : Token) (h : AllApplicable pending) :
    AllApplicable (token.spares pending) := by
  intro entry hentry
  refine h entry ?_
  rw [← applies_append_spares token pending]
  exact List.mem_append_right _ hentry

theorem allApplicable_restack (position : Nat) (h : AllApplicable pending) :
    AllApplicable (token.restack position pending) := by
  cases token with
  | closeParen =>
      exact fun entry hentry =>
        allApplicable_spares closeParen h entry (List.mem_of_mem_tail hentry)
  | openParen => exact List.forall_mem_cons.2 ⟨rfl, allApplicable_spares openParen h⟩
  | operator op => exact List.forall_mem_cons.2 ⟨rfl, allApplicable_spares (operator op) h⟩
  | finish => exact allApplicable_spares finish h
  | number value => exact h

end Token

/-! ## Steps -/

namespace Machine

variable {position : Nat} {token : Token} {pending : List Pending} {m : Machine}

/-- The stack of a machine is what is pending, above its mark. -/
structure Awaits (pending : List Pending) (m : Machine) : Prop where
  stack : m.operators = kindsOf pending ++ [.finish]
  applicable : AllApplicable pending

theorem awaits_start : Awaits [] start :=
  ⟨rfl, by simp [AllApplicable]⟩

/-- What a token asks for beside having pending kinds applied: a number is stacked, and a closing
parenthesis is reported if it has found no opening one. -/
def conclude (position : Nat) (token : Token) (pending : List Pending) (m : Machine) : Machine :=
  match token with
  | .number value => m.push value
  | .closeParen =>
    if Token.closeParen.spares pending = [] then
      m.report position ⟨.missingOpenParen, "Missing open parenthesis"⟩
    else m
  | _ => m

/-- The machine after a token. -/
def stepped (position : Nat) (token : Token) (pending : List Pending) (m : Machine) : Machine :=
  ((m.appliedAll position (kindsOf (token.applies pending))).conclude position token
    pending).withOperators (kindsOf (token.restack position pending) ++ [.finish])

theorem takeWhile_kindsOf (holds : TokenKind → Bool) (pending : List Pending) :
    (kindsOf pending).takeWhile holds = kindsOf (pending.takeWhile (holds ·.kind)) :=
  List.takeWhile_map ..

theorem dropWhile_kindsOf (holds : TokenKind → Bool) (pending : List Pending) :
    (kindsOf pending).dropWhile holds = kindsOf (pending.dropWhile (holds ·.kind)) :=
  List.dropWhile_map ..

/-- What a step does, whatever its token. -/
theorem Awaits.step_eq (h : Awaits pending m) (position : Nat) (token : Token) :
    m.step position token = .ok (m.stepped position token pending) := by
  have happlicable := h.applicable.kinds
  cases token with
  | number value =>
      have hsame : (m.push value).operators = kindsOf pending ++ [.finish] := h.stack
      rw [step_number, stepped, Token.applies_number]
      exact congrArg Except.ok (hsame ▸ withOperators_self).symm
  | finish =>
      rw [step_finish h.stack happlicable, stepped, Token.applies_finish h.applicable,
        Token.restack, Token.spares_finish h.applicable]
      rfl
  | openParen =>
      obtain ⟨top, rest, hcons⟩ := Grounded.exists_top ⟨_, h.stack, happlicable⟩
      rw [step_openParen hcons, stepped, Token.applies_openParen, Token.restack,
        Token.spares_openParen, h.stack]
      rfl
  | operator op =>
      rw [step_operator_takeWhile op h.stack happlicable
        (TokenKind.operator_appliesBefore_finish op), takeWhile_kindsOf, dropWhile_kindsOf]
      rfl
  | closeParen =>
      obtain ⟨hinner, hspares⟩ := Token.spares_closeParen_cases h.applicable
      have hkinds : ∀ kind ∈ kindsOf (Token.closeParen.applies pending), kind.isOperator = true :=
        List.forall_mem_map.2 hinner
      have hwhole := congrArg kindsOf (Token.applies_append_spares .closeParen pending)
      rw [kindsOf_append] at hwhole
      rcases hspares with hnone | ⟨origin, outer, hopen⟩
      · rw [hnone, kindsOf_nil, List.append_nil] at hwhole
        rw [step_loneCloser (hwhole ▸ h.stack) hkinds, stepped, conclude, if_pos hnone,
          Token.restack, hnone]
        rfl
      · have hstack : m.operators = kindsOf (Token.closeParen.applies pending) ++
            .openParen :: (kindsOf outer ++ [.finish]) := by
          rw [h.stack, ← hwhole, hopen]
          simp
        rw [step_closeParen hstack hkinds, stepped, conclude, if_neg (by simp [hopen]),
          Token.restack, hopen]
        rfl

/-- The stack in two parts, what a token applies and what it spares. -/
theorem Awaits.stack_eq (h : Awaits pending m) (token : Token) :
    m.operators =
      kindsOf (token.applies pending) ++ (kindsOf (token.spares pending) ++ [.finish]) := by
  rw [h.stack, ← List.append_assoc, ← kindsOf_append, Token.applies_append_spares]

/-- What the loop of a step does on the way. -/
theorem Awaits.reduceWhile_eq (h : Awaits pending m) (position : Nat) {holds : TokenKind → Bool}
    (hholds : holds ∈ token.loopTest?) :
    reduceWhile holds position m.operators m =
      .ok ((m.appliedAll position (kindsOf (token.applies pending))).withOperators
        (kindsOf (token.spares pending) ++ [.finish])) := by
  have hpasses : ∀ kind ∈ kindsOf (token.applies pending), holds kind = true :=
    Token.passes_of_applies hholds
  have happlicable := (Token.allApplicable_applies token h.applicable).kinds
  rw [h.stack_eq token,
    reduceWhile_append _ fun kind hkind => ⟨hpasses kind hkind, happlicable kind hkind⟩]
  cases hspares : token.spares pending with
  | nil => exact reduceWhile_stop [] (Token.finish_fails hholds)
  | cons entry rest => exact reduceWhile_stop _ (Token.fails_of_spares hholds hspares)

theorem Awaits.stepped (h : Awaits pending m) (position : Nat) (token : Token) :
    Awaits (token.restack position pending) (m.stepped position token pending) :=
  ⟨rfl, Token.allApplicable_restack position h.applicable⟩

end Machine

/-! ## Words -/

/-- The token that a word counts as; a malformed one counts as the end. -/
def wordToken (word : String) : Token :=
  (Token.ofWord? word).getD .finish

theorem wordToken_of_ofWord? {word : String} {token : Token} (h : Token.ofWord? word = some token) :
    wordToken word = token := by
  rw [wordToken, h, Option.getD_some]

theorem wordToken_eq_iff {word : String} {token : Token} (hne : token ≠ .finish) :
    wordToken word = token ↔ Token.ofWord? word = some token := by
  unfold wordToken
  cases Token.ofWord? word with
  | none => simp [hne.symm]
  | some other => simp

theorem wordToken_eq_openParen {word : String} : wordToken word = .openParen ↔ word = "(" := by
  rw [wordToken_eq_iff (by simp)]
  exact ⟨Token.ofWord?_eq_openParen, fun h => h ▸ Token.ofWord?_openParen⟩

theorem wordToken_eq_closeParen {word : String} : wordToken word = .closeParen ↔ word = ")" := by
  rw [wordToken_eq_iff (by simp)]
  exact ⟨Token.ofWord?_eq_closeParen, fun h => h ▸ Token.ofWord?_closeParen⟩

theorem wordToken_eq_operator {word : String} {op : Operator} :
    wordToken word = .operator op ↔ word = op.symbol := by
  rw [wordToken_eq_iff (by simp)]
  refine ⟨fun h => ?_, fun h => h ▸ Token.ofWord?_symbol op⟩
  unfold Token.ofWord? Token.ofSymbol? at h
  split_ifs at h <;> simp_all <;> exact h ▸ rfl

/-- Only malformed words count as the end. -/
theorem wordToken_eq_finish {word : String} :
    wordToken word = .finish ↔ isMalformed word = true := by
  unfold wordToken isMalformed
  cases hword : Token.ofWord? word with
  | none => simp
  | some token =>
      have hne : token ≠ .finish := fun hfinish => Token.ofWord?_ne_finish word (hfinish ▸ hword)
      simp [hne]

/-- What is pending after some words. -/
def pendingAfter (words : List String) : List Pending :=
  words.zipIdx.foldl (fun pending (word, position) => (wordToken word).restack position pending) []

@[simp] theorem pendingAfter_nil : pendingAfter [] = [] := rfl

theorem pendingAfter_concat (words : List String) (word : String) :
    pendingAfter (words ++ [word]) =
      (wordToken word).restack words.length (pendingAfter words) := by
  simp [pendingAfter, List.zipIdx_append]

theorem allApplicable_pendingAfter (words : List String) : AllApplicable (pendingAfter words) := by
  induction words using List.reverseRecOn with
  | nil => exact Machine.awaits_start.applicable
  | append_singleton words word ih =>
      rw [pendingAfter_concat]
      exact Token.allApplicable_restack words.length ih

namespace Machine

variable {position : Nat} {pending : List Pending} {m : Machine} {words : List String}

/-- The machine with a report on a malformed word. -/
def noted (position : Nat) (word : String) (m : Machine) : Machine :=
  if isMalformed word then
    m.report position ⟨.malformedToken, Token.malformedMessage word⟩
  else m

theorem Awaits.noted (h : Awaits pending m) (position : Nat) (word : String) :
    Awaits pending (m.noted position word) := by
  unfold Machine.noted
  split
  · exact ⟨h.stack, h.applicable⟩
  · exact h

/-- The machine after a word, given what was pending before it. -/
def taken (position : Nat) (word : String) (pending : List Pending) (m : Machine) : Machine :=
  (m.noted position word).stepped position (wordToken word) pending

theorem Awaits.takeWord_eq (h : Awaits pending m) (position : Nat) (word : String) :
    m.takeWord false position word = .ok (m.taken position word pending) := by
  have hstep := (h.noted position word).step_eq position (wordToken word)
  unfold Machine.noted at hstep
  cases hword : Token.ofWord? word with
  | none =>
      have hmalformed : isMalformed word = true := by simp [isMalformed, hword]
      rw [if_pos hmalformed, wordToken_eq_finish.2 hmalformed] at hstep
      rw [takeWord_malformed hword, hstep, taken, Machine.noted, if_pos hmalformed,
        wordToken_eq_finish.2 hmalformed]
      rfl
  | some token =>
      have hwell : ¬ isMalformed word = true := by simp [isMalformed, hword]
      rw [if_neg hwell, wordToken_of_ofWord? hword] at hstep
      rw [takeWord_eq_step false hword, hstep, taken, Machine.noted, if_neg hwell,
        wordToken_of_ofWord? hword]
      rfl

/-- What holds at the start and is kept by every word holds after any words. -/
theorem takeWords_induction {P : List String → Machine → Prop} (hstart : P [] start)
    (hword : ∀ before word m, Awaits (pendingAfter before) m → P before m →
      P (before ++ [word]) (m.taken before.length word (pendingAfter before)))
    (words : List String) :
    ∃ m, start.takeWords false 0 words = .ok m ∧ Awaits (pendingAfter words) m ∧ P words m := by
  induction words using List.reverseRecOn with
  | nil => exact ⟨start, rfl, awaits_start, hstart⟩
  | append_singleton before word ih =>
      obtain ⟨m, htake, hawaits, hP⟩ := ih
      refine ⟨m.taken before.length word (pendingAfter before), ?_, ?_,
        hword before word m hawaits hP⟩
      · rw [takeWords_append [word] htake, Nat.zero_add,
          takeWords_cons [] (hawaits.takeWord_eq before.length word)]
        rfl
      · rw [pendingAfter_concat]
        exact (hawaits.noted before.length word).stepped before.length (wordToken word)

/-- The machine after the end of an expression. -/
def drained (words : List String) (m : Machine) : Machine :=
  m.stepped words.length .finish (pendingAfter words)

/-- The evaluation that takes its result from a machine. -/
def concluded (position : Nat) (m : Machine) : Evaluation :=
  ⟨(m.result position).1, (m.result position).2.diagnostics.reverse⟩

/-- The evaluation that a machine ends with. -/
def evaluation (words : List String) (m : Machine) : Evaluation :=
  (m.drained words).concluded words.length

theorem Awaits.step_finish_eq (h : Awaits (pendingAfter words) m) :
    m.step words.length .finish = .ok (m.drained words) :=
  h.step_eq words.length .finish

theorem evaluateWords_eq (htake : start.takeWords false 0 words = .ok m)
    (hawaits : Awaits (pendingAfter words) m) :
    evaluateWords false words = .ok (m.evaluation words) := by
  simp only [evaluateWords, htake, hawaits.step_finish_eq, bind, Except.bind, Except.mapError]
  rfl

end Machine

/-! ## All steps of an evaluation -/

/-- The token that comes in at a position. -/
def tokenAt (words : List String) (position : Nat) : Token :=
  (words[position]?).elim .finish wordToken

theorem tokenAt_append_left {position : Nat} {before : List String} (after : List String)
    (h : position < before.length) :
    tokenAt (before ++ after) position = tokenAt before position := by
  rw [tokenAt, tokenAt, List.getElem?_append_left h]

theorem tokenAt_append_cons (before : List String) (word : String) (after : List String) :
    tokenAt (before ++ word :: after) before.length = wordToken word := by
  simp [tokenAt]

theorem tokenAt_length (words : List String) : tokenAt words words.length = .finish := by
  simp [tokenAt]

/-- What a function gives for the token at a position and for what is pending there. -/
def atPosition {α : Type} (f : Token → List Pending → Nat → List α) (words : List String)
    (position : Nat) : List α :=
  f (tokenAt words position) (pendingAfter (words.take position)) position

section AtPosition

variable {α : Type} (f : Token → List Pending → Nat → List α) (words : List String)

/-- A word adds what the function gives for it. -/
theorem flatMap_atPosition_concat (word : String) :
    (List.range (words ++ [word]).length).flatMap (atPosition f (words ++ [word])) =
      (List.range words.length).flatMap (atPosition f words) ++
        f (wordToken word) (pendingAfter words) words.length := by
  have hbefore : (List.range words.length).flatMap (atPosition f (words ++ [word])) =
      (List.range words.length).flatMap (atPosition f words) := by
    refine List.flatMap_congr fun position hposition => ?_
    have hlt := List.mem_range.1 hposition
    rw [atPosition, tokenAt_append_left [word] hlt, List.take_append_of_le_length hlt.le,
      atPosition]
  have hlast : atPosition f (words ++ [word]) words.length =
      f (wordToken word) (pendingAfter words) words.length := by
    rw [atPosition, tokenAt_append_cons, List.take_left]
  rw [List.length_append, List.length_singleton, List.range_succ, List.flatMap_append,
    List.flatMap_singleton, hbefore, hlast]

/-- The end adds what the function gives for it. -/
theorem flatMap_atPosition_finish :
    (List.range (words.length + 1)).flatMap (atPosition f words) =
      (List.range words.length).flatMap (atPosition f words) ++
        f .finish (pendingAfter words) words.length := by
  rw [List.range_succ, List.flatMap_append, List.flatMap_singleton]
  congr 1
  rw [atPosition, tokenAt_length, List.take_length]

end AtPosition

theorem awaits_of_takeWords {words : List String} {m : Machine}
    (htake : Machine.start.takeWords false 0 words = .ok m) : m.Awaits (pendingAfter words) := by
  obtain ⟨next, hnext, hawaits, -⟩ :=
    Machine.takeWords_induction (P := fun _ _ => True) trivial (fun _ _ _ _ _ => trivial) words
  rw [htake] at hnext
  exact Except.ok.inj hnext ▸ hawaits

/-- What comes in at a position, and what is pending there. -/
theorem awaits_of_incoming {words : List String} {position : Nat} {token : Token} {m : Machine}
    (hincoming : Incoming words position token m) :
    token = tokenAt words position ∧ m.Awaits (pendingAfter (words.take position)) := by
  cases hincoming with
  | word hwords htake hword =>
      subst hwords
      rw [tokenAt_append_cons, wordToken_of_ofWord? hword, List.take_left]
      exact ⟨rfl, awaits_of_takeWords htake⟩
  | @malformed before after word m hwords htake hword =>
      subst hwords
      have hmalformed : isMalformed word = true := by simp [isMalformed, hword]
      have hawaits := awaits_of_takeWords htake
      rw [tokenAt_append_cons, wordToken_eq_finish.2 hmalformed, List.take_left]
      exact ⟨rfl, hawaits.stack, hawaits.applicable⟩
  | finish htake =>
      rw [tokenAt_length, List.take_length]
      exact ⟨rfl, awaits_of_takeWords htake⟩

end InfixCalculator
