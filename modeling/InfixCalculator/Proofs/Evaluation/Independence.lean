import InfixCalculator.Proofs.Evaluation.Conservation
import Mathlib.Data.List.Forall2

/-!
# The course of an evaluation does not depend on its numbers

Parsing and arithmetic share their loops, and a division by zero, a power that fails and an operand
that is missing all put some value on the stack of operands in the middle of one.  Still no value
is ever looked at to decide what comes next.  Two expressions are compared here that have words of
the same sort everywhere, so that they differ in the values of their numbers and in the spelling of
their malformed words only.

* The same kinds are pending at every position (`pendingAfter_congr`), so that every token applies
  the same ones.  `Machine.Turns` reads them off the turns of a loop, in their order, and `AppliesAt`
  says so of a position of an expression.
* Two machines are `Parallel` if they have the same stack of operators and equally many operands,
  and reported the same but for their arithmetic.  An operand is reported missing where the stack
  is empty, and that is so on both machines or on neither.  Every step keeps them parallel.
-/

namespace InfixCalculator

/-! ## Words of one sort -/

/-- Two numbers, two malformed words, or the same operator or parenthesis twice. -/
inductive SameSort : String → String → Prop
  | numbers {word other : String} : isNumber word = true → isNumber other = true →
      SameSort word other
  | malformed {word other : String} : isMalformed word = true → isMalformed other = true →
      SameSort word other
  | symbols (word : String) : SameSort word word

namespace SameSort

variable {word other : String}

theorem kind_eq (h : SameSort word other) : (wordToken other).kind = (wordToken word).kind := by
  cases h with
  | numbers hword hother =>
      rw [kind_wordToken_eq_value.2 hword, kind_wordToken_eq_value.2 hother]
  | malformed hword hother => rw [wordToken_eq_finish.2 hword, wordToken_eq_finish.2 hother]
  | symbols => rfl

/-- A number is not malformed, so that both words are or neither is. -/
theorem isMalformed_eq (h : SameSort word other) : isMalformed other = isMalformed word := by
  have hnumber : ∀ {word : String}, isNumber word = true → isMalformed word = false := by
    intro word hword
    obtain ⟨value, hnumber⟩ := Token.exists_number hword
    rw [isMalformed, hnumber]
    rfl
  cases h with
  | numbers hword hother => rw [hnumber hword, hnumber hother]
  | malformed hword hother => rw [hword, hother]
  | symbols => rfl

end SameSort

/-! ## Tokens of one kind -/

namespace Token

variable {token other : Token}

/-- Tokens of one kind are the same unless they are numbers. -/
theorem numbers_or_eq (h : other.kind = token.kind) :
    (∃ value value', token = number value ∧ other = number value') ∨ other = token := by
  cases token <;> cases other <;> simp_all [kind]

theorem applies_congr (h : other.kind = token.kind) (pending : List Pending) :
    other.applies pending = token.applies pending := by
  rcases numbers_or_eq h with ⟨value, value', rfl, rfl⟩ | rfl
  · rfl
  · rfl

theorem restack_congr (h : other.kind = token.kind) (position : Nat) (pending : List Pending) :
    other.restack position pending = token.restack position pending := by
  rcases numbers_or_eq h with ⟨value, value', rfl, rfl⟩ | rfl
  · rfl
  · rfl

end Token

variable {words others : List String}

/-- The same kinds are pending in both expressions. -/
theorem pendingAfter_congr (h : List.Forall₂ SameSort words others) :
    pendingAfter others = pendingAfter words := by
  unfold pendingAfter
  -- the induction is from the front, so it is about any kinds that are pending there
  generalize ([] : List Pending) = pending
  generalize 0 = position
  induction h generalizing pending position with
  | nil => rfl
  | @cons word other words others hword _ ih =>
      simp only [List.zipIdx_cons, List.foldl_cons, Token.restack_congr hword.kind_eq]
      exact ih _ _

theorem kind_tokenAt_congr (h : List.Forall₂ SameSort words others) (position : Nat) :
    (tokenAt others position).kind = (tokenAt words position).kind := by
  induction h generalizing position with
  | nil => rfl
  | cons hword _ ih =>
      cases position with
      | zero => exact hword.kind_eq
      | succ position => exact ih position

/-- What comes in at a position applies the same in both expressions. -/
theorem appliedBy_congr (h : List.Forall₂ SameSort words others) (position : Nat) :
    appliedBy others position = appliedBy words position := by
  rw [appliedBy, appliedBy, pendingAfter_congr (List.forall₂_take position h)]
  exact Token.applies_congr (kind_tokenAt_congr h position) _

/-! ## The turns of a loop -/

namespace Machine

variable {holds : TokenKind → Bool} {position : Nat} {m n : Machine}

/-- Some turns of a loop, from one machine to another, and the kinds that they apply, in order. -/
inductive Turns (holds : TokenKind → Bool) (position : Nat) :
    List TokenKind → Machine → Machine → Prop
  | none (m : Machine) : Turns holds position [] m m
  | next {top : TokenKind} {rest kinds : List TokenKind} {m applied last : Machine} :
      m.operators = top :: rest → holds top = true →
      apply position top (m.withOperators rest) = .ok applied →
      Turns holds position kinds applied last → Turns holds position (top :: kinds) m last

/-- A loop takes the part of the stack that passes its test in turns. -/
theorem turns_append {part rest : List TokenKind} (hstack : m.operators = part ++ rest)
    (hpart : ∀ kind ∈ part, holds kind = true ∧ kind.isApplicable = true) :
    Turns holds position part m ((m.appliedAll position part).withOperators rest) := by
  induction part generalizing m with
  | nil =>
      have hsame : m.withOperators rest = m := by
        rw [← List.nil_append rest, ← hstack, withOperators_self]
      rw [appliedAll_nil, hsame]
      exact .none m
  | cons top part ih =>
      obtain ⟨⟨hholds, happlicable⟩, hrest⟩ := List.forall_mem_cons.1 hpart
      have happly : apply position top (m.withOperators (part ++ rest)) =
          .ok ((m.applied position top).withOperators (part ++ rest)) := by
        rw [apply_eq happlicable, applied_withOperators]
      have hturns := ih (m := (m.applied position top).withOperators (part ++ rest)) rfl hrest
      rw [appliedAll_withOperators, withOperators_withOperators] at hturns
      exact .next hstack hholds happly hturns

/-- The turns of the loop of a token. -/
theorem Awaits.turns {token : Token} {pending : List Pending} (h : Awaits pending m)
    (position : Nat) (hholds : holds ∈ token.loopTest?) :
    Turns holds position (kindsOf (token.applies pending)) m
      ((m.appliedAll position (kindsOf (token.applies pending))).withOperators
        (kindsOf (token.spares pending) ++ [.finish])) := by
  apply turns_append (h.stack_eq token)
  intro kind hkind
  exact ⟨Token.passes_of_applies hholds kind hkind,
    (Token.allApplicable_applies token h.applicable).kinds kind hkind⟩

end Machine

/-- What comes in at a position meets a machine, and its loop has exactly these kinds applied, in
this order, before it ends. -/
def AppliesAt (words : List String) (position : Nat) (kinds : List TokenKind) : Prop :=
  ∃ token m, Incoming words position token m ∧
    match token.loopTest? with
    | none => kinds = []
    | some holds => ∃ last, Machine.Turns holds position kinds m last ∧
        Machine.reduceWhile holds position m.operators m = .ok last

theorem appliesAt_appliedBy {position : Nat} (h : position ≤ words.length) :
    AppliesAt words position (kindsOf (appliedBy words position)) := by
  obtain ⟨token, m, hincoming⟩ := exists_incoming words h
  obtain ⟨rfl, hawaits⟩ := awaits_of_incoming hincoming
  refine ⟨_, m, hincoming, ?_⟩
  split
  · rename_i hnone
    rw [appliedBy, Token.applies, hnone]
    rfl
  · rename_i holds hholds
    exact ⟨_, hawaits.turns position hholds, hawaits.reduceWhile_eq position hholds⟩

/-! ## Parallel machines -/

/-- What is reported of the values of operands. -/
def DiagnosticKind.isArithmetic : DiagnosticKind → Bool
  | divisionByZero => true
  | invalidPower => true
  | _ => false

/-- The kinds and positions of the diagnostics that are not arithmetic, in their order. -/
def outline (diagnostics : List Diagnostic) : List (DiagnosticKind × Nat) :=
  (diagnostics.filter (!·.kind.isArithmetic)).map fun diagnostic =>
    (diagnostic.kind, diagnostic.position)

theorem outline_reverse (diagnostics : List Diagnostic) :
    outline diagnostics.reverse = (outline diagnostics).reverse := by
  rw [outline, outline, List.filter_reverse, List.map_reverse]

namespace Machine

variable {position : Nat} {token other : Token} {pending : List Pending} {m n : Machine}

/-- Two machines that differ in the values of their operands, and in what they reported of these. -/
structure Parallel (m n : Machine) : Prop where
  operators : n.operators = m.operators
  count : n.operands.length = m.operands.length
  outline : outline n.diagnostics = outline m.diagnostics

/-- What an operator reports beside missing operands is arithmetic. -/
theorem outline_reportAny {op : Operator} (lhs rhs : Float) :
    InfixCalculator.outline (m.reportAny position (op.computed lhs rhs).anomaly).diagnostics =
      InfixCalculator.outline m.diagnostics := by
  cases hanomaly : (op.computed lhs rhs).anomaly with
  | none => rfl
  | some anomaly =>
      have harithmetic : anomaly.kind.isArithmetic = true := by
        rcases Operator.kind_of_computed hanomaly with hkind | hkind <;> rw [hkind] <;> rfl
      simp [reportAny, report, InfixCalculator.outline, harithmetic]

namespace Parallel

theorem withOperators (h : Parallel m n) (operators : List TokenKind) :
    Parallel (m.withOperators operators) (n.withOperators operators) :=
  ⟨rfl, h.count, h.outline⟩

theorem push (h : Parallel m n) (value value' : Float) : Parallel (m.push value) (n.push value') :=
  ⟨h.operators, congrArg Nat.succ h.count, h.outline⟩

/-- Both machines report an anomaly of one kind, in whatever words. -/
theorem report (h : Parallel m n) (position : Nat) {anomaly anomaly' : Anomaly}
    (hkind : anomaly'.kind = anomaly.kind) :
    Parallel (m.report position anomaly) (n.report position anomaly') := by
  refine ⟨h.operators, h.count, ?_⟩
  have houtline := h.outline
  simp only [InfixCalculator.outline] at houtline
  simp only [Machine.report, InfixCalculator.outline, List.filter_cons, hkind]
  split
  · simp only [List.map_cons, houtline]
  · exact houtline

theorem popOperand (h : Parallel m n) (position : Nat) :
    Parallel (m.popOperand position).2 (n.popOperand position).2 := by
  have hcount := h.count
  unfold Machine.popOperand
  cases hm : m.operands with
  | nil =>
      rw [hm, List.length_nil, List.length_eq_zero_iff] at hcount
      rw [hcount]
      exact h.report position rfl
  | cons value rest =>
      rw [hm] at hcount
      obtain ⟨value', rest', hn⟩ := List.exists_cons_of_length_eq_add_one hcount
      rw [hn] at hcount ⊢
      exact ⟨h.operators, Nat.succ.inj hcount, h.outline⟩

theorem operated (h : Parallel m n) (position : Nat) (op : Operator) :
    Parallel (m.operated position op) (n.operated position op) := by
  have hpopped := (h.popOperand position).popOperand position
  simp only [Machine.operated]
  apply push
  refine ⟨?_, ?_, ?_⟩
  · rw [operators_reportAny, operators_reportAny, hpopped.operators]
  · rw [operands_reportAny, operands_reportAny, hpopped.count]
  · rw [outline_reportAny, outline_reportAny, hpopped.outline]

theorem appliedAll (h : Parallel m n) (position : Nat) (kinds : List TokenKind) :
    Parallel (m.appliedAll position kinds) (n.appliedAll position kinds) := by
  induction kinds generalizing m n with
  | nil => exact h
  | cons top kinds ih =>
      rw [appliedAll_cons, appliedAll_cons]
      apply ih
      cases top with
      | openParen => exact h.report position rfl
      | operator op => exact h.operated position op
      | _ => exact h

theorem conclude (h : Parallel m n) (hkind : other.kind = token.kind) (position : Nat)
    (pending : List Pending) :
    Parallel (m.conclude position token pending) (n.conclude position other pending) := by
  rcases Token.numbers_or_eq hkind with ⟨value, value', rfl, rfl⟩ | rfl
  · exact h.push value value'
  · cases other with
    | number value => exact h.push value value
    | closeParen =>
        simp only [Machine.conclude]
        split
        · exact h.report position rfl
        · exact h
    | _ => exact h

theorem stepped (h : Parallel m n) (hkind : other.kind = token.kind) (position : Nat)
    (pending : List Pending) :
    Parallel (m.stepped position token pending) (n.stepped position other pending) := by
  simp only [Machine.stepped, Token.applies_congr hkind, Token.restack_congr hkind]
  exact ((h.appliedAll position _).conclude hkind position pending).withOperators _

theorem noted (h : Parallel m n) {word word' : String} (hword : SameSort word word')
    (position : Nat) : Parallel (m.noted position word) (n.noted position word') := by
  unfold Machine.noted
  rw [hword.isMalformed_eq]
  split
  · exact h.report position rfl
  · exact h

theorem awaits (h : Parallel m n) (hawaits : m.Awaits pending) : n.Awaits pending :=
  ⟨h.operators.trans hawaits.stack, hawaits.applicable⟩

/-- Words of the same sort keep machines parallel. -/
theorem takeWords (h : Parallel m n) (hsame : List.Forall₂ SameSort words others)
    (hawaits : m.Awaits pending) (position : Nat) :
    ∃ m' n', m.takeWords false position words = .ok m' ∧
      n.takeWords false position others = .ok n' ∧ Parallel m' n' := by
  induction hsame generalizing m n pending position with
  | nil => exact ⟨m, n, rfl, rfl, h⟩
  | @cons word word' words others hword _ ih =>
      have hm := hawaits.takeWord_eq position word
      have hn := (h.awaits hawaits).takeWord_eq position word'
      have hnext : Parallel (m.taken position word pending) (n.taken position word' pending) :=
        (h.noted hword position).stepped hword.kind_eq position pending
      have hrest := (hawaits.noted position word).stepped position (wordToken word)
      rw [takeWords_cons words hm, takeWords_cons others hn]
      exact ih hnext hrest (position + 1)

theorem result (h : Parallel m n) (position : Nat) :
    Parallel (m.result position).2 (n.result position).2 := by
  have hcount := h.count
  unfold Machine.result
  match hm : m.operands, hn : n.operands with
  | [], [] => exact h.report position rfl
  | [_], [_] => exact ⟨h.operators, rfl, h.outline⟩
  | _ :: second :: rest, _ :: second' :: rest' =>
      have hfewer : Parallel { m with operands := second :: rest }
          { n with operands := second' :: rest' } := by
        refine ⟨h.operators, ?_, h.outline⟩
        simpa [hm, hn] using hcount
      exact hfewer.report position rfl
  | [], _ :: _ => simp [hm, hn] at hcount
  | _ :: _, [] => simp [hm, hn] at hcount
  | [_], _ :: _ :: _ => simp [hm, hn] at hcount
  | _ :: _ :: _, [_] => simp [hm, hn] at hcount

end Parallel

end Machine

/-- **The course of an evaluation depends on the sorts of its words only.**  At every position the
same operators are applied in the same order, from the same words and by turns of the same loop, and
apart from the arithmetic the diagnostics are of the same kinds at the same positions. -/
theorem evaluation_independent (hsame : List.Forall₂ SameSort words others) :
    (∀ position ≤ words.length, appliedBy others position = appliedBy words position ∧
      AppliesAt words position (kindsOf (appliedBy words position)) ∧
      AppliesAt others position (kindsOf (appliedBy others position))) ∧
    ∃ evaluation evaluation', evaluateWords false words = .ok evaluation ∧
      evaluateWords false others = .ok evaluation' ∧
      outline evaluation'.diagnostics = outline evaluation.diagnostics := by
  have hlength : others.length = words.length := hsame.length_eq.symm
  constructor
  · intro position hposition
    exact ⟨appliedBy_congr hsame position, appliesAt_appliedBy hposition,
      appliesAt_appliedBy (hlength ▸ hposition)⟩
  · have hstart : Machine.Parallel Machine.start Machine.start := ⟨rfl, rfl, rfl⟩
    obtain ⟨m, n, hm, hn, hparallel⟩ := hstart.takeWords hsame Machine.awaits_start 0
    refine ⟨m.evaluation words, n.evaluation others,
      Machine.evaluateWords_eq hm (awaits_of_takeWords hm),
      Machine.evaluateWords_eq hn (awaits_of_takeWords hn), ?_⟩
    have hdrained : (m.drained words).Parallel (n.drained others) := by
      rw [Machine.drained, Machine.drained, hlength, pendingAfter_congr hsame]
      exact hparallel.stepped rfl words.length (pendingAfter words)
    have hresult := (hdrained.result words.length).outline
    simp only [Machine.evaluation, Machine.concluded, hlength, outline_reverse, hresult]

/-- Two expressions of which one divides by zero and the other takes an impossible power, after a
malformed word and with a parenthesis left open. -/
theorem evaluation_independent_recovered :
    let words := ["1", "/", "0", "x", "(", "0", "^", "-1", "*"]
    let others := ["NaN", "/", "2", "3+4", "(", "-1", "^", "0.5", "*"]
    List.Forall₂ SameSort words others ∧
      appliedBy words 8 = [⟨.operator .power, 6⟩] ∧ appliedBy others 8 = [⟨.operator .power, 6⟩] ∧
      ∃ evaluation evaluation', evaluateWords false words = .ok evaluation ∧
        evaluateWords false others = .ok evaluation' ∧
        outline evaluation'.diagnostics = outline evaluation.diagnostics := by
  intro words others
  have hsame : List.Forall₂ SameSort words others :=
    .cons (.numbers (by decide) (by decide)) <| .cons (.symbols "/") <|
      .cons (.numbers (by decide) (by decide)) <| .cons (.malformed (by decide) (by decide)) <|
      .cons (.symbols "(") <| .cons (.numbers (by decide) (by decide)) <| .cons (.symbols "^") <|
      .cons (.numbers (by decide) (by decide)) <| .cons (.symbols "*") .nil
  obtain ⟨happlied, hevaluations⟩ := evaluation_independent hsame
  have hpower : appliedBy words 8 = [⟨.operator .power, 6⟩] := by decide
  exact ⟨hsame, hpower, (happlied 8 (by decide)).1.trans hpower, hevaluations⟩

end InfixCalculator
