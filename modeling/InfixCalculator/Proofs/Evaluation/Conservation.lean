import InfixCalculator.Proofs.Evaluation.Alternation
import InfixCalculator.Proofs.Evaluation.Pending
import Mathlib.Data.List.Nodup
import Mathlib.Data.List.Range

/-!
# Operands and operators are conserved

Every operator of an expression is applied exactly once, at whatever word this happens, and what
lies on the stack of operands in the end can be counted from the words and from the operands
that were reported missing.  There are two parts to this.

* *Which operators are applied* does not depend on the operands.  A token moves the operators
  that it applies out of the pending ones and adds itself (`operatorsIn_restack`), so that those
  applied so far and those still pending are together the ones met so far (`appliedBefore_perm`).
  The end leaves none pending.
* *How many operands there are* is `Conserved`.  A number adds one.  An operator takes two and
  leaves one, and each that it takes without finding it is reported missing.  As an operator
  always leaves something, the stack is empty only where there was neither a number nor an
  operator.
-/

namespace InfixCalculator

/-! ## Which operators are applied -/

/-- The operators among some pending kinds. -/
def operatorsIn (pending : List Pending) : List Pending :=
  pending.filter (·.kind.isOperator)

theorem operatorsIn_append (first second : List Pending) :
    operatorsIn (first ++ second) = operatorsIn first ++ operatorsIn second :=
  List.filter_append first second

theorem operatorsIn_cons (entry : Pending) (pending : List Pending) :
    operatorsIn (entry :: pending) = operatorsIn [entry] ++ operatorsIn pending :=
  operatorsIn_append [entry] pending

theorem operatorCount_kindsOf (pending : List Pending) :
    operatorCount (kindsOf pending) = (operatorsIn pending).length := by
  rw [operatorCount, kindsOf, List.countP_map, operatorsIn, List.countP_eq_length_filter]
  rfl

/-- The operators of an expression, each with the index of its word. -/
def operatorWords (words : List String) : List Pending :=
  operatorsIn (words.zipIdx.map fun (word, position) => ⟨(wordToken word).kind, position⟩)

/-- What comes in at a position applies these, in this order. -/
def appliedBy (words : List String) (position : Nat) : List Pending :=
  (tokenAt words position).applies (pendingAfter (words.take position))

/-- The operators that are applied before the end, in order. -/
def appliedBefore (words : List String) : List Pending :=
  operatorsIn ((List.range words.length).flatMap (appliedBy words))

/-- The operators that are applied at all, in order. -/
def appliedOperators (words : List String) : List Pending :=
  operatorsIn ((List.range (words.length + 1)).flatMap (appliedBy words))

/-- A token moves what it applies out of the pending operators and adds itself. -/
theorem operatorsIn_restack (position : Nat) (token : Token) (pending : List Pending) :
    (operatorsIn (token.applies pending) ++ operatorsIn (token.restack position pending)).Perm
      (operatorsIn pending ++ operatorsIn [⟨token.kind, position⟩]) := by
  have hwhole : operatorsIn (token.applies pending) ++ operatorsIn (token.spares pending) =
      operatorsIn pending := by
    rw [← operatorsIn_append, Token.applies_append_spares]
  cases token with
  | finish =>
      simpa [operatorsIn, Token.restack, Token.kind, TokenKind.isOperator] using .of_eq hwhole
  | number value => simp [operatorsIn, Token.restack, Token.kind, TokenKind.isOperator]
  | openParen => simp [operatorsIn, Token.restack, Token.kind, TokenKind.isOperator]
  | operator op =>
      rw [Token.restack, operatorsIn_cons, ← hwhole, Token.kind, List.append_assoc]
      exact List.perm_append_comm.append_left _
  | closeParen =>
      have htail : operatorsIn (Token.closeParen.spares pending).tail =
          operatorsIn (Token.closeParen.spares pending) := by
        cases hspares : Token.closeParen.spares pending with
        | nil => rfl
        | cons entry rest =>
            -- what a closing parenthesis takes away is no operator
            have hbarrier := Token.fails_of_spares rfl hspares
            have hoperator : entry.kind.isOperator = false := by
              cases hkind : entry.kind <;> simp_all [Machine.isBarrier, TokenKind.isOperator]
            rw [List.tail_cons, operatorsIn, operatorsIn,
              List.filter_cons_of_neg (by simp [hoperator])]
      rw [Token.restack, htail, hwhole]
      exact .of_eq (List.append_nil _).symm

theorem appliedBefore_concat (words : List String) (word : String) :
    appliedBefore (words ++ [word]) =
      appliedBefore words ++ operatorsIn ((wordToken word).applies (pendingAfter words)) := by
  rw [appliedBefore, appliedBefore, ← operatorsIn_append]
  exact congrArg operatorsIn
    (flatMap_atPosition_concat (fun token pending _ => token.applies pending) words word)

theorem operatorWords_concat (words : List String) (word : String) :
    operatorWords (words ++ [word]) =
      operatorWords words ++ operatorsIn [⟨(wordToken word).kind, words.length⟩] := by
  simp [operatorWords, List.zipIdx_append, operatorsIn_append]

/-- The operators met so far have been applied or are pending. -/
theorem appliedBefore_perm (words : List String) :
    (appliedBefore words ++ operatorsIn (pendingAfter words)).Perm (operatorWords words) := by
  induction words using List.reverseRecOn with
  | nil => exact .refl _
  | append_singleton words word ih =>
      rw [appliedBefore_concat, pendingAfter_concat, operatorWords_concat, List.append_assoc]
      refine ((operatorsIn_restack words.length (wordToken word) _).append_left _).trans ?_
      rw [← List.append_assoc]
      exact ih.append_right _

theorem appliedOperators_eq (words : List String) :
    appliedOperators words = appliedBefore words ++ operatorsIn (pendingAfter words) := by
  rw [appliedOperators, appliedBefore, ← operatorsIn_append,
    ← Token.applies_finish (allApplicable_pendingAfter words)]
  exact congrArg operatorsIn
    (flatMap_atPosition_finish (fun token pending _ => token.applies pending) words)

/-- Every operator is applied exactly once. -/
theorem appliedOperators_perm (words : List String) :
    (appliedOperators words).Perm (operatorWords words) := by
  rw [appliedOperators_eq]
  exact appliedBefore_perm words

/-! ## How many operands there are -/

/-- What is reported only where a result is taken. -/
def DiagnosticKind.isVerdict : DiagnosticKind → Bool
  | emptyResult => true
  | missingOperators => true
  | _ => false

namespace Machine

variable {position values applied : Nat} {m : Machine}

/-- How many operands were reported missing. -/
def missing (m : Machine) : Nat :=
  m.diagnostics.countP (·.kind = .missingOperand)

/-- The operands of a machine that has stacked some values and applied some operators. -/
structure Conserved (values applied : Nat) (m : Machine) : Prop where
  balance : m.operands.length + applied = values + m.missing
  empty : m.operands = [] ↔ values = 0 ∧ applied = 0
  undecided : ∀ diagnostic ∈ m.diagnostics, diagnostic.kind.isVerdict = false

theorem conserved_start : Conserved 0 0 start :=
  ⟨rfl, by simp [start], by simp [start]⟩

theorem missing_report (anomaly : Anomaly) :
    (m.report position anomaly).missing =
      m.missing + if anomaly.kind = .missingOperand then 1 else 0 := by
  simp [missing, report, List.countP_cons]

/-- An operand that is not there is reported. -/
theorem missing_popOperand (position : Nat) (m : Machine) :
    (m.popOperand position).2.operands.length + 1 + m.missing =
      m.operands.length + (m.popOperand position).2.missing := by
  unfold popOperand
  cases hoperands : m.operands with
  | nil =>
      rw [missing_report, if_pos rfl]
      simp only [report, hoperands, List.length_nil]
      omega
  | cons value rest => rfl

theorem missing_reportAny {anomaly : Option Anomaly}
    (h : ∀ reported ∈ anomaly, reported.kind ≠ .missingOperand) :
    (m.reportAny position anomaly).missing = m.missing := by
  cases anomaly with
  | none => rfl
  | some reported => rw [reportAny, missing_report, if_neg (h reported rfl), Nat.add_zero]

/-- An operator takes two operands and leaves one. -/
theorem missing_operated (position : Nat) (op : Operator) (m : Machine) :
    (m.operated position op).operands.length + 1 + m.missing =
      m.operands.length + (m.operated position op).missing := by
  have hrhs := missing_popOperand position m
  have hlhs := missing_popOperand position (m.popOperand position).2
  have hanomaly : ∀ lhs rhs : Float, ∀ reported ∈ (op.computed lhs rhs).anomaly,
      reported.kind ≠ .missingOperand := by
    intro lhs rhs reported hreported
    rcases Operator.kind_of_computed hreported with hkind | hkind <;> simp [hkind]
  have hmissing : (m.operated position op).missing =
      ((m.popOperand position).2.popOperand position).2.missing :=
    missing_reportAny (hanomaly _ _)
  simp only [operated, push, operands_reportAny, List.length_cons] at hmissing ⊢
  omega

namespace Conserved

theorem withOperators (h : Conserved values applied m) (operators : List TokenKind) :
    Conserved values applied (m.withOperators operators) :=
  ⟨h.balance, h.empty, h.undecided⟩

theorem push (h : Conserved values applied m) (value : Float) :
    Conserved (values + 1) applied (m.push value) where
  balance := by
    have hbalance := h.balance
    simp only [Machine.push, List.length_cons, missing] at hbalance ⊢
    omega
  empty := by simp [Machine.push]
  undecided := h.undecided

theorem report (h : Conserved values applied m) {anomaly : Anomaly}
    (hmissing : anomaly.kind ≠ .missingOperand)
    (hverdict : anomaly.kind.isVerdict = false) :
    Conserved values applied (m.report position anomaly) where
  balance := by
    rw [missing_report, if_neg hmissing]
    exact h.balance
  empty := h.empty
  undecided := List.forall_mem_cons.2 ⟨hverdict, h.undecided⟩

theorem operated (h : Conserved values applied m) (op : Operator) :
    Conserved values (applied + 1) (m.operated position op) where
  balance := by
    have hbalance := h.balance
    have hoperated := missing_operated position op m
    omega
  empty := by simp [Machine.operated, Machine.push]
  undecided := by
    have hadds : Adds _ m (m.operated position op) := adds_operated op
    obtain ⟨added, hdiagnostics, hadded⟩ := hadds
    rw [hdiagnostics]
    refine List.forall_mem_append.2 ⟨fun diagnostic hmem => ?_, h.undecided⟩
    obtain ⟨-, ⟨hkind, -⟩ | hkind | hkind⟩ := hadded diagnostic hmem <;> rw [hkind] <;> rfl

theorem appliedAll (h : Conserved values applied m) (position : Nat) {kinds : List TokenKind}
    (hkinds : ∀ kind ∈ kinds, kind.isApplicable = true) :
    Conserved values (applied + operatorCount kinds) (m.appliedAll position kinds) := by
  induction kinds generalizing m applied with
  | nil => exact h
  | cons top kinds ih =>
      obtain ⟨htop, hrest⟩ := List.forall_mem_cons.1 hkinds
      rw [appliedAll_cons]
      cases top with
      | openParen =>
          rw [operatorCount_openParen]
          exact ih (h.report (by simp) rfl) hrest
      | operator op =>
          rw [operatorCount_operator, Nat.add_comm _ 1, ← Nat.add_assoc]
          exact ih (h.operated op) hrest
      | finish => simp [TokenKind.isApplicable] at htop
      | value => simp [TokenKind.isApplicable] at htop
      | closeParen => simp [TokenKind.isApplicable] at htop

theorem conclude (h : Conserved values applied m) (position : Nat) (token : Token)
    (pending : List Pending) :
    Conserved (values + if token.kind = .value then 1 else 0) applied
      (m.conclude position token pending) := by
  cases token with
  | number value => exact h.push value
  | closeParen =>
      show Conserved values applied (if _ then _ else m)
      split
      · exact h.report (by simp) rfl
      · exact h
  | finish => exact h
  | openParen => exact h
  | operator op => exact h

theorem stepped (h : Conserved values applied m) (position : Nat) (token : Token)
    {pending : List Pending} (hpending : AllApplicable pending) :
    Conserved (values + if token.kind = .value then 1 else 0)
      (applied + (operatorsIn (token.applies pending)).length)
      (m.stepped position token pending) := by
  rw [← operatorCount_kindsOf]
  have happlied := (Token.allApplicable_applies token hpending).kinds
  exact ((h.appliedAll position happlied).conclude position token pending).withOperators _

theorem noted (h : Conserved values applied m) (position : Nat) (word : String) :
    Conserved values applied (m.noted position word) := by
  unfold Machine.noted
  split
  · exact h.report (by simp) rfl
  · exact h

end Conserved

end Machine

/-! ## Words -/

/-- How many words are numbers. -/
def valueCount (words : List String) : Nat :=
  words.countP isNumber

/-- How many words are operators. -/
def operationCount (words : List String) : Nat :=
  words.countP (· ∈ ["+", "-", "*", "/", "^"])

/-- Only literals stand for numbers. -/
theorem kind_wordToken_eq_value {word : String} :
    (wordToken word).kind = .value ↔ isNumber word = true := by
  constructor
  · intro hkind
    cases htoken : wordToken word with
    | number value =>
        have hword := (wordToken_eq_iff (by simp)).1 htoken
        unfold Token.ofWord? at hword
        split at hword
        · rename_i token hsymbol
          cases hword
          unfold Token.ofSymbol? at hsymbol
          split_ifs at hsymbol <;> simp at hsymbol
        · obtain ⟨literal, hliteral, -⟩ := Option.map_eq_some_iff.1 hword
          rw [isNumber, hliteral]
          rfl
    | _ => simp [htoken, Token.kind] at hkind
  · intro hnumber
    obtain ⟨value, hword⟩ := Token.exists_number hnumber
    rw [wordToken_of_ofWord? hword]
    rfl

theorem kind_wordToken_eq_operator {word : String} {op : Operator} :
    (wordToken word).kind = .operator op ↔ word = op.symbol := by
  rw [← wordToken_eq_operator]
  cases wordToken word <;> simp [Token.kind]

theorem isOperator_wordToken {word : String} :
    (wordToken word).kind.isOperator = true ↔ word ∈ ["+", "-", "*", "/", "^"] := by
  have hsymbols : word ∈ ["+", "-", "*", "/", "^"] ↔ ∃ op : Operator, word = op.symbol := by
    constructor
    · intro hmem
      simp only [List.mem_cons, List.not_mem_nil, or_false] at hmem
      rcases hmem with rfl | rfl | rfl | rfl | rfl
      exacts [⟨.add, rfl⟩, ⟨.subtract, rfl⟩, ⟨.multiply, rfl⟩, ⟨.divide, rfl⟩, ⟨.power, rfl⟩]
    · rintro ⟨op, rfl⟩
      cases op <;> simp [Operator.symbol]
  rw [hsymbols]
  simp only [← kind_wordToken_eq_operator]
  cases (wordToken word).kind <;> simp [TokenKind.isOperator]

theorem valueCount_concat (words : List String) (word : String) :
    valueCount (words ++ [word]) =
      valueCount words + if (wordToken word).kind = .value then 1 else 0 := by
  rw [valueCount, List.countP_append, List.countP_singleton, valueCount]
  simp only [kind_wordToken_eq_value]

/-- The operators of an expression are the words among the five symbols. -/
theorem length_operatorWords (words : List String) :
    (operatorWords words).length = operationCount words := by
  induction words using List.reverseRecOn with
  | nil => rfl
  | append_singleton words word ih =>
      rw [operatorWords_concat, List.length_append, ih, operationCount, operationCount,
        List.countP_append, List.countP_singleton]
      simp only [operatorsIn, decide_eq_true_eq, ← isOperator_wordToken, List.filter_singleton]
      split <;> simp_all

theorem mem_operatorWords {words : List String} {entry : Pending} :
    entry ∈ operatorWords words ↔
      ∃ op, entry.kind = .operator op ∧ words[entry.origin]? = some op.symbol := by
  obtain ⟨kind, position⟩ := entry
  simp only [operatorWords, operatorsIn, List.mem_filter, List.mem_map, Prod.exists,
    Pending.mk.injEq, List.mem_zipIdx_iff_getElem?]
  constructor
  · rintro ⟨⟨word, index, hword, rfl, rfl⟩, hoperator⟩
    cases hkind : (wordToken word).kind with
    | operator op => exact ⟨op, rfl, kind_wordToken_eq_operator.1 hkind ▸ hword⟩
    | _ => simp [hkind, TokenKind.isOperator] at hoperator
  · rintro ⟨op, rfl, hword⟩
    exact ⟨⟨op.symbol, position, hword, kind_wordToken_eq_operator.2 rfl, rfl⟩, rfl⟩

theorem nodup_operatorWords (words : List String) : (operatorWords words).Nodup := by
  refine (List.Nodup.of_map Pending.origin ?_).sublist List.filter_sublist
  rw [List.map_map]
  have horigins : words.zipIdx.map Prod.snd = List.range words.length := by
    rw [List.zipIdx_map_snd, List.range_eq_range']
  show (words.zipIdx.map Prod.snd).Nodup
  rw [horigins]
  exact List.nodup_range

/-! ## Runs -/

theorem conserved_of_takeWords {words : List String} {m : Machine}
    (htake : Machine.start.takeWords false 0 words = .ok m) :
    m.Conserved (valueCount words) (appliedBefore words).length := by
  obtain ⟨next, hnext, -, hconserved⟩ := Machine.takeWords_induction
    (P := fun words m => m.Conserved (valueCount words) (appliedBefore words).length)
    Machine.conserved_start (fun before word m hawaits hconserved => by
      rw [valueCount_concat, appliedBefore_concat, List.length_append]
      exact (hconserved.noted before.length word).stepped before.length (wordToken word)
        hawaits.applicable) words
  rw [htake] at hnext
  exact Except.ok.inj hnext ▸ hconserved

/-- At the end every operator has been applied. -/
theorem conserved_drained {words : List String} {m : Machine}
    (htake : Machine.start.takeWords false 0 words = .ok m) :
    (m.drained words).Conserved (valueCount words) (operationCount words) := by
  have hpending := allApplicable_pendingAfter words
  have hdrained := (conserved_of_takeWords htake).stepped words.length .finish hpending
  rwa [Token.applies_finish hpending, ← List.length_append, (appliedBefore_perm words).length_eq,
    length_operatorWords] at hdrained

/-! ## The result -/

/-- Whether an evaluation has a diagnostic of a kind. -/
def Evaluation.Reports (evaluation : Evaluation) (kind : DiagnosticKind) : Prop :=
  ∃ diagnostic ∈ evaluation.diagnostics, diagnostic.kind = kind

/-- What there is to say of the operands that an evaluation has in the end, before its result is
taken, and of the result. -/
structure Accounted (values operations missing : Nat) (operands : List Float)
    (evaluation : Evaluation) : Prop where
  balance : operands.length + operations = values + missing
  emptyResult : evaluation.Reports .emptyResult ↔ values = 0 ∧ operations = 0
  zero : values = 0 ∧ operations = 0 → evaluation.value = 0
  missingOperators : evaluation.Reports .missingOperators ↔ operations + 2 ≤ values + missing
  single : ¬ (values = 0 ∧ operations = 0) → ¬ operations + 2 ≤ values + missing →
    operands = [evaluation.value]

namespace Machine

variable {values operations : Nat} {m : Machine}

theorem missing_concluded (position : Nat) (m : Machine) :
    (m.concluded position).diagnostics.countP (·.kind = .missingOperand) = m.missing := by
  unfold concluded result
  split <;> simp [missing, report]

namespace Conserved

theorem not_reported (h : Conserved values operations m) {kind : DiagnosticKind}
    (hkind : kind.isVerdict = true) : ¬ ∃ diagnostic ∈ m.diagnostics, diagnostic.kind = kind := by
  rintro ⟨diagnostic, hmem, rfl⟩
  rw [h.undecided diagnostic hmem] at hkind
  cases hkind

theorem reports_emptyResult (h : Conserved values operations m) (position : Nat) :
    (m.concluded position).Reports .emptyResult ↔ m.operands = [] := by
  have hnone := h.not_reported (show DiagnosticKind.emptyResult.isVerdict = true from rfl)
  unfold concluded result Evaluation.Reports
  split <;> simp_all [Machine.report]

theorem reports_missingOperators (h : Conserved values operations m) (position : Nat) :
    (m.concluded position).Reports .missingOperators ↔ 2 ≤ m.operands.length := by
  have hnone := h.not_reported (show DiagnosticKind.missingOperators.isVerdict = true from rfl)
  unfold concluded result Evaluation.Reports
  split <;> simp_all [Machine.report, Nat.one_le_iff_ne_zero]

/-- Taking the result says of the operands what there is to say. -/
theorem accounted (h : Conserved values operations m) (position : Nat) :
    Accounted values operations
      ((m.concluded position).diagnostics.countP (·.kind = .missingOperand)) m.operands
      (m.concluded position) where
  balance := by
    rw [missing_concluded]
    exact h.balance
  emptyResult := (h.reports_emptyResult position).trans h.empty
  zero := fun hnone => by
    simp only [concluded, result, h.empty.2 hnone]
    rfl
  missingOperators := by
    have hbalance := h.balance
    rw [h.reports_missingOperators, missing_concluded]
    omega
  single := fun hsome hfew => by
    have hbalance := h.balance
    rw [missing_concluded] at hfew
    rw [← h.empty] at hsome
    cases hoperands : m.operands with
    | nil => exact absurd hoperands hsome
    | cons value rest =>
        cases rest with
        | nil => simp only [concluded, result, hoperands]
        | cons second rest =>
            simp only [hoperands, List.length_cons] at hbalance
            omega

end Conserved

end Machine

/-- **Operands and operators are conserved.**  Every operator word is applied exactly once, at some
word or at the end: `appliedBy` is what the loop of a token applies there, and a token without a
loop applies nothing.  In the end the operands are as many as the values and the operands reported
missing without the operators, and the result is taken and reported accordingly. -/
theorem operands_conserved (words : List String) :
    ((∀ entry ∈ appliedOperators words,
        ∃ op, entry.kind = .operator op ∧ words[entry.origin]? = some op.symbol) ∧
      ∀ index op, words[index]? = some (Operator.symbol op) →
        (appliedOperators words).count ⟨.operator op, index⟩ = 1) ∧
    (∀ position ≤ words.length, ∃ token m, Incoming words position token m ∧
      m.operators = kindsOf (pendingAfter (words.take position)) ++ [.finish] ∧
      (∀ holds ∈ token.loopTest?, ∃ spared,
        m.operators = kindsOf (appliedBy words position) ++ spared ∧
        Machine.reduceWhile holds position m.operators m =
          .ok ((m.appliedAll position (kindsOf (appliedBy words position))).withOperators spared)) ∧
      (token.loopTest? = none → appliedBy words position = [])) ∧
    ∃ m last evaluation, Machine.start.takeWords false 0 words = .ok m ∧
      m.step words.length .finish = .ok last ∧ evaluateWords false words = .ok evaluation ∧
      Accounted (valueCount words) (operationCount words)
        (evaluation.diagnostics.countP (·.kind = .missingOperand)) last.operands evaluation := by
  refine ⟨⟨?_, ?_⟩, ?_, ?_⟩
  · intro entry hentry
    exact mem_operatorWords.1 ((appliedOperators_perm words).mem_iff.1 hentry)
  · intro index op hword
    rw [(appliedOperators_perm words).count_eq]
    exact List.count_eq_one_of_mem (nodup_operatorWords words)
      (mem_operatorWords.2 ⟨op, rfl, hword⟩)
  · intro position hposition
    obtain ⟨token, m, hincoming⟩ := exists_incoming words hposition
    obtain ⟨rfl, hawaits⟩ := awaits_of_incoming hincoming
    refine ⟨_, m, hincoming, hawaits.stack, fun holds hholds => ?_, fun hnone => ?_⟩
    · exact ⟨_, hawaits.stack_eq _, hawaits.reduceWhile_eq position hholds⟩
    · rw [appliedBy, Token.applies, hnone]
  · obtain ⟨m, htake, -⟩ := Machine.exists_takeWords 0 words Machine.grounded_start
    have hawaits := awaits_of_takeWords htake
    exact ⟨m, m.drained words, m.evaluation words, htake, hawaits.step_finish_eq,
      Machine.evaluateWords_eq htake hawaits, (conserved_drained htake).accounted words.length⟩

end InfixCalculator
