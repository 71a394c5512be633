import InfixCalculator.Proofs.Grammar.Derivation
import InfixCalculator.Proofs.Text.Spelling

/-!
# Evaluation follows the grammar

The machine never builds a tree.  That it computes the value of one nevertheless is
proved by a simulation: `takeTokens_derivation` runs the tokens of a derivation on any
machine whose topmost kind is open to its level, that is, weighs less than everything
that a derivation of the level can start a reduction with.

After the run some operators may still be stacked.  So what is shown is not that the value
lies on the stack of operands, but that it gets there: the machine `Settles` to the one
with the value and the reports as soon as a loop applies the operators of the level.
Whatever follows a derivation in an expression runs such a loop, and at the position
right after it, which is why an operator is reported where its own span ends.

`evaluate_derivation` is the result for whole expressions.
-/

namespace InfixCalculator

/-! ## Levels and weights -/

namespace Level

/-- What weighs less on the stack keeps out of a derivation of the level. -/
def entryWeight : Level → Int
  | sum => 1
  | product => 3
  | power => 6
  | atom => 100

/-- The operators that a derivation of the level may leave on the stack. -/
def leaves : Level → Operator → Bool
  | sum, _ => true
  | product, .add => false
  | product, .subtract => false
  | product, _ => true
  | power, op => op = .power
  | atom, _ => false

end Level

namespace Operator

theorem leaves_level (op : Operator) : op.level.leaves op = true := by
  cases op <;> decide

theorem leaves_level_of_rightLevel (op : Operator) {other : Operator}
    (h : op.rightLevel.leaves other = true) : op.level.leaves other = true := by
  revert h
  cases op <;> cases other <;> decide

/-- An operator has all applied that its left operand leaves. -/
theorem appliesBefore_of_leaves (op : Operator) {other : Operator}
    (h : op.leftLevel.leaves other = true) :
    TokenKind.appliesBefore (.operator op) (.operator other) = true := by
  revert h
  cases op <;> cases other <;> decide

/-- An operator has nothing applied that is open to its level. -/
theorem appliesBefore_of_open (op : Operator) {top : TokenKind}
    (h : top.stackWeight < op.level.entryWeight) :
    TokenKind.appliesBefore (.operator op) top = false := by
  have hweight : op.level.entryWeight = (TokenKind.operator op).inputWeight := by
    cases op <;> rfl
  rw [hweight] at h
  simpa [TokenKind.appliesBefore] using h

theorem entryWeight_level_le (op : Operator) :
    op.level.entryWeight ≤ op.leftLevel.entryWeight := by
  cases op <;> decide

/-- An operator is open to its right operand. -/
theorem open_rightLevel (op : Operator) :
    (TokenKind.operator op).stackWeight < op.rightLevel.entryWeight := by
  cases op <;> decide

end Operator

namespace Machine

/-! ## Settling -/

/-- The machine with the value and the reports of a derivation added. -/
def settled {level : Level} (first : Nat) (d : Derivation level) (m : Machine) : Machine :=
  { m with
    operands := d.value :: m.operands
    diagnostics := (d.reports first).reverse ++ m.diagnostics }

/-- A loop that applies the operators of a level makes no difference between two machines. -/
def Settles (level : Level) (position : Nat) (pending settled : Machine) : Prop :=
  ∀ holds : TokenKind → Bool, (∀ op, level.leaves op = true → holds (.operator op) = true) →
    reduceWhile holds position pending.operators pending =
      reduceWhile holds position settled.operators settled

variable {position : Nat} {m pending : Machine}

theorem Settles.mono {level wider : Level} {settled : Machine}
    (h : Settles level position pending settled)
    (hle : ∀ op, level.leaves op = true → wider.leaves op = true) :
    Settles wider position pending settled :=
  fun holds hholds => h holds fun op hop => hholds op (hle op hop)

/-- A loop ends on a settled machine if its test fails at the top. -/
theorem Settles.reduceWhile_eq {level : Level} {settled : Machine} {top : TokenKind}
    {rest : List TokenKind} {holds : TokenKind → Bool}
    (h : Settles level position pending settled) (hstack : settled.operators = top :: rest)
    (hholds : ∀ op, level.leaves op = true → holds (.operator op) = true)
    (htop : holds top = false) :
    reduceWhile holds position pending.operators pending = .ok settled := by
  rw [h holds hholds, hstack, reduceWhile_stop rest htop, ← hstack, withOperators_self]

/-- Applying an operator to two settled operands settles it. -/
theorem applied_settled (op : Operator) (lhs : Derivation op.leftLevel)
    (rhs : Derivation op.rightLevel) (first : Nat) (operators : List TokenKind) :
    (((m.settled first lhs).withOperators operators).settled (first + lhs.words.length + 1)
        rhs).applied (first + (Derivation.binary op lhs rhs).words.length) (.operator op) =
      (m.settled first (.binary op lhs rhs)).withOperators operators := by
  simp only [applied, operated, settled, withOperators, popOperand, Derivation.value,
    Derivation.reports, Derivation.report, Derivation.words]
  cases (op.computed lhs.value rhs.value).anomaly with
  | none => simp [reportAny, push]
  | some anomaly => simp [reportAny, report, push]

/-! ## The simulation -/

/-- The tokens of a derivation settle to its value on every machine that is open to its level. -/
theorem takeTokens_derivation {level : Level} (d : Derivation level) :
    ∀ (first : Nat) (m : Machine) (top : TokenKind) (rest : List TokenKind),
      m.operators = top :: rest → top.stackWeight < level.entryWeight →
      ∃ pending, m.takeTokens first d.tokens = .ok pending ∧
        Settles level (first + d.words.length) pending (m.settled first d) := by
  induction d with
  | number numeral =>
      intro first m top rest _ _
      exact ⟨m.push numeral.value, rfl, fun _ _ => rfl⟩
  | group inner ih =>
      intro first m top rest hstack hopen
      -- The open parenthesis is open to a sum, and the closing one applies all that a sum leaves.
      obtain ⟨pending, hrun, hsettles⟩ := ih (first + 1)
        (m.withOperators (.openParen :: m.operators)) .openParen m.operators rfl (by decide)
      have hclose : pending.step (first + 1 + inner.tokens.length) .closeParen =
          .ok (m.settled first (.group inner)) := by
        rw [inner.length_tokens, step_closeParen_of_reduced (hsettles.reduceWhile_eq rfl
          (fun _ _ => by simp [isBarrier]) (by decide))]
        rfl
      refine ⟨m.settled first (.group inner), ?_, fun _ _ => rfl⟩
      rw [Derivation.tokens, List.cons_append, takeTokens_cons _ (step_openParen hstack),
        takeTokens_append _ hrun, takeTokens_cons _ hclose, takeTokens]
  | atom inner ih =>
      intro first m top rest hstack hopen
      obtain ⟨pending, hrun, hsettles⟩ := ih first m top rest hstack
        (Int.lt_trans hopen (by decide : Level.entryWeight .power < Level.entryWeight .atom))
      exact ⟨pending, hrun, hsettles.mono (by intro op; cases op <;> decide)⟩
  | power inner ih =>
      intro first m top rest hstack hopen
      obtain ⟨pending, hrun, hsettles⟩ := ih first m top rest hstack
        (Int.lt_trans hopen (by decide : Level.entryWeight .product < Level.entryWeight .power))
      exact ⟨pending, hrun, hsettles.mono (by intro op; cases op <;> decide)⟩
  | product inner ih =>
      intro first m top rest hstack hopen
      obtain ⟨pending, hrun, hsettles⟩ := ih first m top rest hstack
        (Int.lt_trans hopen (by decide : Level.entryWeight .sum < Level.entryWeight .product))
      exact ⟨pending, hrun, hsettles.mono fun _ _ => rfl⟩
  | binary op lhs rhs ihl ihr =>
      intro first m top rest hstack hopen
      -- The left operand settles when the operator comes in.
      obtain ⟨left, hleft, hsettlesl⟩ := ihl first m top rest hstack
        (Int.lt_of_lt_of_le hopen op.entryWeight_level_le)
      have hop : left.step (first + lhs.tokens.length) (.operator op) =
          .ok ((m.settled first lhs).withOperators (.operator op :: m.operators)) := by
        rw [lhs.length_tokens, step_operator_of_reduced op (hsettlesl.reduceWhile_eq hstack
          (fun _ hother => op.appliesBefore_of_leaves hother) (op.appliesBefore_of_open hopen))]
        rfl
      -- The right operand settles together with the operator.
      obtain ⟨right, hright, hsettlesr⟩ := ihr (first + lhs.words.length + 1)
        ((m.settled first lhs).withOperators (.operator op :: m.operators)) (.operator op)
        m.operators rfl op.open_rightLevel
      refine ⟨right, ?_, fun holds hholds => ?_⟩
      · rw [Derivation.tokens, takeTokens_append _ hleft, takeTokens_cons _ hop, lhs.length_tokens,
          hright]
      · have hend : first + lhs.words.length + 1 + rhs.words.length =
            first + (Derivation.binary op lhs rhs).words.length := by
          simp [Derivation.words]
          omega
        rw [hend] at hsettlesr
        rw [hsettlesr holds fun other hother => hholds other (op.leaves_level_of_rightLevel hother)]
        have hheld : holds (.operator op) = true := hholds op op.leaves_level
        calc reduceWhile holds _ (.operator op :: m.operators) _
            = reduceWhile holds _ ([.operator op] ++ m.operators) _ := rfl
          _ = reduceWhile holds _ m.operators _ :=
              reduceWhile_append _ (by simpa using ⟨hheld, rfl⟩)
          _ = _ := by
              rw [appliedAll_cons, appliedAll_nil, applied_settled, reduceWhile_withOperators]
              rfl

end Machine

/-! ## Whole expressions -/

theorem expressionWords_of_spells {words : List String} {expression : String}
    (hspells : Text.Spells (words.map String.toList) expression.toList) :
    expressionWords expression = words := by
  rw [expressionWords, Text.words_of_spells hspells, List.map_map]
  simp

theorem evaluateTokens_derivation (d : Derivation .sum) :
    evaluateTokens d.tokens = .ok ⟨d.value, d.reports 0⟩ := by
  obtain ⟨pending, hrun, hsettles⟩ := Machine.takeTokens_derivation d 0 .start .finish [] rfl
    (by decide)
  have hfinish : pending.step d.tokens.length .finish = .ok (Machine.start.settled 0 d) := by
    rw [d.length_tokens, ← Nat.zero_add d.words.length]
    exact hsettles.reduceWhile_eq rfl
      (fun _ _ => TokenKind.finish_appliesBefore rfl) (by decide)
  simp only [evaluateTokens, hrun, hfinish, bind, Except.bind]
  simp [Machine.result, Machine.settled, Machine.start, pure, Except.pure]

/-- **Evaluation follows the grammar.**  A text that spells an expression has the value of its
derivation, whether malformed words are accepted or not, and reports what its operators report, in
the order of the derivation and each at the word after its span. -/
theorem evaluate_derivation (d : Derivation .sum) {expression : String} {settings : Settings}
    (hspells : Text.Spells (d.words.map String.toList) expression.toList)
    (hlimit : ∀ limit ∈ settings.maxTokens, d.words.length ≤ limit) :
    evaluate expression settings = .ok ⟨d.value, d.reports 0⟩ ∧
      ∀ diagnostic ∈ d.reports 0,
        diagnostic.kind = .divisionByZero ∨ diagnostic.kind = .invalidPower := by
  refine ⟨?_, d.kind_of_mem_reports 0⟩
  rw [evaluate_eq_evaluateTokens
    (by rw [expressionWords_of_spells hspells]; exact d.map_ofWord?_words)
    (by rw [d.length_tokens]; exact hlimit), evaluateTokens_derivation]
  rfl

/-- The derivation of `8 / ( 3 - 3 ) - 2 * 3 - 1`. -/
def groupedQuotient : Derivation .sum :=
  .binary .subtract
    (.binary .subtract
      (.product (.binary .divide (.power (.atom (.number (.ofWord "8" (by decide)))))
        (.atom (.group (.binary .subtract
          (.product (.power (.atom (.number (.ofWord "3" (by decide))))))
          (.power (.atom (.number (.ofWord "3" (by decide))))))))))
      (.binary .multiply (.power (.atom (.number (.ofWord "2" (by decide)))))
        (.atom (.number (.ofWord "3" (by decide))))))
    (.power (.atom (.number (.ofWord "1" (by decide)))))

theorem evaluate_groupedQuotient :
    Text.Spells (groupedQuotient.words.map String.toList) "8 /\t( 3 - 3 )  - 2 * 3 - 1 ".toList ∧
      (∀ limit ∈ some 13, groupedQuotient.words.length ≤ limit) ∧
      evaluate "8 /\t( 3 - 3 )  - 2 * 3 - 1 " ⟨true, some 13⟩ =
        .ok ⟨1, [⟨.divisionByZero, "Division by zero", 7⟩]⟩ := by
  have hspells : Text.Spells (groupedQuotient.words.map String.toList)
      "8 /\t( 3 - 3 )  - 2 * 3 - 1 ".toList := Text.spells_iff.2 (by decide)
  have hlimit : ∀ limit ∈ some 13, groupedQuotient.words.length ≤ limit := by decide
  have hvalue : groupedQuotient.value = 1 := by decide +kernel
  have hreports : groupedQuotient.reports 0 = [⟨.divisionByZero, "Division by zero", 7⟩] := by
    decide +kernel
  refine ⟨hspells, hlimit, ?_⟩
  rw [← hvalue, ← hreports]
  exact (evaluate_derivation groupedQuotient hspells hlimit).1

end InfixCalculator
