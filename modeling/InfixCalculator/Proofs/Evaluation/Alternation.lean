import InfixCalculator.Proofs.Evaluation.Reports
import InfixCalculator.Proofs.Evaluation.Safety
import InfixCalculator.Proofs.Evaluation.Tokens

/-!
# Operands and operators in turn

In an expression whose operands and operators alternate no operator lacks an operand and no
operand is left over, whether or not its parentheses match.  What keeps this so is that an open
parenthesis stands where an operand may stand, and a closing one where an operator may.

`Due` says which of the two is due, and `Due.after?` follows it along tokens.  The machine
counts along: `Fed` says that its operands are as many as its stacked operators, and one more
where an operator is due.  Operators are applied only there, so that every one of them finds two
operands and leaves one (`appliedAll_fed`).  A closing parenthesis without an opening one empties
the stack of operators like the end does, and leaves a single operand.
-/

namespace InfixCalculator

/-- What is due next in an expression. -/
inductive Due where
  | operand | operator
deriving DecidableEq

namespace Due

/-- What is due after a token, if the token may stand here. -/
def next? : Due → Token → Option Due
  | operand, .number _ => some operator
  | operand, .openParen => some operand
  | operator, .operator _ => some operand
  | operator, .closeParen => some operator
  | _, _ => none

/-- What is due after some tokens, if each may stand where it does. -/
def after? (due : Due) (tokens : List Token) : Option Due :=
  tokens.foldlM next? due

/-- How many operands are in excess of the operators. -/
def surplus : Due → Nat
  | operand => 0
  | operator => 1

variable {due : Due} {tokens : List Token}

theorem after?_cons (token : Token) :
    due.after? (token :: tokens) = (due.next? token).bind (·.after? tokens) := rfl

theorem after?_append (more : List Token) :
    due.after? (tokens ++ more) = (due.after? tokens).bind (·.after? more) := by
  unfold after?
  rw [List.foldlM_append]
  rfl

theorem after?_concat (token : Token) :
    due.after? (tokens ++ [token]) = (due.after? tokens).bind (·.next? token) := by
  rw [after?_append]
  cases due.after? tokens with
  | none => rfl
  | some next => simp [after?]

end Due

/-- What an expression of operands and operators in turn may report. -/
def DiagnosticKind.inTurn : List DiagnosticKind :=
  [missingOpenParen, unbalancedParen, divisionByZero, invalidPower]

/-- How many of some kinds are operators. -/
def operatorCount (kinds : List TokenKind) : Nat :=
  kinds.countP (·.isOperator)

theorem operatorCount_append (first second : List TokenKind) :
    operatorCount (first ++ second) = operatorCount first + operatorCount second :=
  List.countP_append

theorem operatorCount_openParen (kinds : List TokenKind) :
    operatorCount (.openParen :: kinds) = operatorCount kinds :=
  List.countP_cons_of_neg (by decide)

theorem operatorCount_operator (op : Operator) (kinds : List TokenKind) :
    operatorCount (.operator op :: kinds) = operatorCount kinds + 1 :=
  List.countP_cons_of_pos rfl

namespace Machine

variable {position : Nat} {m : Machine} {due next : Due}

/-- The machine has the operands that its stacked operators and the next token ask for. -/
def Fed (due : Due) (m : Machine) : Prop :=
  ∃ above, m.operators = above ++ [.finish] ∧ (∀ kind ∈ above, kind.isApplicable = true) ∧
    m.operands.length = operatorCount above + due.surplus

theorem fed_start : Fed .operand start :=
  ⟨[], rfl, by simp, rfl⟩

/-- Kinds that are applied with an operand to spare report no missing operand. -/
theorem appliedAll_fed {kinds : List TokenKind} (spare : Nat)
    (hkinds : ∀ kind ∈ kinds, kind.isApplicable = true)
    (hlength : m.operands.length = operatorCount kinds + (spare + 1)) :
    (m.appliedAll position kinds).operands.length = spare + 1 ∧
      Adds (·.kind ∈ DiagnosticKind.inTurn) m (m.appliedAll position kinds) := by
  induction kinds generalizing m with
  | nil => exact ⟨by simpa [operatorCount] using hlength, .of_eq rfl⟩
  | cons top kinds ih =>
      obtain ⟨htop, hrest⟩ := List.forall_mem_cons.1 hkinds
      rw [appliedAll_cons]
      cases top with
      | openParen =>
          rw [operatorCount_openParen] at hlength
          obtain ⟨hlength, hadds⟩ := ih hrest (m := m.applied position .openParen) hlength
          have hreport : Adds (·.kind ∈ DiagnosticKind.inTurn) m (m.applied position .openParen) :=
            adds_report (by decide : DiagnosticKind.unbalancedParen ∈ _)
          exact ⟨hlength, hreport.trans hadds⟩
      | operator op =>
          rw [operatorCount_operator] at hlength
          have hoperated : (m.operated position op).operands.length =
              operatorCount kinds + (spare + 1) := by
            rw [length_operated]
            omega
          obtain ⟨hlength', hadds⟩ := ih hrest (m := m.applied position (.operator op)) hoperated
          refine ⟨hlength', ((adds_operated op).mono ?_).trans hadds⟩
          rintro d ⟨-, ⟨-, hshort⟩ | hkind | hkind⟩
          · omega
          · rw [hkind]
            decide
          · rw [hkind]
            decide
      | finish => cases htop
      | value => cases htop
      | closeParen => cases htop

/-! ## Steps -/

theorem Fed.number (h : Fed .operand m) (value : Float) : Fed .operator (m.push value) := by
  obtain ⟨above, hstack, habove, hlength⟩ := h
  exact ⟨above, hstack, habove, congrArg (· + 1) hlength⟩

theorem Fed.openParen (h : Fed .operand m) (position : Nat) :
    ∃ m', m.step position .openParen = .ok m' ∧ Fed .operand m' ∧
      Adds (·.kind ∈ DiagnosticKind.inTurn) m m' := by
  obtain ⟨above, hstack, habove, hlength⟩ := h
  obtain ⟨top, rest, hcons⟩ := Grounded.exists_top ⟨above, hstack, habove⟩
  refine ⟨_, step_openParen hcons, ⟨.openParen :: above, by simp [hstack], ?_, ?_⟩, .of_eq rfl⟩
  · exact List.forall_mem_cons.2 ⟨rfl, habove⟩
  · rw [operatorCount_openParen]
    exact hlength

/-- An operator has some applied that came before it, which leave their values in their places. -/
theorem Fed.operator (h : Fed .operator m) (position : Nat) (op : Operator) :
    ∃ m', m.step position (.operator op) = .ok m' ∧ Fed .operand m' ∧
      Adds (·.kind ∈ DiagnosticKind.inTurn) m m' := by
  obtain ⟨above, hstack, habove, hlength⟩ := h
  have hstep : m.step position (.operator op) = _ := step_operator_takeWhile op hstack habove
    (TokenKind.operator_appliesBefore_finish op)
  have hsplit := List.takeWhile_append_dropWhile
    (p := TokenKind.appliesBefore (.operator op)) (l := above)
  generalize above.takeWhile (TokenKind.appliesBefore (.operator op)) = part at hstep hsplit
  generalize above.dropWhile (TokenKind.appliesBefore (.operator op)) = rest at hstep hsplit
  subst hsplit
  obtain ⟨hpart, hrest⟩ := List.forall_mem_append.1 habove
  rw [operatorCount_append, Nat.add_assoc] at hlength
  obtain ⟨hlength, hadds⟩ := appliedAll_fed (operatorCount rest) hpart hlength
  refine ⟨_, hstep, ⟨.operator op :: rest, rfl, List.forall_mem_cons.2 ⟨rfl, hrest⟩, ?_⟩,
    hadds.trans (.of_eq rfl)⟩
  rw [operatorCount_operator]
  exact hlength

theorem Fed.closeParen (h : Fed .operator m) (position : Nat) :
    ∃ m', m.step position .closeParen = .ok m' ∧ Fed .operator m' ∧
      Adds (·.kind ∈ DiagnosticKind.inTurn) m m' := by
  obtain ⟨above, hstack, habove, hlength⟩ := h
  rcases operators_or_openParen habove with hall | ⟨inner, outer, rfl, hinner⟩
  · -- all operators are applied, so that one operand is left
    obtain ⟨hlength, hadds⟩ := appliedAll_fed 0 habove hlength
    have hreport : Adds (·.kind ∈ DiagnosticKind.inTurn) (m.appliedAll position above)
        ((m.appliedAll position above).report position
          ⟨.missingOpenParen, "Missing open parenthesis"⟩) :=
      adds_report (by decide : DiagnosticKind.missingOpenParen ∈ _)
    exact ⟨_, step_loneCloser hstack hall, ⟨[], rfl, by simp, hlength⟩,
      (hadds.trans hreport).trans (.of_eq rfl)⟩
  · obtain ⟨happlicable, hrest⟩ := List.forall_mem_append.1 habove
    rw [operatorCount_append, operatorCount_openParen, Nat.add_assoc] at hlength
    obtain ⟨hlength, hadds⟩ := appliedAll_fed (operatorCount outer) happlicable hlength
    have hopen : m.operators = inner ++ .openParen :: (outer ++ [.finish]) := by
      rw [hstack]
      simp
    exact ⟨_, step_closeParen hopen hinner, ⟨outer, rfl, (List.forall_mem_cons.1 hrest).2, hlength⟩,
      hadds.trans (.of_eq rfl)⟩

/-- A token that may stand where it does keeps the machine fed. -/
theorem Fed.step (h : Fed due m) {token : Token} (hnext : due.next? token = some next)
    (position : Nat) :
    ∃ m', m.step position token = .ok m' ∧ Fed next m' ∧
      Adds (·.kind ∈ DiagnosticKind.inTurn) m m' := by
  cases due with
  | operand =>
      cases token with
      | number value =>
          cases hnext
          exact ⟨_, rfl, h.number value, .of_eq rfl⟩
      | openParen =>
          cases hnext
          exact h.openParen position
      | finish => cases hnext
      | closeParen => cases hnext
      | operator op => cases hnext
  | operator =>
      cases token with
      | operator op =>
          cases hnext
          exact h.operator position op
      | closeParen =>
          cases hnext
          exact h.closeParen position
      | finish => cases hnext
      | number value => cases hnext
      | openParen => cases hnext

theorem Fed.takeTokens {tokens : List Token} (h : Fed due m)
    (hafter : due.after? tokens = some next) (position : Nat) :
    ∃ m', m.takeTokens position tokens = .ok m' ∧ Fed next m' ∧
      Adds (·.kind ∈ DiagnosticKind.inTurn) m m' := by
  induction tokens generalizing m due position with
  | nil =>
      obtain rfl := Option.some.inj hafter
      exact ⟨m, rfl, h, .of_eq rfl⟩
  | cons token tokens ih =>
      rw [Due.after?_cons] at hafter
      obtain ⟨middle, hnext, hrest⟩ := Option.bind_eq_some_iff.1 hafter
      obtain ⟨m₁, hstep, hfed, hadds⟩ := h.step hnext position
      obtain ⟨m₂, htake, hfed', hadds'⟩ := ih hfed hrest (position + 1)
      exact ⟨m₂, by rw [takeTokens_cons tokens hstep, htake], hfed', hadds.trans hadds'⟩

/-- The end finds a single operand. -/
theorem Fed.finish (h : Fed .operator m) (position : Nat) :
    ∃ last value, m.step position .finish = .ok last ∧ last.operands = [value] ∧
      Adds (·.kind ∈ DiagnosticKind.inTurn) m last := by
  obtain ⟨above, hstack, habove, hlength⟩ := h
  obtain ⟨hlength, hadds⟩ := appliedAll_fed 0 habove hlength
  obtain ⟨value, hvalue⟩ := List.length_eq_one_iff.1 hlength
  exact ⟨_, value, step_finish hstack habove, hvalue, hadds.trans (.of_eq rfl)⟩

end Machine

/-- Operands and operators in turn, the last of them an operand, have a value and report nothing but
unmatched parentheses and undefined operations. -/
theorem exists_evaluateTokens {tokens : List Token}
    (h : Due.operand.after? tokens = some .operator) :
    ∃ evaluation, evaluateTokens tokens = .ok evaluation ∧
      ∀ diagnostic ∈ evaluation.diagnostics, diagnostic.kind ∈ DiagnosticKind.inTurn := by
  obtain ⟨m, htake, hfed, hadds⟩ := Machine.fed_start.takeTokens h 0
  obtain ⟨last, value, hstep, hoperands, hadds'⟩ := hfed.finish tokens.length
  refine ⟨⟨value, last.diagnostics.reverse⟩, ?_, ?_⟩
  · simp only [evaluateTokens, htake, hstep, bind, Except.bind, Machine.result, hoperands]
    rfl
  · intro diagnostic hmem
    exact (hadds.trans hadds').of_start diagnostic (List.mem_reverse.1 hmem)

end InfixCalculator
