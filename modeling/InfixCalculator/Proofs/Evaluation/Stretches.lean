import InfixCalculator.Proofs.Evaluation.Pending
import Mathlib.Data.List.Chain

/-!
# The shape of the stack of operators

Barriers cut the stack of operators into stretches: the mark at its bottom, and the open
parentheses.  From the bottom up a stretch holds at most one of `+` and `-`, then at most one of
`*` and `/`, then any number of `^`, so that the weights in it never decrease and only `^` is
ever repeated.  This is the type `Stretch`.

All that keeps the stack in this shape is that an operator is stacked only on what it does not
apply, `Layered`.  A closing parenthesis and the end uncover what was stacked before
(`layered_restack`).  `exists_stretches` reads the stretches off such a stack, bottom first: an
operator may stand under a stretch if the lowest operator of it does not apply it
(`Stretch.exists_cons`).
-/

namespace InfixCalculator

/-! ## Stretches -/

/-- The operators between two barriers. -/
structure Stretch where
  sum : Option Operator
  product : Option Operator
  powers : Nat
  isSum : ∀ op ∈ sum, op = .add ∨ op = .subtract
  isProduct : ∀ op ∈ product, op = .multiply ∨ op = .divide

namespace Stretch

/-- The kinds of a stretch, from the bottom up. -/
def kinds (stretch : Stretch) : List TokenKind :=
  (stretch.sum.toList ++ stretch.product.toList).map .operator ++
    List.replicate stretch.powers (.operator .power)

/-- A stretch without an operator. -/
def empty : Stretch where
  sum := none
  product := none
  powers := 0
  isSum := by simp
  isProduct := by simp

theorem weight_of_mem_sum (stretch : Stretch) {op : Operator} (h : op ∈ stretch.sum.toList) :
    (TokenKind.operator op).stackWeight = 2 := by
  rcases stretch.isSum op (Option.mem_toList.1 h) with rfl | rfl <;> rfl

theorem weight_of_mem_product (stretch : Stretch) {op : Operator}
    (h : op ∈ stretch.product.toList) : (TokenKind.operator op).stackWeight = 4 := by
  rcases stretch.isProduct op (Option.mem_toList.1 h) with rfl | rfl <;> rfl

/-- From the bottom up the weights in a stretch do not decrease. -/
theorem pairwise_weight (stretch : Stretch) :
    stretch.kinds.Pairwise fun lower upper => lower.stackWeight ≤ upper.stackWeight := by
  have hone : ∀ op? : Option Operator, op?.toList.Pairwise fun lower upper =>
      (TokenKind.operator lower).stackWeight ≤ (TokenKind.operator upper).stackWeight := by
    intro op?
    cases op? <;> simp
  rw [kinds, List.pairwise_append, List.pairwise_map, List.pairwise_append]
  refine ⟨⟨hone _, hone _, ?_⟩, List.pairwise_replicate.2 (.inr (Int.le_refl _)), ?_⟩
  · intro lower hlower upper hupper
    rw [stretch.weight_of_mem_sum hlower, stretch.weight_of_mem_product hupper]
    decide
  · intro lower hlower upper hupper
    obtain ⟨op, hop, rfl⟩ := List.mem_map.1 hlower
    rw [List.eq_of_mem_replicate hupper]
    rcases List.mem_append.1 hop with hsum | hproduct
    · rw [stretch.weight_of_mem_sum hsum]
      decide
    · rw [stretch.weight_of_mem_product hproduct]
      decide

/-- Only `^` is repeated in a stretch. -/
theorem eq_power_of_count (stretch : Stretch) {kind : TokenKind}
    (h : 2 ≤ stretch.kinds.count kind) : kind = .operator .power := by
  by_contra hne
  have hone : ∀ op? : Option Operator, (op?.toList.map TokenKind.operator).count kind ≤ 1 := by
    intro op?
    refine List.count_le_length.trans ?_
    cases op? <;> simp
  -- a sum and a product are never of one kind
  have hdisjoint : kind ∈ stretch.sum.toList.map TokenKind.operator →
      kind ∉ stretch.product.toList.map TokenKind.operator := by
    intro hsum hproduct
    obtain ⟨op, hop, rfl⟩ := List.mem_map.1 hsum
    obtain ⟨other, hother, heq⟩ := List.mem_map.1 hproduct
    have hweight := stretch.weight_of_mem_product hother
    rw [heq, stretch.weight_of_mem_sum hop] at hweight
    exact absurd hweight (by decide)
  rw [kinds, List.map_append, List.count_append, List.count_append,
    List.count_eq_zero.2 fun hmem => hne (List.eq_of_mem_replicate hmem)] at h
  by_cases hsum : kind ∈ stretch.sum.toList.map TokenKind.operator
  · have := hone stretch.sum
    rw [List.count_eq_zero.2 (hdisjoint hsum)] at h
    omega
  · have := hone stretch.product
    rw [List.count_eq_zero.2 hsum] at h
    omega

/-- An operator may stand under a stretch whose lowest operator does not apply it. -/
theorem exists_cons (stretch : Stretch) (op : Operator)
    (h : ∀ lowest ∈ stretch.kinds.head?, lowest.appliesBefore (.operator op) = false) :
    ∃ longer : Stretch, longer.kinds = .operator op :: stretch.kinds := by
  obtain ⟨sum, product, powers, hsum, hproduct⟩ := stretch
  cases sum with
  | some other =>
      have hlowest := h (.operator other) rfl
      rcases hsum other rfl with rfl | rfl <;> cases op <;> cases hlowest
  | none =>
      cases product with
      | some other =>
          have hlowest := h (.operator other) rfl
          have hop : op = .add ∨ op = .subtract := by
            cases op with
            | add => exact .inl rfl
            | subtract => exact .inr rfl
            | _ => rcases hproduct other rfl with rfl | rfl <;> cases hlowest
          exact ⟨⟨some op, some other, powers, by simpa using hop, hproduct⟩, rfl⟩
      | none =>
          cases op with
          | power => exact ⟨⟨none, none, powers + 1, hsum, hproduct⟩, rfl⟩
          | multiply => exact ⟨⟨none, some .multiply, powers, hsum, by simp⟩, rfl⟩
          | divide => exact ⟨⟨none, some .divide, powers, hsum, by simp⟩, rfl⟩
          | add => exact ⟨⟨some .add, none, powers, by simp, hproduct⟩, rfl⟩
          | subtract => exact ⟨⟨some .subtract, none, powers, by simp, hproduct⟩, rfl⟩

/-- Stretches with an open parenthesis between any two, from the bottom up. -/
def joined (stretches : List Stretch) : List TokenKind :=
  [TokenKind.openParen].intercalate (stretches.map kinds)

theorem joined_singleton (stretch : Stretch) : joined [stretch] = stretch.kinds := by
  simp [joined]

theorem joined_cons_cons (first second : Stretch) (rest : List Stretch) :
    joined (first :: second :: rest) = first.kinds ++ .openParen :: joined (second :: rest) := by
  simp [joined, List.intercalate]

/-- What stands at the bottom of the first stretch stands at the bottom of all. -/
theorem exists_joined_eq (rest : List Stretch) :
    ∃ above, ∀ other : Stretch, joined (other :: rest) = other.kinds ++ above := by
  cases rest with
  | nil => exact ⟨[], fun other => by rw [joined_singleton, List.append_nil]⟩
  | cons second rest => exact ⟨_, fun other => joined_cons_cons other second rest⟩

end Stretch

/-! ## What an operator is stacked on -/

/-- Nothing on a stack applies what it was stacked on. -/
def Layered (operators : List TokenKind) : Prop :=
  operators.IsChain fun upper lower => upper.appliesBefore lower = false

theorem layered_spares (token : Token) {pending : List Pending} (h : Layered (kindsOf pending)) :
    Layered (kindsOf (token.spares pending)) := by
  rw [← Token.applies_append_spares token pending, kindsOf_append] at h
  exact h.right_of_append

/-- An operator is stacked on what it does not apply. -/
theorem layered_operator {pending : List Pending} (op : Operator) (h : Layered (kindsOf pending)) :
    Layered (.operator op :: kindsOf ((Token.operator op).spares pending)) := by
  refine List.isChain_cons.2 ⟨?_, layered_spares (.operator op) h⟩
  intro lower hlower
  cases hspares : (Token.operator op).spares pending with
  | nil => simp [hspares] at hlower
  | cons entry rest =>
      rw [hspares, kindsOf_cons, List.head?_cons, Option.mem_some_iff] at hlower
      exact hlower ▸ Token.fails_of_spares rfl hspares

theorem layered_restack (position : Nat) (token : Token) {pending : List Pending}
    (h : Layered (kindsOf pending)) : Layered (kindsOf (token.restack position pending)) := by
  cases token with
  | finish => exact layered_spares .finish h
  | number value => exact h
  | openParen =>
      refine List.isChain_cons.2 ⟨fun lower _ => TokenKind.openParen_appliesBefore lower, ?_⟩
      exact layered_spares .openParen h
  | closeParen =>
      have hspares := layered_spares .closeParen h
      cases hcases : Token.closeParen.spares pending with
      | nil =>
          rw [Token.restack, hcases]
          exact .nil
      | cons entry rest =>
          rw [hcases] at hspares
          rw [Token.restack, hcases]
          exact hspares.tail
  | operator op => exact layered_operator op h

theorem layered_pendingAfter (words : List String) : Layered (kindsOf (pendingAfter words)) := by
  induction words using List.reverseRecOn with
  | nil => exact .nil
  | append_singleton words word ih =>
      rw [pendingAfter_concat]
      exact layered_restack words.length (wordToken word) ih

/-! ## The stretches of a stack -/

/-- A layered stack, read from the bottom up, consists of stretches. -/
theorem exists_stretches {kinds : List TokenKind}
    (happlicable : ∀ kind ∈ kinds, kind.isApplicable = true)
    (hlayered : kinds.IsChain fun lower upper => upper.appliesBefore lower = false) :
    ∃ first rest, kinds = Stretch.joined (first :: rest) := by
  induction kinds with
  | nil => exact ⟨.empty, [], rfl⟩
  | cons lowest kinds ih =>
      obtain ⟨hlowest, hkinds⟩ := List.forall_mem_cons.1 happlicable
      obtain ⟨hnext, hchain⟩ := List.isChain_cons.1 hlayered
      obtain ⟨first, rest, rfl⟩ := ih hkinds hchain
      cases lowest with
      | openParen =>
          exact ⟨.empty, first :: rest, (Stretch.joined_cons_cons .empty first rest).symm⟩
      | operator op =>
          obtain ⟨above, habove⟩ := Stretch.exists_joined_eq rest
          obtain ⟨longer, hlonger⟩ := first.exists_cons op fun kind hkind => by
            refine hnext kind ?_
            rw [habove first]
            cases hfirst : first.kinds with
            | nil => simp [hfirst] at hkind
            | cons head tail => simpa [hfirst] using hkind
          exact ⟨longer, rest, by rw [habove longer, habove first, hlonger, List.cons_append]⟩
      | finish => simp [TokenKind.isApplicable] at hlowest
      | value => simp [TokenKind.isApplicable] at hlowest
      | closeParen => simp [TokenKind.isApplicable] at hlowest

/-- **The stack of operators after any words**, wherever an expression goes on from there.  From the
bottom up it is the mark and then stretches with open parentheses between them; a malformed word
leaves nothing but the mark.  The weights in a stretch do not decrease, and only `^` is repeated in
it. -/
theorem operators_stretches (before after : List String) :
    ∃ m first rest, Machine.start.takeWords false 0 before = .ok m ∧
      Machine.start.takeWords false 0 (before ++ after) =
        m.takeWords false before.length after ∧
      m.operators.reverse = .finish :: Stretch.joined (first :: rest) ∧
      (∀ stretch ∈ first :: rest,
        (stretch.kinds.Pairwise fun lower upper => lower.stackWeight ≤ upper.stackWeight) ∧
          ∀ kind, 2 ≤ stretch.kinds.count kind → kind = .operator .power) ∧
      ∀ word ∈ before.getLast?, isMalformed word = true → m.operators = [.finish] := by
  obtain ⟨m, htake, hawaits, -⟩ :=
    Machine.takeWords_induction (P := fun _ _ => True) trivial (fun _ _ _ _ _ => trivial) before
  have happlicable : ∀ kind ∈ (kindsOf (pendingAfter before)).reverse, kind.isApplicable = true :=
    fun kind hkind => hawaits.applicable.kinds kind (List.mem_reverse.1 hkind)
  obtain ⟨first, rest, hjoined⟩ := exists_stretches happlicable
    (List.isChain_reverse.2 (layered_pendingAfter before))
  refine ⟨m, first, rest, htake, ?_, ?_, ?_, ?_⟩
  · rw [Machine.takeWords_append after htake, Nat.zero_add]
  · rw [hawaits.stack, List.reverse_append, hjoined]
    rfl
  · exact fun stretch _ => ⟨stretch.pairwise_weight, fun _ => stretch.eq_power_of_count⟩
  · intro word hword hmalformed
    obtain ⟨earlier, rfl⟩ := List.getLast?_eq_some_iff.1 hword
    have hpending : pendingAfter (earlier ++ [word]) = [] := by
      rw [pendingAfter_concat, wordToken_eq_finish.2 hmalformed]
      exact Token.spares_finish (allApplicable_pendingAfter earlier)
    rw [hawaits.stack, hpending]
    rfl

end InfixCalculator
