import InfixCalculator.Proofs.Evaluation.Conservation
import InfixCalculator.Proofs.Parentheses.Pairs
import Mathlib.Data.Set.Card

/-!
# What is reported of parentheses

Evaluation reports a closing parenthesis where it finds no open one, and an open one where the end
of a segment applies it.  Both are told from what is pending.  `reportPositions_evaluation` says
that a kind whose number of reports at a token depends on the pending kinds alone is reported that
many times at every position and nowhere else.  What is pending is in turn what matching parentheses
make of it, so that the closing parentheses reported are those without a partner, and each segment
has its free open parentheses reported where it ends.
-/

namespace InfixCalculator

/-- Where a kind is reported, in order. -/
def reportPositions (kind : DiagnosticKind) (diagnostics : List Diagnostic) : List Nat :=
  (diagnostics.filter (·.kind = kind)).map Diagnostic.position

namespace Machine

variable {position : Nat} {kind : DiagnosticKind} {m next : Machine}

/-- Where a machine has reported a kind, in order. -/
def positionsOf (kind : DiagnosticKind) (m : Machine) : List Nat :=
  reportPositions kind m.diagnostics.reverse

theorem positionsOf_of_adds (h : Adds (·.kind ≠ kind) m next) :
    next.positionsOf kind = m.positionsOf kind := by
  obtain ⟨added, hdiagnostics, hadded⟩ := h
  have hnone : added.reverse.filter (·.kind = kind) = [] := by
    refine List.filter_eq_nil_iff.2 fun diagnostic hmem => ?_
    simpa using hadded diagnostic (List.mem_reverse.1 hmem)
  rw [positionsOf, reportPositions, hdiagnostics, List.reverse_append, List.filter_append, hnone,
    List.append_nil, positionsOf, reportPositions]

theorem positionsOf_report (anomaly : Anomaly) :
    (m.report position anomaly).positionsOf anomaly.kind =
      m.positionsOf anomaly.kind ++ [position] := by
  simp [positionsOf, reportPositions, report]

/-- An open parenthesis that is applied is reported, and nothing else is reported as one. -/
theorem positionsOf_appliedAll (position : Nat) (m : Machine) {entries : List Pending}
    (hentries : AllApplicable entries) :
    (m.appliedAll position (kindsOf entries)).positionsOf .unbalancedParen =
      m.positionsOf .unbalancedParen ++ List.replicate (openersIn entries).length position := by
  induction entries generalizing m with
  | nil => simp [openersIn]
  | cons entry entries ih =>
      obtain ⟨hentry, hrest⟩ := List.forall_mem_cons.1 hentries
      obtain ⟨top, origin⟩ := entry
      rw [kindsOf_cons, appliedAll_cons, ih _ hrest]
      cases top with
      | openParen =>
          have hopeners : openersIn (⟨.openParen, origin⟩ :: entries) =
              origin :: openersIn entries := rfl
          rw [hopeners, List.length_cons, List.replicate_succ, ← List.singleton_append,
            ← List.append_assoc]
          exact congrArg (· ++ _) (positionsOf_report ⟨.unbalancedParen, "Unbalanced parentheses"⟩)
      | operator op =>
          have hsame : (m.applied position (.operator op)).positionsOf .unbalancedParen =
              m.positionsOf .unbalancedParen := by
            refine positionsOf_of_adds ((adds_operated op).mono ?_)
            rintro d ⟨-, ⟨hkind, -⟩ | hkind | hkind⟩ <;> simp [hkind]
          rw [hsame]
          rfl
      | _ => cases hentry

end Machine

/-! ## Positions of reports -/

/-- Every step reports a kind as often as a function of the token and of what is pending says. -/
def ReportsBy (kind : DiagnosticKind) (amount : Token → List Pending → Nat) : Prop :=
  ∀ position token pending (m : Machine), AllApplicable pending →
    (m.stepped position token pending).positionsOf kind =
      m.positionsOf kind ++ List.replicate (amount token pending) position

variable {kind : DiagnosticKind} {amount : Token → List Pending → Nat}

/-- What every step reports, a whole evaluation reports at every position. -/
theorem reportPositions_evaluation (hamount : ReportsBy kind amount)
    (hword : kind ≠ .malformedToken) (hverdict : kind.isVerdict = false)
    {words : List String} {evaluation : Evaluation}
    (heval : evaluateWords false words = .ok evaluation) :
    reportPositions kind evaluation.diagnostics = (List.range (words.length + 1)).flatMap
      (atPosition (fun token pending position => List.replicate (amount token pending) position)
        words) := by
  obtain ⟨m, htake, hawaits, hpositions⟩ := Machine.takeWords_induction
    (P := fun words m => m.positionsOf kind = (List.range words.length).flatMap
      (atPosition (fun token pending position => List.replicate (amount token pending) position)
        words)) rfl (fun before word m hawaits hpositions => by
      have hnoted : (m.noted before.length word).positionsOf kind = m.positionsOf kind := by
        unfold Machine.noted
        split
        · exact Machine.positionsOf_of_adds (Machine.adds_report hword.symm)
        · rfl
      rw [flatMap_atPosition_concat, ← hpositions, ← hnoted]
      exact hamount before.length (wordToken word) (pendingAfter before) _ hawaits.applicable) words
  rw [Machine.evaluateWords_eq htake hawaits] at heval
  obtain rfl := Except.ok.inj heval
  have hresult : reportPositions kind (m.evaluation words).diagnostics =
      (m.drained words).positionsOf kind := by
    refine Machine.positionsOf_of_adds (Machine.adds_result.mono ?_)
    rintro d ⟨-, hkind | hkind⟩ rfl <;> rw [hkind] at hverdict <;> cases hverdict
  rw [hresult, flatMap_atPosition_finish, ← hpositions]
  exact hamount words.length .finish (pendingAfter words) m hawaits.applicable

theorem count_flatMap_replicate (amounts : Nat → Nat) (bound position : Nat) :
    ((List.range bound).flatMap fun index => List.replicate (amounts index) index).count position =
      if position < bound then amounts position else 0 := by
  induction bound with
  | zero => rfl
  | succ bound ih =>
      rw [List.range_succ, List.flatMap_append, List.flatMap_singleton, List.count_append, ih,
        List.count_replicate]
      by_cases heq : bound = position
      · simp [heq]
      · have hiff : position < bound + 1 ↔ position < bound := by omega
        simp [heq, hiff]

/-- So it is reported at a position as often as the token asks for. -/
theorem count_reportPositions (hamount : ReportsBy kind amount) (hword : kind ≠ .malformedToken)
    (hverdict : kind.isVerdict = false) {words : List String} {evaluation : Evaluation}
    (heval : evaluateWords false words = .ok evaluation) (position : Nat) :
    (reportPositions kind evaluation.diagnostics).count position =
      if position ≤ words.length then
        amount (tokenAt words position) (pendingAfter (words.take position))
      else 0 := by
  rw [reportPositions_evaluation hamount hword hverdict heval]
  simp only [← Nat.lt_succ_iff]
  exact count_flatMap_replicate _ _ _

/-! ## Parentheses -/

/-- How often a token reports an open parenthesis. -/
def openersReported (token : Token) (pending : List Pending) : Nat :=
  (openersIn (token.applies pending)).length

/-- How often a token reports a closing parenthesis. -/
def closersReported (token : Token) (pending : List Pending) : Nat :=
  match token with
  | .closeParen => if openersIn pending = [] then 1 else 0
  | _ => 0

theorem reportsBy_openersReported : ReportsBy .unbalancedParen openersReported := by
  intro position token pending m hpending
  have happlied :=
    Machine.positionsOf_appliedAll position m (Token.allApplicable_applies token hpending)
  rw [openersReported, ← happlied]
  -- what a token asks for beside leaves these reports alone
  cases token with
  | closeParen =>
      show Machine.positionsOf _ (if _ then _ else _) = _
      split
      · exact Machine.positionsOf_of_adds (Machine.adds_report (by simp))
      · rfl
  | _ => rfl

theorem reportsBy_closersReported : ReportsBy .missingOpenParen closersReported := by
  intro position token pending m hpending
  have happlied : (m.appliedAll position (kindsOf (token.applies pending))).positionsOf
      .missingOpenParen = m.positionsOf .missingOpenParen := by
    refine Machine.positionsOf_of_adds ((Machine.adds_appliedAll
      (Token.allApplicable_applies token hpending).kinds).mono ?_)
    rintro d ⟨-, top, -, hkind⟩ hmissing
    rw [hmissing] at hkind
    cases top <;> cases hkind
  cases token with
  | closeParen =>
      show Machine.positionsOf _ (if _ then _ else _) = _
      rw [closersReported, ← happlied]
      simp only [spares_closeParen_eq_nil hpending]
      split
      · exact Machine.positionsOf_report ⟨.missingOpenParen, "Missing open parenthesis"⟩
      · exact (List.append_nil _).symm
  | _ => exact happlied.trans (List.append_nil _).symm

theorem closersReported_le (token : Token) (pending : List Pending) :
    closersReported token pending ≤ 1 := by
  unfold closersReported
  split
  · split <;> simp
  · simp

theorem closersReported_pos {token : Token} {pending : List Pending} :
    0 < closersReported token pending ↔ token = .closeParen ∧ openersIn pending = [] := by
  cases token with
  | closeParen =>
      rw [closersReported]
      split <;> simp_all
  | _ => simp [closersReported]

theorem tokenAt_eq_closeParen {words : List String} {position : Nat} :
    tokenAt words position = .closeParen ↔ words[position]? = some ")" := by
  unfold tokenAt
  cases words[position]? with
  | none => simp
  | some word => simpa using wordToken_eq_closeParen

theorem EndsSegment.le {words : List String} {position : Nat} (h : EndsSegment words position) :
    position ≤ words.length := by
  obtain rfl | ⟨word, hword, -⟩ := h
  · exact Nat.le_refl _
  · exact (List.getElem?_eq_some_iff.1 hword).1.le

/-- The end comes in where a segment ends. -/
theorem tokenAt_eq_finish {words : List String} {position : Nat} (h : position ≤ words.length) :
    tokenAt words position = .finish ↔ EndsSegment words position := by
  unfold tokenAt EndsSegment
  cases hword : words[position]? with
  | none =>
      have hlast := Nat.le_antisymm h (List.getElem?_eq_none_iff.1 hword)
      simp [hlast]
  | some word =>
      have hearlier := (List.getElem?_eq_some_iff.1 hword).1.ne
      simpa [hearlier] using wordToken_eq_finish

theorem length_openersAfter_take {words : List String} {last : Nat} (hlast : last ≤ words.length) :
    (openersAfter (words.take last)).length = {opener | IsFreeOpener words last opener}.ncard := by
  have hset : {opener | IsFreeOpener words last opener} =
      ((openersAfter (words.take last)).toFinset : Set Nat) := by
    ext opener
    simp [mem_openersAfter_take hlast]
  rw [hset, Set.ncard_coe_finset, List.toFinset_card_of_nodup (nodup_openersAfter _)]

/-- **Diagnostics of parentheses are exact.**  The closing parentheses reported are, in order, those
that match no opening one.  Where a segment ends, every open parenthesis of it that matches no
closing one is reported, and elsewhere none is. -/
theorem parentheses_reported (words : List String) :
    ∃ evaluation, evaluateWords false words = .ok evaluation ∧
      (reportPositions .missingOpenParen evaluation.diagnostics).Pairwise (· < ·) ∧
      (∀ position, position ∈ reportPositions .missingOpenParen evaluation.diagnostics ↔
        IsLoneCloser words position) ∧
      ∀ position,
        (EndsSegment words position →
          (reportPositions .unbalancedParen evaluation.diagnostics).count position =
            {opener | IsFreeOpener words position opener}.ncard) ∧
        (¬ EndsSegment words position →
          position ∉ reportPositions .unbalancedParen evaluation.diagnostics) := by
  obtain ⟨evaluation, heval⟩ := exists_evaluateWords words
  have hclosers := count_reportPositions reportsBy_closersReported (by simp) rfl heval
  have hopeners := count_reportPositions reportsBy_openersReported (by simp) rfl heval
  refine ⟨evaluation, heval, ?_, fun position => ?_,
    fun position => ⟨fun hends => ?_, fun hends => ?_⟩⟩
  · rw [reportPositions_evaluation reportsBy_closersReported (by simp) rfl heval,
      List.pairwise_flatMap]
    refine ⟨fun position _ => List.pairwise_replicate.2 (.inl (closersReported_le _ _)), ?_⟩
    refine List.pairwise_lt_range.imp fun hlt first hfirst second hsecond => ?_
    rwa [List.eq_of_mem_replicate hfirst, List.eq_of_mem_replicate hsecond]
  · rw [← List.count_pos_iff, hclosers, isLoneCloser_iff]
    split
    · rw [closersReported_pos, tokenAt_eq_closeParen]
      rfl
    · rename_i hlast
      simp [List.getElem?_eq_none (Nat.le_of_not_le hlast)]
  · rw [hopeners, if_pos hends.le, (tokenAt_eq_finish hends.le).2 hends, openersReported,
      Token.applies_finish (allApplicable_pendingAfter _)]
    exact length_openersAfter_take hends.le
  · rw [← List.count_eq_zero, hopeners]
    split
    · rename_i hposition
      rw [openersReported, openersIn_applies _ (mt (tokenAt_eq_finish hposition).1 hends)]
      rfl
    · rfl

end InfixCalculator
