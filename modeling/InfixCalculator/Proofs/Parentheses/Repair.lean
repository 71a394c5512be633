import InfixCalculator.Proofs.Evaluation.Safety
import InfixCalculator.Proofs.Parentheses.Matching

/-!
# Recovery is repair

An expression with malformed words and unmatched parentheses has the value of its
repaired form, and the same anomalies but for those that the repair removes:
`evaluateWords_repair`.

Two machines are compared, one that takes in the words as they are and one that takes in
the repaired words.  They are `Alike` if they have the same operands and reported the
same, up to positions and to what the repair removes.  Within a segment their stacks
differ in one place only, `Mended`: where the first machine has its mark, the second has
an open parenthesis for every lone closing one still to come, and one more.  An operator
stops at either.  A lone closing parenthesis applies the same operators on both machines,
is reported by the first and takes one of the open parentheses away from the second.

At the end of a segment the first machine applies all that is left, the open parentheses
among it; the second does the same in pieces, one for each closing parenthesis that the
repair added (`exists_closed`).
-/

namespace InfixCalculator

/-- The kinds of anomalies that a repair removes. -/
def DiagnosticKind.isRepaired : DiagnosticKind → Bool
  | malformedToken => true
  | missingOpenParen => true
  | unbalancedParen => true
  | _ => false

/-- A diagnostic without its position. -/
def Diagnostic.anomaly (diagnostic : Diagnostic) : Anomaly :=
  ⟨diagnostic.kind, diagnostic.message⟩

/-- The anomalies that no repair removes. -/
def lastingAnomalies (diagnostics : List Diagnostic) : List Anomaly :=
  (diagnostics.filter (!·.kind.isRepaired)).map Diagnostic.anomaly

namespace Machine

variable {position place : Nat} {m n : Machine}

/-! ## Machines that are alike -/

/-- The second machine has the operands of the first and reported its lasting anomalies. -/
structure Alike (m n : Machine) : Prop where
  operands : n.operands = m.operands
  diagnostics : n.diagnostics.map Diagnostic.anomaly = lastingAnomalies m.diagnostics

theorem Alike.withOperators (h : Alike m n) (first second : List TokenKind) :
    Alike (m.withOperators first) (n.withOperators second) :=
  ⟨h.operands, h.diagnostics⟩

theorem Alike.push (h : Alike m n) (value : Float) : Alike (m.push value) (n.push value) :=
  ⟨congrArg (value :: ·) h.operands, h.diagnostics⟩

theorem Alike.report (h : Alike m n) {anomaly : Anomaly}
    (hlasting : anomaly.kind.isRepaired = false) :
    Alike (m.report position anomaly) (n.report place anomaly) := by
  refine ⟨h.operands, ?_⟩
  have hdiagnostics := h.diagnostics
  simp only [lastingAnomalies] at hdiagnostics
  simp [Machine.report, lastingAnomalies, hlasting, hdiagnostics, Diagnostic.anomaly]

theorem Alike.report_repaired (h : Alike m n) {anomaly : Anomaly}
    (hrepaired : anomaly.kind.isRepaired = true) : Alike (m.report position anomaly) n := by
  refine ⟨h.operands, ?_⟩
  rw [h.diagnostics]
  simp [Machine.report, lastingAnomalies, hrepaired]

theorem Alike.popOperand (h : Alike m n) (position place : Nat) :
    (n.popOperand place).1 = (m.popOperand position).1 ∧
      Alike (m.popOperand position).2 (n.popOperand place).2 := by
  have hoperands := h.operands
  unfold Machine.popOperand
  cases hm : m.operands with
  | nil =>
      rw [hm] at hoperands
      rw [hoperands]
      exact ⟨rfl, h.report rfl⟩
  | cons value rest =>
      rw [hm] at hoperands
      rw [hoperands]
      exact ⟨rfl, rfl, h.diagnostics⟩

theorem Alike.operated (h : Alike m n) (op : Operator) :
    Alike (m.operated position op) (n.operated place op) := by
  obtain ⟨hrhs, hafterRhs⟩ := h.popOperand position place
  obtain ⟨hlhs, hafterLhs⟩ := hafterRhs.popOperand position place
  simp only [Machine.operated, hrhs, hlhs]
  refine Alike.push ?_ _
  cases hanomaly : (op.computed _ _).anomaly with
  | none => exact hafterLhs
  | some anomaly =>
      refine hafterLhs.report ?_
      rcases Operator.kind_of_computed hanomaly with hkind | hkind <;> rw [hkind] <;> rfl

theorem Alike.appliedAll {kinds : List TokenKind} (h : Alike m n)
    (hkinds : ∀ kind ∈ kinds, kind.isOperator = true) :
    Alike (m.appliedAll position kinds) (n.appliedAll place kinds) := by
  induction kinds generalizing m n with
  | nil => exact h
  | cons top kinds ih =>
      obtain ⟨htop, hrest⟩ := List.forall_mem_cons.1 hkinds
      cases top with
      | operator op => exact ih (h.operated op) hrest
      | _ => simp [TokenKind.isOperator] at htop

/-- The results of machines that are alike are so, too. -/
theorem Alike.result (h : Alike m n) (position place : Nat) :
    (n.result place).1 = (m.result position).1 ∧
      Alike (m.result position).2 (n.result place).2 := by
  have hoperands := h.operands
  unfold Machine.result
  match hm : m.operands with
  | [] =>
      rw [hm] at hoperands
      rw [hoperands]
      exact ⟨rfl, h.report rfl⟩
  | [value] =>
      rw [hm] at hoperands
      rw [hoperands]
      exact ⟨rfl, rfl, h.diagnostics⟩
  | value :: other :: rest =>
      rw [hm] at hoperands
      rw [hoperands]
      have hrest : Alike { m with operands := other :: rest }
        { n with operands := other :: rest } := ⟨rfl, h.diagnostics⟩
      exact ⟨rfl, hrest.report rfl⟩

/-! ## Within a segment -/

/-- How many open parentheses are on a stack. -/
def openCount (operators : List TokenKind) : Nat :=
  operators.count .openParen

theorem openCount_eq_zero {kinds : List TokenKind}
    (hkinds : ∀ kind ∈ kinds, kind.isOperator = true) : openCount kinds = 0 := by
  refine List.count_eq_zero.2 fun hmem => ?_
  have hoperator := hkinds _ hmem
  simp [TokenKind.isOperator] at hoperator

theorem openCount_append (first second : List TokenKind) :
    openCount (first ++ second) = openCount first + openCount second :=
  List.count_append ..

/-- What a kind weighs less than is an operator or an open parenthesis; an operator applies
operators only. -/
theorem isOperator_of_mem_takeWhile {above : List TokenKind} (op : Operator)
    (habove : ∀ kind ∈ above, kind.isApplicable = true) :
    ∀ kind ∈ above.takeWhile (TokenKind.appliesBefore (.operator op)),
      kind.isOperator = true := by
  intro kind hkind
  have happlicable := habove kind ((List.takeWhile_prefix _).subset hkind)
  have happlies := List.mem_takeWhile_imp hkind
  cases kind with
  | operator other => rfl
  | openParen => rw [TokenKind.operator_appliesBefore_openParen] at happlies; cases happlies
  | _ => simp [TokenKind.isApplicable] at happlicable

/-- Within a segment with some lone closing parentheses still to come, the machines have the same
kinds above the mark of the first and above the added parentheses of the second. -/
structure Mended (lone : Nat) (above : List TokenKind) (m n : Machine) : Prop where
  applicable : ∀ kind ∈ above, kind.isApplicable = true
  stack : m.operators = above ++ [.finish]
  mendedStack : n.operators = above ++ (List.replicate (lone + 1) .openParen ++ [.finish])
  alike : Alike m n

variable {lone : Nat} {above : List TokenKind}

theorem Mended.number (h : Mended lone above m n) (value : Float) :
    Mended lone above (m.push value) (n.push value) :=
  ⟨h.applicable, h.stack, h.mendedStack, h.alike.push value⟩

theorem Mended.openParen (h : Mended lone above m n) (position place : Nat) :
    ∃ m' n', m.step position .openParen = .ok m' ∧ n.step place .openParen = .ok n' ∧
      Mended lone (.openParen :: above) m' n' := by
  obtain ⟨top, rest, hm⟩ : ∃ top rest, m.operators = top :: rest := by
    rw [h.stack]
    cases above <;> simp
  obtain ⟨top', rest', hn⟩ : ∃ top rest, n.operators = top :: rest := by
    rw [h.mendedStack]
    cases above <;> simp [List.replicate_succ]
  refine ⟨_, _, step_openParen hm, step_openParen hn, ?_, ?_, ?_, h.alike.withOperators _ _⟩
  · exact List.forall_mem_cons.2 ⟨rfl, h.applicable⟩
  · simp [h.stack]
  · simp [h.mendedStack]

theorem Mended.operator (h : Mended lone above m n) (position place : Nat) (op : Operator) :
    ∃ above' m' n', m.step position (.operator op) = .ok m' ∧
      n.step place (.operator op) = .ok n' ∧ Mended lone above' m' n' ∧
      openCount above' = openCount above := by
  have hoperators := isOperator_of_mem_takeWhile op h.applicable
  have hsplit := List.takeWhile_append_dropWhile
    (p := TokenKind.appliesBefore (.operator op)) (l := above)
  have hn : n.operators = above ++
      .openParen :: (List.replicate lone .openParen ++ [.finish]) := h.mendedStack
  refine ⟨.operator op :: above.dropWhile (TokenKind.appliesBefore (.operator op)), _, _,
    step_operator_takeWhile op h.stack h.applicable (TokenKind.operator_appliesBefore_finish op),
    step_operator_takeWhile op hn h.applicable (TokenKind.operator_appliesBefore_openParen op),
    ⟨?_, rfl, rfl, (h.alike.appliedAll hoperators).withOperators _ _⟩, ?_⟩
  · refine List.forall_mem_cons.2 ⟨rfl, fun kind hkind => ?_⟩
    exact h.applicable kind ((List.dropWhile_suffix _).subset hkind)
  · calc openCount (.operator op :: above.dropWhile (TokenKind.appliesBefore (.operator op)))
        = openCount (above.dropWhile (TokenKind.appliesBefore (.operator op))) :=
          List.count_cons_of_ne (by simp)
      _ = openCount (above.takeWhile (TokenKind.appliesBefore (.operator op)) ++
            above.dropWhile (TokenKind.appliesBefore (.operator op))) := by
          rw [openCount_append, openCount_eq_zero hoperators, Nat.zero_add]
      _ = openCount above := by rw [hsplit]

/-- A closing parenthesis that has an opening one matches it on both machines. -/
theorem Mended.closeParen {inner outer : List TokenKind}
    (h : Mended lone (inner ++ .openParen :: outer) m n) (position place : Nat)
    (hinner : ∀ kind ∈ inner, kind.isOperator = true) :
    ∃ m' n', m.step position .closeParen = .ok m' ∧ n.step place .closeParen = .ok n' ∧
      Mended lone outer m' n' := by
  have hm : m.operators = inner ++ .openParen :: (outer ++ [.finish]) := by
    rw [h.stack]
    simp
  have hn : n.operators = inner ++ .openParen ::
      (outer ++ (List.replicate (lone + 1) .openParen ++ [.finish])) := by
    rw [h.mendedStack]
    simp
  refine ⟨_, _, step_closeParen hm hinner, step_closeParen hn hinner, ?_, rfl, rfl,
    (h.alike.appliedAll hinner).withOperators _ _⟩
  exact fun kind hkind => h.applicable kind (by simp [hkind])

/-- A lone closing parenthesis takes one of the added ones away. -/
theorem Mended.loneCloser (h : Mended (lone + 1) above m n) (position place : Nat)
    (habove : ∀ kind ∈ above, kind.isOperator = true) :
    ∃ m' n', m.step position .closeParen = .ok m' ∧ n.step place .closeParen = .ok n' ∧
      Mended lone [] m' n' := by
  have hn : n.operators = above ++
      .openParen :: (List.replicate (lone + 1) .openParen ++ [.finish]) := h.mendedStack
  refine ⟨_, _, step_loneCloser h.stack habove, step_closeParen hn habove, by simp, rfl, rfl, ?_⟩
  exact ((h.alike.appliedAll habove).report_repaired rfl).withOperators _ _

/-- A word of a segment is taken in by both machines, and one lone closing parenthesis less is to
come if it is one. -/
theorem Mended.takeWord {word : String} {rest : List String} (hword : isMalformed word = false)
    (h : Mended (loneClosers (openCount above) (word :: rest)) above m n) :
    ∃ above' m' n', m.takeWord false position word = .ok m' ∧
      n.takeWord false place word = .ok n' ∧
      Mended (loneClosers (openCount above') rest) above' m' n' ∧
      loneOpeners (openCount above) (word :: rest) = loneOpeners (openCount above') rest := by
  obtain ⟨token, htoken⟩ := exists_token hword
  rw [takeWord_eq_step false htoken, takeWord_eq_step false htoken]
  have hopen : token ≠ .openParen → word ≠ "(" := by
    rintro hne rfl
    exact hne (Option.some.inj (htoken.symm.trans Token.ofWord?_openParen))
  have hclose : token ≠ .closeParen → word ≠ ")" := by
    rintro hne rfl
    exact hne (Option.some.inj (htoken.symm.trans Token.ofWord?_closeParen))
  cases token with
  | finish => exact absurd htoken (Token.ofWord?_ne_finish word)
  | number value =>
      have hopen := hopen (by simp)
      have hclose := hclose (by simp)
      rw [loneClosers_other _ rest hopen hclose] at h
      exact ⟨above, _, _, rfl, rfl, h.number value, loneOpeners_other _ rest hopen hclose⟩
  | openParen =>
      obtain rfl := Token.ofWord?_eq_openParen htoken
      obtain ⟨m', n', hm, hn, hmended⟩ := h.openParen position place
      have hcount : openCount (.openParen :: above) = openCount above + 1 := List.count_cons_self
      refine ⟨.openParen :: above, m', n', by rw [hm]; rfl, by rw [hn]; rfl, ?_, ?_⟩
      · rw [hcount]
        exact hmended
      · rw [hcount]
        rfl
  | closeParen =>
      obtain rfl := Token.ofWord?_eq_closeParen htoken
      -- it is a lone one exactly if no open parenthesis lies above the mark
      rcases operators_or_openParen h.applicable with hall | ⟨inner, outer, rfl, hinner⟩
      · rw [openCount_eq_zero hall] at h ⊢
        obtain ⟨m', n', hm, hn, hmended⟩ := h.loneCloser position place hall
        exact ⟨[], m', n', by rw [hm]; rfl, by rw [hn]; rfl, hmended, rfl⟩
      · have hcount : openCount (inner ++ .openParen :: outer) = openCount outer + 1 := by
          rw [openCount_append, openCount_eq_zero hinner, Nat.zero_add]
          exact List.count_cons_self
        rw [hcount] at h ⊢
        obtain ⟨m', n', hm, hn, hmended⟩ :=
          h.closeParen position place hinner
        exact ⟨outer, m', n', by rw [hm]; rfl, by rw [hn]; rfl, hmended, rfl⟩
  | operator op =>
      have hopen := hopen (by simp)
      have hclose := hclose (by simp)
      rw [loneClosers_other _ rest hopen hclose] at h
      obtain ⟨above', m', n', hm, hn, hmended, hcount⟩ :=
        h.operator position place op
      refine ⟨above', m', n', by rw [hm]; rfl, by rw [hn]; rfl, hcount ▸ hmended, ?_⟩
      rw [hcount, loneOpeners_other _ rest hopen hclose]

theorem Mended.takeWords {segment : List String}
    (hsegment : ∀ word ∈ segment, isMalformed word = false)
    (h : Mended (loneClosers (openCount above) segment) above m n) :
    ∃ above' m' n', m.takeWords false position segment = .ok m' ∧
      n.takeWords false place segment = .ok n' ∧ Mended 0 above' m' n' ∧
      openCount above' = loneOpeners (openCount above) segment := by
  induction segment generalizing position place above m n with
  | nil => exact ⟨above, m, n, rfl, rfl, h, rfl⟩
  | cons word rest ih =>
      obtain ⟨hword, hrest⟩ := List.forall_mem_cons.1 hsegment
      obtain ⟨above₁, m₁, n₁, hm₁, hn₁, hmended₁, hcount₁⟩ := h.takeWord hword
      obtain ⟨above₂, m₂, n₂, hm₂, hn₂, hmended₂, hcount₂⟩ := ih hrest hmended₁
      exact ⟨above₂, m₂, n₂, (takeWords_cons rest hm₁).trans hm₂, (takeWords_cons rest hn₁).trans hn₂,
        hmended₂, hcount₂.trans hcount₁.symm⟩

/-! ## The parentheses that a repair adds -/

/-- Open parentheses are stacked one by one. -/
theorem takeWords_opened (count : Nat) (hn : n.operators ≠ []) :
    n.takeWords false place (List.replicate count "(") =
      .ok (n.withOperators (List.replicate count .openParen ++ n.operators)) := by
  induction count generalizing n place with
  | zero => rfl
  | succ count ih =>
      obtain ⟨top, rest, hstack⟩ := List.exists_cons_of_ne_nil hn
      have hword : n.takeWord false place "(" =
          .ok (n.withOperators (.openParen :: n.operators)) := by
        rw [takeWord_eq_step false Token.ofWord?_openParen, step_openParen hstack]
        rfl
      rw [List.replicate_succ, takeWords_cons _ hword, ih (by simp)]
      simp [List.replicate_succ', List.append_assoc]

/-- A closing parenthesis for each open one and one more apply, in pieces, what the end of a segment
applies at once. -/
theorem exists_closed (count : Nat) (hcount : openCount above = count)
    (happlicable : ∀ kind ∈ above, kind.isApplicable = true)
    (hn : n.operators = above ++ [.openParen, .finish]) :
    ∃ n', n.takeWords false place (List.replicate (count + 1) ")") = .ok n' ∧
      n'.operators = [.finish] ∧
      ∀ position m, Alike m n → Alike (m.appliedAll position above) n' := by
  induction count generalizing above n place with
  | zero =>
      rcases operators_or_openParen happlicable with hall | ⟨inner, outer, rfl, hinner⟩
      · have hword : n.takeWord false place ")" =
            .ok ((n.appliedAll place above).withOperators [.finish]) := by
          rw [takeWord_eq_step false Token.ofWord?_closeParen, step_closeParen hn hall]
          rfl
        refine ⟨_, takeWords_cons [] hword, rfl, fun position m halike => ?_⟩
        exact (halike.appliedAll hall).withOperators (m.appliedAll position above).operators _
      · rw [openCount_append, openCount_eq_zero hinner, Nat.zero_add] at hcount
        simp [openCount] at hcount
  | succ count ih =>
      rcases operators_or_openParen happlicable with hall | ⟨inner, outer, rfl, hinner⟩
      · rw [openCount_eq_zero hall] at hcount
        cases hcount
      · have houter : openCount outer = count := by
          rw [openCount_append, openCount_eq_zero hinner, Nat.zero_add] at hcount
          simpa [openCount] using hcount
        have hword : n.takeWord false place ")" =
            .ok ((n.appliedAll place inner).withOperators (outer ++ [.openParen, .finish])) := by
          have hstack : n.operators =
              inner ++ .openParen :: (outer ++ [.openParen, .finish]) := by
            rw [hn]
            simp
          rw [takeWord_eq_step false Token.ofWord?_closeParen, step_closeParen hstack hinner]
          rfl
        obtain ⟨n', hrest, hbottom, hmatch⟩ := ih houter
          (fun kind hkind => happlicable kind (by simp [hkind])) (operators_withOperators _)
        refine ⟨n', ?_, hbottom, fun position m halike => ?_⟩
        · rw [List.replicate_succ, takeWords_cons _ hword, hrest]
        · -- The first machine applies the open parenthesis and reports it; the second took it away.
          have hinside : Alike ((m.appliedAll position inner).applied position .openParen)
              (n.appliedAll place inner) := (halike.appliedAll hinner).report_repaired rfl
          rw [appliedAll_append, appliedAll_cons]
          exact hmatch position _ (hinside.withOperators (m.appliedAll position inner).operators _)

/-! ## Whole expressions -/

/-- A segment leaves kinds above the mark of the first machine that it need only apply to be alike to
the second machine after the repaired segment. -/
theorem exists_segment {segment : List String}
    (hsegment : ∀ word ∈ segment, isMalformed word = false) (hm : m.operators = [.finish])
    (hn : n.operators = [.finish]) (halike : Alike m n) (position place : Nat) :
    ∃ above m' n' last, m.takeWords false position segment = .ok m' ∧
      m'.operators = above ++ [.finish] ∧ (∀ kind ∈ above, kind.isApplicable = true) ∧
      Alike m' n' ∧ n.takeWords false place (repairSegment segment) = .ok last ∧
      last.operators = [.finish] ∧
      ∀ position m, Alike m n' → Alike (m.appliedAll position above) last := by
  have hopened : n.takeWords false place (List.replicate (loneClosers 0 segment + 1) "(") = _ :=
    takeWords_opened _ (by simp [hn])
  have hmended : Mended (loneClosers (openCount []) segment) [] m
      (n.withOperators (List.replicate (loneClosers 0 segment + 1) .openParen ++ n.operators)) :=
    ⟨by simp, by simp [hm], by simp [hn, openCount], halike.withOperators m.operators _⟩
  obtain ⟨above, m', n', hm', hn', hmended', hcount⟩ := hmended.takeWords hsegment
  obtain ⟨last, hclosed, hbottom, hmatch⟩ :=
    exists_closed (loneOpeners 0 segment) hcount hmended'.applicable hmended'.mendedStack
  refine ⟨above, m', n', last, hm', hmended'.stack, hmended'.applicable, hmended'.alike, ?_,
    hbottom, hmatch⟩
  rw [repairSegment, List.append_assoc, takeWords_append _ hopened, takeWords_append _ hn', hclosed]

/-- The machine on the words as they are and the one on the repaired words stay alike. -/
theorem exists_repaired (words : List String) {m n : Machine} (hm : m.operators = [.finish])
    (hn : n.operators = [.finish]) (halike : Alike m n) (position place : Nat) :
    ∃ m' last last', m.takeWords false position words = .ok m' ∧
      m'.step (position + words.length) .finish = .ok last ∧
      n.takeWords false place (repair words) = .ok last' ∧ last'.operators = [.finish] ∧
      Alike last last' := by
  rcases segment_or_malformed words with hsegment | ⟨segment, word, rest, rfl, hsegment, hword⟩
  · obtain ⟨above, m', n', last, hm', hstack, happlicable, hinside, hlast, hbottom, hmatch⟩ :=
      exists_segment hsegment hm hn halike position place
    refine ⟨m', _, last, hm', step_finish hstack happlicable, ?_, hbottom, ?_⟩
    · rw [repair_segment hsegment, hlast]
    · exact (hmatch _ m' hinside).withOperators [.finish] last.operators
  · obtain ⟨above, m', n', last, hm', hstack, happlicable, hinside, hlast, hbottom, hmatch⟩ :=
      exists_segment hsegment hm hn halike position place
    -- The malformed word is reported, and then it ends the segment like the end of the expression.
    have hnone : Token.ofWord? word = none := by simpa [isMalformed] using hword
    obtain ⟨reported, hreported⟩ : ∃ reported, m'.report (position + segment.length)
        ⟨.malformedToken, Token.malformedMessage word⟩ = reported := ⟨_, rfl⟩
    have hended : Alike (reported.appliedAll (position + segment.length) above) last :=
      hmatch _ _ (hreported ▸ hinside.report_repaired rfl)
    have hmark : reported.operators = above ++ [.finish] := hreported ▸ hstack
    have htake : m'.takeWord false (position + segment.length) word =
        .ok ((reported.appliedAll (position + segment.length) above).withOperators [.finish]) := by
      rw [takeWord_malformed hnone, hreported, step_finish hmark happlicable]
      rfl
    obtain ⟨m'', final, final', hm'', hfinal, hfinal', hground, hlike⟩ :=
      exists_repaired rest rfl hbottom (hended.withOperators [.finish] last.operators)
        (position + segment.length + 1) (place + (repairSegment segment).length)
    refine ⟨m'', final, final', ?_, ?_, ?_, hground, hlike⟩
    · rw [takeWords_append _ hm', takeWords_cons rest htake, hm'']
    · rw [← hfinal]
      congr 1
      simp
      omega
    · rw [repair_append rest hsegment hword, takeWords_append _ hlast, hfinal']
termination_by words.length

end Machine

/-- **Recovery is repair.**  The expression with its malformed words removed and each segment put
between parentheses that match all of its own has the same value.  It reports no malformed word and
no unmatched parenthesis, and otherwise the same anomalies in the same order. -/
theorem evaluateWords_repair (words : List String) :
    ∃ original repaired, evaluateWords false words = .ok original ∧
      evaluateWords false (repair words) = .ok repaired ∧ repaired.value = original.value ∧
      (∀ diagnostic ∈ repaired.diagnostics, diagnostic.kind.isRepaired = false) ∧
      repaired.diagnostics.map Diagnostic.anomaly = lastingAnomalies original.diagnostics := by
  obtain ⟨m, last, last', hm, hlast, hlast', hbottom, halike⟩ :=
    Machine.exists_repaired words (m := .start) (n := .start) rfl rfl ⟨rfl, rfl⟩ 0 0
  rw [Nat.zero_add] at hlast
  have hend : last'.step (repair words).length .finish = .ok last' := by
    have hmark : last'.operators = [] ++ [.finish] := hbottom
    rw [Machine.step_finish hmark (by simp), ← hbottom]
    rfl
  obtain ⟨hvalue, hresult⟩ := halike.result words.length (repair words).length
  have hdiagnostics : (last'.result (repair words).length).2.diagnostics.reverse.map
      Diagnostic.anomaly =
        lastingAnomalies (last.result words.length).2.diagnostics.reverse := by
    rw [List.map_reverse, hresult.diagnostics]
    simp [lastingAnomalies]
  refine ⟨⟨_, _⟩, ⟨_, _⟩, ?_, ?_, hvalue, ?_, hdiagnostics⟩
  · simp only [evaluateWords, hm, hlast, bind, Except.bind, Except.mapError]
    rfl
  · simp only [evaluateWords, hlast', hend, bind, Except.bind, Except.mapError]
    rfl
  · intro diagnostic hmem
    change diagnostic ∈ (last'.result (repair words).length).2.diagnostics.reverse at hmem
    have hmap := List.mem_map_of_mem (f := Diagnostic.anomaly) hmem
    rw [hdiagnostics, lastingAnomalies] at hmap
    obtain ⟨other, hother, heq⟩ := List.mem_map.1 hmap
    have hkind : diagnostic.kind = other.kind := (congrArg Anomaly.kind heq).symm
    rw [hkind]
    simpa using (List.mem_filter.1 hother).2

end InfixCalculator
