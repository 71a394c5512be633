import InfixCalculator.Proofs.Parentheses.Reported

/-!
# Diagnostics belong to their words

The position of a diagnostic is that of the word in hand, wherever in a reduction it is reported.
Every word therefore adds a block of diagnostics with its own position, and the blocks stand one
after the other.  What a block may hold is told from its word:

```text
number, "("       nothing
operator          anomalies of operators
")"               anomalies of operators, then perhaps a missing open parenthesis
malformed         the word itself, then anomalies of operators and unbalanced parentheses
the end           anomalies of operators and unbalanced parentheses, then perhaps a verdict
```

`Token.Reports` says this of a token and `Awaits.exists_block` proves it of its step.
`BlocksUpTo` is what all words keep of it (`BlocksUpTo.concat`), and `Attributed` is what an
evaluation makes of it in the end.
-/

namespace InfixCalculator

/-- The kinds that are reported at a position, in their order. -/
def reportKinds (position : Nat) (diagnostics : List Diagnostic) : List DiagnosticKind :=
  (diagnostics.filter (·.position = position)).map Diagnostic.kind

/-! ## Blocks -/

section Blocks

variable {position : Nat} {front block : List Diagnostic}

theorem reportKinds_append (position : Nat) (front block : List Diagnostic) :
    reportKinds position (front ++ block) =
      reportKinds position front ++ reportKinds position block := by
  rw [reportKinds, List.filter_append, List.map_append]
  rfl

theorem reportKinds_of_forall (h : ∀ d ∈ block, d.position = position) :
    reportKinds position block = block.map Diagnostic.kind := by
  rw [reportKinds, List.filter_eq_self.2 fun d hd => decide_eq_true (h d hd)]

theorem reportKinds_of_forall_ne (h : ∀ d ∈ block, d.position ≠ position) :
    reportKinds position block = [] := by
  rw [reportKinds, List.filter_eq_nil_iff.2 fun d hd => by simpa using h d hd, List.map_nil]

/-- A later block is all there is at its position. -/
theorem reportKinds_block (hfront : ∀ d ∈ front, d.position < position)
    (hblock : ∀ d ∈ block, d.position = position) :
    reportKinds position (front ++ block) = block.map Diagnostic.kind := by
  rw [reportKinds_append, reportKinds_of_forall hblock,
    reportKinds_of_forall_ne fun d hd => (hfront d hd).ne, List.nil_append]

/-- A later block changes nothing at the positions before it. -/
theorem reportKinds_front {earlier : Nat} (hearlier : earlier < position)
    (hblock : ∀ d ∈ block, d.position = position) :
    reportKinds earlier (front ++ block) = reportKinds earlier front := by
  have hlater : ∀ d ∈ block, d.position ≠ earlier := fun d hd => by
    rw [hblock d hd]
    exact hearlier.ne'
  rw [reportKinds_append, reportKinds_of_forall_ne hlater, List.append_nil]

/-- Positions do not decrease if a later block follows. -/
theorem pairwise_block (hfront : (front.map Diagnostic.position).Pairwise (· ≤ ·))
    (hearlier : ∀ d ∈ front, d.position < position) (hblock : ∀ d ∈ block, d.position = position) :
    ((front ++ block).map Diagnostic.position).Pairwise (· ≤ ·) := by
  rw [List.map_append, List.pairwise_append]
  refine ⟨hfront, ?_, ?_⟩
  · rw [List.pairwise_map]
    refine List.pairwise_of_forall_mem_list fun first hfirst second hsecond => ?_
    rw [hblock first hfirst, hblock second hsecond]
  · intro first hfirst second hsecond
    obtain ⟨d, hd, rfl⟩ := List.mem_map.1 hfirst
    obtain ⟨e, he, rfl⟩ := List.mem_map.1 hsecond
    rw [hblock e he]
    exact (hearlier d hd).le

end Blocks

/-! ## What a token reports -/

/-- What a token may report, in this order: where a closing parenthesis finds no opening one, it is
reported after all that it applies. -/
def Token.Reports : Token → List DiagnosticKind → Prop
  | closeParen, kinds => ∃ applied last, kinds = applied ++ last ∧
      (∀ kind ∈ applied, kind.ofOperator = true) ∧ (last = [] ∨ last = [.missingOpenParen])
  | token, kinds => ∀ kind ∈ kinds, token.mayReport kind = true

/-- What may be reported at a word.  A malformed one is reported before it counts as the end. -/
def WordReports (word : String) (kinds : List DiagnosticKind) : Prop :=
  if isMalformed word then
    ∃ drained, kinds = .malformedToken :: drained ∧ Token.finish.Reports drained
  else (wordToken word).Reports kinds

namespace Token

variable {token : Token} {kind : DiagnosticKind}

theorem Reports.mayReport {kinds : List DiagnosticKind} (h : token.Reports kinds) :
    ∀ kind ∈ kinds, token.mayReport kind = true := by
  cases token with
  | closeParen =>
      obtain ⟨applied, last, rfl, happlied, hlast⟩ := h
      intro kind hkind
      rcases List.mem_append.1 hkind with hoperator | hmissing
      · simp [Token.mayReport, happlied kind hoperator]
      · rcases hlast with rfl | rfl
        · cases hmissing
        · rw [List.mem_singleton.1 hmissing]
          rfl
  | _ => exact h

theorem ne_malformedToken_of_mayReport (h : token.mayReport kind = true) :
    kind ≠ .malformedToken := by
  rintro rfl
  cases token <;> cases h

/-- Only the end applies open parentheses. -/
theorem eq_finish_of_mayReport (h : token.mayReport .unbalancedParen = true) :
    token = .finish := by
  cases token <;> first | rfl | cases h

theorem isVerdict_of_mayReport (h : token.mayReport kind = true) : kind.isVerdict = false := by
  cases kind <;> first | rfl | (cases token <;> cases h)

end Token

namespace WordReports

variable {word : String} {kinds : List DiagnosticKind} {kind : DiagnosticKind}

theorem of_not_isMalformed (h : WordReports word kinds) (hwell : isMalformed word = false) :
    (wordToken word).Reports kinds := by
  rwa [WordReports, if_neg (by simp [hwell])] at h

/-- A malformed word comes first and is not reported again. -/
theorem of_isMalformed (h : WordReports word kinds) (hmalformed : isMalformed word = true) :
    ∃ drained, kinds = .malformedToken :: drained ∧
      ∀ kind ∈ drained, Token.finish.mayReport kind = true := by
  rw [WordReports, if_pos hmalformed] at h
  exact h

/-- What only malformed words have reported. -/
theorem isMalformed_of_mem (h : WordReports word kinds) (hmem : kind ∈ kinds)
    (hkind : kind = .malformedToken ∨ kind = .unbalancedParen) : isMalformed word = true := by
  cases hwell : isMalformed word with
  | true => rfl
  | false =>
      have hmay := (h.of_not_isMalformed hwell).mayReport kind hmem
      rcases hkind with rfl | rfl
      · exact absurd rfl (Token.ne_malformedToken_of_mayReport hmay)
      · rw [wordToken_eq_finish.1 (Token.eq_finish_of_mayReport hmay)] at hwell
        cases hwell

theorem isVerdict_eq_false (h : WordReports word kinds) (hmem : kind ∈ kinds) :
    kind.isVerdict = false := by
  cases hmalformed : isMalformed word with
  | false =>
      exact Token.isVerdict_of_mayReport ((h.of_not_isMalformed hmalformed).mayReport kind hmem)
  | true =>
      obtain ⟨drained, rfl, hdrained⟩ := h.of_isMalformed hmalformed
      rcases List.mem_cons.1 hmem with rfl | hmem
      · rfl
      · exact Token.isVerdict_of_mayReport (hdrained kind hmem)

end WordReports

namespace Machine

variable {position : Nat} {pending : List Pending} {P : Diagnostic → Prop} {m next : Machine}

/-- What a machine has reported, in order. -/
def reported (m : Machine) : List Diagnostic :=
  m.diagnostics.reverse

/-- What is added to the diagnostics is a block behind them. -/
theorem Adds.exists_block (h : Adds P m next) :
    ∃ block, next.reported = m.reported ++ block ∧ ∀ d ∈ block, P d := by
  obtain ⟨added, hnext, hadded⟩ := h
  refine ⟨added.reverse, ?_, fun d hd => hadded d (List.mem_reverse.1 hd)⟩
  rw [reported, hnext, List.reverse_append, reported]

/-- What a closing parenthesis applies are operators. -/
theorem Awaits.exists_applied (h : Awaits pending m) (position : Nat) :
    ∃ block, (m.appliedAll position (kindsOf (Token.closeParen.applies pending))).reported =
        m.reported ++ block ∧
      ∀ d ∈ block, d.position = position ∧ d.kind.ofOperator = true := by
  have hkinds := (Token.allApplicable_applies .closeParen h.applicable).kinds
  refine ((adds_appliedAll hkinds).mono ?_).exists_block
  rintro d ⟨hposition, top, htop, hkind⟩
  obtain ⟨entry, hentry, rfl⟩ := List.mem_map.1 htop
  have hoperator := (Token.spares_closeParen_cases h.applicable).1 entry hentry
  refine ⟨hposition, ofOperator_of_mayReport hkind fun hopen => ?_⟩
  rw [hopen] at hoperator
  cases hoperator

/-- A step reports a block at its position. -/
theorem Awaits.exists_block (h : Awaits pending m) (position : Nat) (token : Token) :
    ∃ block, (m.stepped position token pending).reported = m.reported ++ block ∧
      (∀ d ∈ block, d.position = position) ∧ token.Reports (block.map Diagnostic.kind) := by
  have hadds := adds_step (h.step_eq position token)
  cases token with
  | closeParen =>
      obtain ⟨block, hblock, happlied⟩ := h.exists_applied position
      have hoperators : ∀ kind ∈ block.map Diagnostic.kind, kind.ofOperator = true :=
        List.forall_mem_map.2 fun d hd => (happlied d hd).2
      by_cases hnone : Token.closeParen.spares pending = []
      · -- the missing parenthesis is reported behind the block
        refine ⟨block ++ [⟨.missingOpenParen, "Missing open parenthesis", position⟩], ?_, ?_, ?_⟩
        · rw [← List.append_assoc, ← hblock]
          simp [Machine.stepped, conclude, hnone, reported, report]
        · exact List.forall_mem_append.2 ⟨fun d hd => (happlied d hd).1, by simp⟩
        · exact ⟨_, [.missingOpenParen], List.map_append, hoperators, .inr rfl⟩
      · refine ⟨block, ?_, fun d hd => (happlied d hd).1, _, [], (List.append_nil _).symm,
          hoperators, .inl rfl⟩
        rw [← hblock]
        simp [Machine.stepped, conclude, hnone, reported]
  | _ =>
      obtain ⟨block, hblock, hadded⟩ := hadds.exists_block
      exact ⟨block, hblock, fun d hd => (hadded d hd).1,
        List.forall_mem_map.2 fun d hd => (hadded d hd).2⟩

/-- A word reports a block at its position. -/
theorem Awaits.exists_wordBlock (h : Awaits pending m) (position : Nat) (word : String) :
    ∃ block, (m.taken position word pending).reported = m.reported ++ block ∧
      (∀ d ∈ block, d.position = position) ∧ WordReports word (block.map Diagnostic.kind) := by
  obtain ⟨block, hblock, hposition, hreports⟩ :=
    (h.noted position word).exists_block position (wordToken word)
  unfold WordReports
  by_cases hmalformed : isMalformed word = true
  · refine ⟨⟨.malformedToken, Token.malformedMessage word, position⟩ :: block, ?_, ?_, ?_⟩
    · rw [taken, hblock]
      simp [Machine.noted, hmalformed, reported, report]
    · exact List.forall_mem_cons.2 ⟨rfl, hposition⟩
    · rw [if_pos hmalformed]
      rw [wordToken_eq_finish.2 hmalformed] at hreports
      exact ⟨_, rfl, hreports⟩
  · refine ⟨block, ?_, hposition, ?_⟩
    · rw [taken, hblock, Machine.noted, if_neg hmalformed]
    · rwa [if_neg hmalformed]

/-- The result is taken with one verdict at most. -/
theorem exists_verdict (position : Nat) (m : Machine) :
    ∃ last, (m.result position).2.reported = m.reported ++ last ∧ last.length ≤ 1 ∧
      ∀ d ∈ last, d.position = position ∧ d.kind.isVerdict = true := by
  unfold result
  split
  · exact ⟨[⟨.emptyResult, "Missing operand", position⟩], by simp [reported, report], by simp,
      by simp [DiagnosticKind.isVerdict]⟩
  · exact ⟨[], (List.append_nil _).symm, by simp, by simp⟩
  · exact ⟨[⟨.missingOperators, "Missing operators", position⟩], by simp [reported, report], by simp,
      by simp [DiagnosticKind.isVerdict]⟩

end Machine

/-! ## Words -/

/-- The diagnostics of some words are one block for each of them, in order. -/
structure BlocksUpTo (words : List String) (diagnostics : List Diagnostic) : Prop where
  earlier : ∀ d ∈ diagnostics, d.position < words.length
  ordered : (diagnostics.map Diagnostic.position).Pairwise (· ≤ ·)
  reports : ∀ position word, words[position]? = some word →
    WordReports word (reportKinds position diagnostics)

/-- One more word adds one more block. -/
theorem BlocksUpTo.concat {words : List String} {diagnostics block : List Diagnostic}
    (h : BlocksUpTo words diagnostics) {word : String}
    (hposition : ∀ d ∈ block, d.position = words.length)
    (hreports : WordReports word (block.map Diagnostic.kind)) :
    BlocksUpTo (words ++ [word]) (diagnostics ++ block) where
  earlier := by
    rw [List.length_append, List.length_singleton]
    refine List.forall_mem_append.2 ⟨fun d hd => Nat.lt_succ_of_lt (h.earlier d hd), ?_⟩
    intro d hd
    rw [hposition d hd]
    exact Nat.lt_succ_self _
  ordered := pairwise_block h.ordered h.earlier hposition
  reports := by
    intro position other hother
    rcases Nat.lt_trichotomy position words.length with hlt | rfl | hgt
    · rw [List.getElem?_append_left hlt] at hother
      rw [reportKinds_front hlt hposition]
      exact h.reports position other hother
    · rw [List.getElem?_concat_length] at hother
      cases hother
      rw [reportKinds_block h.earlier hposition]
      exact hreports
    · rw [List.getElem?_eq_none (by simpa using hgt)] at hother
      cases hother

theorem blocksUpTo_of_takeWords {words : List String} {m : Machine}
    (htake : Machine.start.takeWords false 0 words = .ok m) : BlocksUpTo words m.reported := by
  have hstart : BlocksUpTo [] Machine.start.reported :=
    ⟨by simp [Machine.reported, Machine.start], by simp [Machine.reported, Machine.start], by simp⟩
  obtain ⟨next, hnext, -, hblocks⟩ := Machine.takeWords_induction
    (P := fun words m => BlocksUpTo words m.reported) hstart
    (fun before word m hawaits hblocks => by
      obtain ⟨block, hblock, hposition, hreports⟩ := hawaits.exists_wordBlock before.length word
      rw [hblock]
      exact hblocks.concat hposition hreports) words
  rw [htake] at hnext
  exact Except.ok.inj hnext ▸ hblocks

/-- All that an expression has reported: the blocks of its words, what its end reports, and the
verdict on its result. -/
structure Composed (words : List String) (front drained last : List Diagnostic) : Prop where
  blocks : BlocksUpTo words front
  drained : ∀ d ∈ drained, d.position = words.length ∧ Token.finish.mayReport d.kind = true
  single : last.length ≤ 1
  verdict : ∀ d ∈ last, d.position = words.length ∧ d.kind.isVerdict = true

theorem exists_composed (words : List String) :
    ∃ evaluation front drained last, evaluateWords false words = .ok evaluation ∧
      evaluation.diagnostics = front ++ (drained ++ last) ∧ Composed words front drained last := by
  obtain ⟨m, htake, -⟩ := Machine.exists_takeWords 0 words Machine.grounded_start
  have hawaits := awaits_of_takeWords htake
  obtain ⟨drained, hdrained, hposition, hreports⟩ := hawaits.exists_block words.length .finish
  obtain ⟨last, hlast, hlength, hverdict⟩ :=
    Machine.exists_verdict words.length (m.drained words)
  refine ⟨m.evaluation words, m.reported, drained, last, Machine.evaluateWords_eq htake hawaits,
    ?_, blocksUpTo_of_takeWords htake, ?_, hlength, hverdict⟩
  · rw [← List.append_assoc, ← hdrained]
    exact hlast
  · exact fun d hd => ⟨hposition d hd, hreports d.kind (List.mem_map_of_mem hd)⟩

/-! ## Whole expressions -/

/-- What the positions of the diagnostics of an expression tell. -/
structure Attributed (words : List String) (diagnostics : List Diagnostic) : Prop where
  ordered : (diagnostics.map Diagnostic.position).Pairwise (· ≤ ·)
  bounded : ∀ d ∈ diagnostics, d.position ≤ words.length
  /-- Numbers and open parentheses have nothing reported. -/
  quiet : ∀ position word, words[position]? = some word → isNumber word = true ∨ word = "(" →
    reportKinds position diagnostics = []
  /-- A malformed word is reported first, and once. -/
  malformed : ∀ position word, words[position]? = some word → isMalformed word = true →
    ∃ drained, reportKinds position diagnostics = .malformedToken :: drained ∧
      .malformedToken ∉ drained
  /-- No other word is reported as malformed. -/
  malformedToken : ∀ d ∈ diagnostics, d.kind = .malformedToken →
    ∃ word, words[d.position]? = some word ∧ isMalformed word = true
  /-- An operator has anomalies of operators reported. -/
  operator : ∀ position op, words[position]? = some (Operator.symbol op) →
    ∀ kind ∈ reportKinds position diagnostics, kind.ofOperator = true
  /-- So has a closing parenthesis, which may be reported itself after them. -/
  closeParen : ∀ position, words[position]? = some ")" → ∃ applied last,
    reportKinds position diagnostics = applied ++ last ∧
      (∀ kind ∈ applied, kind.ofOperator = true) ∧ (last = [] ∨ last = [.missingOpenParen])
  /-- Open parentheses are found unbalanced at malformed words and at the end. -/
  unbalancedParen : ∀ d ∈ diagnostics, d.kind = .unbalancedParen → EndsSegment words d.position
  /-- The verdict on the result is the last diagnostic, and there is one at most. -/
  verdict : ∃ front last, diagnostics = front ++ last ∧ (∀ d ∈ front, d.kind.isVerdict = false) ∧
    last.length ≤ 1 ∧ ∀ d ∈ last, d.position = words.length ∧ d.kind.isVerdict = true

namespace Composed

variable {words : List String} {front drained last : List Diagnostic}

theorem position_end (h : Composed words front drained last) :
    ∀ d ∈ drained ++ last, d.position = words.length :=
  List.forall_mem_append.2 ⟨fun d hd => (h.drained d hd).1, fun d hd => (h.verdict d hd).1⟩

/-- Whatever comes later, a word has its own block reported. -/
theorem reports (h : Composed words front drained last) {position : Nat} {word : String}
    (hword : words[position]? = some word) :
    WordReports word (reportKinds position (front ++ (drained ++ last))) := by
  rw [reportKinds_front (List.getElem?_eq_some_iff.1 hword).1 h.position_end]
  exact h.blocks.reports position word hword

theorem tokenReports (h : Composed words front drained last) {position : Nat} {word : String}
    (hword : words[position]? = some word) {token : Token} (htoken : wordToken word = token)
    (hfinish : token ≠ .finish) :
    token.Reports (reportKinds position (front ++ (drained ++ last))) := by
  have hwell : isMalformed word = false := by
    rw [← Bool.not_eq_true, ← wordToken_eq_finish, htoken]
    exact hfinish
  exact htoken ▸ (h.reports hword).of_not_isMalformed hwell

/-- A diagnostic before the end is one of those of its word. -/
theorem exists_word (h : Composed words front drained last) {d : Diagnostic} (hd : d ∈ front) :
    ∃ word kinds, words[d.position]? = some word ∧ WordReports word kinds ∧ d.kind ∈ kinds := by
  have hearlier := h.blocks.earlier d hd
  have hword : words[d.position]? = some words[d.position] := List.getElem?_eq_getElem hearlier
  refine ⟨_, _, hword, h.blocks.reports _ _ hword, ?_⟩
  exact List.mem_map.2 ⟨d, List.mem_filter.2 ⟨hd, decide_eq_true rfl⟩, rfl⟩

/-- Kinds that the end does not report belong to malformed words. -/
theorem isMalformed_or_drained (h : Composed words front drained last) {d : Diagnostic}
    (hd : d ∈ front ++ (drained ++ last))
    (hkind : d.kind = .malformedToken ∨ d.kind = .unbalancedParen) :
    (∃ word, words[d.position]? = some word ∧ isMalformed word = true) ∨ d ∈ drained := by
  rcases List.mem_append.1 hd with hfront | hend
  · obtain ⟨word, kinds, hword, hreports, hmem⟩ := h.exists_word hfront
    exact .inl ⟨word, hword, hreports.isMalformed_of_mem hmem hkind⟩
  · rcases List.mem_append.1 hend with hdrained | hlast
    · exact .inr hdrained
    · have hverdict := (h.verdict d hlast).2
      rcases hkind with hkind | hkind <;> rw [hkind] at hverdict <;> cases hverdict

theorem attributed (h : Composed words front drained last) :
    Attributed words (front ++ (drained ++ last)) where
  ordered := pairwise_block h.blocks.ordered h.blocks.earlier h.position_end
  bounded := by
    intro d hd
    rcases List.mem_append.1 hd with hfront | hend
    · exact (h.blocks.earlier d hfront).le
    · exact (h.position_end d hend).le
  quiet := by
    intro position word hword hsort
    apply List.eq_nil_iff_forall_not_mem.2
    intro kind hkind
    rcases hsort with hnumber | rfl
    · obtain ⟨value, htoken⟩ := Token.exists_number hnumber
      have hreports := h.tokenReports hword (wordToken_of_ofWord? htoken) (by simp)
      cases hreports kind hkind
    · have hreports := h.tokenReports hword (wordToken_eq_openParen.2 rfl) (by simp)
      cases hreports kind hkind
  malformed := by
    intro position word hword hmalformed
    obtain ⟨drained, hkinds, hdrained⟩ := (h.reports hword).of_isMalformed hmalformed
    exact ⟨drained, hkinds, fun hmem => Token.ne_malformedToken_of_mayReport (hdrained _ hmem) rfl⟩
  malformedToken := by
    intro d hd hkind
    rcases h.isMalformed_or_drained hd (.inl hkind) with hword | hdrained
    · exact hword
    · exact absurd hkind (Token.ne_malformedToken_of_mayReport (h.drained d hdrained).2)
  operator := by
    intro position op hword
    exact h.tokenReports hword (wordToken_eq_operator.2 rfl) (by simp)
  closeParen := by
    intro position hword
    exact h.tokenReports hword (wordToken_eq_closeParen.2 rfl) (by simp)
  unbalancedParen := by
    intro d hd hkind
    rcases h.isMalformed_or_drained hd (.inr hkind) with hword | hdrained
    · exact .inr hword
    · exact .inl (h.drained d hdrained).1
  verdict := by
    refine ⟨front ++ drained, last, (List.append_assoc ..).symm, ?_, h.single, h.verdict⟩
    intro d hd
    rcases List.mem_append.1 hd with hfront | hdrained
    · obtain ⟨word, kinds, -, hreports, hmem⟩ := h.exists_word hfront
      exact hreports.isVerdict_eq_false hmem
    · exact Token.isVerdict_of_mayReport (h.drained d hdrained).2

end Composed

/-- **Diagnostics are attributed to the right word.**  Every expression is evaluated, and the order
and the positions of its diagnostics tell which words gave rise to them. -/
theorem diagnostics_attributed (words : List String) :
    ∃ evaluation, evaluateWords false words = .ok evaluation ∧
      Attributed words evaluation.diagnostics := by
  obtain ⟨evaluation, front, drained, last, heval, hdiagnostics, hcomposed⟩ := exists_composed words
  refine ⟨evaluation, heval, ?_⟩
  rw [hdiagnostics]
  exact hcomposed.attributed

end InfixCalculator
