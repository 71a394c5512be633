import InfixCalculator.Proofs.Evaluation.Reports
import InfixCalculator.Proofs.Evaluation.Safety
import InfixCalculator.Proofs.Parentheses.Matching

/-!
# Strict evaluation

Where malformed words are not accepted, an expression is rejected at the first of them, after
the machine has done all that the words before it ask for.  Where they are accepted, the same
machine goes on, and the word is the first one reported as malformed.  So the run that was
accepted tells what the strict run does (`strict_or_malformed`).

The two runs share the words up to the malformed one, which are tokens and therefore taken in
alike.  From there on the accepted run only adds reports, and the report of the word stays the
first of its kind.
-/

namespace InfixCalculator

/-- Words of which none is malformed stand for tokens. -/
theorem exists_tokens {words : List String} (hwords : ∀ word ∈ words, isMalformed word = false) :
    ∃ tokens : List Token, words.map Token.ofWord? = tokens.map some := by
  induction words with
  | nil => exact ⟨[], rfl⟩
  | cons word words ih =>
      obtain ⟨hword, hrest⟩ := List.forall_mem_cons.1 hwords
      obtain ⟨token, htoken⟩ := exists_token hword
      obtain ⟨tokens, htokens⟩ := ih hrest
      exact ⟨token :: tokens, by rw [List.map_cons, List.map_cons, htoken, htokens]⟩

namespace Machine

variable {position : Nat} {m next : Machine}

theorem Adds.not_malformed {token : Token} (h : m.step position token = .ok next) :
    Adds (·.kind ≠ .malformedToken) m next := by
  refine (adds_step h).mono ?_
  rintro d ⟨-, hkind⟩ hmalformed
  rw [hmalformed] at hkind
  cases token <;> cases hkind

/-- Only a malformed word is reported as one. -/
theorem adds_takeWord {word : String} (h : m.takeWord false position word = .ok next) :
    Adds (fun d => isMalformed word = false → d.kind ≠ .malformedToken) m next := by
  cases hword : Token.ofWord? word with
  | some token =>
      rw [takeWord_eq_step false hword] at h
      exact (Adds.not_malformed (mapError_eq_ok.1 h)).mono fun d hkind _ => hkind
  | none =>
      rw [takeWord_malformed hword] at h
      have hreport : Adds (fun d => isMalformed word = false → d.kind ≠ .malformedToken) m
          (m.report position ⟨.malformedToken, Token.malformedMessage word⟩) := by
        refine adds_report fun hfalse => ?_
        simp [isMalformed, hword] at hfalse
      refine hreport.trans ?_
      exact (Adds.not_malformed (mapError_eq_ok.1 h)).mono fun d hkind _ => hkind

theorem adds_takeWords {words : List String} (h : m.takeWords false position words = .ok next) :
    Adds (fun d => (∀ word ∈ words, isMalformed word = false) → d.kind ≠ .malformedToken) m
      next := by
  refine Adds.of_takeWords (fun word hmem position m next h => (adds_takeWord h).mono ?_) h
  intro d hkind hall
  exact hkind (hall word hmem)

/-- Strictness plays no part where no word is malformed. -/
theorem takeWords_true {words : List String}
    (hwords : ∀ word ∈ words, isMalformed word = false) :
    m.takeWords true position words = m.takeWords false position words := by
  obtain ⟨tokens, htokens⟩ := exists_tokens hwords
  rw [takeWords_eq_takeTokens true htokens, takeWords_eq_takeTokens false htokens]

end Machine

/-! ## Whole expressions -/

/-- The run behind an evaluation. -/
theorem exists_run {strict : Bool} {words : List String} {evaluation : Evaluation}
    (h : evaluateWords strict words = .ok evaluation) :
    ∃ m last, Machine.start.takeWords strict 0 words = .ok m ∧
      m.step words.length .finish = .ok last ∧
      evaluation = ⟨(last.result words.length).1,
        (last.result words.length).2.diagnostics.reverse⟩ := by
  obtain ⟨m, htake, h⟩ := bind_eq_ok.1 h
  obtain ⟨last, hstep, h⟩ := bind_eq_ok.1 h
  exact ⟨m, last, htake, mapError_eq_ok.1 hstep, (Except.ok.inj h).symm⟩

/-- What the end of an expression reports. -/
theorem adds_end {position : Nat} {m last : Machine} (h : m.step position .finish = .ok last) :
    Machine.Adds (·.kind ≠ .malformedToken) m (last.result position).2 := by
  refine (Machine.Adds.not_malformed h).trans (Machine.adds_result.mono ?_)
  rintro d ⟨-, hkind | hkind⟩ <;> simp [hkind]

/-- The first of its kind is found before whatever was added after it. -/
theorem find?_reverse_of_adds {P : Diagnostic → Prop} {m next : Machine} {first : Diagnostic}
    {earlier : List Diagnostic} {holds : Diagnostic → Bool} (h : m.Adds P next)
    (hm : m.diagnostics = first :: earlier) (hfirst : holds first = true)
    (hearlier : ∀ diagnostic ∈ earlier, holds diagnostic = false) :
    next.diagnostics.reverse.find? holds = some first := by
  obtain ⟨added, hnext, -⟩ := h
  have hnone : earlier.reverse.find? holds = none := by
    rw [List.find?_eq_none]
    intro diagnostic hmem
    simp [hearlier diagnostic (List.mem_reverse.1 hmem)]
  rw [hnext, hm, List.reverse_append, List.reverse_cons, List.append_assoc, List.find?_append,
    hnone, List.singleton_append, List.find?_cons_of_pos hfirst]
  rfl

variable {words segment rest : List String} {word : String} {lenient : Evaluation}

theorem kind_ne_malformedToken (hall : ∀ word ∈ words, isMalformed word = false)
    (hlenient : evaluateWords false words = .ok lenient) :
    ∀ diagnostic ∈ lenient.diagnostics, diagnostic.kind ≠ .malformedToken := by
  obtain ⟨m, last, htake, hend, rfl⟩ := exists_run hlenient
  have hadds : Machine.Adds (·.kind ≠ .malformedToken) Machine.start (last.result words.length).2 :=
    ((Machine.adds_takeWords htake).mono fun d hkind => hkind hall).trans (adds_end hend)
  intro diagnostic hmem
  exact hadds.of_start diagnostic (List.mem_reverse.1 hmem)

/-- The first malformed word is the first one reported as such. -/
theorem find?_malformed (hsegment : ∀ other ∈ segment, isMalformed other = false)
    (hword : isMalformed word = true)
    (hlenient : evaluateWords false (segment ++ word :: rest) = .ok lenient) :
    lenient.diagnostics.find? (·.kind = .malformedToken) =
      some ⟨.malformedToken, Token.malformedMessage word, segment.length⟩ := by
  obtain ⟨m, last, htake, hend, rfl⟩ := exists_run hlenient
  obtain ⟨reached, hreached, -⟩ := Machine.exists_takeWords 0 segment Machine.grounded_start
  have hnone : Token.ofWord? word = none := by simpa [isMalformed] using hword
  rw [Machine.takeWords_append (word :: rest) hreached, Nat.zero_add, Machine.takeWords,
    Machine.takeWord_malformed hnone] at htake
  split at htake
  · cases htake
  · rename_i after hafter
    -- nothing was reported as malformed before the word, and nothing is taken back after it
    have hbefore := (Machine.adds_takeWords hreached).of_start
    have hdrained := Machine.Adds.not_malformed (mapError_eq_ok.1 hafter)
    have hadds := ((hdrained.mono fun _ _ => trivial).trans
      ((Machine.adds_takeWords htake).mono fun _ _ => trivial)).trans
        ((adds_end hend).mono fun _ _ => trivial)
    refine find?_reverse_of_adds hadds rfl (by simp) ?_
    intro diagnostic hmem
    simpa using hbefore diagnostic hmem hsegment

/-- Strict evaluation ends at the first malformed word. -/
theorem strict_malformed (hsegment : ∀ other ∈ segment, isMalformed other = false)
    (hword : isMalformed word = true) :
    evaluateWords true (segment ++ word :: rest) = .error (.malformed word) := by
  obtain ⟨reached, hreached, -⟩ := Machine.exists_takeWords 0 segment Machine.grounded_start
  have hnone : Token.ofWord? word = none := by simpa [isMalformed] using hword
  have hstrict : Machine.start.takeWords true 0 segment = .ok reached := by
    rw [Machine.takeWords_true hsegment, hreached]
  unfold evaluateWords
  rw [Machine.takeWords_append (word :: rest) hstrict, Machine.takeWords]
  simp [Machine.takeWord, hnone, bind, Except.bind]

/-- The accepted run tells what the strict one does.  If it reports no malformed word, the strict
run is the same; otherwise the strict run ends at the word of the first such report. -/
theorem strict_or_malformed (hlenient : evaluateWords false words = .ok lenient) :
    ((∀ diagnostic ∈ lenient.diagnostics, diagnostic.kind ≠ .malformedToken) ∧
        evaluateWords true words = .ok lenient) ∨
      ∃ first word, lenient.diagnostics.find? (·.kind = .malformedToken) = some first ∧
        words[first.position]? = some word ∧
        evaluateWords true words = .error (.malformed word) := by
  rcases segment_or_malformed words with hall | ⟨segment, word, rest, rfl, hsegment, hword⟩
  · refine .inl ⟨kind_ne_malformedToken hall hlenient, ?_⟩
    rw [← hlenient]
    unfold evaluateWords
    rw [Machine.takeWords_true hall]
  · exact .inr ⟨_, word, find?_malformed hsegment hword hlenient, by simp,
      strict_malformed hsegment hword⟩

end InfixCalculator
