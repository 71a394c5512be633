import InfixCalculator.Batch.Outcome
import InfixCalculator.Proofs.Decimal.Digits
import InfixCalculator.Proofs.Evaluation.Strictness

/-!
# Why a request is rejected

A request is rejected for too many words, whatever these are, or for a malformed word under strict
settings.  Everything else has the outcome that it would have under the most lenient settings, and
so does a strict run that meets no malformed word.  Reasons are compared as the texts that
outcomes carry: no text says two different things about the words (`tooLong_of_message`,
`malformed_of_message`, `malformed_ne_tooLong`).

`Request.Judged` lists what there is to say about an outcome, and `request_judged` proves it from
the three forms that an outcome has (`outcome_tooLong`, `outcome_malformed`, `outcome_accepted`).
-/

namespace InfixCalculator

/-- More words than the settings accept. -/
def Settings.IsExceededBy (settings : Settings) (words : List String) : Prop :=
  ∃ limit ∈ settings.maxTokens, limit < words.length

/-- Whether a diagnostic reports a malformed word. -/
def Evaluation.ReportsMalformed (evaluation : Evaluation) : Prop :=
  ∃ diagnostic ∈ evaluation.diagnostics, diagnostic.kind = .malformedToken

/-! ## Texts of rejections -/

theorem Decimal.allDigits_natText (n : Nat) : Literal.AllDigits (Decimal.natText n).toList := by
  unfold Decimal.natText
  rw [String.toList_ofList]
  split
  · exact Literal.allDigits_zeros 1
  · exact Decimal.allDigits_digits n

theorem Decimal.ofDigits_natText (n : Nat) : Literal.ofDigits (Decimal.natText n).toList = n := by
  unfold Decimal.natText
  rw [String.toList_ofList]
  split
  · rename_i hzero
    rw [hzero]
    rfl
  · exact Decimal.ofDigits_digits n

theorem Decimal.natText_ne_nil (n : Nat) : (Decimal.natText n).toList ≠ [] := by
  intro hnil
  have hvalue := Decimal.ofDigits_natText n
  rw [hnil] at hvalue
  subst hvalue
  cases hnil

theorem Decimal.natText_injective : Function.Injective Decimal.natText := by
  intro a b h
  rw [← Decimal.ofDigits_natText a, h, Decimal.ofDigits_natText]

namespace Rejection

theorem message_malformed (word : String) :
    (malformed word).message = "Error occurred when parsing supposed VALUE token: " ++ word := rfl

theorem message_tooLong (count limit : Nat) :
    (tooLong count limit).message = "Expression has " ++ Decimal.natText count ++
      " tokens, limit is " ++ Decimal.natText limit := rfl

theorem malformed_of_message {word word' : String}
    (h : (malformed word).message = (malformed word').message) : word = word' := by
  rw [message_malformed, message_malformed] at h
  have hlist := congrArg String.toList h
  rw [String.toList_append, String.toList_append] at hlist
  exact String.toList_inj.1 (List.append_cancel_left hlist)

theorem tooLong_of_message {count limit count' limit' : Nat}
    (h : (tooLong count limit).message = (tooLong count' limit').message) :
    count = count' ∧ limit = limit' := by
  -- the blank after the first number tells where it ends
  have hdigits : ∀ n rest, ((Decimal.natText n).toList ++
      (" tokens, limit is ".toList ++ rest)).takeWhile Literal.isDigit =
        (Decimal.natText n).toList := by
    intro n rest
    rw [List.takeWhile_append_of_pos (Decimal.allDigits_natText n)]
    simp [Literal.isDigit]
  rw [message_tooLong, message_tooLong] at h
  have hlist := congrArg String.toList h
  simp only [String.toList_append, List.append_assoc] at hlist
  have hnumbers := List.append_cancel_left hlist
  have hcount := congrArg (List.takeWhile Literal.isDigit) hnumbers
  rw [hdigits, hdigits] at hcount
  rw [hcount] at hnumbers
  have hlimit := List.append_cancel_left (List.append_cancel_left hnumbers)
  exact ⟨Decimal.natText_injective (String.toList_inj.1 hcount),
    Decimal.natText_injective (String.toList_inj.1 hlimit)⟩

theorem malformed_ne_tooLong (word : String) (count limit : Nat) :
    (malformed word).message ≠ (tooLong count limit).message := by
  intro h
  rw [message_malformed, message_tooLong] at h
  have hlist := congrArg String.toList h
  simp at hlist

end Rejection

/-! ## Evaluating under settings -/

variable {expression : String} {settings : Settings} {lenient : Evaluation}

theorem evaluate_of_exceeded {limit : Nat} (hlimit : settings.maxTokens = some limit)
    (hexceeded : limit < (expressionWords expression).length) :
    evaluate expression settings =
      .error (.tooLong (expressionWords expression).length limit) := by
  unfold evaluate
  simp only [hlimit, if_pos hexceeded]

theorem evaluate_of_not_exceeded (h : ¬ settings.IsExceededBy (expressionWords expression)) :
    evaluate expression settings =
      evaluateWords settings.strictTokens (expressionWords expression) := by
  unfold evaluate
  cases hlimit : settings.maxTokens with
  | none => rfl
  | some limit =>
      have hbound : ¬ limit < (expressionWords expression).length := fun hlt =>
        h ⟨limit, hlimit, hlt⟩
      simp only [if_neg hbound]

/-- Under the most lenient settings every expression has a value. -/
theorem exists_lenient (expression : String) :
    ∃ lenient, evaluate expression { strictTokens := false, maxTokens := none } = .ok lenient :=
  exists_evaluateWords _

theorem evaluate_eq_lenient
    (hlenient : evaluate expression { strictTokens := false, maxTokens := none } = .ok lenient)
    (hbound : ¬ settings.IsExceededBy (expressionWords expression))
    (haccepted : ¬ (settings.strictTokens = true ∧ lenient.ReportsMalformed)) :
    evaluate expression settings = .ok lenient := by
  rw [evaluate_of_not_exceeded hbound]
  by_cases hstrict : settings.strictTokens = true
  · rw [hstrict]
    rcases strict_or_malformed hlenient with ⟨-, heq⟩ | ⟨first, word, hfirst, -⟩
    · exact heq
    · refine absurd ⟨hstrict, first, List.mem_of_find?_eq_some hfirst, ?_⟩ haccepted
      simpa using List.find?_some hfirst
  · rw [Bool.not_eq_true] at hstrict
    rw [hstrict]
    exact hlenient

theorem evaluate_eq_malformed
    (hlenient : evaluate expression { strictTokens := false, maxTokens := none } = .ok lenient)
    (hbound : ¬ settings.IsExceededBy (expressionWords expression))
    (hstrict : settings.strictTokens = true) (hreports : lenient.ReportsMalformed) :
    ∃ first word, lenient.diagnostics.find? (·.kind = .malformedToken) = some first ∧
      (expressionWords expression)[first.position]? = some word ∧
      evaluate expression settings = .error (.malformed word) := by
  rw [evaluate_of_not_exceeded hbound, hstrict]
  rcases strict_or_malformed hlenient with ⟨hnone, -⟩ | hmalformed
  · obtain ⟨diagnostic, hmem, hkind⟩ := hreports
    exact absurd hkind (hnone diagnostic hmem)
  · exact hmalformed

namespace Batch

/-- What there is to say about the outcome of a request under some settings, given its evaluation
under the most lenient ones. -/
structure Request.Judged (request : Request) (settings : Settings) (lenient : Evaluation)
    (outcome : Outcome) : Prop where
  keeps_request : outcome.request = request
  value_or_error : outcome.value.isSome = !outcome.error.isSome
  silent_error : outcome.error.isSome = true → outcome.diagnostics = []
  /-- Too many words are the reason if and only if there are too many, whatever the words are. -/
  tooLong_iff : ∀ count limit, outcome.error = some (Rejection.tooLong count limit).message ↔
    settings.maxTokens = some limit ∧ count = (expressionWords request.expression).length ∧
      limit < count
  /-- A malformed word is the reason if and only if none may be reported and one would be. -/
  malformed_iff : (∃ word, outcome.error = some (Rejection.malformed word).message) ↔
    ¬ settings.IsExceededBy (expressionWords request.expression) ∧
      settings.strictTokens = true ∧ lenient.ReportsMalformed
  /-- The word that the reason names is the one reported first. -/
  names_first : ∀ word, outcome.error = some (Rejection.malformed word).message →
    ∃ first, lenient.diagnostics.find? (·.kind = .malformedToken) = some first ∧
      (expressionWords request.expression)[first.position]? = some word
  accepted : ¬ settings.IsExceededBy (expressionWords request.expression) →
    ¬ (settings.strictTokens = true ∧ lenient.ReportsMalformed) →
      outcome.error = none ∧ outcome.value = some lenient.value ∧
        outcome.diagnostics = lenient.diagnostics

variable {request : Request}

theorem outcome_of_ok {evaluation : Evaluation}
    (h : evaluate request.expression settings = .ok evaluation) :
    request.outcome settings =
      ⟨request, some evaluation.value, evaluation.diagnostics, none⟩ := by
  unfold Request.outcome
  rw [h]

theorem outcome_of_error {rejection : Rejection}
    (h : evaluate request.expression settings = .error rejection) :
    request.outcome settings = ⟨request, none, [], some rejection.message⟩ := by
  unfold Request.outcome
  rw [h]

theorem judged_tooLong {limit : Nat} (hlimit : settings.maxTokens = some limit)
    (hexceeded : limit < (expressionWords request.expression).length) :
    request.Judged settings lenient (request.outcome settings) := by
  have hbound : settings.IsExceededBy (expressionWords request.expression) :=
    ⟨limit, hlimit, hexceeded⟩
  rw [outcome_of_error (evaluate_of_exceeded hlimit hexceeded)]
  refine ⟨rfl, rfl, fun _ => rfl, ?_, ?_, ?_, fun hnot => absurd hbound hnot⟩
  · intro count other
    constructor
    · intro herror
      obtain ⟨rfl, rfl⟩ := Rejection.tooLong_of_message (Option.some.inj herror)
      exact ⟨hlimit, rfl, hexceeded⟩
    · rintro ⟨hother, rfl, -⟩
      obtain rfl := Option.some.inj (hlimit.symm.trans hother)
      rfl
  · constructor
    · rintro ⟨word, herror⟩
      exact absurd (Option.some.inj herror).symm (Rejection.malformed_ne_tooLong word _ _)
    · rintro ⟨hnot, -⟩
      exact absurd hbound hnot
  · intro word herror
    exact absurd (Option.some.inj herror).symm (Rejection.malformed_ne_tooLong word _ _)

theorem judged_malformed {first : Diagnostic} {word : String}
    (hbound : ¬ settings.IsExceededBy (expressionWords request.expression))
    (hstrict : settings.strictTokens = true) (hreports : lenient.ReportsMalformed)
    (hfirst : lenient.diagnostics.find? (·.kind = .malformedToken) = some first)
    (hword : (expressionWords request.expression)[first.position]? = some word)
    (h : evaluate request.expression settings = .error (.malformed word)) :
    request.Judged settings lenient (request.outcome settings) := by
  rw [outcome_of_error h]
  refine ⟨rfl, rfl, fun _ => rfl, ?_, ⟨fun _ => ⟨hbound, hstrict, hreports⟩, fun _ => ⟨word, rfl⟩⟩,
    ?_, fun _ hnot => absurd ⟨hstrict, hreports⟩ hnot⟩
  · intro count limit
    constructor
    · intro herror
      exact absurd (Option.some.inj herror) (Rejection.malformed_ne_tooLong word count limit)
    · rintro ⟨hlimit, rfl, hexceeded⟩
      exact absurd ⟨limit, hlimit, hexceeded⟩ hbound
  · intro other herror
    obtain rfl := Rejection.malformed_of_message (Option.some.inj herror)
    exact ⟨first, hfirst, hword⟩

theorem judged_accepted
    (hbound : ¬ settings.IsExceededBy (expressionWords request.expression))
    (haccepted : ¬ (settings.strictTokens = true ∧ lenient.ReportsMalformed))
    (h : evaluate request.expression settings = .ok lenient) :
    request.Judged settings lenient (request.outcome settings) := by
  rw [outcome_of_ok h]
  refine ⟨rfl, rfl, nofun, ?_, ?_, nofun, fun _ _ => ⟨rfl, rfl, rfl⟩⟩
  · intro count limit
    refine ⟨nofun, ?_⟩
    rintro ⟨hlimit, rfl, hexceeded⟩
    exact absurd ⟨limit, hlimit, hexceeded⟩ hbound
  · refine ⟨nofun, ?_⟩
    rintro ⟨-, hmalformed⟩
    exact absurd hmalformed haccepted

/-- **A request is judged by its most lenient evaluation.**  It is rejected for too many words, and
otherwise for the word that this evaluation reports as malformed first if that is not allowed; in
every other case it has the value and the diagnostics of this evaluation. -/
theorem request_judged (request : Request) (settings : Settings) :
    ∃ lenient,
      evaluate request.expression { strictTokens := false, maxTokens := none } = .ok lenient ∧
        request.Judged settings lenient (request.outcome settings) := by
  obtain ⟨lenient, hlenient⟩ := exists_lenient request.expression
  refine ⟨lenient, hlenient, ?_⟩
  by_cases hbound : settings.IsExceededBy (expressionWords request.expression)
  · obtain ⟨limit, hlimit, hexceeded⟩ := hbound
    exact judged_tooLong hlimit hexceeded
  by_cases hmalformed : settings.strictTokens = true ∧ lenient.ReportsMalformed
  · obtain ⟨hstrict, hreports⟩ := hmalformed
    obtain ⟨first, word, hfirst, hword, h⟩ :=
      evaluate_eq_malformed hlenient hbound hstrict hreports
    exact judged_malformed hbound hstrict hreports hfirst hword h
  · exact judged_accepted hbound hmalformed (evaluate_eq_lenient hlenient hbound hmalformed)

end Batch

end InfixCalculator
