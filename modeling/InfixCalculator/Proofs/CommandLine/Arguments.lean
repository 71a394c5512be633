import InfixCalculator.Proofs.Batch.Rejection
import InfixCalculator.Proofs.CommandLine.Run
import InfixCalculator.Proofs.Text.Digit

/-!
# Arguments that differ in the mode

The option that makes the target an expression changes nothing else: in front of any arguments it
gives the options that these give alone, with this mode (`parse_expression`).

`Asks` says that arguments ask for settings, whatever target follows them, and `asks_arguments` that
settings can be asked for if their limit can be read.
-/

namespace InfixCalculator

namespace CommandLine

/-! ## The mode -/

namespace Progress

/-- The same progress where the target is to be an expression. -/
def asExpression (p : Progress) : Progress :=
  { p with expression := true }

theorem turnOn_asExpression (flag : Flag) (p : Progress) :
    p.asExpression.turnOn flag = (p.turnOn flag).map asExpression := by
  cases flag <;> rfl

theorem assign_asExpression (flag : Flag) (value : List Char) (p : Progress) :
    p.asExpression.assign flag value = (p.assign flag value).map asExpression := by
  unfold assign
  cases amount? value with
  | none => rfl
  | some amount => cases flag <;> rfl

theorem bind_asExpression {x y : Except Stop Progress} {f : Progress → Except Stop Progress}
    (h : y = x.map asExpression) (hf : ∀ p, f p.asExpression = (f p).map asExpression) :
    y >>= f = (x >>= f).map asExpression := by
  subst h
  cases x with
  | error stop => rfl
  | ok p => exact hf p

theorem foldlM_turnOn_asExpression (flags : List Flag) (p : Progress) :
    flags.foldlM (fun q flag => turnOn flag q) p.asExpression =
      (flags.foldlM (fun q flag => turnOn flag q) p).map asExpression := by
  induction flags generalizing p with
  | nil => rfl
  | cons flag flags ih =>
      rw [List.foldlM_cons, List.foldlM_cons]
      exact bind_asExpression (turnOn_asExpression flag p) ih

theorem takeAttached_asExpression (flag : Flag) (long : Bool) (text : List Char) (p : Progress) :
    p.asExpression.takeAttached flag long text =
      (p.takeAttached flag long text).map asExpression := by
  unfold takeAttached
  split
  · exact assign_asExpression flag text p
  · split
    · rfl
    · unfold turnOnAll
      cases cluster? text with
      | none => rfl
      | some flags => exact foldlM_turnOn_asExpression (flag :: flags) p

/-- Turning to expressions first changes nothing else that is taken from arguments. -/
theorem takeAll_asExpression (arguments : List Argument) (p : Progress) :
    takeAll arguments p.asExpression = (takeAll arguments p).map asExpression := by
  fun_induction takeAll arguments p with
  | case1 => rfl
  | case2 flag long text rest p ih =>
      rw [takeAll]
      exact bind_asExpression (takeAttached_asExpression flag long text p) ih
  | case3 flag long value rest p htakes ih =>
      rw [takeAll, if_pos htakes]
      exact bind_asExpression (assign_asExpression flag value.toList p) ih
  | case4 flag long value rest p htakes ih =>
      rw [takeAll, if_neg htakes]
      exact bind_asExpression (turnOn_asExpression flag p) ih
  | case5 flag long rest p hrest htakes =>
      rw [takeAll, if_pos htakes]
      · rfl
      · exact hrest
  | case6 flag long rest p hrest htakes ih =>
      rw [takeAll, if_neg htakes]
      · exact bind_asExpression (turnOn_asExpression flag p) ih
      · exact hrest
  | case7 rest p ih => exact ih
  | case8 text rest p htarget ih =>
      rw [takeAll]
      simp only [asExpression, htarget] at ih ⊢
      exact ih
  | case9 text rest p target htarget ih =>
      rw [takeAll]
      simp only [asExpression, htarget] at ih ⊢
      exact ih
  | case10 text rest p hrest htarget ih =>
      rw [takeAll]
      · simp only [asExpression, htarget] at ih ⊢
        exact ih
      · exact hrest
  | case11 text rest p hrest target htarget ih =>
      rw [takeAll]
      · simp only [asExpression, htarget] at ih ⊢
        exact ih
      · exact hrest
  | case12 rest p ih => exact ih

theorem takeAll_option {flag : Flag} (hflag : flag.takesValue = false) (long : Bool)
    (rest : List Argument) (p : Progress) :
    takeAll (.option flag long none :: rest) p = p.turnOn flag >>= takeAll rest := by
  have hvalue : ¬ flag.takesValue = true := by
    rw [hflag]
    exact Bool.false_ne_true
  by_cases hrest : ∃ value others, rest = .positional value :: others
  · obtain ⟨value, others, rfl⟩ := hrest
    rw [takeAll, if_neg hvalue]
  · rw [takeAll, if_neg hvalue]
    intro value others heq
    exact hrest ⟨value, others, heq⟩

end Progress

/-- The same options where the target is an expression. -/
def Options.asExpression (options : Options) : Options :=
  { options with expression := true }

theorem classifyAll_cons {text : String} {argument : Argument} (hne : text ≠ "--")
    (h : classify text = .ok argument) (rest : List String) :
    classifyAll (text :: rest) = (classifyAll rest).map (argument :: ·) := by
  rw [classifyAll, h]
  · cases classifyAll rest <;> rfl
  · exact hne

/-- The options that arguments ask for once all of them are taken. -/
def Progress.options (p : Progress) : Except Stop Options :=
  match p.target with
  | none => .error .usage
  | some target =>
    if p.leftOver then .error .usage
    else .ok ⟨target, p.expression, p.strict, p.maxTokens, p.workers⟩

/-- Reads arguments that follow others. -/
def parseFrom (p : Progress) (arguments : List String) : Except Stop Options :=
  classifyAll arguments >>= (Progress.takeAll · p) >>= Progress.options

theorem parse_eq_parseFrom (arguments : List String) :
    parse arguments = parseFrom {} arguments := by
  unfold parse parseFrom
  cases classifyAll arguments <;> rfl

/-- An option without a value is taken before what follows it. -/
theorem parseFrom_option {text : String} {flag : Flag} {long : Bool} {p next : Progress}
    (hne : text ≠ "--") (h : classify text = .ok (.option flag long none))
    (hflag : flag.takesValue = false) (hnext : p.turnOn flag = .ok next) (rest : List String) :
    parseFrom p (text :: rest) = parseFrom next rest := by
  rw [parseFrom, parseFrom, classifyAll_cons hne h]
  cases classifyAll rest with
  | error stop => rfl
  | ok taken =>
      show Progress.takeAll (.option flag long none :: taken) p >>= Progress.options =
        Progress.takeAll taken next >>= Progress.options
      rw [Progress.takeAll_option hflag, hnext]
      rfl

theorem Progress.options_asExpression (p : Progress) :
    p.asExpression.options = p.options.map Options.asExpression := by
  obtain ⟨target, expression, strict, maxTokens, workers, leftOver⟩ := p
  cases target with
  | none => rfl
  | some target => cases leftOver <;> rfl

theorem parseFrom_asExpression (p : Progress) (arguments : List String) :
    parseFrom p.asExpression arguments = (parseFrom p arguments).map Options.asExpression := by
  unfold parseFrom
  cases classifyAll arguments with
  | error stop => rfl
  | ok taken =>
      show Progress.takeAll taken p.asExpression >>= Progress.options =
        (Progress.takeAll taken p >>= Progress.options).map Options.asExpression
      rw [Progress.takeAll_asExpression]
      cases Progress.takeAll taken p with
      | error stop => rfl
      | ok p => exact p.options_asExpression

/-- The option for expressions in front of arguments changes nothing but the mode. -/
theorem parse_expression (arguments : List String) :
    parse ("-e" :: arguments) = (parse arguments).map Options.asExpression := by
  rw [parse_eq_parseFrom, parse_eq_parseFrom, ← parseFrom_asExpression]
  exact parseFrom_option (by decide) rfl rfl rfl arguments

/-! ## Settings -/

/-- Arguments ask for settings, whatever target follows them. -/
def Asks (given : List String) (settings : Settings) : Prop :=
  ∃ options : Options, options.expression = false ∧ options.hasWorkers = true ∧
    options.settings? = some settings ∧
      ∀ target, parse (given ++ ["--", target]) = .ok { options with target := target }

end CommandLine

namespace Settings

/-- Settings that can be asked for: a limit is positive and has no more digits than are read. -/
def CanBeGiven (settings : Settings) : Prop :=
  ∀ limit ∈ settings.maxTokens, 1 ≤ limit ∧ (Decimal.natText limit).toList.length ≤ Text.digitLimit

/-- Arguments for settings. -/
def arguments (settings : Settings) : List String :=
  (if settings.strictTokens then ["--strict"] else []) ++
    match settings.maxTokens with
    | none => []
    | some limit => ["--max-tokens", Decimal.natText limit]

end Settings

namespace CommandLine

variable {limit : Nat} {text : String}

/-- A number without a sign is no option. -/
theorem classify_of_allDigits (h : Literal.AllDigits text.toList) :
    classify text = .ok (.positional text) := by
  unfold classify
  dsimp only
  split
  · rename_i heq
    rw [heq] at h
    exact absurd rfl (Text.ne_of_isDigit (h '-' List.mem_cons_self)).2.1
  · rfl

theorem ne_terminator_of_allDigits (h : Literal.AllDigits text.toList) : text ≠ "--" := by
  rintro rfl
  exact absurd (h '-' (by decide)) (by decide)

theorem amount?_natText (h : (Decimal.natText limit).toList.length ≤ Text.digitLimit) :
    Progress.amount? (Decimal.natText limit).toList = some (.number limit) := by
  have hdigits := Decimal.allDigits_natText limit
  rw [Progress.amount?, if_neg, Text.whole?_eq (Decimal.natText_ne_nil limit) hdigits h,
    Decimal.ofDigits_natText]
  · rfl
  · intro heq
    exact ne_terminator_of_allDigits hdigits (String.toList_inj.1 heq)

/-- A limit is taken before what follows it. -/
theorem parseFrom_limit (h : (Decimal.natText limit).toList.length ≤ Text.digitLimit)
    (p : Progress) (rest : List String) :
    parseFrom p ("--max-tokens" :: Decimal.natText limit :: rest) =
      parseFrom { p with maxTokens := .number limit } rest := by
  have hdigits := Decimal.allDigits_natText limit
  rw [parseFrom, parseFrom, classifyAll_cons (by decide) rfl,
    classifyAll_cons (ne_terminator_of_allDigits hdigits) (classify_of_allDigits hdigits)]
  cases classifyAll rest with
  | error stop => rfl
  | ok taken =>
      have htaken : Progress.takeAll (.option .maxTokens true none ::
            .positional (Decimal.natText limit) :: taken) p =
          Progress.takeAll taken { p with maxTokens := .number limit } := by
        rw [Progress.takeAll, if_pos (show Flag.maxTokens.takesValue = true from rfl),
          Progress.assign, amount?_natText h]
        rfl
      exact congrArg (· >>= Progress.options) htaken

/-- Settings are asked for by their arguments. -/
theorem asks_arguments {settings : Settings} (h : settings.CanBeGiven) :
    Asks settings.arguments settings := by
  obtain ⟨strict, maxTokens⟩ := settings
  cases maxTokens with
  | none =>
      refine ⟨⟨"", false, strict, .absent, .absent⟩, rfl, rfl, rfl, fun target => ?_⟩
      cases strict <;> rfl
  | some limit =>
      obtain ⟨hpositive, hlength⟩ := h limit rfl
      refine ⟨⟨"", false, strict, .number limit, .absent⟩, rfl, rfl, ?_, fun target => ?_⟩
      · show (if (limit : Int) < 1 then none else some (⟨strict, some limit⟩ : Settings)) = _
        rw [if_neg (by omega)]
      · cases strict with
        | false =>
            calc parse ["--max-tokens", Decimal.natText limit, "--", target]
                = parseFrom {} ["--max-tokens", Decimal.natText limit, "--", target] :=
                  parse_eq_parseFrom _
              _ = parseFrom { maxTokens := .number limit } ["--", target] :=
                  parseFrom_limit hlength {} _
              _ = .ok ⟨target, false, false, .number limit, .absent⟩ := rfl
        | true =>
            calc parse ["--strict", "--max-tokens", Decimal.natText limit, "--", target]
                = parseFrom {} ["--strict", "--max-tokens", Decimal.natText limit, "--", target] :=
                  parse_eq_parseFrom _
              _ = parseFrom { strict := true } ["--max-tokens", Decimal.natText limit, "--", target] :=
                  parseFrom_option (by decide) rfl rfl rfl _
              _ = parseFrom { strict := true, maxTokens := .number limit } ["--", target] :=
                  parseFrom_limit hlength { strict := true } _
              _ = .ok ⟨target, false, true, .number limit, .absent⟩ := rfl

end CommandLine

end InfixCalculator
