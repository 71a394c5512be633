import InfixCalculator.Text.Digit

/-!
# Command-line arguments

There is one positional argument, the target, and there are five options.  A long
option may be shortened as long as it stays unique, and its value follows as the next
argument or after `=`.  Short options may share a dash, also with `=` after the first
of them.  The argument `--` ends the options, so that what follows is positional; as
the value of an option it stands for no number.

An argument with a dash in front that is no option is positional only if it looks
like a negative number, holds a space, or is the dash itself.

Arguments are taken in order, and the first problem counts: help asked for before
it is still given.  What is left over makes the arguments unusable in the end.
-/

namespace InfixCalculator.CommandLine

/-- The options. -/
inductive Flag where
  | help | expression | strict | maxTokens | workers
deriving DecidableEq

namespace Flag

/-- Whether a value belongs to an option. -/
def takesValue : Flag → Bool
  | maxTokens => true
  | workers => true
  | _ => false

/-- The spellings of the options. -/
def spellings : List (List Char × Flag) :=
  [("-h".toList, help), ("--help".toList, help), ("-e".toList, expression),
    ("--expression".toList, expression), ("--strict".toList, strict),
    ("--max-tokens".toList, maxTokens), ("--workers".toList, workers)]

/-- The option with a spelling. -/
def ofSpelling? (text : List Char) : Option Flag :=
  spellings.lookup text

end Flag

/-- The number that belongs to an option. -/
inductive Amount where
  /-- The option is not given. -/
  | absent
  /-- The option is given, with `--` in the place of a number. -/
  | blank
  | number (value : Int)
deriving DecidableEq

/-- What the arguments ask for. -/
structure Options where
  target : String
  /-- Whether the target is an expression and not a file. -/
  expression : Bool := false
  strict : Bool := false
  maxTokens : Amount := .absent
  workers : Amount := .absent

/-- Why the arguments ask for no work. -/
inductive Stop where
  | help
  | usage
deriving DecidableEq

/-! ## The kind of each argument -/

/-- How an argument is taken. -/
inductive Argument where
  | positional (text : String)
  /-- An option, whether it is a long one, and the text attached to it. -/
  | option (flag : Flag) (long : Bool) (attached : Option (List Char))
  | unknown
  /-- The end of the options. -/
  | terminator

/-- A text before its first `=` and after it, if it has one. -/
def splitValue (text : List Char) : List Char × Option (List Char) :=
  match text.dropWhile (· ≠ '=') with
  | [] => (text, none)
  | _ :: value => (text.takeWhile (· ≠ '='), some value)

/-- The options that a text may mean which is not the spelling of one. -/
def candidates (text : List Char) : List Argument :=
  match text with
  | '-' :: '-' :: _ =>
    let (name, value) := splitValue text
    (Flag.spellings.filter fun (spelling, _) => name.isPrefixOf spelling).map fun (_, flag) =>
      .option flag true value
  | _ =>
    match Flag.ofSpelling? (text.take 2) with
    | some flag => [.option flag false (some (text.drop 2))]
    | none => []

/-- Whether a text is a dash and digits, or a dash, digits, a point and more digits; a line feed may
end it. -/
def looksNegative (text : List Char) : Bool :=
  let isDigit := fun c => (Text.digitValue? c).isSome
  let body := if text.getLast? = some '\n' then text.dropLast else text
  match body with
  | '-' :: digits =>
    match digits.dropWhile isDigit with
    | [] => digits ≠ []
    | '.' :: fraction => fraction ≠ [] && fraction.all isDigit
    | _ => false
  | _ => false

/-- Whether a spelling has two dashes. -/
def isLong (spelling : List Char) : Bool :=
  "--".toList.isPrefixOf spelling

/-- How an argument before the terminator is taken; it may be ambiguous. -/
def classify (text : String) : Except Stop Argument :=
  let chars := text.toList
  match chars with
  | '-' :: _ :: _ =>
    match Flag.ofSpelling? chars with
    | some flag => .ok (.option flag (isLong chars) none)
    | none =>
      let (name, value) := splitValue chars
      match Flag.ofSpelling? name, value with
      | some flag, some value => .ok (.option flag (isLong name) (some value))
      | _, _ =>
        match candidates chars with
        | [argument] => .ok argument
        | _ :: _ :: _ => .error .usage
        | [] =>
          if looksNegative chars || chars.contains ' ' then .ok (.positional text)
          else .ok .unknown
  | _ => .ok (.positional text)

/-- How all arguments are taken. -/
def classifyAll : List String → Except Stop (List Argument)
  | [] => .ok []
  | "--" :: rest => .ok (.terminator :: rest.map .positional)
  | text :: rest => do
    let argument ← classify text
    return argument :: (← classifyAll rest)

/-! ## Taking the arguments in order -/

/-- What the arguments so far ask for. -/
structure Progress where
  target : Option String := none
  expression : Bool := false
  strict : Bool := false
  maxTokens : Amount := .absent
  workers : Amount := .absent
  /-- Whether an argument was left over. -/
  leftOver : Bool := false

namespace Progress

/-- Takes an option without a value. -/
def turnOn (flag : Flag) (p : Progress) : Except Stop Progress :=
  match flag with
  | .help => .error .help
  | .expression => .ok { p with expression := true }
  | .strict => .ok { p with strict := true }
  | _ => .ok p

/-- The number that a text gives an option. -/
def amount? (text : List Char) : Option Amount :=
  if text = "--".toList then some .blank else (Text.whole? text).map .number

/-- Takes an option with its value, which has to be a whole number. -/
def assign (flag : Flag) (value : List Char) (p : Progress) : Except Stop Progress :=
  match amount? value with
  | none => .error .usage
  | some amount =>
    match flag with
    | .maxTokens => .ok { p with maxTokens := amount }
    | .workers => .ok { p with workers := amount }
    | _ => .ok p

/-- The options that characters behind a dash stand for, if all of them do. -/
def cluster? (letters : List Char) : Option (List Flag) :=
  letters.mapM fun letter => Flag.ofSpelling? ['-', letter]

/-- Takes an option and those that share its dash. -/
def turnOnAll (first : Flag) (letters : List Char) (p : Progress) : Except Stop Progress :=
  match cluster? letters with
  | none => .error .usage
  | some flags => (first :: flags).foldlM (fun p flag => p.turnOn flag) p

/-- Takes an option that has a text attached. -/
def takeAttached (flag : Flag) (long : Bool) (text : List Char) (p : Progress) :
    Except Stop Progress :=
  if flag.takesValue then p.assign flag text
  else if long || text = [] then .error .usage
  else p.turnOnAll flag text

/-- Takes arguments in order. -/
def takeAll : List Argument → Progress → Except Stop Progress
  | [], p => .ok p
  | .option flag long (some text) :: rest, p => do
    takeAll rest (← p.takeAttached flag long text)
  | .option flag _ none :: .positional value :: rest, p =>
    if flag.takesValue then do takeAll rest (← p.assign flag value.toList)
    else do takeAll (.positional value :: rest) (← p.turnOn flag)
  | .option flag _ none :: rest, p =>
    if flag.takesValue then .error .usage
    else do takeAll rest (← p.turnOn flag)
  | .unknown :: rest, p => takeAll rest { p with leftOver := true }
  | .positional text :: .terminator :: rest, p =>
    match p.target with
    | none => takeAll rest { p with target := some text }
    | some _ => takeAll rest { p with leftOver := true }
  | .positional text :: rest, p =>
    match p.target with
    | none => takeAll rest { p with target := some text }
    | some _ => takeAll rest { p with leftOver := true }
  | .terminator :: rest, p =>
    takeAll rest { p with leftOver := p.leftOver || p.target.isSome || rest.isEmpty }

end Progress

/-- Reads the arguments. -/
def parse (arguments : List String) : Except Stop Options := do
  let p ← Progress.takeAll (← classifyAll arguments) {}
  match p.target with
  | none => .error .usage
  | some target =>
    if p.leftOver then .error .usage
    else return ⟨target, p.expression, p.strict, p.maxTokens, p.workers⟩

end InfixCalculator.CommandLine
