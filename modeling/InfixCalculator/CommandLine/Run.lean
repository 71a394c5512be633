import InfixCalculator.Batch.Report
import InfixCalculator.Batch.Source
import InfixCalculator.CommandLine.Arguments

/-!
# Runs of the command line

A run evaluates one expression and prints its value, or evaluates the expressions of
a file, writes the report beside it and prints where.  What it does is a value,
`Effect`: an exit status, the texts of both output streams, and the report to write,
if any.  Files are seen only through the function that tells what a path leads to,
and archives are unpacked by an `Unpacker`.
What is logged on the way is left out: the logger writes its records to the error
stream as well, those on an evaluation before the lines that are printed about it.

An expression or a source that is refused ends with status one and a line on the
error stream, and so does a report with rejected expressions, without that line.
Arguments that cannot be used end with status two.  A run that cannot be carried out,
since a file is damaged or an `Obstacle` is in its way, has no effect at all: `Halt`.
-/

namespace InfixCalculator.CommandLine

open File (Content Found Obstacle Unpacker)

/-- What a run does. -/
structure Effect where
  status : Nat
  output : String := ""
  /-- What is printed on the error stream, without the records of the logger. -/
  errors : String := ""
  /-- The report and the path that it is written to. -/
  report : Option (Path × String) := none

/-- Why a run comes to no effect. -/
inductive Halt where
  /-- Help was asked for, or the arguments cannot be used; usage is shown. -/
  | stopped (stop : Stop)
  /-- A file is no archive although its name says so, or cannot be read at all. -/
  | unreadable (error : Batch.SourceError)
  /-- The target cannot be looked at, or the report cannot be written. -/
  | blocked (obstacle : Obstacle) (path : Path)

/-- The settings that options ask for; a limit has to be a positive number. -/
def Options.settings? (options : Options) : Option Settings :=
  match options.maxTokens with
  | .absent => some ⟨options.strict, none⟩
  | .blank => none
  | .number limit => if limit < 1 then none else some ⟨options.strict, some limit.toNat⟩

/-- Whether a number of workers can be used. -/
def Options.hasWorkers (options : Options) : Bool :=
  match options.workers with
  | .absent => true
  | .blank => false
  | .number workers => 1 ≤ workers

/-- Some lines, each with its end. -/
def linesText (lines : List String) : String :=
  String.join (lines.map (· ++ "\n"))

/-- The effect of a refusal. -/
def refusal (message : String) : Effect :=
  { status := 1, errors := linesText ["error: " ++ message] }

/-- Evaluates an expression. -/
def runExpression (expression : String) (settings : Settings) : Effect :=
  match evaluate expression settings with
  | .error rejection => refusal rejection.message
  | .ok evaluation =>
    { status := 0
      output := linesText [Decimal.plainText evaluation.value]
      errors := linesText (evaluation.diagnostics.map fun d => "  " ++ d.text) }

/-- The effect of a report that is written to a path. -/
def reportEffect (path : Path) (report : Batch.Report) : Effect :=
  { status := if report.errors = 0 then 0 else 1
    output := linesText [path.text, report.summary]
    report := some (path, report.text) }

/-- Whether an error of a source is reported in words; any other one halts the run. -/
def isReported : Batch.SourceError → Bool
  | .unsupported _ => true
  | .noTextMember _ => true
  | .malformedText _ => true
  | .notAnArchive _ => false
  | .directoryMember _ => false

/-- Writes a report to a path, unless something is in the way. -/
def writeReport (find : Path → Found) (path : Path) (report : Batch.Report) :
    Except Halt Effect :=
  match (find path).obstacle? with
  | some obstacle => .error (.blocked obstacle path)
  | none => .ok (reportEffect path report)

/-- Evaluates the expressions of a file. -/
def runFile (find : Path → Found) (path : Path) (content : Content) (settings : Settings)
    (unpack : Unpacker := File.unpacked) : Except Halt Effect :=
  match Batch.documentsIn (content.scratch unpack) path.name content with
  | .error error =>
    if isReported error then .ok (refusal error.message) else .error (.unreadable error)
  | .ok found =>
    match path.reportPath? with
    | none => .ok (refusal path.namelessMessage)
    | some target =>
      writeReport find target (Batch.run settings (Batch.documentRequests found))

/-- Does what options ask for. -/
def runOptions (find : Path → Found) (options : Options)
    (unpack : Unpacker := File.unpacked) : Except Halt Effect :=
  match options.settings? with
  | none => .error (.stopped .usage)
  | some settings =>
    if options.expression then .ok (runExpression options.target settings)
    else
      let path := Path.ofChars options.target.toList
      match find path with
      | .nameTooLong => .error (.blocked .nameTooLong path)
      | .directory => .error (.stopped .usage)
      | .nothing => .error (.stopped .usage)
      | .file content =>
        if options.hasWorkers then runFile find path content settings unpack
        else .error (.stopped .usage)

/-- Does what arguments ask for. -/
def run (find : Path → Found) (arguments : List String)
    (unpack : Unpacker := File.unpacked) : Except Halt Effect :=
  match parse arguments with
  | .error stop => .error (.stopped stop)
  | .ok options => runOptions find options unpack

/-- The exit status of arguments that ask for no work. -/
def Stop.status : Stop → Nat
  | help => 0
  | usage => 2

end InfixCalculator.CommandLine
