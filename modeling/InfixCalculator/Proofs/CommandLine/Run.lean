import InfixCalculator.CommandLine.Run

/-!
# Runs with usable arguments

What a run does once its arguments are read: `run_eq_runExpression` for the target that is an
expression, `run_eq_runFile` for the target that is a file.
-/

namespace InfixCalculator.CommandLine

open File (Content Found Unpacker)

variable {find : Path → Found} {arguments : List String} {options : Options} {settings : Settings}
  {path : Path} {content : Content} {unpack : Unpacker}

/-- Options that ask for the expressions of a file under some settings. -/
structure Options.NamesFile (options : Options) (find : Path → Found) (path : Path)
    (content : Content) (settings : Settings) : Prop where
  no_expression : options.expression = false
  settings_eq : options.settings? = some settings
  workers : options.hasWorkers = true
  path_eq : Path.ofChars options.target.toList = path
  found : find path = .file content

theorem run_eq_runOptions (h : parse arguments = .ok options) :
    run find arguments unpack = runOptions find options unpack := by
  rw [run, h]

theorem run_eq_runExpression (h : parse arguments = .ok options)
    (hexpression : options.expression = true) (hsettings : options.settings? = some settings) :
    run find arguments unpack = .ok (runExpression options.target settings) := by
  rw [run_eq_runOptions h, runOptions]
  simp only [hsettings, hexpression, if_true]

theorem run_eq_runFile (h : parse arguments = .ok options)
    (hfile : options.NamesFile find path content settings) :
    run find arguments unpack = runFile find path content settings unpack := by
  rw [run_eq_runOptions h, runOptions]
  simp only [hfile.settings_eq, hfile.no_expression, hfile.path_eq, hfile.found, hfile.workers,
    if_true, Bool.false_eq_true, if_false]

theorem linesText_nil : linesText [] = "" := rfl

theorem linesText_cons (line : String) (lines : List String) :
    linesText (line :: lines) = line ++ "\n" ++ linesText lines := by
  simp only [linesText, List.map_cons, String.join_cons]

/-- The effect of a refusal in full. -/
theorem refusal_eq (message : String) :
    refusal message = ⟨1, "", "error: " ++ message ++ "\n", none⟩ := by
  rw [refusal, linesText_cons, linesText_nil, String.append_empty]

end InfixCalculator.CommandLine
