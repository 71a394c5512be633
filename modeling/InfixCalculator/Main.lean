import InfixCalculator.CommandLine.Run

/-!
# The command-line program

Reads the target of the command line, if it is a file, and carries out the effect of
the run.  Archives are not unpacked here, so a file with the name of one counts as
damaged.
-/

open InfixCalculator

/-- How to call the program. -/
def usage : String :=
  "usage: infix-calculator [-h] [-e] [--strict] [--max-tokens MAX_TOKENS] [--workers WORKERS] target"

/-- What a path leads to, as far as it can be read. -/
def lookAt (path : String) : IO File.Found := do
  try return .file ⟨(← IO.FS.readBinFile path).toList, none⟩
  catch _ => return .nothing

def main (arguments : List String) : IO UInt32 := do
  match CommandLine.parse arguments with
  | .error stop =>
    IO.eprintln usage
    return UInt32.ofNat stop.status
  | .ok options =>
    let target := Path.ofChars options.target.toList
    let found ← lookAt options.target
    match CommandLine.runOptions (fun path => if path = target then found else .nothing) options with
    | .error (.stopped stop) =>
      IO.eprintln usage
      return UInt32.ofNat stop.status
    | .error (.unreadable error) =>
      IO.eprintln error.message
      return 1
    | .error (.blocked obstacle path) =>
      IO.eprintln (obstacle.message path)
      return 1
    | .ok effect =>
      match effect.report with
      | none => pure ()
      | some (path, text) => IO.FS.writeFile path.text text
      IO.print effect.output
      IO.eprint effect.errors
      return UInt32.ofNat effect.status
