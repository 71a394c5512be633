import InfixCalculator.Text.Piece
import InfixCalculator.Text.Quoted

/-!
# Paths

A path is a sequence of names that slashes separate.  Empty names and the name `.`
say nothing and are dropped; `..` is kept, since what it leads to depends on the
files.  A path that starts with a slash is absolute, and one that starts with exactly
two of them keeps both.

The *suffixes* of a name are what follows its dots, except the dots that it starts
with; a name that ends with a dot has none.  `Path.reportPath?` is where the report
on a file goes: beside it, under a name without dots that tells the old suffixes.
-/

namespace InfixCalculator

/-- A path without superfluous parts. -/
structure Path where
  /-- How many slashes it starts with: none, one or two. -/
  root : Nat
  names : List (List Char)
deriving DecidableEq

namespace Path

/-- How many slashes a path keeps of those that it starts with. -/
def rootOf (slashes : Nat) : Nat :=
  if slashes ≤ 2 then slashes else 1

/-- Reads a path. -/
def ofChars (text : List Char) : Path :=
  ⟨rootOf (text.takeWhile (· = '/')).length,
    (Text.pieces '/' text).filter fun name => name ≠ [] && name ≠ ['.']⟩

/-- The text of a path; one without names that is not absolute is a dot. -/
def toChars (path : Path) : List Char :=
  if path.root = 0 && path.names = [] then ['.']
  else List.replicate path.root '/' ++ ['/'].intercalate path.names

/-- The text of a path. -/
def text (path : Path) : String :=
  String.ofList path.toChars

/-- The last name, or nothing. -/
def name (path : Path) : List Char :=
  path.names.getLast?.getD []

/-! ## Names and suffixes -/

/-- The suffixes of a name, without their dots. -/
def suffixes (name : List Char) : List (List Char) :=
  if name.getLast? = some '.' then []
  else (Text.pieces '.' (name.dropWhile (· = '.'))).drop 1

/-- The last suffix with its dot, or nothing.  A dot at either end of the name starts none. -/
def suffix (name : List Char) : List Char :=
  match (Text.pieces '.' name).getLast? with
  | none => []
  | some last =>
    if last = [] || last.length + 1 ≥ name.length then [] else '.' :: last

/-- The part of a name before its first dot. -/
def stem (name : List Char) : List Char :=
  (Text.pieces '.' name).headD []

/-- The name of the report on a file. -/
def reportName (name : List Char) : List Char :=
  stem name ++ (suffixes name).flatMap ('_' :: ·) ++ "_results.txt".toList

/-- The path of the report on a file; a path without a name has none. -/
def reportPath? (path : Path) : Option Path :=
  if path.name = [] then none
  else some { path with names := path.names.dropLast ++ [reportName path.name] }

/-- What is said of a path without a name. -/
def namelessMessage (path : Path) : String :=
  "PosixPath(" ++ Text.quote path.text ++ ") has an empty name"

end Path

end InfixCalculator
