import InfixCalculator.File.Content
import InfixCalculator.Text.Utf8

/-!
# Trees of files

A tree holds the files below a working directory, each at its place, which is the
list of names that leads to it.  The directories are the working directory and the
places on the way to a file.

A path is followed name by name, and `..` leads back to the directory before.
Absolute paths and paths that leave the working directory lead nowhere, since the
directories outside hold nothing that is known.  Names and whole paths have a greatest
length in bytes.  A name beyond it is noticed when it is looked up, so only if the
names before it lead to a directory.
-/

namespace InfixCalculator.File

/-- The names that lead from the working directory to a file. -/
abbrev Place := List (List Char)

/-- The files below a working directory. -/
abbrev Tree := List (Place × Content)

namespace Tree

/-- Whether a place is a directory. -/
def isDirectory (tree : Tree) (place : Place) : Bool :=
  place = [] || tree.any fun (file, _) => place.isPrefixOf file && place ≠ file

/-- The most bytes of a name. -/
def nameLimit : Nat := 255

/-- The most bytes of a path. -/
def pathLimit : Nat := 4095

/-- Why a path leads to no place. -/
inductive Astray where
  | nowhere
  | tooLong
deriving DecidableEq

/-- Whether a name has more bytes than a name can have. -/
def isLong (name : List Char) : Bool :=
  nameLimit < (Utf8.encode name).length

/-- Why names that start outside of the working directory lead to no place. -/
def astray : List (List Char) → Astray
  | [] => .nowhere
  | name :: rest =>
    if name = "..".toList then astray rest
    else if isLong name then .tooLong
    else .nowhere

/-- The place that names lead to from a place.  It need not hold a file, but is in a directory. -/
def follow (tree : Tree) (here : Place) : List (List Char) → Except Astray Place
  | [] => .ok here
  | name :: rest =>
    if !tree.isDirectory here then .error .nowhere
    else if name = "..".toList then
      if here = [] then .error (astray rest) else follow tree here.dropLast rest
    else if isLong name then .error .tooLong
    else follow tree (here ++ [name]) rest

/-- The place that a path leads to. -/
def place (tree : Tree) (path : Path) : Except Astray Place :=
  if (Utf8.encode path.toChars).length > pathLimit then .error .tooLong
  else if path.root = 0 then tree.follow [] path.names
  else .error (astray path.names)

/-- What a path leads to. -/
def find (tree : Tree) (path : Path) : Found :=
  match tree.place path with
  | .error .tooLong => .nameTooLong
  | .error .nowhere => .nothing
  | .ok place =>
    match tree.lookup place with
    | some content => .file content
    | none => if tree.isDirectory place then .directory else .nothing

/-- Adds a file, in place of an earlier one. -/
def put (tree : Tree) (place : Place) (content : Content) : Tree :=
  (place, content) :: tree.filter fun (other, _) => other ≠ place

/-- The place of the file that is created or changed when bytes are written to a path. -/
def changed? (tree : Tree) (path : Path) (bytes : List UInt8) : Option Place :=
  match tree.place path with
  | .error _ => none
  | .ok place =>
    match tree.lookup place with
    | some content => if content.bytes = bytes then none else some place
    | none => some place

end Tree

end InfixCalculator.File
