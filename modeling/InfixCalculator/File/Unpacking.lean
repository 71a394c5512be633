import InfixCalculator.File.Tree

/-!
# Unpacking an archive

An archive is unpacked into an empty folder, as a tree of files.  A name is taken for a
path there, so that two members may lead to one place, which then holds the later of
them.  Only the first member of a name is unpacked under it.

An archive is unpacked as a whole or not at all: it is not if a name leads out of the
folder or is too long, or if a file is where a directory has to be.

There are files and directories here and no links: a member that is told without bytes
is unpacked as a directory.
-/

namespace InfixCalculator.File

namespace Tree

/-- The place that names lead to from a place, if it is not outside of the folder.  The directories on
the way need not be there. -/
def target? (here : Place) : List (List Char) → Option Place
  | [] => some here
  | name :: rest =>
    if name = "..".toList then
      if here = [] then none else target? here.dropLast rest
    else if isLong name then none
    else target? (here ++ [name]) rest

/-- Whether a file at a place leaves all other files reachable. -/
def hasRoom (tree : Tree) (place : Place) : Bool :=
  tree.all fun (other, _) => other = place || !(other.isPrefixOf place || place.isPrefixOf other)

/-- Puts a file at a place, if there is room for it. -/
def putIn? (tree : Tree) (place : Place) (bytes : List UInt8) : Option Tree :=
  if tree.hasRoom place then some (tree.put place ⟨bytes, none⟩) else none

/-- Unpacks a member.  A directory is kept by a file in it that no path leads to, since its name is
empty. -/
def add? (tree : Tree) (member : Member) : Option Tree :=
  if member.path.root = 0 then
    (target? [] member.path.names).bind fun place =>
      match member.content with
      | some bytes => tree.putIn? place bytes
      | none => tree.putIn? (place ++ [[]]) []
  else none

/-- Unpacks members, except those of names that were unpacked before. -/
def addAll? (tree : Tree) (names : List String) : List Member → Option Tree
  | [] => some tree
  | member :: rest =>
    if member.name ∈ names then tree.addAll? names rest
    else (tree.add? member).bind fun tree => tree.addAll? (member.name :: names) rest

end Tree

/-- Unpacks members into an empty folder. -/
def unpacked : Unpacker := fun members =>
  (Tree.addAll? [] [] members).map Tree.find

end InfixCalculator.File
