import InfixCalculator.Path

/-!
# Files

A file holds bytes.  Those of an archive also have members under names of their own;
an archive is represented by its members here.  A member is what the format of its
archive tells of it, so that a link may be told as a file or not.

A path leads to a file, to a directory or to nothing (`Found`), unless one of its
names is too long to be followed.  What keeps a file from being read or written is an
`Obstacle`.
-/

namespace InfixCalculator.File

/-- A member as its archive tells it. -/
structure Member where
  name : String
  /-- The bytes of a file.  A directory has none.  A link has its target for bytes in the formats
  that do not tell it from a file, and else none. -/
  content : Option (List UInt8)

/-- The path that the name of a member is taken for. -/
def Member.path (member : Member) : Path :=
  Path.ofChars member.name.toList

/-- What a file holds. -/
structure Content where
  bytes : List UInt8
  /-- The members, if the bytes are an archive of the format that the file's name says. -/
  members : Option (List Member) := none

/-- What a path leads to. -/
inductive Found where
  | file (content : Content)
  | directory
  | nothing
  | nameTooLong

/-- What makes a folder of the members of an archive and tells what paths lead to there, if they can be
unpacked at all. -/
abbrev Unpacker := List Member → Option (Path → Found)

/-- What paths lead to in the folder that an archive is unpacked in. -/
def Content.scratch (content : Content) (unpack : Unpacker) : Option (Path → Found) :=
  content.members.bind unpack

/-- What keeps a file from being read or written. -/
inductive Obstacle where
  | isDirectory
  | nameTooLong
deriving DecidableEq

/-- An obstacle on a path in words. -/
def Obstacle.message (obstacle : Obstacle) (path : Path) : String :=
  (match obstacle with
  | isDirectory => "[Errno 21] Is a directory: "
  | nameTooLong => "[Errno 36] File name too long: ") ++ Text.quote path.text

/-- The bytes that are read where a path leads. -/
def Found.bytes? : Found → Option (List UInt8)
  | file content => some content.bytes
  | _ => none

/-- What keeps a file from being written where a path leads. -/
def Found.obstacle? : Found → Option Obstacle
  | directory => some .isDirectory
  | nameTooLong => some .nameTooLong
  | file _ => none
  | nothing => none

end InfixCalculator.File
