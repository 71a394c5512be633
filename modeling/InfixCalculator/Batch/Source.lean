import InfixCalculator.Batch.Request
import InfixCalculator.Decimal.Text
import InfixCalculator.File.Unpacking

/-!
# Sources of expressions

A source is a text file, or an archive of text files in one of three formats; the
suffixes of its name tell which.  Of an archive every member is read whose name ends
in `.txt`, in the order of the code points of the names, and its document is called
by the archive and the member.

The formats differ in small ways.  A zip archive knows a member by its name alone,
so that the last of several members of one name stands for all of them, and the name
of a directory ends with a slash.  A tar archive tells directories from files and
keeps members of one name apart.  A 7z archive is unpacked into a scratch folder, where
its members are read back: a name is taken for a path there, and as from a text file
all line ends are read as `\n`.

What a scratch folder holds is a parameter of what is read (`documentsIn`), since it is
up to whatever unpacks the archive; `documents` reads what `File.unpacked` says.
-/

namespace InfixCalculator.Batch

open File (Content Found Member)

/-- The formats of archives. -/
inductive Archive where
  | zip | tarXz | sevenZip
deriving DecidableEq

/-- Why a source cannot be read. -/
inductive SourceError where
  | unsupported (suffix : String)
  | noTextMember (archive : Archive)
  | notAnArchive (archive : Archive)
  | malformedText (fault : Utf8.Malformed)
  /-- There is no file to read back under the name of a member, such as that of a directory. -/
  | directoryMember (name : String)

/-! ## Errors in words -/

/-- The name of a format in messages. -/
def Archive.name : Archive → String
  | zip => "zip"
  | tarXz => "tar.xz"
  | sevenZip => "7z"

/-- What is said of bytes that are not an archive. -/
def Archive.invalidMessage : Archive → String
  | zip => "File is not a zip file"
  | tarXz => "not an lzma file"
  | sevenZip => "not a 7z file"

/-- A reason in words. -/
def reasonText : Utf8.Reason → String
  | .invalidStart => "invalid start byte"
  | .invalidContinuation => "invalid continuation byte"
  | .unexpectedEnd => "unexpected end of data"

/-- The place of a sequence of bytes: the byte itself if there is only one. -/
def placeText (fault : Utf8.Malformed) : String :=
  if fault.length = 1 then
    "byte 0x" ++ String.ofList (Text.hex 2 fault.first.toNat) ++ " in position " ++
      Decimal.natText fault.position
  else
    "bytes in position " ++ Decimal.natText fault.position ++ "-" ++
      Decimal.natText (fault.position + fault.length - 1)

/-- The reason in words. -/
def SourceError.message : SourceError → String
  | unsupported suffix => "📄❌ Unsupported source format: " ++ suffix
  | noTextMember archive => "📄❌ No .txt file found in " ++ archive.name ++ " archive"
  | notAnArchive archive => archive.invalidMessage
  | malformedText fault =>
    "'utf-8' codec can't decode " ++ placeText fault ++ ": " ++ reasonText fault.reason
  | directoryMember name => "[Errno 21] Is a directory: " ++ Text.quote name

/-! ## Members of archives -/

/-- Whether a name is that of a text file. -/
def isTextName (name : String) : Bool :=
  ".txt".toList.isSuffixOf name.toList

/-- A member under the name that its archive lists it by. -/
def Archive.listed (archive : Archive) (member : Member) : Member :=
  match archive, member.content with
  | zip, none => { member with name := member.name ++ "/" }
  | _, _ => member

/-- Whether a listed member is read. -/
def Archive.reads (archive : Archive) (member : Member) : Bool :=
  isTextName member.name && (archive ≠ tarXz || member.content.isSome)

/-- The content that an archive yields for a listed member.  The scratch folder is what paths lead to
where the archive is unpacked, if it can be. -/
def Archive.contentOf (archive : Archive) (scratch : Option (Path → Found)) (members : List Member)
    (member : Member) : Option (List UInt8) :=
  match archive with
  | zip => (members.reverse.find? (·.name = member.name)).bind (·.content)
  | tarXz => member.content
  | sevenZip => scratch.bind fun find => (find member.path).bytes?

/-- The members that are read, in the order of their names, with the content that each yields. -/
def Archive.textMembers (archive : Archive) (scratch : Option (Path → Found))
    (members : List Member) : List Member :=
  let listed := members.map archive.listed
  ((listed.filter archive.reads).mergeSort fun a b => a.name ≤ b.name).map fun member =>
    { member with content := archive.contentOf scratch listed member }

/-! ## Documents -/

/-- A text with the name that requests refer to it by. -/
structure Document where
  name : String
  text : String

/-- Reads bytes as text, keeping its line ends or making all of them `\n`. -/
def readText (unify : Bool) (bytes : List UInt8) : Except SourceError String :=
  match Utf8.decode bytes with
  | .error fault => .error (.malformedText fault)
  | .ok text => .ok (String.ofList (if unify then Text.unifyBreaks text else text))

/-- The document of a member that is read. -/
def Archive.document (archive : Archive) (file : String) (member : Member) :
    Except SourceError Document :=
  match member.content with
  | none => .error (.directoryMember member.name)
  | some bytes => (readText (archive = sevenZip) bytes).map (Document.mk (file ++ ":" ++ member.name))

/-- The documents of an archive. -/
def Archive.documents (archive : Archive) (scratch : Option (Path → Found)) (file : String)
    (content : Content) : Except SourceError (List Document) :=
  match content.members with
  | none => .error (.notAnArchive archive)
  | some members =>
    match archive.textMembers scratch members with
    | [] => .error (.noTextMember archive)
    | found => found.mapM (archive.document file)

/-- The document of a text file. -/
def textDocuments (file : String) (content : Content) : Except SourceError (List Document) :=
  (readText true content.bytes).map fun text => [⟨file, text⟩]

/-- The documents of a file with a name, by way of a scratch folder if it is to be unpacked. -/
def documentsIn (scratch : Option (Path → Found)) (name : List Char) (content : Content) :
    Except SourceError (List Document) :=
  let file := String.ofList name
  let suffixes := Path.suffixes name
  if Path.suffix name = ".txt".toList then textDocuments file content
  else if Path.suffix name = ".zip".toList then Archive.zip.documents scratch file content
  else if suffixes.drop (suffixes.length - 2) = ["tar".toList, "xz".toList] then
    Archive.tarXz.documents scratch file content
  else if Path.suffix name = ".7z".toList then Archive.sevenZip.documents scratch file content
  else .error (.unsupported (String.ofList (Path.suffix name)))

/-- The documents of a file with a name. -/
def documents (name : List Char) (content : Content) : Except SourceError (List Document) :=
  documentsIn (content.scratch File.unpacked) name content

/-- The requests in documents, in their order. -/
def documentRequests (found : List Document) : List Request :=
  found.flatMap fun document => requests document.text document.name

end InfixCalculator.Batch
