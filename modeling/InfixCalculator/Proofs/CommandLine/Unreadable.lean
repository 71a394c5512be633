import InfixCalculator.Proofs.Batch.Container
import InfixCalculator.Proofs.CommandLine.Run

/-!
# Sources that cannot be read

`Unreadable` lists why the expressions of a file cannot be read: its name says no format, it is not
the archive that its name says, it holds no text, or some text of it is malformed.  Texts are read in
order, so that a malformed one counts whatever the texts before it are, but not behind a member that
is no file.

A run on such a file says why, ends with status one and writes nothing (`run_of_unreadable`).  The
exception is the file that is not the archive that its name says: it halts the run.
-/

namespace InfixCalculator.Batch

open File (Content Found Member)

/-- Bytes that are the written form of no text. -/
def IsMalformed (bytes : List UInt8) : Prop :=
  ∀ text : List Char, bytes ≠ Utf8.encode text

/-- Why the expressions of a file with a name cannot be read, by way of a scratch folder if it is to be
unpacked. -/
inductive Unreadable (scratch : Option (Path → Found)) (name : List Char) (content : Content) : Prop
  | unsupported (htext : ¬ IsTextFile name) (harchive : ∀ archive : Archive, ¬ archive.Named name)
  | malformedFile (hname : IsTextFile name) (hbytes : IsMalformed content.bytes)
  | notAnArchive (archive : Archive) (hname : archive.Named name) (hmembers : content.members = none)
  /-- All members with the names of texts are directories, which two of the formats tell from
  files. -/
  | noText (archive : Archive) (members : List Member) (hname : archive.Named name)
      (hmembers : content.members = some members)
      (hnone : ∀ member ∈ members, isTextName member.name = true →
        member.content = none ∧ archive ≠ .sevenZip)
  | malformedMember (archive : Archive) (members earlier later : List Member) (text : String)
      (bytes : List UInt8) (hname : archive.Named name) (hmembers : content.members = some members)
      (hread : archive.textMembers scratch members = earlier ++ ⟨text, some bytes⟩ :: later)
      (hearlier : ∀ member ∈ earlier, member.content.isSome = true) (hbytes : IsMalformed bytes)

variable {name : List Char} {content : Content} {bytes : List UInt8} {archive : Archive}
  {scratch : Option (Path → Found)}

/-! ## Malformed texts -/

theorem exists_fault (h : IsMalformed bytes) : ∃ fault, Utf8.decode bytes = .error fault := by
  cases hdecode : Utf8.decode bytes with
  | error fault => exact ⟨fault, rfl⟩
  | ok text => exact absurd (Utf8.decode_eq_ok_iff.1 hdecode) (h text)

theorem readText_of_malformed (unify : Bool) (h : IsMalformed bytes) :
    ∃ fault, readText unify bytes = .error (.malformedText fault) := by
  obtain ⟨fault, hfault⟩ := exists_fault h
  refine ⟨fault, ?_⟩
  rw [readText, hfault]

/-- A member that is a file gives a document or is malformed. -/
theorem document_of_isSome (file : String) {member : Member} (h : member.content.isSome = true) :
    (∃ document, archive.document file member = .ok document) ∨
      ∃ fault, archive.document file member = .error (.malformedText fault) := by
  obtain ⟨bytes, hbytes⟩ := Option.isSome_iff_exists.1 h
  rw [Archive.document]
  simp only [hbytes]
  cases hdecode : Utf8.decode bytes with
  | error fault => exact .inr ⟨fault, by rw [readText, hdecode]; rfl⟩
  | ok text => exact .inl ⟨_, by rw [readText, hdecode]; rfl⟩

theorem document_of_malformed (archive : Archive) (file text : String) (h : IsMalformed bytes) :
    ∃ fault, archive.document file ⟨text, some bytes⟩ = .error (.malformedText fault) := by
  obtain ⟨fault, hfault⟩ := readText_of_malformed (archive = .sevenZip) h
  refine ⟨fault, ?_⟩
  rw [Archive.document]
  simp only [hfault]
  rfl

/-- One malformed text keeps all documents of an archive from being read. -/
theorem mapM_document_of_malformed (archive : Archive) (file text : String)
    (earlier later : List Member) (hearlier : ∀ member ∈ earlier, member.content.isSome = true)
    (h : IsMalformed bytes) :
    ∃ fault, (earlier ++ ⟨text, some bytes⟩ :: later).mapM (archive.document file) =
      .error (.malformedText fault) := by
  induction earlier with
  | nil =>
      obtain ⟨fault, hfault⟩ := document_of_malformed archive file text h
      refine ⟨fault, ?_⟩
      rw [List.nil_append, List.mapM_cons, hfault]
      rfl
  | cons member earlier ih =>
      obtain ⟨hmember, hearlier⟩ := List.forall_mem_cons.1 hearlier
      rw [List.cons_append, List.mapM_cons]
      rcases document_of_isSome file hmember with ⟨document, hdocument⟩ | ⟨fault, hfault⟩
      · obtain ⟨fault, hfault⟩ := ih hearlier
        refine ⟨fault, ?_⟩
        rw [hdocument, hfault]
        rfl
      · refine ⟨fault, ?_⟩
        rw [hfault]
        rfl

/-! ## Archives without texts -/

theorem reads_listed_eq_false {member : Member}
    (h : isTextName member.name = true → member.content = none ∧ archive ≠ .sevenZip) :
    archive.reads (archive.listed member) = false := by
  rw [reads_listed]
  cases hname : isTextName member.name with
  | false => rfl
  | true =>
      obtain ⟨hnone, hformat⟩ := h hname
      rw [hnone, decide_eq_false hformat]
      rfl

theorem textMembers_eq_nil {members : List Member}
    (hnone : ∀ member ∈ members, isTextName member.name = true →
      member.content = none ∧ archive ≠ .sevenZip) :
    archive.textMembers scratch members = [] := by
  have hreads : (members.map archive.listed).filter archive.reads = [] := by
    rw [List.filter_eq_nil_iff]
    intro listed hlisted
    obtain ⟨member, hmember, rfl⟩ := List.mem_map.1 hlisted
    rw [reads_listed_eq_false (hnone member hmember)]
    exact Bool.false_ne_true
  simp only [Archive.textMembers, hreads, List.mergeSort_nil, List.map_nil]

/-! ## Reading fails -/

/-- A file with the name of an archive that is none. -/
def IsDamaged (name : List Char) (content : Content) : Prop :=
  (∃ archive : Archive, archive.Named name) ∧ content.members = none

theorem documentsIn_of_damaged (hname : archive.Named name) (hmembers : content.members = none) :
    documentsIn scratch name content = .error (.notAnArchive archive) := by
  rw [documentsIn_of_named hname, Archive.documents, hmembers]

/-- Reading a source that cannot be read fails with an error that is told in words, damaged archives
apart. -/
theorem documentsIn_of_unreadable (h : Unreadable scratch name content)
    (hdamaged : ¬ IsDamaged name content) :
    ∃ error, documentsIn scratch name content = .error error ∧
      CommandLine.isReported error = true := by
  cases h with
  | unsupported htext harchive =>
      exact ⟨_, documentsIn_of_unsupported htext harchive content, rfl⟩
  | malformedFile hname hbytes =>
      obtain ⟨fault, hfault⟩ := readText_of_malformed true hbytes
      refine ⟨.malformedText fault, ?_, rfl⟩
      rw [documentsIn_of_isTextFile hname, textDocuments, hfault]
      rfl
  | notAnArchive archive hname hmembers => exact absurd ⟨⟨archive, hname⟩, hmembers⟩ hdamaged
  | noText archive members hname hmembers hnone =>
      refine ⟨.noTextMember archive, ?_, rfl⟩
      rw [documentsIn_of_named hname, Archive.documents, hmembers]
      simp only [textMembers_eq_nil hnone]
  | malformedMember archive members earlier later text bytes hname hmembers hread hearlier hbytes =>
      obtain ⟨fault, hfault⟩ :=
        mapM_document_of_malformed archive (String.ofList name) text earlier later hearlier hbytes
      refine ⟨.malformedText fault, ?_, rfl⟩
      rw [documentsIn_of_named hname, Archive.documents, hmembers]
      simp only [hread]
      split
      · rename_i hnil
        simp at hnil
      · exact hfault

end InfixCalculator.Batch

namespace InfixCalculator.CommandLine

open File (Content Found Unpacker)

variable {find : Path → Found} {arguments : List String} {options : Options} {settings : Settings}
  {path : Path} {content : Content} {unpack : Unpacker}

/-- **A source that cannot be read is refused.**  The run ends with status one and a line that says
why, prints nothing else and writes no file, unless the source is a damaged archive: then the run
halts without an effect. -/
theorem run_of_unreadable (hparse : parse arguments = .ok options)
    (hfile : options.NamesFile find path content settings)
    (h : Batch.Unreadable (content.scratch unpack) path.name content) :
    (¬ Batch.IsDamaged path.name content → ∃ message,
        run find arguments unpack = .ok ⟨1, "", "error: " ++ message ++ "\n", none⟩) ∧
      ∀ archive : Batch.Archive, archive.Named path.name → content.members = none →
        run find arguments unpack = .error (.unreadable (.notAnArchive archive)) := by
  rw [run_eq_runFile hparse hfile, runFile]
  constructor
  · intro hdamaged
    obtain ⟨error, herror, hreported⟩ := Batch.documentsIn_of_unreadable h hdamaged
    refine ⟨error.message, ?_⟩
    simp only [herror, hreported, if_true, refusal_eq]
  · intro archive hname hmembers
    rw [Batch.documentsIn_of_damaged hname hmembers]
    rfl

/-- A text and bytes that are none. -/
def spoiledMembers : List File.Member :=
  [⟨"a.txt", some (Utf8.encode "1 + 2".toList)⟩, ⟨"b.txt", some [0xFF]⟩]

theorem run_spoiledArchive :
    parse ["x.7z"] = .ok ⟨"x.7z", false, false, .absent, .absent⟩ ∧
      Batch.Unreadable (File.unpacked spoiledMembers) "x.7z".toList ⟨[], some spoiledMembers⟩ ∧
      ∃ message, run (fun _ => .file ⟨[], some spoiledMembers⟩) ["x.7z"] =
        .ok ⟨1, "", "error: " ++ message ++ "\n", none⟩ := by
  have hparse : parse ["x.7z"] = .ok ⟨"x.7z", false, false, .absent, .absent⟩ := rfl
  have hread : Batch.Archive.sevenZip.textMembers (File.unpacked spoiledMembers) spoiledMembers =
      spoiledMembers := Batch.textMembers_of_sorted rfl (by decide)
  have hbytes : Batch.IsMalformed [0xFF] := by
    intro text htext
    have hlead : Utf8.lead? 0xFF = none := rfl
    have hdecode := Utf8.decode_eq_ok_iff.2 htext
    rw [Utf8.decode, Utf8.decodeFrom, hlead] at hdecode
    cases hdecode
  have hunreadable : Batch.Unreadable (Content.scratch ⟨[], some spoiledMembers⟩ File.unpacked)
      "x.7z".toList ⟨[], some spoiledMembers⟩ :=
    .malformedMember .sevenZip _ [⟨"a.txt", some (Utf8.encode "1 + 2".toList)⟩] [] "b.txt" [0xFF]
      ⟨['x'], by decide, rfl⟩ rfl hread (by simp) hbytes
  have hsound : ¬ Batch.IsDamaged "x.7z".toList ⟨[], some spoiledMembers⟩ := by
    rintro ⟨-, hnone⟩
    cases hnone
  refine ⟨hparse, hunreadable, ?_⟩
  exact (run_of_unreadable hparse ⟨rfl, rfl, rfl, rfl, rfl⟩ hunreadable).1 hsound

/-- A damaged archive cannot be read, and the run on it has no effect. -/
theorem run_damagedArchive :
    Batch.Unreadable none "a.zip".toList ⟨Utf8.encode "1".toList, none⟩ ∧
      ¬ ∃ effect, run (fun _ => .file ⟨Utf8.encode "1".toList, none⟩) ["a.zip", "--workers", "1"] =
        .ok effect := by
  refine ⟨.notAnArchive .zip ⟨['a'], by decide, rfl⟩ rfl, ?_⟩
  rintro ⟨effect, heffect⟩
  cases heffect

end InfixCalculator.CommandLine
