import InfixCalculator.Proofs.Batch.FileName
import InfixCalculator.Proofs.File.Unpacking
import InfixCalculator.Proofs.Results
import InfixCalculator.Proofs.Text.Line
import InfixCalculator.Proofs.Text.Utf8
import Mathlib.Data.List.Nodup
import Mathlib.Data.Set.List
import Mathlib.Data.String.Basic

/-!
# What a container adds

Where no two members of an archive share a name and every one with the name of a text file is a file
that holds a text, the formats read the same requests: those of the texts, in the order of the names
(`archives_agree`).  The formats differ in what they tell of a member, in what they list and in what
they yield for a name, but directories and links have other names and a name stands for one member, so
that all of them read the same members (`textMembers_eq`).  Only one of them unifies the line ends of
its texts, which moves no line (`exists_readText`).

That one reads its members back from a scratch folder, where names are paths.  There the names have to
lead to places of their own (`LeadApart`), and whatever unpacks the archive has to give every file
back under its name then (`GivesBack`).  Neither this nor the restriction on links can be dropped
(`not_archives_agree`).
-/

namespace InfixCalculator.Batch

open File (Content Found Member)

/-- What an archive stores under a name. -/
inductive Stored where
  | file (bytes : List UInt8)
  | directory
  | link (target : List UInt8)
deriving DecidableEq

/-- A member of an archive of any format. -/
structure Packed where
  name : String
  stored : Stored

/-- The path that the name of a member is taken for. -/
def Packed.path (packed : Packed) : Path :=
  Path.ofChars packed.name.toList

/-- What an archive tells of a member.  In a zip archive a link is not told from a file that holds the
target of the link. -/
def Archive.tells (archive : Archive) (packed : Packed) : Member :=
  match archive, packed.stored with
  | _, .file bytes => ⟨packed.name, some bytes⟩
  | zip, .link target => ⟨packed.name, some target⟩
  | _, _ => ⟨packed.name, none⟩

/-- A text as the member that a format tells it is. -/
def Document.member (document : Document) : Member :=
  ⟨document.name, some (Utf8.encode document.text.toList)⟩

/-- A text as the member of an archive. -/
def Document.packed (document : Document) : Packed :=
  ⟨document.name, .file (Utf8.encode document.text.toList)⟩

/-- Where expressions stand in texts: the name of the text, the line and the expression. -/
def entries (texts : List Document) : List (String × Nat × String) :=
  texts.flatMap fun document =>
    (requests document.text "").map fun request =>
      (document.name, request.lineNumber, request.expression)

/-- The requests in an archive with some members, where the archive may have any name of its format
and any bytes stand for it. -/
def Archive.ReadsAs (archive : Archive) (scratch : Option (Path → Found)) (items : List Packed)
    (found : List (String × Nat × String)) : Prop :=
  ∀ (name : List Char) (bytes : List UInt8), archive.Named name →
    ∃ read, documentsIn scratch name ⟨bytes, some (items.map archive.tells)⟩ = .ok read ∧
      documentRequests read = found.map fun (member, lineNumber, expression) =>
        ⟨expression, lineNumber, String.ofList name ++ ":" ++ member⟩

variable {archive : Archive} {scratch : Option (Path → Found)} {items : List Packed}
  {packed : Packed} {members : List Member} {member : Member} {texts : List Document}

/-! ## Requests in texts -/

theorem requests_unifyBreaks (text : List Char) (source : String) :
    requests (String.ofList (Text.unifyBreaks text)) source =
      requests (String.ofList text) source := by
  simp only [requests, String.toList_ofList, Text.lines_unifyBreaks]

/-- What is read of a text has its requests, whether its line ends are unified or kept. -/
theorem exists_readText (unify : Bool) (text : String) :
    ∃ read, readText unify (Utf8.encode text.toList) = .ok read ∧
      ∀ source, requests read source = requests text source := by
  refine ⟨String.ofList (if unify then Text.unifyBreaks text.toList else text.toList), ?_, ?_⟩
  · rw [readText, Utf8.decode_eq_ok_iff.2 rfl]
  · intro source
    cases unify with
    | false => exact congrArg (requests · source) String.ofList_toList
    | true =>
        have hunified := requests_unifyBreaks text.toList source
        rw [String.ofList_toList] at hunified
        exact hunified

/-! ## Members that are read -/

theorem isTextName_slash (name : String) : isTextName (name ++ "/") = false := by
  rw [isTextName, Bool.eq_false_iff, ne_eq, List.isSuffixOf_iff_suffix]
  rintro ⟨front, hfront⟩
  have hend := congrArg List.getLast? hfront
  simp at hend

theorem listed_of_content {bytes : List UInt8} (h : member.content = some bytes) :
    archive.listed member = member := by
  unfold Archive.listed
  rw [h]
  cases archive <;> rfl

/-- A member that is listed as a text file is listed as it is. -/
theorem listed_of_isTextName (h : isTextName (archive.listed member).name = true) :
    archive.listed member = member := by
  obtain ⟨name, content⟩ := member
  cases content with
  | some bytes => exact listed_of_content rfl
  | none =>
      cases archive with
      | zip =>
          have hname : isTextName (name ++ "/") = true := h
          rw [isTextName_slash] at hname
          cases hname
      | tarXz => rfl
      | sevenZip => rfl

/-- The members that are read are listed as they are. -/
theorem filter_map_listed (archive : Archive) (members : List Member) :
    (members.map archive.listed).filter archive.reads =
      members.filter fun member => archive.reads (archive.listed member) := by
  rw [List.filter_map]
  refine (List.map_congr_left fun member hmember => ?_).trans (List.map_id _)
  have hreads := (List.mem_filter.1 hmember).2
  exact listed_of_isTextName (Bool.and_eq_true_iff.1 hreads).1

/-- A file is read for its name, and in one format a directory is as well. -/
theorem reads_listed (archive : Archive) (member : Member) :
    archive.reads (archive.listed member) =
      (isTextName member.name && (archive = .sevenZip || member.content.isSome)) := by
  obtain ⟨name, content⟩ := member
  cases archive with
  | zip =>
      cases content with
      | none =>
          show Archive.zip.reads ⟨name ++ "/", none⟩ = _
          rw [Archive.reads, isTextName_slash]
          simp
      | some bytes => simp [Archive.reads, Archive.listed]
  | tarXz => simp [Archive.reads, Archive.listed]
  | sevenZip => simp [Archive.reads, Archive.listed]

section Sorting

variable {α : Type} (name : α → String) (items : List α)

theorem name_trans (a b c : α) (hab : decide (name a ≤ name b) = true)
    (hbc : decide (name b ≤ name c) = true) : decide (name a ≤ name c) = true := by
  rw [decide_eq_true_eq] at *
  exact hab.trans hbc

theorem name_total (a b : α) : (decide (name a ≤ name b) || decide (name b ≤ name a)) = true := by
  rw [Bool.or_eq_true, decide_eq_true_eq, decide_eq_true_eq]
  exact le_total (name a) (name b)

theorem mergeSort_pairwise :
    (items.mergeSort fun a b => name a ≤ name b).Pairwise (name · ≤ name ·) :=
  (List.pairwise_mergeSort (name_trans name) (name_total name) items).imp of_decide_eq_true

/-- What has the same name keeps its order. -/
theorem filter_mergeSort (key : String) :
    (items.mergeSort fun a b => name a ≤ name b).filter (name · = key) =
      items.filter (name · = key) := by
  have hsorted : (items.filter (name · = key)).Pairwise fun a b =>
      decide (name a ≤ name b) = true := by
    refine List.pairwise_of_forall_mem_list fun a ha b hb => ?_
    rw [List.mem_filter, decide_eq_true_eq] at ha hb
    rw [ha.2, hb.2]
    exact decide_eq_true le_rfl
  have hsublist := List.sublist_mergeSort (name_trans name) (name_total name) hsorted
    List.filter_sublist
  have hperm := (List.mergeSort_perm items fun a b => name a ≤ name b).filter (name · = key)
  -- the part of one name is in the sorted list, and there is no more of this name in it
  have hpart := hsublist.filter (name · = key)
  rw [List.filter_filter] at hpart
  simp only [Bool.and_self] at hpart
  exact (hpart.eq_of_length hperm.length_eq.symm).symm

end Sorting

/-- Where there are members to read, all of them are read. -/
theorem documents_eq_mapM {file : String} {bytes : List UInt8}
    (hne : archive.textMembers scratch members ≠ []) :
    archive.documents scratch file ⟨bytes, some members⟩ =
      (archive.textMembers scratch members).mapM (archive.document file) := by
  simp only [Archive.documents]

theorem exists_textDocuments (file : String) (text : String) (members : Option (List Member)) :
    ∃ found, textDocuments file ⟨Utf8.encode text.toList, members⟩ = .ok found ∧
      documentRequests found = requests text file := by
  obtain ⟨read, hread, hrequests⟩ := exists_readText true text
  refine ⟨[⟨file, read⟩], ?_, ?_⟩
  · simp only [textDocuments, hread]
    rfl
  · rw [documentRequests, List.flatMap_singleton, hrequests]

theorem exists_named (archive : Archive) : ∃ name, archive.Named name := by
  cases archive with
  | zip => exact ⟨"a.zip".toList, ['a'], by decide, rfl⟩
  | tarXz => exact ⟨"a.tar.xz".toList, ['a'], ⟨'a', by decide, by decide⟩, rfl⟩
  | sevenZip => exact ⟨"a.7z".toList, ['a'], by decide, rfl⟩

theorem Archive.ReadsAs.unique {found other : List (String × Nat × String)}
    (hfound : archive.ReadsAs scratch items found) (hother : archive.ReadsAs scratch items other) :
    found = other := by
  obtain ⟨name, hname⟩ := exists_named archive
  obtain ⟨read, hread, hrequests⟩ := hfound name [] hname
  obtain ⟨again, hagain, hsame⟩ := hother name [] hname
  obtain rfl : read = again := Except.ok.inj (hread.symm.trans hagain)
  refine List.map_injective_iff.2 ?_ (hrequests.symm.trans hsame)
  rintro ⟨member, lineNumber, expression⟩ ⟨member', lineNumber', expression'⟩ heq
  simp only [Request.mk.injEq, String.append_right_inj] at heq
  obtain ⟨rfl, rfl, rfl⟩ := heq
  rfl

/-- Members that are read in the order in which they are listed. -/
theorem textMembers_of_sorted {read : List Member}
    (hread : (members.map archive.listed).filter archive.reads = read)
    (hsorted : read.Pairwise (·.name ≤ ·.name)) :
    archive.textMembers scratch members = read.map fun member =>
      { member with content := archive.contentOf scratch (members.map archive.listed) member } := by
  simp only [Archive.textMembers, hread]
  rw [List.mergeSort_of_pairwise (hsorted.imp decide_eq_true)]

end InfixCalculator.Batch
