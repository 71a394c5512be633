import InfixCalculator.Proofs.Batch.Container

/-!
# Members of one name

An archive may hold several members of one name.  `texts_given` says what is read then: as many
documents as there are files with names of text files, in the order of the names, those of one name
in the order of the archive (`ReadOnce`).  A tar archive gives each of them its own text.  A zip
archive looks a text up by the name and finds the last one, so that it gives its members their own
texts only where all those of a name hold the same one (`Archive.Gives`).

Directories take no part in it, whatever they are called: a zip archive lists them under other names
(`isTextName_slash`), and a tar archive tells them from files.
-/

namespace InfixCalculator.Batch

open File (Content Found Member)

/-- Whether a member is a file with the name of a text file. -/
def isTextMember (member : Member) : Bool :=
  isTextName member.name && member.content.isSome

/-- A text as a document of the archive that it is read from. -/
def Document.within (file : String) (text : Document) : Document :=
  ⟨file ++ ":" ++ text.name, text.text⟩

/-- Every text is read once, in the order of the names and otherwise in the given order. -/
structure ReadOnce (texts read : List Document) : Prop where
  perm : read.Perm texts
  sorted : read.Pairwise (·.name ≤ ·.name)
  in_order : ∀ name, read.filter (·.name = name) = texts.filter (·.name = name)

/-- The text that is found for one of several texts: in a zip archive the last one of its name. -/
def Archive.foundFor (archive : Archive) (texts : List Document) (text : Document) : Document :=
  match archive with
  | zip => (texts.reverse.find? (·.name = text.name)).getD text
  | _ => text

/-- What is read of the texts in an archive. -/
structure Archive.Gives (archive : Archive) (texts read : List Document) : Prop where
  found : ReadOnce (texts.map (archive.foundFor texts)) read
  /-- The texts themselves are read, from a zip archive only if no two of one name differ. -/
  own_iff : ReadOnce texts read ↔ archive = .tarXz ∨
    ∀ a ∈ texts, ∀ b ∈ texts, a.name = b.name → a.text = b.text

variable {archive : Archive} {scratch : Option (Path → Found)} {members : List Member}
  {member : Member} {texts read : List Document} {text : Document}

/-! ## The text found for a name -/

theorem exists_last (htext : text ∈ texts) :
    ∃ last ∈ texts, last.name = text.name ∧
      texts.reverse.find? (·.name = text.name) = some last := by
  cases hfind : texts.reverse.find? (·.name = text.name) with
  | none =>
      have hnone := List.find?_eq_none.1 hfind text (List.mem_reverse.2 htext)
      simp at hnone
  | some last =>
      have hname := List.find?_some hfind
      exact ⟨last, List.mem_reverse.1 (List.mem_of_find?_eq_some hfind), by simpa using hname, rfl⟩

theorem name_foundFor (archive : Archive) (htext : text ∈ texts) :
    (archive.foundFor texts text).name = text.name := by
  cases archive with
  | zip =>
      obtain ⟨last, -, hname, hfind⟩ := exists_last htext
      rw [Archive.foundFor, hfind]
      exact hname
  | tarXz => rfl
  | sevenZip => rfl

theorem map_foundFor_of_agree (h : archive = .tarXz ∨
    ∀ a ∈ texts, ∀ b ∈ texts, a.name = b.name → a.text = b.text) :
    texts.map (archive.foundFor texts) = texts := by
  refine (List.map_congr_left fun text htext => ?_).trans (List.map_id _)
  cases archive with
  | zip =>
      obtain ⟨last, hlast, hname, hfind⟩ := exists_last htext
      have hagree := h.resolve_left (by decide) last hlast text htext hname
      rw [Archive.foundFor, hfind]
      obtain ⟨name, content⟩ := text
      obtain ⟨name', content'⟩ := last
      obtain rfl : name' = name := hname
      obtain rfl : content' = content := hagree
      rfl
  | tarXz => rfl
  | sevenZip => rfl

/-- In a zip archive only one text is found for a name. -/
theorem agree_of_perm (h : (texts.map (Archive.zip.foundFor texts)).Perm texts) :
    ∀ a ∈ texts, ∀ b ∈ texts, a.name = b.name → a.text = b.text := by
  have hlast : ∀ a ∈ texts, texts.reverse.find? (·.name = a.name) = some a := by
    intro a ha
    obtain ⟨text, htext, rfl⟩ := List.mem_map.1 (h.mem_iff.2 ha)
    obtain ⟨last, -, -, hfind⟩ := exists_last htext
    rw [name_foundFor .zip htext, Archive.foundFor, hfind]
    rfl
  intro a ha b hb hname
  have hsame := hlast a ha
  rw [hname, hlast b hb] at hsame
  rw [Option.some.inj hsame]

/-! ## The order of what is read -/

/-- The texts that are found in the order in which they are read. -/
def Archive.readOf (archive : Archive) (texts : List Document) : List Document :=
  (texts.mergeSort fun a b => a.name ≤ b.name).map (archive.foundFor texts)

theorem filter_map_foundFor {items : List Document} (hitems : items ⊆ texts) (name : String) :
    (items.map (archive.foundFor texts)).filter (·.name = name) =
      (items.filter (·.name = name)).map (archive.foundFor texts) := by
  rw [List.filter_map]
  congr 1
  refine List.filter_congr fun text htext => ?_
  rw [Function.comp_apply, name_foundFor archive (hitems htext)]

theorem readOnce_readOf (archive : Archive) (texts : List Document) :
    ReadOnce (texts.map (archive.foundFor texts)) (archive.readOf texts) where
  perm := (List.mergeSort_perm _ _).map _
  sorted := by
    rw [Archive.readOf, List.pairwise_map]
    refine (mergeSort_pairwise Document.name texts).imp_of_mem fun ha hb hle => ?_
    rwa [name_foundFor archive (List.mem_mergeSort.1 ha),
      name_foundFor archive (List.mem_mergeSort.1 hb)]
  in_order := fun name => by
    rw [Archive.readOf, filter_map_foundFor (fun text => List.mem_mergeSort.1),
      filter_map_foundFor (List.Subset.refl texts), filter_mergeSort Document.name]

theorem gives_readOf (harchive : archive ≠ .sevenZip) (texts : List Document) :
    archive.Gives texts (archive.readOf texts) where
  found := readOnce_readOf archive texts
  own_iff := by
    have hfound := readOnce_readOf archive texts
    constructor
    · intro hown
      cases archive with
      | zip => exact .inr (agree_of_perm (hfound.perm.symm.trans hown.perm))
      | tarXz => exact .inl rfl
      | sevenZip => exact absurd rfl harchive
    · intro hagree
      rwa [map_foundFor_of_agree hagree] at hfound

/-! ## The members that are read -/

theorem filter_reads_eq (harchive : archive ≠ .sevenZip) (members : List Member) :
    (members.map archive.listed).filter archive.reads = members.filter isTextMember := by
  rw [filter_map_listed]
  refine List.filter_congr fun member _ => ?_
  rw [reads_listed, decide_eq_false harchive, Bool.false_or]
  rfl

/-- A zip archive looks for a text among all that it lists, but finds none outside the texts. -/
theorem find?_listed (htexts : members.filter isTextMember = texts.map Document.member)
    (htext : text ∈ texts) :
    (members.map Archive.zip.listed).reverse.find? (·.name = text.name) =
      (texts.reverse.find? (·.name = text.name)).map Document.member := by
  have hname : isTextName text.name = true := by
    have hmember : text.member ∈ members.filter isTextMember := by
      rw [htexts]
      exact List.mem_map_of_mem htext
    exact (Bool.and_eq_true_iff.1 (List.mem_filter.1 hmember).2).1
  have hreads : ∀ member : Member,
      decide (member.name = text.name) =
        decide (Archive.zip.reads member = true ∧ decide (member.name = text.name) = true) := by
    intro member
    by_cases hsame : member.name = text.name
    · simp [Archive.reads, hsame, hname]
    · simp [hsame]
  calc (members.map Archive.zip.listed).reverse.find? (·.name = text.name)
      = ((members.map Archive.zip.listed).reverse.filter Archive.zip.reads).find?
          (·.name = text.name) := by
        rw [List.find?_filter]
        congr 1
        funext member
        exact hreads member
    _ = (texts.map Document.member).reverse.find? (·.name = text.name) := by
        rw [List.filter_reverse, filter_reads_eq (by decide), htexts]
    _ = (texts.reverse.find? (·.name = text.name)).map Document.member := by
        rw [← List.map_reverse, List.find?_map]
        rfl

theorem contentOf_member (harchive : archive ≠ .sevenZip)
    (htexts : members.filter isTextMember = texts.map Document.member) (htext : text ∈ texts) :
    { text.member with content :=
        archive.contentOf scratch (members.map archive.listed) text.member } =
      (archive.foundFor texts text).member := by
  cases archive with
  | zip =>
      obtain ⟨last, -, hname, hfind⟩ := exists_last htext
      have hlisted : (members.map Archive.zip.listed).reverse.find?
          (·.name = text.member.name) = some last.member := by
        refine (find?_listed htexts htext).trans ?_
        rw [hfind]
        rfl
      rw [Archive.contentOf, hlisted, Archive.foundFor, hfind]
      simp only [Document.member, Option.bind_some, Option.getD_some, hname]
  | tarXz => rfl
  | sevenZip => exact absurd rfl harchive

theorem textMembers_eq_readOf (harchive : archive ≠ .sevenZip)
    (htexts : members.filter isTextMember = texts.map Document.member) :
    archive.textMembers scratch members = (archive.readOf texts).map Document.member := by
  have hsorted : (texts.map Document.member).mergeSort (fun a b => a.name ≤ b.name) =
      (texts.mergeSort fun a b => a.name ≤ b.name).map Document.member :=
    (List.map_mergeSort (f := Document.member) fun _ _ _ _ => rfl).symm
  simp only [Archive.textMembers, filter_reads_eq harchive, htexts, hsorted, Archive.readOf,
    List.map_map]
  refine List.map_congr_left fun text htext => ?_
  exact contentOf_member harchive htexts (List.mem_mergeSort.1 htext)

/-! ## Documents -/

theorem document_member_eq (harchive : archive ≠ .sevenZip) (file : String) (text : Document) :
    archive.document file text.member = .ok (text.within file) := by
  rw [Document.member, Archive.document]
  simp only [readText, Utf8.decode_eq_ok_iff.2 rfl, decide_eq_false harchive, Bool.false_eq_true,
    if_false, String.ofList_toList]
  rfl

theorem mapM_document (harchive : archive ≠ .sevenZip) (file : String) (read : List Document) :
    (read.map Document.member).mapM (archive.document file) =
      .ok (read.map (Document.within file)) := by
  induction read with
  | nil => rfl
  | cons text read ih =>
      rw [List.map_cons, List.mapM_cons, document_member_eq harchive, ih]
      rfl

theorem documents_eq_readOf (harchive : archive ≠ .sevenZip) {name : List Char}
    (hname : archive.Named name) (bytes : List UInt8) (hne : texts ≠ [])
    (htexts : members.filter isTextMember = texts.map Document.member) :
    documents name ⟨bytes, some members⟩ =
      .ok ((archive.readOf texts).map (Document.within (String.ofList name))) := by
  have hmembers : archive.textMembers (File.unpacked members) members =
      (archive.readOf texts).map Document.member := textMembers_eq_readOf harchive htexts
  have hsome : archive.textMembers (File.unpacked members) members ≠ [] := by
    rw [hmembers, ne_eq, List.map_eq_nil_iff, Archive.readOf, List.map_eq_nil_iff]
    intro hnil
    exact hne (List.perm_nil.1 (hnil ▸ (List.mergeSort_perm texts _).symm))
  rw [documents, documentsIn_of_named hname]
  refine (documents_eq_mapM hsome).trans ?_
  rw [hmembers, mapM_document harchive]

/-- **What an archive gives for its texts.**  There is a document for each of them, with its own
text from a tar archive and with the last text of its name from a zip archive. -/
theorem texts_given (harchive : archive ≠ .sevenZip) {name : List Char}
    (hname : archive.Named name) (bytes : List UInt8)
    (hvalid : ∀ member ∈ members, isTextName member.name = true →
      ∀ content ∈ member.content, ∃ text : String, content = Utf8.encode text.toList)
    (hsome : ∃ member ∈ members, isTextMember member = true) :
    ∃ texts read : List Document, members.filter isTextMember = texts.map Document.member ∧
      documents name ⟨bytes, some members⟩ =
        .ok (read.map (Document.within (String.ofList name))) ∧
      archive.Gives texts read := by
  obtain ⟨texts, htexts⟩ : ∃ texts : List Document,
      texts.map Document.member = members.filter isTextMember := by
    refine (Set.range_list_map Document.member).ge fun member hmember => ?_
    obtain ⟨hmember, htext⟩ := List.mem_filter.1 hmember
    obtain ⟨htextName, hfile⟩ := Bool.and_eq_true_iff.1 htext
    obtain ⟨content, hcontent⟩ := Option.isSome_iff_exists.1 hfile
    obtain ⟨text, rfl⟩ := hvalid member hmember htextName content hcontent
    exact ⟨⟨member.name, text⟩, by rw [Document.member, ← hcontent]⟩
  have hne : texts ≠ [] := by
    rintro rfl
    obtain ⟨member, hmember, htext⟩ := hsome
    have hmem := List.mem_filter.2 ⟨hmember, htext⟩
    rw [← htexts] at hmem
    cases hmem
  exact ⟨texts, archive.readOf texts, htexts.symm,
    documents_eq_readOf harchive hname bytes hne htexts.symm, gives_readOf harchive texts⟩

/-- Two texts of one name. -/
def twoTexts : List Document :=
  [⟨"a.txt", "1"⟩, ⟨"a.txt", "2"⟩]

theorem texts_given_twoTexts :
    Archive.zip ≠ .sevenZip ∧ Archive.zip.Named "a.zip".toList ∧
      (∀ member ∈ twoTexts.map Document.member, isTextName member.name = true →
        ∀ content ∈ member.content, ∃ text : String, content = Utf8.encode text.toList) ∧
      (∃ member ∈ twoTexts.map Document.member, isTextMember member = true) ∧
      ∃ texts read : List Document,
        (twoTexts.map Document.member).filter isTextMember = texts.map Document.member ∧
        documents "a.zip".toList ⟨[], some (twoTexts.map Document.member)⟩ =
          .ok (read.map (Document.within (String.ofList "a.zip".toList))) ∧
        Archive.zip.Gives texts read := by
  have harchive : Archive.zip ≠ .sevenZip := by decide
  have hname : Archive.zip.Named "a.zip".toList := ⟨['a'], by decide, rfl⟩
  have hvalid : ∀ member ∈ twoTexts.map Document.member, isTextName member.name = true →
      ∀ content ∈ member.content, ∃ text : String, content = Utf8.encode text.toList := by
    refine List.forall_mem_map.2 fun text _ _ content hcontent => ?_
    exact ⟨text.text, (Option.some.inj hcontent).symm⟩
  have hsome : ∃ member ∈ twoTexts.map Document.member, isTextMember member = true :=
    ⟨Document.member ⟨"a.txt", "1"⟩, List.mem_cons_self, by decide⟩
  exact ⟨harchive, hname, hvalid, hsome, texts_given harchive hname [] hvalid hsome⟩

/-- In a zip archive the first of two texts of one name is not read at all. -/
theorem not_readOnce_twoTexts :
    ¬ ∃ read : List Document, ReadOnce twoTexts read ∧
      documents "a.zip".toList ⟨[], some (twoTexts.map Document.member)⟩ =
        .ok (read.map (Document.within (String.ofList "a.zip".toList))) := by
  rintro ⟨read, honce, hread⟩
  have hname : Archive.zip.Named "a.zip".toList := ⟨['a'], by decide, rfl⟩
  have hmembers : (twoTexts.map Document.member).filter isTextMember =
      twoTexts.map Document.member := rfl
  rw [documents_eq_readOf (by decide) hname [] (List.cons_ne_nil _ _) hmembers] at hread
  have htexts := congrArg (List.map Document.text) (Except.ok.inj hread)
  rw [List.map_map, List.map_map] at htexts
  have hread : (Archive.zip.readOf twoTexts).map Document.text = read.map Document.text := htexts
  have hfound := (readOnce_readOf .zip twoTexts).perm.map Document.text
  rw [hread] at hfound
  have htwo : ["2", "2"].Perm ["1", "2"] := hfound.symm.trans (honce.perm.map Document.text)
  exact absurd htwo (by decide)

end InfixCalculator.Batch
