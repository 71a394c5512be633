import InfixCalculator.Batch.Source
import InfixCalculator.Proofs.Path.Suffix

/-!
# Which files are sources

Text files and archives are told by how their names end.  No name is that of two kinds of files, and
`documentsIn` reads a file as what its name says; a name that says neither is refused.
-/

namespace InfixCalculator.Batch

open File (Content Found)

/-- The name of a text file: it ends with the suffix behind at least one character. -/
def IsTextFile (name : List Char) : Prop :=
  ∃ stem, stem ≠ [] ∧ name = stem ++ ".txt".toList

/-- The name of an archive: it ends with the suffix behind at least one character.  Two suffixes have
to come behind something else than dots. -/
def Archive.Named : Archive → List Char → Prop
  | zip, name => ∃ stem, stem ≠ [] ∧ name = stem ++ ".zip".toList
  | tarXz, name => ∃ stem, (∃ c ∈ stem, c ≠ '.') ∧ name = stem ++ ".tar.xz".toList
  | sevenZip, name => ∃ stem, stem ≠ [] ∧ name = stem ++ ".7z".toList

variable {scratch : Option (Path → Found)} {name : List Char} {archive : Archive}

/-! ## Suffixes -/

theorem suffix_txt_iff : Path.suffix name = ".txt".toList ↔ IsTextFile name :=
  Path.suffix_eq_iff "txt".toList ⟨by decide, by decide⟩

theorem suffix_zip_iff : Path.suffix name = ".zip".toList ↔ Archive.zip.Named name :=
  Path.suffix_eq_iff "zip".toList ⟨by decide, by decide⟩

theorem suffix_sevenZip_iff : Path.suffix name = ".7z".toList ↔ Archive.sevenZip.Named name :=
  Path.suffix_eq_iff "7z".toList ⟨by decide, by decide⟩

theorem suffixes_tarXz_iff :
    (Path.suffixes name).drop ((Path.suffixes name).length - 2) = ["tar".toList, "xz".toList] ↔
      Archive.tarXz.Named name := by
  rw [Path.lastSuffixes_eq_iff ⟨by decide, by decide⟩ ⟨by decide, by decide⟩]
  simp [Archive.Named]

theorem suffix_of_tarXz (h : Archive.tarXz.Named name) : Path.suffix name = ".xz".toList := by
  obtain ⟨stem, -, rfl⟩ := h
  have hname : stem ++ ".tar.xz".toList = stem ++ ".tar".toList ++ '.' :: "xz".toList := by
    simp
  rw [hname, Path.suffix_append ⟨by decide, by decide⟩ (by simp)]
  rfl

/-! ## Reading a file as what its name says -/

theorem documentsIn_of_isTextFile (h : IsTextFile name) (content : Content) :
    documentsIn scratch name content = textDocuments (String.ofList name) content := by
  simp only [documentsIn, if_pos (suffix_txt_iff.2 h)]

theorem documentsIn_of_named (h : archive.Named name) (content : Content) :
    documentsIn scratch name content =
      archive.documents scratch (String.ofList name) content := by
  cases archive with
  | zip =>
      have hsuffix := suffix_zip_iff.2 h
      simp only [documentsIn, hsuffix, if_neg (show ".zip".toList ≠ ".txt".toList by decide),
        if_true]
  | tarXz =>
      have hsuffix := suffix_of_tarXz h
      simp only [documentsIn, hsuffix, if_neg (show ".xz".toList ≠ ".txt".toList by decide),
        if_neg (show ".xz".toList ≠ ".zip".toList by decide), if_pos (suffixes_tarXz_iff.2 h)]
  | sevenZip =>
      have hsuffix := suffix_sevenZip_iff.2 h
      have htar : ¬ Archive.tarXz.Named name := by
        intro htar
        have hxz := (suffix_of_tarXz htar).symm.trans hsuffix
        exact absurd hxz (by decide)
      simp only [documentsIn, hsuffix, if_neg (show ".7z".toList ≠ ".txt".toList by decide),
        if_neg (show ".7z".toList ≠ ".zip".toList by decide),
        if_neg (mt suffixes_tarXz_iff.1 htar), if_true]

theorem documentsIn_of_unsupported (htext : ¬ IsTextFile name)
    (harchive : ∀ archive : Archive, ¬ archive.Named name) (content : Content) :
    documentsIn scratch name content = .error (.unsupported (String.ofList (Path.suffix name))) := by
  simp only [documentsIn, if_neg (mt suffix_txt_iff.1 htext),
    if_neg (mt suffix_zip_iff.1 (harchive .zip)),
    if_neg (mt suffixes_tarXz_iff.1 (harchive .tarXz)),
    if_neg (mt suffix_sevenZip_iff.1 (harchive .sevenZip))]

end InfixCalculator.Batch
