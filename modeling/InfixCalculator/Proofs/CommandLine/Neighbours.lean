import InfixCalculator.Proofs.Batch.FileName
import InfixCalculator.Proofs.CommandLine.Run
import InfixCalculator.Proofs.File.Place

/-!
# Reports of neighbouring sources

Two sources in one folder have the same report if and only if their names are equal once every dot
is a low line (`reports_apart`): the dots of a name, those in front of its suffixes included, are not
told from low lines in the name of the report.  So `a.b.txt` and `a_b.txt` share a report
(`not_reports_apart`), while a text file never shares one with an archive.

Where the names differ more than that, a run on the one source does not touch the report of the
other (`LeavesAlone`).  It writes nothing but the report of its own source (`report_of_run`), and the
two reports are in one folder under different names, which are different places in every tree of
files (`File.Tree.place_ne`).
-/

namespace InfixCalculator

namespace Batch

/-- The name of a file that documents can be read from. -/
def IsSource (name : List Char) : Prop :=
  IsTextFile name ∨ ∃ archive : Archive, archive.Named name

variable {name : List Char}

/-! ## Names of sources -/

theorem IsSource.exists_ending (h : IsSource name) :
    ∃ stem ending, name = stem ++ ending ∧ ending ≠ [] ∧ ending.getLast? ≠ some '.' := by
  rcases h with ⟨stem, -, hname⟩ | ⟨archive, harchive⟩
  · exact ⟨stem, _, hname, by decide, by decide⟩
  · cases archive with
    | zip =>
        obtain ⟨stem, -, hname⟩ := harchive
        exact ⟨stem, _, hname, by decide, by decide⟩
    | tarXz =>
        obtain ⟨stem, -, hname⟩ := harchive
        exact ⟨stem, _, hname, by decide, by decide⟩
    | sevenZip =>
        obtain ⟨stem, -, hname⟩ := harchive
        exact ⟨stem, _, hname, by decide, by decide⟩

theorem IsSource.ne_nil (h : IsSource name) : name ≠ [] := by
  obtain ⟨stem, ending, rfl, hending, -⟩ := h.exists_ending
  exact List.append_ne_nil_of_right_ne_nil stem hending

theorem IsSource.getLast?_ne (h : IsSource name) : name.getLast? ≠ some '.' := by
  obtain ⟨stem, ending, rfl, hending, hlast⟩ := h.exists_ending
  rwa [List.getLast?_append, List.getLast?_eq_some_getLast hending, Option.some_or,
    ← List.getLast?_eq_some_getLast hending]

end Batch

namespace CommandLine

open File (Content Found Tree)
open InfixCalculator.Path (flattened)

variable {find : Path → Found} {arguments : List String} {options : Options} {effect : Effect}
  {path other report target : Path} {text : String}

/-- Two different sources in one folder. -/
structure Neighbours (path other : Path) : Prop where
  folder_eq : path.folder = other.folder
  name_ne : path.name ≠ other.name
  source : Batch.IsSource path.name
  other_source : Batch.IsSource other.name

/-- Whatever files there are, a run on the file of a path writes to another path than a given one, and
to another place. -/
def LeavesAlone (path report : Path) : Prop :=
  ∀ {find arguments options effect target text}, parse arguments = .ok options →
    Path.ofChars options.target.toList = path → run find arguments = .ok effect →
    effect.report = some (target, text) →
      target ≠ report ∧ ∀ (tree : Tree) place,
        tree.changed? target (Utf8.encode text.toList) = some place → tree.place report ≠ .ok place

/-! ## What a run writes -/

theorem report_of_writeReport {found : Batch.Report}
    (hrun : writeReport find path found = .ok effect) (hreport : effect.report = some (target, text)) :
    target = path := by
  unfold writeReport at hrun
  split at hrun
  · cases hrun
  · obtain rfl := Except.ok.inj hrun
    exact (congrArg Prod.fst (Option.some.inj hreport)).symm

theorem report_of_runFile {content : Content} {settings : Settings}
    (hrun : runFile find path content settings = .ok effect)
    (hreport : effect.report = some (target, text)) : path.reportPath? = some target := by
  unfold runFile at hrun
  split at hrun
  · split_ifs at hrun
    obtain rfl := Except.ok.inj hrun
    cases hreport
  · split at hrun
    · obtain rfl := Except.ok.inj hrun
      cases hreport
    · rename_i own hown
      rw [hown, report_of_writeReport hrun hreport]

/-- A run writes no report but the one of its own file. -/
theorem report_of_run (hparse : parse arguments = .ok options) (hrun : run find arguments = .ok effect)
    (hreport : effect.report = some (target, text)) :
    (Path.ofChars options.target.toList).reportPath? = some target := by
  rw [run_eq_runOptions hparse, runOptions] at hrun
  split at hrun
  · cases hrun
  · split at hrun
    · obtain rfl := Except.ok.inj hrun
      unfold runExpression at hreport
      split at hreport <;> cases hreport
    · dsimp only at hrun
      split at hrun
      · cases hrun
      · cases hrun
      · cases hrun
      · split at hrun
        · exact report_of_runFile hrun hreport
        · cases hrun

/-- A run does not touch what is in the folder of its report under another name. -/
theorem leavesAlone_of_name_ne (hown : path.reportPath? = some target)
    (hfolder : target.folder = report.folder) (hname : target.name ≠ report.name)
    (htarget : target.EndsInside) (hreport : report.EndsInside) : LeavesAlone path report := by
  intro find arguments options effect written text hparse hpath hrun heffect
  have hwritten := report_of_run hparse hrun heffect
  rw [hpath, hown] at hwritten
  obtain rfl := Option.some.inj hwritten
  refine ⟨fun heq => hname (heq ▸ rfl), ?_⟩
  intro tree place hchanged hplace
  unfold Tree.changed? at hchanged
  split at hchanged
  · cases hchanged
  · rename_i here hhere
    have hsame : here = place := by
      split at hchanged
      · split_ifs at hchanged
        exact Option.some.inj hchanged
      · exact Option.some.inj hchanged
    exact Tree.place_ne hfolder hname htarget hreport hhere hplace hsame

/-! ## Reports of neighbours -/

/-- Without a dot at its start the name of a source is flattened as a whole. -/
theorem exists_report (hsource : Batch.IsSource path.name) (hfirst : path.name.head? ≠ some '.') :
    ∃ report, path.reportPath? = some report ∧ report.folder = path.folder ∧
      report.name = flattened path.name ++ "_results.txt".toList := by
  refine ⟨_, if_neg hsource.ne_nil, ?_, ?_⟩
  · rw [Path.folder, List.dropLast_concat]
    rfl
  · rw [← Path.reportStem_eq hfirst hsource.getLast?_ne, Path.name, List.getLast?_concat]
    rfl

theorem endsInside_of_name {stem : List Char} (h : report.name = stem ++ "_results.txt".toList) :
    report.EndsInside := by
  have hlength : 2 < report.name.length := by
    rw [h, List.length_append]
    exact Nat.lt_add_left _ (by decide)
  constructor
  · intro hnil
    rw [hnil] at hlength
    exact absurd hlength (by decide)
  · intro hdots
    rw [hdots] at hlength
    exact absurd hlength (by decide)

/-- **Reports of different sources are kept apart**, unless a dot stands in one name where a low line
stands in the other and nothing else tells them apart. -/
theorem reports_apart (h : Neighbours path other) (hpath : path.name.head? ≠ some '.')
    (hother : other.name.head? ≠ some '.') :
    ∃ report otherReport, path.reportPath? = some report ∧ other.reportPath? = some otherReport ∧
      (report = otherReport ↔ flattened path.name = flattened other.name) ∧
      (flattened path.name ≠ flattened other.name →
        LeavesAlone path otherReport ∧ LeavesAlone other report) := by
  obtain ⟨report, hreport, hbeside, hcalled⟩ := exists_report h.source hpath
  obtain ⟨otherReport, hotherReport, hotherBeside, hotherCalled⟩ :=
    exists_report h.other_source hother
  have hfolder : report.folder = otherReport.folder := by
    rw [hbeside, hotherBeside, h.folder_eq]
  have hname : report.name = otherReport.name ↔ flattened path.name = flattened other.name := by
    rw [hcalled, hotherCalled, List.append_left_inj]
  have hinside := endsInside_of_name hcalled
  have hotherInside := endsInside_of_name hotherCalled
  refine ⟨report, otherReport, hreport, hotherReport, ?_, fun hapart => ⟨?_, ?_⟩⟩
  · rw [← hname, hinside.eq_iff hotherInside, and_iff_right hfolder]
  · exact leavesAlone_of_name_ne hreport hfolder (mt hname.1 hapart) hinside hotherInside
  · exact leavesAlone_of_name_ne hotherReport hfolder.symm (mt hname.1 hapart ∘ Eq.symm)
      hotherInside hinside

/-- Two archives of one name in two formats. -/
theorem reports_apart_formats :
    Neighbours (Path.ofChars "sums/may.5.zip".toList) (Path.ofChars "sums/may.5.tar.xz".toList) ∧
      ∃ report otherReport,
        (Path.ofChars "sums/may.5.zip".toList).reportPath? = some report ∧
        (Path.ofChars "sums/may.5.tar.xz".toList).reportPath? = some otherReport ∧
        report ≠ otherReport ∧ LeavesAlone (Path.ofChars "sums/may.5.zip".toList) otherReport := by
  have hneighbours : Neighbours (Path.ofChars "sums/may.5.zip".toList)
      (Path.ofChars "sums/may.5.tar.xz".toList) :=
    ⟨by decide, by decide, .inr ⟨.zip, "may.5".toList, by decide, by decide⟩,
      .inr ⟨.tarXz, "may.5".toList, ⟨'m', by decide, by decide⟩, by decide⟩⟩
  obtain ⟨report, otherReport, hreport, hother, hsame, halone⟩ :=
    reports_apart hneighbours (by decide) (by decide)
  have hapart : flattened (Path.ofChars "sums/may.5.zip".toList).name ≠
      flattened (Path.ofChars "sums/may.5.tar.xz".toList).name := by decide
  exact ⟨hneighbours, report, otherReport, hreport, hother, mt hsame.1 hapart, (halone hapart).1⟩

/-- A dot inside a name counts as much as one before a suffix. -/
theorem not_reports_apart :
    ¬ ∀ path other, Neighbours path other → path.reportPath? ≠ other.reportPath? := by
  intro h
  refine h (Path.ofChars "sums/a.b.txt".toList) (Path.ofChars "sums/a_b.txt".toList) ?_
    (by decide +kernel)
  exact ⟨by decide +kernel, by decide, .inl ⟨"a.b".toList, by decide, by decide⟩,
    .inl ⟨"a_b".toList, by decide, by decide⟩⟩

end CommandLine

end InfixCalculator
