import InfixCalculator.Proofs.Path.Suffix

/-!
# Where a report goes

The report on a file stands in the folder of the file, under a name in which every dot but the one
of `.txt` is gone (`IsBeside`).  Its name is put together from the part of the file's name before
the first dot and from the suffixes, which leave out the dots at the start and give up on a dot at
the end.  Without dots at either end the two parts are the whole name, cut at its dots
(`reportStem_eq`).

The file is never its own report (`exists_isBeside`).  A name that is the name of a report has no
dot at either end, so that its own report is called by all of it and by what every report adds.
-/

namespace InfixCalculator.Path

/-- The path up to its last name. -/
def folder (path : Path) : Path :=
  { path with names := path.names.dropLast }

/-- A name with a low line in the place of every dot. -/
def flattened (name : List Char) : List Char :=
  name.map fun c => if c = '.' then '_' else c

/-- A report that stands beside a file and is not the file. -/
structure IsBeside (report path : Path) : Prop where
  folder_eq : report.folder = path.folder
  name_ne : report.name ≠ path.name
  /-- The name is a single name in the folder, since there is no slash in it. -/
  no_slash : '/' ∉ path.name → '/' ∉ report.name
  /-- The only dot is the one of the suffix. -/
  only_dot : ∃ front, '.' ∉ front ∧ report.name = front ++ "_results.txt".toList
  flattened_eq : path.name.head? ≠ some '.' → path.name.getLast? ≠ some '.' →
    report.name = flattened path.name ++ "_results.txt".toList

variable {name : List Char} {path : Path} {c : Char}

/-! ## The name of a report -/

/-- What a report is called by of the name of the file. -/
def reportStem (name : List Char) : List Char :=
  stem name ++ (suffixes name).flatMap ('_' :: ·)

theorem mem_suffixes {suffix : List Char} (h : suffix ∈ suffixes name) (hc : c ∈ suffix) :
    c ∈ name ∧ c ≠ '.' := by
  unfold suffixes at h
  split at h
  · cases h
  · obtain ⟨hmem, hne⟩ := Text.mem_of_mem_pieces (List.mem_of_mem_drop h) hc
    exact ⟨(List.dropWhile_sublist _).mem hmem, hne⟩

theorem mem_reportStem (hc : c ∈ reportStem name) : c = '_' ∨ c ∈ name ∧ c ≠ '.' := by
  rcases List.mem_append.1 hc with hstem | hsuffixes
  · obtain ⟨first, rest, hpieces⟩ := List.exists_cons_of_ne_nil (Text.pieces_ne_nil '.' name)
    have hfirst : first ∈ Text.pieces '.' name := by
      rw [hpieces]
      exact List.mem_cons_self
    rw [stem, hpieces] at hstem
    exact .inr (Text.mem_of_mem_pieces hfirst hstem)
  · obtain ⟨suffix, hsuffix, hc⟩ := List.mem_flatMap.1 hsuffixes
    rcases List.mem_cons.1 hc with rfl | hc
    · exact .inl rfl
    · exact .inr (mem_suffixes hsuffix hc)

theorem dot_not_mem_reportStem (name : List Char) : '.' ∉ reportStem name := by
  intro hdot
  rcases mem_reportStem hdot with hline | ⟨-, hne⟩
  · cases hline
  · exact hne rfl

/-- Without dots at its ends a name is cut at its dots and nowhere else. -/
theorem reportStem_eq (hfirst : name.head? ≠ some '.') (hlast : name.getLast? ≠ some '.') :
    reportStem name = flattened name := by
  have hdrop : name.dropWhile (· = '.') = name := by
    cases name with
    | nil => rfl
    | cons c name => exact List.dropWhile_cons_of_neg (by simpa using hfirst)
  rw [reportStem, stem, suffixes, if_neg hlast, hdrop]
  exact Text.joined_pieces '.' '_' name

theorem reportName_ne (name : List Char) : reportName name ≠ name := by
  intro hsame
  have hname : name = reportStem name ++ "_results.txt".toList := hsame.symm
  have hfirst : name.head? ≠ some '.' := by
    intro hdot
    rw [hname] at hdot
    cases hstem : reportStem name with
    | nil =>
        rw [hstem] at hdot
        cases hdot
    | cons c rest =>
        rw [hstem] at hdot
        refine dot_not_mem_reportStem name ?_
        rw [hstem, ← Option.some.inj hdot]
        exact List.mem_cons_self
  have hlast : name.getLast? ≠ some '.' := by
    rw [hname, List.getLast?_append]
    intro hdot
    cases hdot
  -- so the name would be longer than itself
  have hlength := congrArg List.length hname
  rw [reportStem_eq hfirst hlast, List.length_append, flattened, List.length_map] at hlength
  have hadded : "_results.txt".toList.length = 12 := rfl
  omega

/-! ## The path of a report -/

/-- **A report is beside its file.**  Every path with a name has the path of a report, in the same
folder and under another name. -/
theorem exists_isBeside (h : path.name ≠ []) :
    ∃ report, path.reportPath? = some report ∧ report.IsBeside path := by
  refine ⟨_, if_neg h, ?_⟩
  have hname : ({ path with names := path.names.dropLast ++ [reportName path.name] } : Path).name =
      reportStem path.name ++ "_results.txt".toList := by
    rw [name, List.getLast?_concat]
    rfl
  refine ⟨?_, ?_, ?_, ?_, ?_⟩
  · rw [folder, List.dropLast_concat]
    rfl
  · rw [hname]
    exact reportName_ne path.name
  · intro hslash hmem
    rw [hname] at hmem
    rcases List.mem_append.1 hmem with hstem | hadded
    · rcases mem_reportStem hstem with hline | ⟨hmem, -⟩
      · cases hline
      · exact hslash hmem
    · exact absurd hadded (by decide)
  · exact ⟨_, dot_not_mem_reportStem path.name, hname⟩
  · intro hfirst hlast
    rw [hname, reportStem_eq hfirst hlast]

/-- A file that is called like a report, in a folder with a dot. -/
theorem isBeside_reportOfReport :
    (ofChars "/sums.d//a.b_results.txt".toList).name ≠ [] ∧
      ∃ report, (ofChars "/sums.d//a.b_results.txt".toList).reportPath? = some report ∧
        report.IsBeside (ofChars "/sums.d//a.b_results.txt".toList) := by
  have hname : (ofChars "/sums.d//a.b_results.txt".toList).name ≠ [] := by decide
  exact ⟨hname, exists_isBeside hname⟩

end InfixCalculator.Path
