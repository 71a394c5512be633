import InfixCalculator.Proofs.Batch.Container
import InfixCalculator.Proofs.Batch.Line
import InfixCalculator.Proofs.Batch.Shown
import InfixCalculator.Proofs.CommandLine.Arguments

/-!
# The two modes agree

An expression on the command line and the same expression as the only line of a text file have the
same status, and what is printed about the first is what the report says about the second
(`modes_agree`).  Three things lie between the two runs.

* *The arguments.*  They differ in the mode and in the target, so the settings are the same
  (`Asks.run_expression`, `Asks.run_file`).
* *The file.*  It is decoded and split into lines and holds the one request for the expression, without
  the blanks at its ends (`requests_of_isExpression`).  These do not count for its words, so the
  request is evaluated as the expression is (`evaluate_lineRequest`).
* *The words.*  One prints a value and its diagnostics or the reason of a rejection, and the other
  writes them as lines of an outcome (`tellSame_report`).

What may keep the second run from its end is an obstacle where the report is to be written, so that
it has no status where the first run has one (`not_modes_agree`).  As everywhere, the error stream is
taken without the records of the logger.
-/

namespace InfixCalculator

namespace Batch

/-- A text that is an expression on a line of its own: it is not blank, and nothing in it breaks a
line, starts a comment or marks a result. -/
structure IsExpression (text : List Char) : Prop where
  not_blank : ∃ c ∈ text, Text.isBlank c = false
  unbroken : ∀ c ∈ text, Text.isBreak c = false
  no_comment : commentMark ∉ text
  no_marker : resultMarker ∉ text

variable {text : List Char} {expression : String} {settings : Settings}

/-! ## The request for an expression -/

theorem afterMarker_of_not_mem (h : resultMarker ∉ text) : afterMarker text = text := by
  have hall : text.reverse.takeWhile (· ≠ resultMarker) = text.reverse := by
    rw [List.takeWhile_eq_self_iff]
    intro c hc
    rw [decide_eq_true_eq]
    rintro rfl
    exact h (List.mem_reverse.1 hc)
  rw [afterMarker, hall, List.reverse_reverse]

theorem IsExpression.words_ne_nil (h : IsExpression text) : Text.words text ≠ [] := by
  obtain ⟨c, hc, hsolid⟩ := h.not_blank
  intro hwords
  cases Text.spells_iff.2 hwords with
  | none hgap =>
      rw [hgap c hc] at hsolid
      cases hsolid

/-- The request for an expression that is read from a document of one line. -/
def lineRequest (expression source : String) : Request :=
  ⟨String.ofList (Text.trim expression.toList), 1, source⟩

theorem requests_of_isExpression (h : IsExpression expression.toList) (source : String) :
    requests expression source = [lineRequest expression source] := by
  have hmarker := afterMarker_of_not_mem h.no_marker
  have hword : Text.words (afterMarker expression.toList) ≠ [] := by
    rw [hmarker]
    exact h.words_ne_nil
  have hrequests := requests_of_line h.unbroken h.no_comment hword source
  rw [hmarker, String.ofList_toList] at hrequests
  exact hrequests

theorem evaluate_lineRequest (expression source : String) (settings : Settings) :
    evaluate (lineRequest expression source).expression settings = evaluate expression settings := by
  refine evaluate_congr ?_ settings
  rw [expressionWords, expressionWords, lineRequest, String.toList_ofList, Text.words_trim]

end Batch

namespace CommandLine

open File (Content Found Obstacle)

variable {find : Path → Found} {path : Path} {content : Content} {settings : Settings}
  {expression target : String}

/-- What an effect prints about a result and what the lines of a report say about it, whose first line
starts as given, is the same: either why it is rejected, or its value and its diagnostics. -/
inductive TellSame (start : String) (effect : Effect) (lines : List String) :
    Except Rejection Evaluation → Prop
  | rejected (rejection : Rejection) (summary : String)
      (heffect : effect = ⟨1, "", "error: " ++ rejection.message ++ "\n", none⟩)
      (hlines : lines = [start ++ " -> ERROR: " ++ rejection.message, "", "# " ++ summary]) :
      TellSame start effect lines (.error rejection)
  | evaluated (evaluation : Evaluation) (summary : String)
      (heffect : effect = ⟨0, Decimal.plainText evaluation.value ++ "\n",
        String.join (evaluation.diagnostics.map fun diagnostic => diagnostic.remark ++ "\n"), none⟩)
      (hlines : lines = (start ++ " = " ++ Decimal.plainText evaluation.value) ::
        evaluation.diagnostics.map Diagnostic.note ++ ["", "# " ++ summary]) :
      TellSame start effect lines (.ok evaluation)

/-! ## Runs under settings -/

variable {given : List String}

theorem Asks.run_expression (h : Asks given settings) (find : Path → Found) (expression : String) :
    run find ("-e" :: (given ++ ["--", expression])) = .ok (runExpression expression settings) := by
  obtain ⟨options, -, -, hsettings, hparse⟩ := h
  have hfirst : parse ("-e" :: (given ++ ["--", expression])) =
      .ok { options with target := expression, expression := true } := by
    rw [parse_expression, hparse]
    rfl
  rw [run_eq_runExpression hfirst rfl hsettings]

theorem Asks.run_file (h : Asks given settings) (hpath : Path.ofChars target.toList = path)
    (hfound : find path = .file content) :
    run find (given ++ ["--", target]) = runFile find path content settings := by
  obtain ⟨options, hmode, hworkers, hsettings, hparse⟩ := h
  rw [run_eq_runFile (hparse target) ⟨hmode, hsettings, hworkers, hpath, hfound⟩]

/-! ## One evaluation told twice -/

theorem lines_singleton (outcome : Batch.Outcome) :
    (Batch.Report.mk [outcome]).lines =
      outcome.lines ++ ["", "# " ++ (Batch.Report.mk [outcome]).summary] := by
  rw [Batch.Report.lines, List.flatMap_singleton]

theorem lines_rejected (request : Batch.Request) (reason : String) :
    (Batch.Outcome.mk request none [] (some reason)).lines =
      [request.headline ++ " -> ERROR: " ++ reason] := by
  simp only [Batch.Outcome.lines, Batch.Request.location_eq_headline]

theorem lines_evaluated (request : Batch.Request) (value : Float) (diagnostics : List Diagnostic) :
    (Batch.Outcome.mk request (some value) diagnostics none).lines =
      (request.headline ++ " = " ++ Decimal.plainText value) :: diagnostics.map Diagnostic.note := by
  have hnotes : diagnostics.map Batch.diagnosticLine = diagnostics.map Diagnostic.note :=
    List.map_congr_left fun diagnostic _ => Batch.diagnosticLine_eq_note diagnostic
  simp only [Batch.Outcome.lines, Batch.Request.location_eq_headline, hnotes,
    Batch.Outcome.valueText]

theorem linesText_texts (diagnostics : List Diagnostic) :
    linesText (diagnostics.map fun diagnostic => "  " ++ diagnostic.text) =
      String.join (diagnostics.map fun diagnostic => diagnostic.remark ++ "\n") := by
  simp only [linesText, List.map_map, Function.comp_def, Diagnostic.text_eq_remark]

/-- The effect on an expression and the report on the request for it tell the same, and the report
counts the request as rejected if the status says so. -/
theorem tellSame_report (expression source : String) (settings : Settings) :
    TellSame (Batch.lineRequest expression source).headline (runExpression expression settings)
        (Batch.run settings [Batch.lineRequest expression source]).lines
        (evaluate expression settings) ∧
      (Batch.run settings [Batch.lineRequest expression source]).errors =
        (runExpression expression settings).status := by
  have hsame := Batch.evaluate_lineRequest expression source settings
  cases hevaluate : evaluate expression settings with
  | error rejection =>
      have houtcome := Batch.outcome_of_error (hsame.trans hevaluate)
      have heffect : runExpression expression settings =
          ⟨1, "", "error: " ++ rejection.message ++ "\n", none⟩ := by
        rw [runExpression, hevaluate]
        exact refusal_eq rejection.message
      rw [heffect, Batch.run, List.map_singleton, houtcome, lines_singleton, lines_rejected]
      exact ⟨.rejected rejection _ rfl rfl, rfl⟩
  | ok evaluation =>
      have houtcome := Batch.outcome_of_ok (hsame.trans hevaluate)
      have heffect : runExpression expression settings =
          ⟨0, Decimal.plainText evaluation.value ++ "\n",
            String.join (evaluation.diagnostics.map fun diagnostic => diagnostic.remark ++ "\n"),
            none⟩ := by
        rw [runExpression, hevaluate, ← linesText_texts]
        simp only [linesText_cons, linesText_nil, String.append_empty]
      rw [heffect, Batch.run, List.map_singleton, houtcome, lines_singleton, lines_evaluated]
      exact ⟨.evaluated evaluation _ rfl rfl, rfl⟩

/-! ## The file of an expression -/

theorem name_ne_nil (h : Batch.IsTextFile path.name) : path.name ≠ [] := by
  obtain ⟨stem, hstem, hname⟩ := h
  rw [hname]
  exact List.append_ne_nil_of_left_ne_nil hstem _

theorem exists_reportPath (h : Batch.IsTextFile path.name) :
    ∃ reportPath, path.reportPath? = some reportPath :=
  ⟨_, if_neg (name_ne_nil h)⟩

/-- What a run does on a text file with an expression: it writes the report on the one request. -/
theorem runFile_of_isExpression (h : Batch.IsExpression expression.toList)
    (hname : Batch.IsTextFile path.name) {reportPath : Path}
    (hpath : path.reportPath? = some reportPath)
    (hbytes : content.bytes = Utf8.encode expression.toList) :
    runFile find path content settings =
      writeReport find reportPath
        (Batch.run settings [Batch.lineRequest expression (String.ofList path.name)]) := by
  obtain ⟨bytes, members⟩ := content
  obtain rfl : bytes = Utf8.encode expression.toList := hbytes
  obtain ⟨found, hfound, hrequests⟩ :=
    Batch.exists_textDocuments (String.ofList path.name) expression members
  rw [runFile, Batch.documentsIn_of_isTextFile hname, hfound]
  simp only [hpath, hrequests, Batch.requests_of_isExpression h]

theorem headline_lineRequest (hname : Batch.IsTextFile path.name) (expression : String) :
    (Batch.lineRequest expression (String.ofList path.name)).headline =
      String.ofList path.name ++ ":1: " ++ String.ofList (Text.trim expression.toList) := by
  have hsource : String.ofList path.name ≠ "" := by
    intro hempty
    exact name_ne_nil hname (String.ofList_eq_empty_iff.1 hempty)
  rw [Batch.Request.headline, Batch.lineRequest, if_neg hsource]
  simp only [String.append_assoc]
  rfl

/-- What the report on one outcome makes of a run. -/
theorem writeReport_of_none {reportPath : Path} (report : Batch.Report)
    (h : (find reportPath).obstacle? = none) :
    ∃ effect, writeReport find reportPath report = .ok effect ∧
      effect.status = (if report.errors = 0 then 0 else 1) ∧
      effect.report = some (reportPath, String.join (report.lines.map (· ++ "\n"))) := by
  refine ⟨reportEffect reportPath report, ?_, rfl, rfl⟩
  rw [writeReport, h]

theorem writeReport_of_some {reportPath : Path} {obstacle : Obstacle} (report : Batch.Report)
    (h : (find reportPath).obstacle? = some obstacle) :
    writeReport find reportPath report = .error (.blocked obstacle reportPath) := by
  rw [writeReport, h]

/-- The runs on an expression and on the text file of it agree, where `start` is how the first line of
the report starts: the first run writes no file, and unless something is in the way of the report, the
second writes nothing else, has the same status and tells the same. -/
inductive RunsAgree (find : Path → Found) (given : List String) (settings : Settings)
    (expression target start : String) (reportPath : Path) : Prop
  | written (effect fileEffect : Effect) (lines : List String)
      (hexpression : run find ("-e" :: (given ++ ["--", expression])) = .ok effect)
      (hsilent : effect.report = none) (hfree : (find reportPath).obstacle? = none)
      (hfile : run find (given ++ ["--", target]) = .ok fileEffect)
      (hstatus : fileEffect.status = effect.status)
      (hreport : fileEffect.report = some (reportPath, String.join (lines.map (· ++ "\n"))))
      (htell : TellSame start effect lines (evaluate expression settings))
  | blocked (effect : Effect) (obstacle : Obstacle)
      (hexpression : run find ("-e" :: (given ++ ["--", expression])) = .ok effect)
      (hsilent : effect.report = none) (hobstacle : (find reportPath).obstacle? = some obstacle)
      (hfile : run find (given ++ ["--", target]) = .error (.blocked obstacle reportPath))

theorem TellSame.report_eq {start : String} {effect : Effect} {lines : List String}
    {result : Except Rejection Evaluation} (h : TellSame start effect lines result) :
    effect.report = none := by
  cases h with
  | rejected _ _ heffect => rw [heffect]
  | evaluated _ _ heffect => rw [heffect]

/-- The status is a count of rejected expressions. -/
theorem TellSame.status_le {start : String} {effect : Effect} {lines : List String}
    {result : Except Rejection Evaluation} (h : TellSame start effect lines result) :
    effect.status ≤ 1 := by
  cases h with
  | rejected _ _ heffect => rw [heffect]
  | evaluated _ _ heffect => rw [heffect]; exact Nat.zero_le 1

/-- **The two modes agree.**  Whatever arguments ask for settings, the runs on an expression and on a
text file that holds nothing else agree, and there are such arguments for all settings whose limit
can be read. -/
theorem modes_agree (settings : Settings) (h : Batch.IsExpression expression.toList)
    (hpath : Path.ofChars target.toList = path) (hname : Batch.IsTextFile path.name)
    (hfound : find path = .file content) (hbytes : content.bytes = Utf8.encode expression.toList) :
    (settings.CanBeGiven → Asks settings.arguments settings) ∧ ∀ given, Asks given settings →
      ∃ reportPath, path.reportPath? = some reportPath ∧
        RunsAgree find given settings expression target
          (String.ofList path.name ++ ":1: " ++ String.ofList (Text.trim expression.toList))
          reportPath := by
  refine ⟨asks_arguments, ?_⟩
  intro given hgiven
  obtain ⟨reportPath, hreport⟩ := exists_reportPath hname
  have hexpression := hgiven.run_expression find expression
  have hfile : run find (given ++ ["--", target]) =
      writeReport find reportPath
        (Batch.run settings [Batch.lineRequest expression (String.ofList path.name)]) := by
    rw [hgiven.run_file hpath hfound]
    exact runFile_of_isExpression h hname hreport hbytes
  obtain ⟨htell, herrors⟩ := tellSame_report expression (String.ofList path.name) settings
  rw [headline_lineRequest hname] at htell
  refine ⟨reportPath, hreport, ?_⟩
  cases hobstacle : (find reportPath).obstacle? with
  | some obstacle =>
      rw [writeReport_of_some _ hobstacle] at hfile
      exact .blocked _ obstacle hexpression htell.report_eq hobstacle hfile
  | none =>
      obtain ⟨fileEffect, hwritten, hstatus, hreported⟩ := writeReport_of_none
        (Batch.run settings [Batch.lineRequest expression (String.ofList path.name)]) hobstacle
      have hsame : fileEffect.status = (runExpression expression settings).status := by
        have hle := htell.status_le
        rw [hstatus, herrors]
        split <;> omega
      exact .written _ fileEffect _ hexpression htell.report_eq hobstacle (hfile.trans hwritten) hsame
        hreported htell

/-- A directory that holds one text. -/
def oneText (target expression : String) (path : Path) : Found :=
  if path = Path.ofChars target.toList then .file ⟨Utf8.encode expression.toList, none⟩ else .nothing

theorem modes_agree_oneText :
    Settings.CanBeGiven ⟨true, some 12⟩ ∧ Batch.IsExpression " ( 2 / 0".toList ∧
      Batch.IsTextFile (Path.ofChars "sums/a.b.txt".toList).name ∧
      ∃ reportPath, (Path.ofChars "sums/a.b.txt".toList).reportPath? = some reportPath ∧
        RunsAgree (oneText "sums/a.b.txt" " ( 2 / 0") (Settings.arguments ⟨true, some 12⟩)
          ⟨true, some 12⟩ " ( 2 / 0" "sums/a.b.txt"
          (String.ofList (Path.ofChars "sums/a.b.txt".toList).name ++ ":1: " ++
            String.ofList (Text.trim " ( 2 / 0".toList)) reportPath := by
  have hsettings : Settings.CanBeGiven ⟨true, some 12⟩ := by
    intro limit hlimit
    cases hlimit
    exact ⟨by decide, by simp [Decimal.natText, Decimal.digits, Text.digitLimit]⟩
  have hunbroken : " ( 2 / 0".toList.all (fun c => !Text.isBreak c) = true := by decide
  have hexpression : Batch.IsExpression " ( 2 / 0".toList :=
    ⟨⟨'(', by decide, by decide⟩, by simpa using List.all_eq_true.1 hunbroken, by decide, by decide⟩
  have hname : Batch.IsTextFile (Path.ofChars "sums/a.b.txt".toList).name :=
    ⟨['a', '.', 'b'], by decide, rfl⟩
  have hfound : oneText "sums/a.b.txt" " ( 2 / 0" (Path.ofChars "sums/a.b.txt".toList) =
      .file ⟨Utf8.encode " ( 2 / 0".toList, none⟩ := if_pos rfl
  have hagree := modes_agree ⟨true, some 12⟩ hexpression rfl hname hfound rfl
  exact ⟨hsettings, hexpression, hname, hagree.2 _ (hagree.1 hsettings)⟩

/-- A text beside a directory that has the name of its report. -/
def blockedReport (path : Path) : Found :=
  if path = Path.ofChars "a.txt".toList then .file ⟨Utf8.encode "1".toList, none⟩
  else if path = Path.ofChars "a_txt_results.txt".toList then .directory
  else .nothing

/-- Where a directory has the name of the report, only the run on the expression has a status. -/
theorem not_modes_agree :
    ¬ ∀ (find : Path → Found) (given : List String) (settings : Settings)
      (expression target : String) (content : Content), Asks given settings →
      Batch.IsExpression expression.toList →
      Batch.IsTextFile (Path.ofChars target.toList).name →
      find (Path.ofChars target.toList) = .file content →
      content.bytes = Utf8.encode expression.toList →
      ∃ effect fileEffect, run find ("-e" :: (given ++ ["--", expression])) = .ok effect ∧
        run find (given ++ ["--", target]) = .ok fileEffect ∧
          fileEffect.status = effect.status := by
  intro h
  have hsettings : Asks [] ⟨false, none⟩ := asks_arguments fun _ hlimit => by cases hlimit
  have hunbroken : ∀ c ∈ "1".toList, Text.isBreak c = false := List.forall_mem_singleton.2 rfl
  have hexpression : Batch.IsExpression "1".toList :=
    ⟨⟨'1', by decide, by decide⟩, hunbroken, by decide, by decide⟩
  have hname : Batch.IsTextFile (Path.ofChars "a.txt".toList).name := ⟨['a'], by decide, rfl⟩
  obtain ⟨effect, fileEffect, -, hfile, -⟩ := h blockedReport [] ⟨false, none⟩ "1" "a.txt"
    ⟨Utf8.encode "1".toList, none⟩ hsettings hexpression hname (if_pos rfl) rfl
  have hblocked : run blockedReport ["--", "a.txt"] =
      .error (.blocked .isDirectory (Path.ofChars "a_txt_results.txt".toList)) := by
    rw [← List.nil_append ["--", "a.txt"], hsettings.run_file rfl (if_pos rfl),
      runFile_of_isExpression hexpression hname rfl rfl]
    exact writeReport_of_some _ rfl
  cases hfile.symm.trans hblocked

end CommandLine

end InfixCalculator
