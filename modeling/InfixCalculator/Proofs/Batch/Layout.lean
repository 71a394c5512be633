import InfixCalculator.Proofs.Batch.LineExpression
import InfixCalculator.Proofs.Batch.Messages
import InfixCalculator.Proofs.Batch.Shown
import Mathlib.Data.List.Forall2

/-!
# The layout of a report

A report is written without regard to what stands in it, and read line by line.  `report_laidOut`
says that every line is read as it was meant, whatever the document and the settings are: an entry
for every result, an empty line and a summary (`LaidOut`).  The numbers of the summary are counted
apart from the entries, but they agree with what the entries show (`Tally.Agrees`).  Lines are spelled
out in what is stated here (`Diagnostic.note`, `Tally.line`), so that nothing else can stand in them.

* Nothing in the report breaks a line: expressions are parts of lines (`onOneLine_of_mem_requests`),
  messages are on one line each, and the rest is made of numbers and of fixed texts.
* An outcome and its entry show the same (`Outcome.ShownAs`), so that outcomes and entries may be
  counted one for the other.
* Every diagnostic has one kind out of `DiagnosticKind.all`, so that the counts by kind add up.
-/

namespace InfixCalculator.Batch

open Text (IsUnbroken isUnbroken_append isUnbroken_intercalate)

/-- What a report shows of a result: a line, and the lines that follow it. -/
inductive Entry where
  | rejected (line : List Char)
  | evaluated (line : List Char) (notes : List (List Char))

namespace Entry

def notes : Entry → List (List Char)
  | rejected _ => []
  | evaluated _ notes => notes

def lines : Entry → List (List Char)
  | rejected line => [line]
  | evaluated line notes => line :: notes

def isRejected : Entry → Bool
  | rejected _ => true
  | evaluated _ _ => false

end Entry

/-- A result is shown with its own diagnostics below, or else with ERROR and nothing below. -/
inductive Outcome.ShownAs (outcome : Outcome) : Entry → Prop
  | rejected {reason : String} : outcome.error = some reason → outcome.diagnostics = [] →
      outcome.ShownAs (.rejected (outcome.request.headline ++ " -> ERROR: " ++ reason).toList)
  | evaluated {value : Float} : outcome.error = none → outcome.value = some value →
      outcome.ShownAs (.evaluated
        (outcome.request.headline ++ " = " ++ Decimal.plainText value).toList
        (outcome.diagnostics.map fun diagnostic => diagnostic.note.toList))

/-- The numbers of a summary. -/
structure Tally where
  expressions : Nat
  diagnosed : Nat
  counts : List (DiagnosticKind × Nat)
  rejected : Nat

/-- The counts by kind between parentheses, each as a word and a number; nothing without counts. -/
def Tally.countsText (tally : Tally) : String :=
  match tally.counts with
  | [] => ""
  | counts => " (" ++
      ", ".intercalate (counts.map fun (kind, n) => kind.word ++ ": " ++ toString n) ++ ")"

/-- The line of a summary. -/
def Tally.line (tally : Tally) : List Char :=
  ("# " ++ toString tally.expressions ++ " expressions, " ++ toString tally.diagnosed ++
    " with diagnostics" ++ tally.countsText ++ ", " ++ toString tally.rejected ++ " rejected").toList

/-- The numbers of a summary are those of what is shown. -/
structure Tally.Agrees (tally : Tally) (entries : List Entry) (diagnostics : List Diagnostic) :
    Prop where
  expressions : tally.expressions = entries.length
  diagnosed : tally.diagnosed = entries.countP (·.notes ≠ [])
  rejected : tally.rejected = entries.countP (·.isRejected)
  /-- The kinds that occur are listed, each of them once and with the number of its diagnostics. -/
  counts : ∀ kind n, (kind, n) ∈ tally.counts ↔
    n ≠ 0 ∧ n = (diagnostics.filter (·.kind = kind)).length
  kinds : (tally.counts.map Prod.fst).Nodup
  sum : (tally.counts.map Prod.snd).sum = diagnostics.length

/-- The report on some requests, read line by line. -/
structure LaidOut (found : List Request) (report : Report) : Prop where
  in_order : report.outcomes.map (·.request) = found
  lines_eq : ∃ entries, ∃ tally : Tally, List.Forall₂ Outcome.ShownAs report.outcomes entries ∧
    Text.lines report.text.toList = entries.flatMap Entry.lines ++ [[], tally.line] ∧
      tally.Agrees entries report.diagnostics
  length_eq : (Text.lines report.text.toList).length =
    report.outcomes.length + report.diagnostics.length + 2

variable {settings : Settings} {request : Request} {report : Report} {outcome : Outcome}
  {entry : Entry} {outcomes : List Outcome} {entries : List Entry}

/-! ## Results and entries -/

theorem Outcome.ShownAs.lines_eq (h : outcome.ShownAs entry) :
    entry.lines = outcome.lines.map String.toList := by
  unfold Outcome.lines
  simp only [Request.location_eq_headline]
  cases h with
  | rejected herror _ => simp only [herror]; rfl
  | evaluated herror hvalue =>
      simp only [herror, Outcome.valueText, hvalue, List.map_cons, List.map_map,
        Function.comp_def, diagnosticLine_eq_note]
      rfl

theorem Outcome.ShownAs.length_lines (h : outcome.ShownAs entry) :
    entry.lines.length = outcome.diagnostics.length + 1 := by
  cases h with
  | rejected _ hnone => rw [hnone]; rfl
  | evaluated => simp [Entry.lines]

theorem Outcome.ShownAs.notes_iff (h : outcome.ShownAs entry) :
    outcome.diagnostics.isEmpty = false ↔ entry.notes ≠ [] := by
  cases h with
  | rejected _ hnone => simp [hnone, Entry.notes]
  | evaluated => simp [Entry.notes]

theorem Outcome.ShownAs.failed_eq (h : outcome.ShownAs entry) :
    outcome.failed = entry.isRejected := by
  unfold Outcome.failed
  cases h with
  | rejected herror _ => rw [herror]; rfl
  | evaluated herror _ => rw [herror]; rfl

theorem request_outcome (request : Request) (settings : Settings) :
    (request.outcome settings).request = request := by
  unfold Request.outcome
  split <;> rfl

/-- Every outcome of a request has an entry. -/
theorem exists_shownAs (request : Request) (settings : Settings) :
    ∃ entry, (request.outcome settings).ShownAs entry := by
  cases h : evaluate request.expression settings with
  | ok evaluation =>
      rw [outcome_of_ok h]
      exact ⟨_, .evaluated rfl rfl⟩
  | error rejection =>
      rw [outcome_of_error h]
      exact ⟨_, .rejected rfl rfl⟩

theorem exists_entries (settings : Settings) (found : List Request) :
    ∃ entries, List.Forall₂ Outcome.ShownAs (run settings found).outcomes entries := by
  induction found with
  | nil => exact ⟨[], .nil⟩
  | cons request found ih =>
      obtain ⟨entry, hentry⟩ := exists_shownAs request settings
      obtain ⟨entries, hentries⟩ := ih
      exact ⟨entry :: entries, .cons hentry hentries⟩

theorem flatMap_lines (h : List.Forall₂ Outcome.ShownAs outcomes entries) :
    entries.flatMap Entry.lines = (outcomes.flatMap Outcome.lines).map String.toList := by
  induction h with
  | nil => rfl
  | cons hentry _ ih =>
      rw [List.flatMap_cons, List.flatMap_cons, List.map_append, ih, hentry.lines_eq]

theorem length_flatMap_lines (h : List.Forall₂ Outcome.ShownAs outcomes entries) :
    (entries.flatMap Entry.lines).length =
      outcomes.length + (outcomes.flatMap (·.diagnostics)).length := by
  induction h with
  | nil => rfl
  | cons hentry _ ih =>
      rw [List.flatMap_cons, List.flatMap_cons, List.length_append, List.length_append, ih,
        hentry.length_lines, List.length_cons]
      omega

/-- What can be told from the entry of an outcome may be counted among the entries. -/
theorem countP_of_shownAs {holds : Outcome → Bool} {shown : Entry → Bool}
    (hshown : ∀ outcome entry, outcome.ShownAs entry → (holds outcome = true ↔ shown entry = true))
    (h : List.Forall₂ Outcome.ShownAs outcomes entries) :
    outcomes.countP holds = entries.countP shown := by
  rw [List.countP_eq_length_filter, List.countP_eq_length_filter]
  exact (List.rel_filter (fun outcome entry => hshown outcome entry) h).length_eq

/-! ## Counts by kind -/

theorem sum_countP_kinds (diagnostics : List Diagnostic) :
    (DiagnosticKind.all.map fun kind => diagnostics.countP (·.kind = kind)).sum =
      diagnostics.length := by
  induction diagnostics with
  | nil => rfl
  | cons diagnostic diagnostics ih =>
      have hone : (DiagnosticKind.all.map fun kind =>
          if diagnostic.kind = kind then 1 else 0).sum = 1 := by
        cases diagnostic.kind <;> rfl
      simp only [List.countP_cons, decide_eq_true_eq, List.sum_map_add, ih, hone, List.length_cons]

theorem sum_filter_ne_zero (counts : List (DiagnosticKind × Nat)) :
    ((counts.filter fun (_, n) => n ≠ 0).map Prod.snd).sum = (counts.map Prod.snd).sum := by
  induction counts with
  | nil => rfl
  | cons count counts ih =>
      obtain ⟨kind, n⟩ := count
      cases n with
      | zero => simpa using ih
      | succ n => simpa using ih

theorem Report.sum_counts (report : Report) :
    (report.counts.map Prod.snd).sum = report.diagnostics.length := by
  rw [counts, sum_filter_ne_zero, List.map_map]
  exact sum_countP_kinds report.diagnostics

theorem Report.mem_counts_iff {kind : DiagnosticKind} {n : Nat} :
    (kind, n) ∈ report.counts ↔
      n ≠ 0 ∧ n = (report.diagnostics.filter (·.kind = kind)).length := by
  rw [← List.countP_eq_length_filter, counts, List.mem_filter, List.mem_map]
  constructor
  · rintro ⟨⟨kind, -, heq⟩, hne⟩
    cases heq
    exact ⟨of_decide_eq_true hne, rfl⟩
  · rintro ⟨hne, rfl⟩
    exact ⟨⟨kind, DiagnosticKind.mem_all kind, rfl⟩, decide_eq_true hne⟩

theorem Report.nodup_counts (report : Report) : (report.counts.map Prod.fst).Nodup := by
  have hkinds : DiagnosticKind.all.Nodup := by decide
  have hall : (DiagnosticKind.all.map fun kind => (kind, report.count kind)).map Prod.fst =
      DiagnosticKind.all := by
    rw [List.map_map]
    exact List.map_id _
  rw [← hall] at hkinds
  exact hkinds.sublist (List.filter_sublist.map Prod.fst)

/-- The tally of a report. -/
def Report.tally (report : Report) : Tally :=
  ⟨report.outcomes.length, report.withDiagnostics, report.counts, report.errors⟩

theorem Report.agrees_tally (h : List.Forall₂ Outcome.ShownAs report.outcomes entries) :
    report.tally.Agrees entries report.diagnostics where
  expressions := h.length_eq
  diagnosed := by
    refine countP_of_shownAs (fun outcome entry hentry => ?_) h
    rw [Bool.not_eq_true', hentry.notes_iff, decide_eq_true_eq]
  rejected := countP_of_shownAs (fun outcome entry hentry => by rw [hentry.failed_eq]) h
  counts := fun kind n => report.mem_counts_iff
  kinds := report.nodup_counts
  sum := report.sum_counts

/-! ## Unbroken lines -/

/-- A request that can be shown on one line. -/
structure Request.OnOneLine (request : Request) : Prop where
  expression : IsUnbroken request.expression.toList
  source : IsUnbroken request.source.toList

/-- An expression is a part of a line, and there are no breaks in lines. -/
theorem onOneLine_of_mem_requests {text source : String} (hsource : IsUnbroken source.toList)
    (h : request ∈ requests text source) : request.OnOneLine := by
  obtain ⟨rfl, i, line, hline, -, hholds⟩ := mem_requestsFrom_iff.1 h
  obtain ⟨hunbroken, -⟩ := Text.isUnbroken_of_mem_lines (List.mem_of_getElem? hline)
  exact ⟨fun c hc => hunbroken c (hholds.subset hc), hsource⟩

theorem isUnbroken_toString (n : Nat) : IsUnbroken (toString n).toList := by
  rw [← Decimal.natText_eq_toString]
  exact Decimal.isUnbroken_natText n

theorem isUnbroken_word (kind : DiagnosticKind) : IsUnbroken kind.word.toList := by
  cases kind <;> decide

theorem Request.OnOneLine.headline (h : request.OnOneLine) :
    IsUnbroken request.headline.toList := by
  have hsource : IsUnbroken
      (if request.source = "" then "" else request.source ++ ":").toList := by
    split
    · decide
    · exact isUnbroken_append h.source (by decide)
  exact isUnbroken_append (isUnbroken_append
    (isUnbroken_append hsource (isUnbroken_toString _)) (by decide)) h.expression

theorem isUnbroken_note {diagnostic : Diagnostic} (h : diagnostic.OnOneLine) :
    IsUnbroken diagnostic.note.toList := by
  have hkind : IsUnbroken ("    ! " ++ diagnostic.kind.word ++ " at token ").toList :=
    isUnbroken_append (isUnbroken_append (by decide) (isUnbroken_word _)) (by decide)
  exact isUnbroken_append
    (isUnbroken_append (isUnbroken_append hkind (isUnbroken_toString _)) (by decide)) h

theorem isUnbroken_of_mem_outcome (hrequest : request.OnOneLine) :
    ∀ line ∈ (request.outcome settings).lines, IsUnbroken line.toList := by
  have hstart := hrequest.headline
  rw [← Request.location_eq_headline] at hstart
  cases h : evaluate request.expression settings with
  | ok evaluation =>
      rw [outcome_of_ok h]
      refine List.forall_mem_cons.2 ⟨?_, ?_⟩
      · exact isUnbroken_append (isUnbroken_append hstart (by decide))
          (Decimal.isUnbroken_plainText _)
      · refine List.forall_mem_map.2 fun diagnostic hmem => ?_
        rw [diagnosticLine_eq_note]
        exact isUnbroken_note (onOneLine_of_evaluate h diagnostic hmem)
  | error rejection =>
      rw [outcome_of_error h]
      refine List.forall_mem_singleton.2 ?_
      exact isUnbroken_append (isUnbroken_append hstart (by decide)) (isUnbroken_of_rejected h)

theorem Tally.isUnbroken_countsText (tally : Tally) : IsUnbroken tally.countsText.toList := by
  unfold countsText
  split
  · decide
  · refine isUnbroken_append (isUnbroken_append (by decide) ?_) (by decide)
    refine isUnbroken_intercalate (by decide) (List.forall_mem_map.2 fun count _ => ?_)
    exact isUnbroken_append (isUnbroken_append (isUnbroken_word _) (by decide))
      (isUnbroken_toString _)

theorem Tally.isUnbroken_line (tally : Tally) : IsUnbroken tally.line := by
  have hexpressions : IsUnbroken ("# " ++ toString tally.expressions ++ " expressions, ").toList :=
    isUnbroken_append (isUnbroken_append (by decide) (isUnbroken_toString _)) (by decide)
  have hdiagnosed := isUnbroken_append
    (isUnbroken_append hexpressions (isUnbroken_toString tally.diagnosed))
    (show IsUnbroken " with diagnostics".toList by decide)
  have hcounts := isUnbroken_append hdiagnosed tally.isUnbroken_countsText
  exact isUnbroken_append
    (isUnbroken_append (isUnbroken_append hcounts (by decide)) (isUnbroken_toString _)) (by decide)

/-- The summary of a report is the line of its tally. -/
theorem Report.summary_eq_line (report : Report) :
    ("# " ++ report.summary).toList = report.tally.line := by
  have hcounts : countsText report.counts = report.tally.countsText := by
    rw [countsText, Tally.countsText, tally]
    cases report.counts with
    | nil => rfl
    | cons count counts =>
        simp only [reduceCtorEq, if_false, DiagnosticKind.name_eq_word,
          Decimal.natText_eq_toString]
  rw [summary, hcounts, Tally.line]
  simp only [Decimal.natText_eq_toString, String.append_assoc]
  rfl

/-! ## Whole reports -/

theorem isUnbroken_of_mem_run {found : List Request}
    (hfound : ∀ request ∈ found, request.OnOneLine) :
    ∀ line ∈ (run settings found).lines, IsUnbroken line.toList := by
  refine List.forall_mem_append.2 ⟨?_, ?_⟩
  · intro line hline
    obtain ⟨outcome, houtcome, hline⟩ := List.mem_flatMap.1 hline
    obtain ⟨request, hrequest, rfl⟩ := List.mem_map.1 houtcome
    exact isUnbroken_of_mem_outcome (hfound request hrequest) line hline
  · refine List.forall_mem_cons.2 ⟨by decide, List.forall_mem_singleton.2 ?_⟩
    rw [Report.summary_eq_line]
    exact (run settings found).tally.isUnbroken_line

/-- The lines that a report is written in are the ones that are read. -/
theorem lines_text (h : ∀ line ∈ report.lines, IsUnbroken line.toList) :
    Text.lines report.text.toList = report.lines.map String.toList := by
  have htext : report.text.toList = (report.lines.map String.toList).flatMap (· ++ ['\n']) := by
    rw [Report.text, String.toList_join, List.flatMap_map, List.flatMap_map]
    exact List.flatMap_congr fun line _ => String.toList_append
  rw [htext]
  exact Text.lines_flatMap_newline (List.forall_mem_map.2 h)

/-- **A report keeps its layout.**  Whatever is in a document, the lines of its report are those of
the results, in the order of the requests, with nothing but the summary after them. -/
theorem report_laidOut (text : String) (settings : Settings) {source : String}
    (hsource : IsUnbroken source.toList) :
    LaidOut (requests text source) (run settings (requests text source)) := by
  obtain ⟨entries, hentries⟩ := exists_entries settings (requests text source)
  have hlines : Text.lines (run settings (requests text source)).text.toList =
      entries.flatMap Entry.lines ++ [[], (run settings (requests text source)).tally.line] := by
    rw [lines_text (isUnbroken_of_mem_run fun request => onOneLine_of_mem_requests hsource),
      Report.lines, List.map_append, flatMap_lines hentries, ← Report.summary_eq_line]
    rfl
  refine ⟨?_, ⟨entries, _, hentries, hlines, Report.agrees_tally hentries⟩, ?_⟩
  · rw [run, List.map_map]
    exact (List.map_congr_left fun request _ => request_outcome request settings).trans
      (List.map_id _)
  · rw [hlines, List.length_append, length_flatMap_lines hentries]
    rfl

/-- A document with malformed words, an expression that is too long and breaks of four kinds. -/
def crowdedText : String :=
  "1 / 0 x\x0b 2 ~ 3 )\r\n1 + 2 + 3 + 4 # long\n\u2028?"

theorem report_laidOut_crowded :
    IsUnbroken "notes: a.txt".toList ∧
      LaidOut (requests crowdedText "notes: a.txt")
        (run { strictTokens := false, maxTokens := some 5 }
          (requests crowdedText "notes: a.txt")) := by
  have hsource : IsUnbroken "notes: a.txt".toList := by decide
  exact ⟨hsource, report_laidOut crowdedText _ hsource⟩

end InfixCalculator.Batch
