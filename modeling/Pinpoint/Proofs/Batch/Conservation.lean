import Pinpoint.Batch
import Pinpoint.Proofs.Finding.Partition
import Pinpoint.Proofs.Normalize.Messages
import Pinpoint.Proofs.Report.Grouping

/-!
# No finding is lost or doubled

The findings of a list of results are followed to the messages of a batch. They are shared out among the
sources (`SourceReport.ofResults_eq_ok`), and each becomes one message or one suppression in the report of
its source, so the reports of a contract are those of `Tables.reportOf`, which takes each source with its
findings and nothing else (`normalizeAll_eq_reportOf`). Merging the reports of several contracts moves
messages, but adds and drops none (`FileReport.flatMap_messages_groupByBasename`).

`findings_conserved` puts the two together. It needs no more than that the analysis comes to its end: what
is not of the right type ends it.
-/

namespace Pinpoint

variable {settings : Settings}

/-! ### One contract -/

namespace Tables

variable {t : Tables}

/-- **The report of a source:** the messages of its findings, in their order, without those that are
dropped. -/
def reportOf (t : Tables) (settings : Settings) (s : SourceSlot) : Except Error FileReport := do
  let messages ← s.findings.mapM fun finding => do
    let f ← Finding.ofIssue finding.1 finding.2
    (t.normalize settings f (LocationKind.ofFormat? s.format) s.source false).outcome
  return ⟨s.source, messages.filterMap id, 0, 0⟩

/-- What becomes of a finding of a source: its message, or nothing if it is dropped. -/
def made (t : Tables) (settings : Settings) (s : SourceSlot) (finding : Json × Json) :
    Except Error (Option Message) := do
  let f ← Finding.ofIssue finding.1 finding.2
  (t.normalize settings f (LocationKind.ofFormat? s.format) s.source false).outcome

/-- The report of a source has what becomes of its findings. -/
theorem exists_made_of_reportOf {s : SourceSlot} {r : FileReport}
    (h : t.reportOf settings s = .ok r) :
    ∃ made, List.Forall₂ (fun finding m => t.made settings s finding = .ok m) s.findings made ∧
      r = ⟨s.source, made.filterMap id, 0, 0⟩ := by
  obtain ⟨made, hmade, h⟩ := Except.bind_eq_ok.mp h
  exact ⟨made, List.mapM_eq_ok.mp hmade, (Except.pure_eq_ok.mp h).symm⟩

/-- The report that is made for the findings that were read is the one for the findings of the source. -/
theorem reportOf_eq_ok {s : SourceSlot} {report : SourceReport} {r : FileReport}
    (hs : s.ReportedAs report) (h : (t.normalizeReport settings report).outcome = .ok r) :
    t.reportOf settings s = .ok r := by
  obtain ⟨messages, hmessages, rfl⟩ := normalizeReport_eq_ok h
  rw [Trace.outcome_mapM, hs.format, hs.source, List.mapM_eq_ok] at hmessages
  refine Except.bind_eq_ok.mpr ⟨messages, List.mapM_eq_ok.mpr ?_, by rw [hs.source]; rfl⟩
  refine (List.forall₂_comp hs.findings hmessages).imp fun finding m hm => ?_
  obtain ⟨f, hf, hm⟩ := hm
  exact Except.bind_eq_ok.mpr ⟨f, hf, hm⟩

/-- **The reports of a contract** are those of the sources of its results. -/
theorem normalizeAll_eq_reportOf {results : List Json} {reports : List SourceReport}
    {rs : List FileReport} (hreports : SourceReport.ofResults results = .ok reports)
    (h : (t.normalizeAll settings reports).outcome = .ok rs) :
    (slotsOf results).mapM (t.reportOf settings) = .ok rs := by
  rw [normalizeAll, Trace.outcome_mapM, List.mapM_eq_ok] at h
  rw [List.mapM_eq_ok]
  refine (List.forall₂_comp (SourceReport.ofResults_eq_ok hreports) h).imp fun s r hr => ?_
  obtain ⟨report, hs, hr⟩ := hr
  exact reportOf_eq_ok hs hr

end Tables

/-- **The analysis of a contract, step by step:** it comes to its end exactly if each step does. -/
theorem analyzeArtifact_eq_ok {a : Artifact} {results : Json} {rs : List FileReport} :
    (analyzeArtifact settings a results).outcome = .ok rs ↔
      ∃ t, Tables.build a = .ok t ∧ ∃ items, results.elements = .ok items ∧
        ∃ reports, SourceReport.ofResults items = .ok reports ∧
          (t.normalizeAll settings reports).outcome = .ok rs := by
  simp only [analyzeArtifact, Trace.outcome_bind, Trace.lift_outcome, Except.bind_eq_ok]

/-- After that the analysis ends as the resolution of the findings does. -/
theorem analyzeArtifact_outcome {a : Artifact} {results : Json} {t : Tables} {items : List Json}
    {reports : List SourceReport} (ht : Tables.build a = .ok t)
    (hitems : results.elements = .ok items)
    (hreports : SourceReport.ofResults items = .ok reports) :
    (analyzeArtifact settings a results).outcome = (t.normalizeAll settings reports).outcome := by
  simp only [analyzeArtifact, Trace.outcome_bind, Trace.lift_outcome, ht, hitems]
  simp only [bind, Except.bind, hreports]

/-- Nothing is noted before the findings are resolved. -/
theorem analyzeArtifact_notes {a : Artifact} {results : Json} {t : Tables} {items : List Json}
    {reports : List SourceReport} (ht : Tables.build a = .ok t)
    (hitems : results.elements = .ok items)
    (hreports : SourceReport.ofResults items = .ok reports) :
    (analyzeArtifact settings a results).notes = (t.normalizeAll settings reports).notes := by
  rw [analyzeArtifact, Trace.notes_bind ht, Trace.notes_bind hitems, Trace.notes_bind hreports]
  rfl

/-- The messages and the suppressions of a contract are as many as its findings. -/
theorem length_add_suppressions_analyzeArtifact {a : Artifact} {results : Json}
    {rs : List FileReport} (h : (analyzeArtifact settings a results).outcome = .ok rs) :
    (rs.flatMap FileReport.messages).length
        + suppressions (analyzeArtifact settings a results).notes
      = (results.items.flatMap findingsOf).length := by
  obtain ⟨t, ht, items, hitems, reports, hreports, hrs⟩ := analyzeArtifact_eq_ok.mp h
  rw [analyzeArtifact_notes ht hitems hreports, Tables.length_add_suppressions_normalizeAll hrs,
    SourceReport.sum_length_findings_ofResults hreports, Json.items_of_elements hitems]

/-! ### A batch -/

/-- No finding is dropped while a build record is read. -/
theorem Artifact.keepsFindings_read (build : Json) : (Artifact.read build).KeepsFindings := by
  have hdrop (name : Json) (fields : Json.Fields) (field : String) :
      (dropEmpty name fields field).KeepsFindings := by
    unfold dropEmpty
    split
    · exact Trace.only_pure _
    · split
      · refine Trace.only_note_pure ?_ _
        rfl
      · exact Trace.only_pure _
  unfold Artifact.read
  split
  · split
    · exact Trace.only_lift _
    · refine Trace.Only.bind ?_ fun _ => Trace.only_lift _
      exact Trace.only_foldlM (fun fields field => hdrop _ fields field) codeFields _
  · exact Trace.only_lift _

namespace AnalysisUnit

/-- The findings of a unit. -/
def findings (u : AnalysisUnit) : List (Json × Json) := u.results.items.flatMap findingsOf

/-- The unit does not fail. -/
def isAnalysed (settings : Settings) (u : AnalysisUnit) : Bool := (u.analyze settings).outcome.isOk

/-- The messages and the suppressions of a unit are as many as its findings. -/
theorem length_add_suppressions_analyze {u : AnalysisUnit} {rs : List FileReport}
    (h : (u.analyze settings).outcome = .ok rs) :
    (rs.flatMap FileReport.messages).length + suppressions (u.analyze settings).notes
      = u.findings.length := by
  unfold analyze at h ⊢
  rw [Trace.outcome_bind] at h
  obtain ⟨a, ha, h⟩ := Except.bind_eq_ok.mp h
  have hread : u.subject.toArtifact.KeepsFindings := by
    unfold Subject.toArtifact
    split
    · exact Artifact.keepsFindings_read _
    · exact Trace.only_pure _
  rw [Trace.notes_bind ha, suppressions_append, hread.suppressions_eq, Nat.zero_add,
    length_add_suppressions_analyzeArtifact h, findings]

/-- A unit is analysed by itself, and then its error is looked at. -/
theorem run_outcome (settings : Settings) (u : AnalysisUnit) :
    (u.run settings).outcome = (do
      let name ← u.subject.name
      (outcomeOf name (u.analyze settings).outcome).outcome) := by
  simp only [run, Trace.outcome_bind, Trace.lift_outcome]
  rfl

/-- The outcome of a unit has its reports if it does not fail, and none otherwise. -/
theorem fileReports_of_run {u : AnalysisUnit} {o : UnitOutcome}
    (h : (u.run settings).outcome = .ok o) :
    (u.isAnalysed settings = true ∧ (u.analyze settings).outcome = .ok o.fileReports) ∨
      (u.isAnalysed settings = false ∧ o.fileReports = []) := by
  rw [run_outcome] at h
  obtain ⟨name, -, h⟩ := Except.bind_eq_ok.mp h
  unfold isAnalysed outcomeOf at *
  cases hanalysis : (u.analyze settings).outcome with
  | ok rs =>
    rw [hanalysis] at h
    obtain rfl := Except.ok.inj h
    exact .inl ⟨rfl, rfl⟩
  | error e =>
    rw [hanalysis] at h
    refine .inr ⟨rfl, ?_⟩
    -- an error that concerns only this unit is a failure, any other ends the batch
    dsimp only at h
    split at h
    · obtain rfl := Except.ok.inj h
      rfl
    · cases h

end AnalysisUnit

/-- **A batch adds up its units.** If the messages of each unit that pass a test, with what is left out there, make
up the size of the unit, then the same holds of all units that do not fail. -/
theorem countP_add_run {q : Message → Bool} (left size : AnalysisUnit → Nat)
    (hunit : ∀ u rs, (AnalysisUnit.analyze settings u).outcome = .ok rs →
      (rs.flatMap FileReport.messages).countP q + left u = size u)
    {units : List AnalysisUnit} {outcomes : List UnitOutcome}
    (h : List.Forall₂ (fun u o => (AnalysisUnit.run settings u).outcome = .ok o) units outcomes) :
    ((outcomes.flatMap UnitOutcome.fileReports).flatMap FileReport.messages).countP q
        + ((units.filter (·.isAnalysed settings)).map left).sum
      = ((units.filter (·.isAnalysed settings)).map size).sum := by
  induction h with
  | nil => rfl
  | @cons u o units outcomes hrun _ ih =>
    rw [List.flatMap_cons, List.flatMap_append, List.countP_append, List.filter_cons]
    rcases AnalysisUnit.fileReports_of_run hrun with ⟨hok, hreports⟩ | ⟨hfailed, hreports⟩
    · -- the unit counts on both sides
      have hcount := hunit u o.fileReports hreports
      rw [if_pos hok, List.map_cons, List.map_cons, List.sum_cons, List.sum_cons]
      omega
    · -- a unit that fails has no reports, and is left out on the other side as well
      rw [hfailed, hreports, if_neg Bool.false_ne_true, List.flatMap_nil, List.countP_nil]
      omega

/-- The messages and the suppressions of the units that do not fail are as many as their findings. -/
theorem length_add_suppressions_run {units : List AnalysisUnit} {outcomes : List UnitOutcome}
    (h : List.Forall₂ (fun u o => (AnalysisUnit.run settings u).outcome = .ok o) units outcomes) :
    ((outcomes.flatMap UnitOutcome.fileReports).flatMap FileReport.messages).length
        + ((units.filter (·.isAnalysed settings)).map fun u =>
            suppressions (u.analyze settings).notes).sum
      = ((units.filter (·.isAnalysed settings)).map fun u => u.findings.length).sum := by
  rw [← List.countP_true]
  refine countP_add_run _ _ (fun u rs hrs => ?_) h
  rw [List.countP_true]
  exact AnalysisUnit.length_add_suppressions_analyze hrs

/-- **No finding is lost or doubled.** If the analysis of a contract comes to its end, it has a report for
each source of each result, with the messages of the findings of that source, and its messages and
suppressions together are as many as the findings. The same holds of a batch and of the units that do not
fail. -/
theorem findings_conserved (settings : Settings) :
    (∀ (a : Artifact) (results : Json) (rs : List FileReport),
      (analyzeArtifact settings a results).outcome = .ok rs →
        ∃ t, Tables.build a = .ok t ∧
          (slotsOf results.items).mapM (t.reportOf settings) = .ok rs ∧
          (rs.flatMap FileReport.messages).length
              + suppressions (analyzeArtifact settings a results).notes
            = (results.items.flatMap findingsOf).length) ∧
      ∀ (units : List AnalysisUnit) (b : BatchResult),
        (analyzeBatch settings units).outcome = .ok b →
          (b.reports.flatMap FileReport.messages).length
              + ((units.filter (·.isAnalysed settings)).map fun u =>
                  suppressions (u.analyze settings).notes).sum
            = ((units.filter (·.isAnalysed settings)).map fun u => u.findings.length).sum := by
  refine ⟨fun a results rs h => ?_, fun units b h => ?_⟩
  · obtain ⟨t, ht, items, hitems, reports, hreports, hrs⟩ := analyzeArtifact_eq_ok.mp h
    have hslots := Tables.normalizeAll_eq_reportOf hreports hrs
    rw [← Json.items_of_elements hitems] at hslots
    exact ⟨t, ht, hslots, length_add_suppressions_analyzeArtifact h⟩
  · unfold analyzeBatch at h
    rw [Trace.outcome_bind] at h
    obtain ⟨outcomes, houtcomes, h⟩ := Except.bind_eq_ok.mp h
    rw [Trace.outcome_bind] at h
    obtain ⟨reports, hreports, h⟩ := Except.bind_eq_ok.mp h
    obtain rfl := Except.ok.inj h
    rw [Trace.outcome_mapM, List.mapM_eq_ok] at houtcomes
    rw [(FileReport.flatMap_messages_groupByBasename hreports).length_eq]
    exact length_add_suppressions_run houtcomes

/-- A contract that starts with the declaration of a dynamic array. -/
def withArray : Artifact :=
  { contractName := "A", deployedBytecode := "", bytecode := "", deployedSourceMap := ""
    sourceMap := "", sourceList := ["a.sol", "b.sol"]
    sources := [⟨"a.sol", "uint[] xs;\nf();\n", .obj [("nodeType", "VariableDeclaration"),
      ("src", "0:9:0"), ("name", "xs"), ("typeName", .obj [("nodeType", "ArrayTypeName")])]⟩] }

/-- The tables of the contract with the array. -/
def withArrayTables : Tables :=
  ⟨withArray, ⟨[]⟩, ⟨[]⟩, [(.text "a.sol", [10, 15])],
    [(.text "a.sol", ⟨"VariableDeclaration", some ⟨0, 9, 0⟩,
      some ⟨"xs", some (.array (.other "") true)⟩, [⟨"ArrayTypeName", none, none, []⟩]⟩)]⟩

/-- An issue at three locations: at the array, at none, and behind the array in a source that is not
listed. -/
def threePlaces : Json :=
  .obj [("severity", "High"), ("locations", .arr [.obj [("sourceMap", "0:4:0")],
    .obj [("sourceMap", .null)], .obj [("sourceMap", "11:3:7")]])]

/-- A result with the issue at three locations. -/
def threePlacesResults : Json :=
  .arr [.obj [("sourceFormat", "text"), ("sourceList", .arr ["a.sol", "b.sol"]),
    ("issues", .arr [threePlaces])]]

/-- The reports of the contract with the array: what is found at the array is dropped. -/
def withArrayReports : List FileReport :=
  [⟨"a.sol", [⟨"", " ", 2, "High", true, ⟨2, 0⟩, some ⟨2, 3⟩⟩], 0, 0⟩, ⟨"b.sol", [], 0, 0⟩]

/-- A batch of the contract with the array and of a record whose code cannot be read. -/
def withUnreadable : List AnalysisUnit :=
  [⟨.artifact withArray, threePlacesResults⟩,
    ⟨.record (.obj [("contractName", "B"), ("deployedBytecode", "zz")]), threePlacesResults⟩]

theorem withArray_build : Tables.build withArray = .ok withArrayTables := by
  have htrees : Tables.entriesOf (fun file => Ast.read file.ast) withArray.sources
      = .ok withArrayTables.trees := rfl
  rw [Tables.build, htrees]
  cbv

theorem withArray_reports :
    (analyzeArtifact ⟨false, false⟩ withArray threePlacesResults).outcome = .ok withArrayReports := by
  have hreports : SourceReport.ofResults threePlacesResults.items
      = .ok [⟨"a.sol", "text", "", [⟨"High", "", "", "", "0:4:0", ""⟩,
          ⟨"High", "", "", "", "11:3:7", ""⟩]⟩, ⟨"b.sol", "text", "", []⟩] := by
    cbv
  have hformat : LocationKind.ofFormat? "text" = some .sourceText := rfl
  refine analyzeArtifact_eq_ok.mpr ⟨_, withArray_build, _, rfl, _, hreports, ?_⟩
  simp only [Tables.normalizeAll, List.mapM_cons, List.mapM_nil, Tables.normalizeReport,
    Tables.noteUnsupported, hformat]
  cbv

theorem withArray_analyze : (AnalysisUnit.analyze ⟨false, false⟩
    ⟨.artifact withArray, threePlacesResults⟩).outcome = .ok withArrayReports := by
  rw [AnalysisUnit.analyze, Trace.outcome_bind]
  exact withArray_reports

theorem unreadable_analyze : (AnalysisUnit.analyze ⟨false, false⟩
    ⟨.record (.obj [("contractName", "B"), ("deployedBytecode", "zz")]), threePlacesResults⟩).outcome
      = .error .notHex := by
  cbv

theorem withUnreadable_reports : (analyzeBatch ⟨false, false⟩ withUnreadable).outcome
    = .ok ⟨withArrayReports, [⟨"B", "bytecode contains non-hex characters"⟩]⟩ := by
  have hfirst : (AnalysisUnit.run ⟨false, false⟩
      ⟨.artifact withArray, threePlacesResults⟩).outcome = .ok (.reports withArrayReports) := by
    rw [AnalysisUnit.run_outcome, withArray_analyze]
    rfl
  have hsecond : (AnalysisUnit.run ⟨false, false⟩
      ⟨.record (.obj [("contractName", "B"), ("deployedBytecode", "zz")]),
        threePlacesResults⟩).outcome
        = .ok (.failure ⟨"B", "bytecode contains non-hex characters"⟩) := by
    rw [AnalysisUnit.run_outcome, unreadable_analyze]
    rfl
  rw [analyzeBatch, Trace.outcome_bind, Trace.outcome_mapM]
  refine Except.bind_eq_ok.mpr ⟨[.reports withArrayReports, .failure ⟨"B", _⟩],
    List.mapM_eq_ok.mpr (.cons hfirst (.cons hsecond .nil)), ?_⟩
  rfl

/-- One message and one suppression for two findings, and the findings of the record do not count. -/
theorem withUnreadable_conserved :
    (analyzeArtifact ⟨false, false⟩ withArray threePlacesResults).outcome = .ok withArrayReports ∧
      (∃ t, Tables.build withArray = .ok t ∧
        (slotsOf threePlacesResults.items).mapM (t.reportOf ⟨false, false⟩) = .ok withArrayReports ∧
        (withArrayReports.flatMap FileReport.messages).length
            + suppressions (analyzeArtifact ⟨false, false⟩ withArray threePlacesResults).notes
          = (threePlacesResults.items.flatMap findingsOf).length) ∧
      (analyzeBatch ⟨false, false⟩ withUnreadable).outcome
        = .ok ⟨withArrayReports, [⟨"B", "bytecode contains non-hex characters"⟩]⟩ ∧
      (withArrayReports.flatMap FileReport.messages).length
          + ((withUnreadable.filter (·.isAnalysed ⟨false, false⟩)).map fun u =>
              suppressions (u.analyze ⟨false, false⟩).notes).sum
        = ((withUnreadable.filter (·.isAnalysed ⟨false, false⟩)).map fun u => u.findings.length).sum := by
  have hcontract := withArray_reports
  have hbatch := withUnreadable_reports
  obtain ⟨hone, hall⟩ := findings_conserved ⟨false, false⟩
  exact ⟨hcontract, hone _ _ _ hcontract, hbatch, hall _ _ hbatch⟩

end Pinpoint
