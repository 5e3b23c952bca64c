import Pinpoint.Proofs.Batch.Composition
import Pinpoint.Proofs.Report.Contents

/-!
# The order of units

In what order units are given decides in what order things are presented, and nothing else (`analyzeBatch_perm`).
A unit comes to the same whatever comes before it, so another order of the units is another order of what became
of them (`exists_outcomes_perm`). The failures are listed in that order, and the reports are merged from lists
that differ in it, which leaves them on the same files and alike (`FileReport.groupByBasename_perm`).

Reports can be merged only if their paths are texts. Where they are not, a batch ends with that error in any order
of its units, and so does the batch of a unit that has such a report.
-/

namespace Pinpoint

section Reordering

variable {settings : Settings} {us vs : List AnalysisUnit} {outcomes others : List UnitOutcome}

/-- Two results of batches have the same failures and tell the same of the same files. -/
structure BatchResult.SameContents (b c : BatchResult) : Prop where
  reports : FileReport.SameFiles b.reports c.reports
  failures : List.Perm b.failures c.failures

/-- **Another order of the units** is another order of their outcomes. -/
theorem exists_outcomes_perm (h : us.Perm vs)
    (hus : (us.mapM (AnalysisUnit.run settings)).outcome = .ok outcomes) :
    ∃ others, (vs.mapM (AnalysisUnit.run settings)).outcome = .ok others ∧
      List.Perm others outcomes := by
  rw [Trace.outcome_mapM, List.mapM_eq_ok] at hus
  obtain ⟨others, hothers, hperm⟩ := List.perm_comp_forall₂ h.symm hus
  refine ⟨others, ?_, hperm⟩
  rw [Trace.outcome_mapM]
  exact List.mapM_eq_ok.mpr hothers

/-- What has a result in one order has one in the other, with the same contents. -/
theorem ofOutcomes_perm {b : BatchResult} (h : List.Perm outcomes others)
    (hb : BatchResult.ofOutcomes outcomes = .ok b) :
    ∃ c, BatchResult.ofOutcomes others = .ok c ∧ b.SameContents c := by
  obtain ⟨reports, hreports, rfl⟩ := Except.map_eq_ok.mp hb
  obtain ⟨more, hmore, hsame⟩ := FileReport.groupByBasename_perm (h.flatMap_right _) hreports
  exact ⟨_, Except.map_eq_ok.mpr ⟨more, hmore, rfl⟩, hsame, h.filterMap _⟩

/-- A report without a name keeps any batch from having a result. -/
theorem ofOutcomes_eq_error (h : ∃ o ∈ outcomes, ∃ r ∈ o.fileReports, r.basename? = none) :
    BatchResult.ofOutcomes outcomes = .error .wrongType := by
  obtain ⟨o, ho, r, hr, hnone⟩ := h
  have hmem : r ∈ outcomes.flatMap UnitOutcome.fileReports := List.mem_flatMap.mpr ⟨o, ho, hr⟩
  rw [BatchResult.ofOutcomes, FileReport.groupByBasename_eq_error ⟨r, hmem, hnone⟩]
  rfl

/-- The batch of a unit alone is what became of the unit. -/
theorem analyzeBatch_singleton {u : AnalysisUnit} {o : UnitOutcome}
    (h : (u.run settings).outcome = .ok o) :
    (analyzeBatch settings [u]).outcome = BatchResult.ofOutcomes [o] := by
  apply analyzeBatch_outcome
  rw [Trace.outcome_mapM]
  exact List.mapM_eq_ok.mpr (.cons h .nil)

/-- Reports that all have names can be merged. -/
theorem exists_ofOutcomes (h : ∀ o ∈ outcomes, ∀ r ∈ o.fileReports, r.basename? ≠ none) :
    ∃ b, BatchResult.ofOutcomes outcomes = .ok b := by
  have hnamed : ∀ r ∈ outcomes.flatMap UnitOutcome.fileReports, ∃ path, r.filePath = .str path := by
    intro r hr
    obtain ⟨o, ho, hr⟩ := List.mem_flatMap.mp hr
    exact FileReport.exists_path_of_basename? (h o ho r hr)
  obtain ⟨reports, hreports⟩ := FileReport.exists_groupByBasename hnamed
  exact ⟨_, Except.map_eq_ok.mpr ⟨reports, hreports, rfl⟩⟩

/-- **The order of units is one of presentation only.** Two batches of the same units, in whatever orders, have the
same failures, and reports on the same files, one on each, with the same messages and the same counts of errors,
warnings and what can be fixed. If they have no result, then for an error that is the same for both, and that a unit
of theirs ends with on its own as well. -/
theorem analyzeBatch_perm (settings : Settings) (us vs : List AnalysisUnit) (hperm : us.Perm vs)
    (hus : ∀ u ∈ us, u.Returns settings) :
    (∃ b c, (analyzeBatch settings us).outcome = .ok b ∧ (analyzeBatch settings vs).outcome = .ok c ∧
        b.SameContents c) ∨
      ∃ e, (analyzeBatch settings us).outcome = .error e ∧ (analyzeBatch settings vs).outcome = .error e ∧
        ∃ u ∈ us, (analyzeBatch settings [u]).outcome = .error e := by
  obtain ⟨outcomes, houtcomes⟩ := outcomes_of_returns hus
  obtain ⟨others, hothers, hreordered⟩ := exists_outcomes_perm hperm houtcomes
  rw [analyzeBatch_outcome houtcomes, analyzeBatch_outcome hothers]
  by_cases hnamed : ∀ o ∈ outcomes, ∀ r ∈ o.fileReports, r.basename? ≠ none
  · obtain ⟨b, hb⟩ := exists_ofOutcomes hnamed
    obtain ⟨c, hc, hsame⟩ := ofOutcomes_perm hreordered.symm hb
    exact .inl ⟨b, c, hb, hc, hsame⟩
  · -- the report without a name is in either batch, and in that of its unit
    push Not at hnamed
    obtain ⟨o, ho, hunnamed⟩ := hnamed
    rw [Trace.outcome_mapM, List.mapM_eq_ok] at houtcomes
    obtain ⟨u, hu, hrun⟩ := List.exists_of_mem_forall₂ houtcomes ho
    refine .inr ⟨.wrongType, ofOutcomes_eq_error ⟨o, ho, hunnamed⟩,
      ofOutcomes_eq_error ⟨o, hreordered.mem_iff.mpr ho, hunnamed⟩, u, hu, ?_⟩
    rw [analyzeBatch_singleton hrun]
    exact ofOutcomes_eq_error ⟨o, List.mem_singleton_self o, hunnamed⟩

end Reordering

/-- The unit of the contract with a finding that has no location, in a file of the same name elsewhere. -/
def elsewhereUnit : AnalysisUnit :=
  ⟨.artifact Tables.halfCovered, .arr [.obj [("sourceList", .arr ["lib/a.sol"]),
    ("issues", .arr [.obj [("severity", "Low")]])]]⟩

/-- The report of that unit. -/
def elsewhereReport : FileReport := ⟨"lib/a.sol", [⟨"", " ", 1, "Low", false, ⟨-1, 0⟩, none⟩], 0, 0⟩

theorem elsewhereUnit_run :
    (elsewhereUnit.run ⟨false, true⟩).outcome = .ok (.reports [elsewhereReport]) := by
  have hreports : SourceReport.ofResults elsewhereUnit.results.items
      = .ok [⟨"lib/a.sol", "", "", [⟨"Low", "", "", "", "", ""⟩]⟩] := by
    cbv
  have hformat : LocationKind.ofFormat? "" = none := rfl
  have hanalysis : (analyzeArtifact ⟨false, true⟩ Tables.halfCovered elsewhereUnit.results).outcome
      = .ok [elsewhereReport] := by
    refine analyzeArtifact_eq_ok.mpr ⟨_, Tables.halfCovered_build, _, rfl, _, hreports, ?_⟩
    simp only [Tables.normalizeAll, List.mapM_cons, List.mapM_nil, Tables.normalizeReport,
      Tables.noteUnsupported, hformat]
    cbv
  have hunit : (elsewhereUnit.analyze ⟨false, true⟩).outcome = .ok [elsewhereReport] := by
    rw [AnalysisUnit.analyze, Trace.outcome_bind]
    exact hanalysis
  rw [AnalysisUnit.run_outcome, hunit]
  rfl

/-- Two contracts with findings in files of one name, and a record without a name, in two orders. -/
theorem elsewhereUnit_sameContents :
    ∃ b c, (analyzeBatch ⟨false, true⟩ [coveredUnit, elsewhereUnit, namelessUnit]).outcome = .ok b ∧
      (analyzeBatch ⟨false, true⟩ [elsewhereUnit, namelessUnit, coveredUnit]).outcome = .ok c ∧
      b.SameContents c := by
  have hperm : List.Perm [coveredUnit, elsewhereUnit, namelessUnit]
      [elsewhereUnit, namelessUnit, coveredUnit] := by
    have hparts : List.Perm ([coveredUnit] ++ [elsewhereUnit, namelessUnit])
        ([elsewhereUnit, namelessUnit] ++ [coveredUnit]) := List.perm_append_comm
    exact hparts
  have hreturns : ∀ u ∈ [coveredUnit, elsewhereUnit, namelessUnit], u.Returns ⟨false, true⟩ := by
    simp only [List.forall_mem_cons]
    exact ⟨⟨_, coveredUnit_run⟩, ⟨_, elsewhereUnit_run⟩, ⟨_, namelessUnit_run⟩, List.forall_mem_nil _⟩
  rcases analyzeBatch_perm ⟨false, true⟩ _ _ hperm hreturns with hsame | ⟨e, -, -, u, hu, he⟩
  · exact hsame
  · -- each of the three has a result on its own
    have hcovered : ∃ b, (analyzeBatch ⟨false, true⟩ [coveredUnit]).outcome = .ok b := by
      rw [analyzeBatch_singleton coveredUnit_run]
      exact ⟨_, rfl⟩
    have helsewhere : ∃ b, (analyzeBatch ⟨false, true⟩ [elsewhereUnit]).outcome = .ok b := by
      rw [analyzeBatch_singleton elsewhereUnit_run]
      exact ⟨_, rfl⟩
    have hnameless : ∃ b, (analyzeBatch ⟨false, true⟩ [namelessUnit]).outcome = .ok b := by
      rw [analyzeBatch_singleton namelessUnit_run]
      exact ⟨_, rfl⟩
    have hends : ∀ u ∈ [coveredUnit, elsewhereUnit, namelessUnit],
        ∃ b, (analyzeBatch ⟨false, true⟩ [u]).outcome = .ok b := by
      simp only [List.forall_mem_cons]
      exact ⟨hcovered, helsewhere, hnameless, List.forall_mem_nil _⟩
    obtain ⟨b, hb⟩ := hends u hu
    rw [he] at hb
    cases hb

end Pinpoint
