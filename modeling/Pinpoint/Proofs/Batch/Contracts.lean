import Pinpoint.Proofs.Artifact.Decoding
import Pinpoint.Proofs.Batch.Malformed

/-!
# Batches of contracts that have been read

A unit that is ready for the analysis contributes to a batch, unless its source map has a number that is too
long (`AnalysisUnit.run_of_isReadable`). A batch of such units returns if all of them contribute, and otherwise
ends with that one error (`analyzeBatch_ends`): grouping the reports cannot fail, since their paths are texts.
-/

namespace Pinpoint

/-- **How a unit ends,** if at most one thing can keep it from contributing to a batch. -/
def AnalysisUnit.EndsUnless (settings : Settings) (overlong : Prop) (u : AnalysisUnit) : Prop :=
  (overlong ∧ (u.run settings).outcome = .error .integerTooLong) ∨
    ¬ overlong ∧ ∃ o, (u.run settings).outcome = .ok o ∧ ∀ r ∈ o.fileReports, r.filePath.IsText

/-- **A contract that is ready for the analysis** contributes to a batch, or ends it. -/
theorem AnalysisUnit.run_of_isReadable (settings : Settings) {a : Artifact} (h : a.IsReadable)
    {items : List Json} (hresults : ∀ result ∈ items, result.IsResult) :
    AnalysisUnit.EndsUnless settings a.HasOverlongMap ⟨.artifact a, .arr items⟩ := by
  have hname : (⟨.artifact a, .arr items⟩ : AnalysisUnit).subject.name = .ok a.contractName := rfl
  rcases analyzeArtifact_ends settings h hresults with
    ⟨hoverlong, hanalysis⟩ | ⟨hnot, ⟨rs, hanalysis, htexts⟩ | ⟨e, hanalysis, he⟩⟩
  · refine .inl ⟨hoverlong, ?_⟩
    have hunit : (AnalysisUnit.analyze settings ⟨.artifact a, .arr items⟩).outcome
        = .error .integerTooLong := hanalysis
    rw [run_outcome, hname, hunit]
    rfl
  · refine .inr ⟨hnot, .reports rs, ?_, htexts⟩
    have hunit : (AnalysisUnit.analyze settings ⟨.artifact a, .arr items⟩).outcome = .ok rs := hanalysis
    rw [run_outcome, hname, hunit]
    rfl
  · exact .inr ⟨hnot, _, run_eq_failure hname hanalysis he, fun r hr => absurd hr List.not_mem_nil⟩

/-- **The ends that a batch may come to:** it returns if all of its units contribute, and ends with the error of
the units that do not. -/
theorem analyzeBatch_ends {settings : Settings} {overlong : AnalysisUnit → Prop}
    {units : List AnalysisUnit} (h : ∀ u ∈ units, u.EndsUnless settings (overlong u)) :
    ((∃ u ∈ units, overlong u) ∧ (analyzeBatch settings units).outcome = .error .integerTooLong) ∨
      (∀ u ∈ units, ¬ overlong u) ∧ ∃ b, (analyzeBatch settings units).outcome = .ok b := by
  by_cases hany : ∃ u ∈ units, overlong u
  · refine .inl ⟨hany, ?_⟩
    -- the units before the first of these contribute, so theirs is the error of the batch
    have hmapM : units.mapM (fun u => (AnalysisUnit.run settings u).outcome)
        = .error .integerTooLong := by
      obtain ⟨u, hu, hoverlong⟩ := hany
      refine List.mapM_eq_error (fun v hv => ?_) ⟨u, hu, ?_⟩
      · rcases h v hv with ⟨-, hrun⟩ | ⟨-, o, hrun, -⟩
        · exact .inr hrun
        · exact .inl ⟨o, hrun⟩
      · exact ((h u hu).resolve_right fun hends => hends.1 hoverlong).2
    rw [analyzeBatch, Trace.outcome_bind, Trace.outcome_mapM, hmapM]
    rfl
  · have hnone : ∀ u ∈ units, ¬ overlong u := fun u hu hoverlong => hany ⟨u, hu, hoverlong⟩
    refine .inr ⟨hnone, ?_⟩
    have hruns : ∀ u ∈ units, ∃ o, (u.run settings).outcome = .ok o ∧
        ∀ r ∈ o.fileReports, r.filePath.IsText := fun u hu =>
      ((h u hu).resolve_left fun hends => hnone u hu hends.1).2
    obtain ⟨outcomes, houtcomes, htexts⟩ := List.mapM_ok_of_forall hruns
    -- all units contribute, and their reports can be grouped
    have hpaths : ∀ r ∈ outcomes.flatMap UnitOutcome.fileReports, r.filePath.IsText := by
      intro r hr
      obtain ⟨o, ho, hr⟩ := List.mem_flatMap.mp hr
      exact htexts o ho r hr
    obtain ⟨reports, hreports⟩ := FileReport.exists_groupByBasename hpaths
    have hmapM : (units.mapM (AnalysisUnit.run settings)).outcome = .ok outcomes := by
      rw [Trace.outcome_mapM, houtcomes]
    rw [analyzeBatch_outcome hmapM, BatchResult.ofOutcomes, hreports]
    exact ⟨_, rfl⟩

end Pinpoint
