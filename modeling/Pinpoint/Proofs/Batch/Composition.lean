import Pinpoint.Proofs.Batch.Conservation
import Pinpoint.Proofs.Normalize.StrictMode
import Pinpoint.Proofs.Report.Regrouping

/-!
# Batches are put together from batches

Units are analysed one after the other and none sees the others, so the outcome of a batch is that of its
units (`analyzeBatch_outcome`), and its events are theirs (`events_analyzeBatch`). Only the reports are not
simply those of the units: they are merged. Since merging can be done in parts
(`FileReport.groupByBasename_append`), a batch of two lists of units is still made from the batches of the two
(`BatchResult.followedBy`), and nothing else of them needs to be known.

A unit that fails has no reports, whatever it came to before it failed. Put in anywhere, it leaves the reports
as they are (`analyzeBatch_append`).
-/

namespace Pinpoint

/-! ### Events of a batch -/

/-- The event that was noted, if it was one. -/
def Note.event? : Note → Option Event
  | .event e => some e
  | .log _ => none

/-- The events among some notes, in their order. -/
def eventsOf (notes : List Note) : List Event := notes.filterMap Note.event?

theorem eventsOf_append (xs ys : List Note) : eventsOf (xs ++ ys) = eventsOf xs ++ eventsOf ys :=
  List.filterMap_append

theorem eventsOf_flatMap {α : Type} (f : α → List Note) (xs : List α) :
    eventsOf (xs.flatMap f) = xs.flatMap fun x => eventsOf (f x) := by
  induction xs with
  | nil => rfl
  | cons x xs ih => rw [List.flatMap_cons, List.flatMap_cons, eventsOf_append, ih]

/-! ### One batch -/

/-- The analysis of a unit comes to its end, with reports or with a failure. -/
def AnalysisUnit.Returns (settings : Settings) (u : AnalysisUnit) : Prop :=
  ∃ o, (u.run settings).outcome = .ok o

/-- The result of a batch, given what became of its units. -/
def BatchResult.ofOutcomes (outcomes : List UnitOutcome) : Except Error BatchResult :=
  (FileReport.groupByBasename (outcomes.flatMap UnitOutcome.fileReports)).map fun reports =>
    ⟨reports, outcomes.filterMap UnitOutcome.failure?⟩

section Batch

variable {settings : Settings} {units us vs : List AnalysisUnit}

/-- The outcomes of units that come to their end. -/
theorem outcomes_of_returns (h : ∀ u ∈ units, u.Returns settings) :
    ∃ outcomes, (units.mapM (AnalysisUnit.run settings)).outcome = .ok outcomes := by
  rw [Trace.outcome_mapM]
  exact List.mapM_isOk h

/-- **A batch is what became of its units.** -/
theorem analyzeBatch_outcome {outcomes : List UnitOutcome}
    (h : (units.mapM (AnalysisUnit.run settings)).outcome = .ok outcomes) :
    (analyzeBatch settings units).outcome = BatchResult.ofOutcomes outcomes := by
  rw [analyzeBatch, Trace.outcome_bind, h]
  unfold BatchResult.ofOutcomes
  show ((Trace.lift _ : Logged _) >>= _).outcome = _
  rw [Trace.outcome_bind, Trace.lift_outcome]
  cases FileReport.groupByBasename (outcomes.flatMap UnitOutcome.fileReports) <;> rfl

/-- **The events of a batch** are those of its units. The end of a batch is no event. -/
theorem events_analyzeBatch {outcomes : List UnitOutcome}
    (h : (units.mapM (AnalysisUnit.run settings)).outcome = .ok outcomes) :
    eventsOf (analyzeBatch settings units).notes
      = units.flatMap fun u => eventsOf (u.run settings).notes := by
  have hunits : eventsOf (units.mapM (AnalysisUnit.run settings)).notes
      = units.flatMap fun u => eventsOf (u.run settings).notes := by
    rw [Trace.notes_mapM h, eventsOf_flatMap]
  rw [analyzeBatch, Trace.notes_bind h, eventsOf_append, hunits]
  cases hreports : FileReport.groupByBasename (outcomes.flatMap UnitOutcome.fileReports) with
  | error e =>
    rw [Trace.bind_of_error rfl]
    exact List.append_nil _
  | ok reports =>
    -- what is noted at the end is a log line
    rw [Trace.notes_bind rfl]
    exact List.append_nil _

/-! ### Two batches -/

/-- **The result of two batches,** one after the other: the reports of both are merged once more. -/
def BatchResult.followedBy (b c : BatchResult) : Except Error BatchResult :=
  (FileReport.groupByBasename (b.reports ++ c.reports)).map fun reports =>
    ⟨reports, b.failures ++ c.failures⟩

theorem mapM_run_append {outcomes others : List UnitOutcome}
    (hus : (us.mapM (AnalysisUnit.run settings)).outcome = .ok outcomes)
    (hvs : (vs.mapM (AnalysisUnit.run settings)).outcome = .ok others) :
    ((us ++ vs).mapM (AnalysisUnit.run settings)).outcome = .ok (outcomes ++ others) := by
  rw [Trace.outcome_mapM] at *
  rw [List.mapM_append, hus, hvs]
  rfl

/-- Results of units are put together as their batches are. -/
theorem ofOutcomes_append (outcomes others : List UnitOutcome) :
    BatchResult.ofOutcomes (outcomes ++ others) = (do
      let b ← BatchResult.ofOutcomes outcomes
      let c ← BatchResult.ofOutcomes others
      b.followedBy c) := by
  unfold BatchResult.ofOutcomes BatchResult.followedBy
  rw [List.flatMap_append, List.filterMap_append, FileReport.groupByBasename_append]
  cases FileReport.groupByBasename (outcomes.flatMap UnitOutcome.fileReports) with
  | error e => rfl
  | ok reports =>
    cases FileReport.groupByBasename (others.flatMap UnitOutcome.fileReports) <;> rfl

theorem foldl_errorCount (reports : List FileReport) (count : Nat) :
    reports.foldl (fun count r => count + r.errorCount) count
      = count + (reports.flatMap FileReport.messages).countP Message.isError := by
  induction reports generalizing count with
  | nil => rfl
  | cons r reports ih =>
    rw [List.foldl_cons, ih, List.flatMap_cons, List.countP_append, FileReport.errorCount,
      Nat.add_assoc]

/-- The number of errors is that of the messages that are errors. -/
theorem BatchResult.errorCount_eq (b : BatchResult) :
    b.errorCount = (b.reports.flatMap FileReport.messages).countP Message.isError := by
  rw [errorCount, foldl_errorCount, Nat.zero_add]

/-- Merging once more keeps the number of errors. -/
theorem BatchResult.errorCount_followedBy {b c d : BatchResult} (h : b.followedBy c = .ok d) :
    d.errorCount = b.errorCount + c.errorCount := by
  obtain ⟨reports, hreports, rfl⟩ := Except.map_eq_ok.mp h
  -- merging only reorders messages, so the errors among them stay as many
  have hperm := FileReport.flatMap_messages_groupByBasename hreports
  rw [errorCount_eq, errorCount_eq, errorCount_eq, hperm.countP_eq, List.flatMap_append,
    List.countP_append]

/-- A unit whose error concerns no other unit is a failure. -/
theorem run_eq_failure {u : AnalysisUnit} {name : Json} {e : Error} (hname : u.subject.name = .ok name)
    (hanalysis : (u.analyze settings).outcome = .error e)
    (he : (e.isUnreadable || e.isUncovered) = true) :
    (u.run settings).outcome = .ok (.failure ⟨name, e.message⟩) := by
  rw [AnalysisUnit.run_outcome, hname, hanalysis]
  show (outcomeOf name (.error e)).outcome = _
  unfold outcomeOf
  dsimp only
  rw [if_pos he]
  rfl

/-- **A failing unit put in anywhere** adds its failure at its place, and leaves the reports as they are. -/
theorem analyzeBatch_insert {outcomes others : List UnitOutcome} {u : AnalysisUnit}
    {failure : Failure} {d : BatchResult}
    (hus : (us.mapM (AnalysisUnit.run settings)).outcome = .ok outcomes)
    (hvs : (vs.mapM (AnalysisUnit.run settings)).outcome = .ok others)
    (hu : (u.run settings).outcome = .ok (.failure failure))
    (hd : (analyzeBatch settings (us ++ vs)).outcome = .ok d) :
    (analyzeBatch settings (us ++ u :: vs)).outcome = .ok ⟨d.reports,
      outcomes.filterMap UnitOutcome.failure? ++ failure :: others.filterMap UnitOutcome.failure?⟩ := by
  have hrest : ((u :: vs).mapM (AnalysisUnit.run settings)).outcome
      = .ok (.failure failure :: others) := by
    rw [Trace.outcome_mapM] at *
    rw [List.mapM_cons, hu, hvs]
    rfl
  rw [analyzeBatch_outcome (mapM_run_append hus hvs), BatchResult.ofOutcomes, List.flatMap_append] at hd
  obtain ⟨all, hall, rfl⟩ := Except.map_eq_ok.mp hd
  -- the failure has no reports, so what is merged is the same
  rw [analyzeBatch_outcome (mapM_run_append hus hrest), BatchResult.ofOutcomes, List.flatMap_append,
    List.flatMap_cons, UnitOutcome.fileReports, List.nil_append, hall, List.filterMap_append]
  rfl

/-- **Batches compose.** The batch of two lists of units is made from the batches of the two: its failures and
its events are theirs, one after the other, its reports are theirs merged once more, and its number of errors
is the sum of theirs. A unit that fails, put in between, adds its failure there and leaves the reports. -/
theorem analyzeBatch_append (settings : Settings) (us vs : List AnalysisUnit)
    (hus : ∀ u ∈ us, u.Returns settings) (hvs : ∀ v ∈ vs, v.Returns settings) :
    (analyzeBatch settings (us ++ vs)).outcome = (do
        let b ← (analyzeBatch settings us).outcome
        let c ← (analyzeBatch settings vs).outcome
        b.followedBy c) ∧
      eventsOf (analyzeBatch settings (us ++ vs)).notes
        = eventsOf (analyzeBatch settings us).notes ++ eventsOf (analyzeBatch settings vs).notes ∧
      ∀ b c, (analyzeBatch settings us).outcome = .ok b → (analyzeBatch settings vs).outcome = .ok c →
        ∃ d, (analyzeBatch settings (us ++ vs)).outcome = .ok d ∧
          d.errorCount = b.errorCount + c.errorCount ∧
          ∀ u name e, u.subject.name = .ok name → (u.analyze settings).outcome = .error e →
            (e.isUnreadable || e.isUncovered) = true →
            (analyzeBatch settings (us ++ u :: vs)).outcome
              = .ok ⟨d.reports, b.failures ++ ⟨name, e.message⟩ :: c.failures⟩ := by
  obtain ⟨outcomes, houtcomes⟩ := outcomes_of_returns hus
  obtain ⟨others, hothers⟩ := outcomes_of_returns hvs
  have hboth := mapM_run_append houtcomes hothers
  have hcompose : (analyzeBatch settings (us ++ vs)).outcome = (do
      let b ← (analyzeBatch settings us).outcome
      let c ← (analyzeBatch settings vs).outcome
      b.followedBy c) := by
    rw [analyzeBatch_outcome hboth, analyzeBatch_outcome houtcomes, analyzeBatch_outcome hothers,
      ofOutcomes_append]
  refine ⟨hcompose, ?_, ?_⟩
  · rw [events_analyzeBatch hboth, events_analyzeBatch houtcomes, events_analyzeBatch hothers,
      List.flatMap_append]
  intro b c hb hc
  rw [analyzeBatch_outcome houtcomes] at hb
  rw [analyzeBatch_outcome hothers] at hc
  obtain ⟨reports, hreports, rfl⟩ := Except.map_eq_ok.mp hb
  obtain ⟨more, hmore, rfl⟩ := Except.map_eq_ok.mp hc
  obtain ⟨all, hall, hmerged⟩ := FileReport.exists_groupByBasename_append hreports hmore
  have hd : (analyzeBatch settings (us ++ vs)).outcome = .ok ⟨all,
      outcomes.filterMap UnitOutcome.failure? ++ others.filterMap UnitOutcome.failure?⟩ := by
    rw [analyzeBatch_outcome hboth, BatchResult.ofOutcomes, List.flatMap_append, hall,
      List.filterMap_append]
    rfl
  refine ⟨_, hd, ?_, ?_⟩
  · exact BatchResult.errorCount_followedBy (Except.map_eq_ok.mpr ⟨all, hmerged, rfl⟩)
  · intro u name e hname hanalysis he
    exact analyzeBatch_insert houtcomes hothers (run_eq_failure hname hanalysis he) hd

end Batch

/-- A result with findings at the given offsets of the bytecode, in one report. -/
def atOffsets (locations : List String) : Json :=
  .arr [.obj [("sourceFormat", "evm-byzantium-bytecode"), ("sourceList", .arr ["a.sol"]),
    ("issues", .arr [.obj [("severity", "High"), ("locations", .arr (locations.map fun location =>
      .obj [("sourceMap", .str location)]))]])]]

/-- The unit of a contract with a finding at its first instruction only, which the source map covers. -/
def coveredUnit : AnalysisUnit := ⟨.artifact Tables.halfCovered, atOffsets ["0:1:0"]⟩

/-- The unit of the same contract with a finding at its second instruction as well. -/
def uncoveredUnit : AnalysisUnit := ⟨.artifact Tables.halfCovered, atOffsets ["0:1:0", "1:1:0"]⟩

/-- The unit of a record without a name. -/
def namelessUnit : AnalysisUnit := ⟨.record (.obj []), atOffsets []⟩

/-- The report of the contract. -/
def coveredReport : FileReport :=
  ⟨"a.sol", [⟨"", " ", 2, "High", true, ⟨1, 0⟩, some ⟨1, 4⟩⟩], 0, 0⟩

theorem coveredUnit_run :
    (coveredUnit.run ⟨false, true⟩).outcome = .ok (.reports [coveredReport]) := by
  have hreports : SourceReport.ofResults (atOffsets ["0:1:0"]).items
      = .ok [⟨"a.sol", "evm-byzantium-bytecode", "", [⟨"High", "", "", "", "0:1:0", ""⟩]⟩] := by
    cbv
  have hformat : LocationKind.ofFormat? "evm-byzantium-bytecode" = some .bytecodeOffset := rfl
  have hanalysis : (analyzeArtifact ⟨false, true⟩ Tables.halfCovered (atOffsets ["0:1:0"])).outcome
      = .ok [coveredReport] := by
    refine analyzeArtifact_eq_ok.mpr ⟨_, Tables.halfCovered_build, _, rfl, _, hreports, ?_⟩
    simp only [Tables.normalizeAll, List.mapM_cons, List.mapM_nil, Tables.normalizeReport,
      Tables.noteUnsupported, hformat]
    cbv
  have hunit : (coveredUnit.analyze ⟨false, true⟩).outcome = .ok [coveredReport] := by
    rw [AnalysisUnit.analyze, Trace.outcome_bind]
    exact hanalysis
  rw [AnalysisUnit.run_outcome, hunit]
  rfl

theorem uncoveredUnit_analyze :
    (uncoveredUnit.analyze ⟨false, true⟩).outcome = .error (.uncovered 1 1) := by
  have hreports : SourceReport.ofResults (atOffsets ["0:1:0", "1:1:0"]).items
      = .ok [⟨"a.sol", "evm-byzantium-bytecode", "", [⟨"High", "", "", "", "0:1:0", ""⟩,
          ⟨"High", "", "", "", "1:1:0", ""⟩]⟩] := by
    cbv
  have hformat : LocationKind.ofFormat? "evm-byzantium-bytecode" = some .bytecodeOffset := rfl
  have hitems : (atOffsets ["0:1:0", "1:1:0"]).elements
      = .ok (atOffsets ["0:1:0", "1:1:0"]).items := rfl
  have hstops : (Tables.halfCoveredTables.normalizeAll ⟨false, true⟩
      [⟨"a.sol", "evm-byzantium-bytecode", "", [⟨"High", "", "", "", "0:1:0", ""⟩,
          ⟨"High", "", "", "", "1:1:0", ""⟩]⟩]).outcome = .error (.uncovered 1 1) := by
    simp only [Tables.normalizeAll, List.mapM_cons, List.mapM_nil, Tables.normalizeReport,
      Tables.noteUnsupported, hformat]
    cbv
  rw [AnalysisUnit.analyze, Trace.outcome_bind]
  exact (analyzeArtifact_outcome Tables.halfCovered_build hitems hreports).trans hstops

theorem namelessUnit_run :
    (namelessUnit.run ⟨false, true⟩).outcome
      = .ok (.failure ⟨"?", "build record has no contractName"⟩) := by
  have hanalysis : (namelessUnit.analyze ⟨false, true⟩).outcome = .error .noContractName := rfl
  rw [AnalysisUnit.run_outcome, hanalysis]
  rfl

/-- A batch of a contract and a record without a name, and the same with a contract in between whose
analysis ends after its first message. -/
theorem uncoveredUnit_isolated :
    ∃ d, (analyzeBatch ⟨false, true⟩ [coveredUnit, namelessUnit]).outcome = .ok d ∧
      (analyzeBatch ⟨false, true⟩ [coveredUnit, uncoveredUnit, namelessUnit]).outcome
        = .ok ⟨d.reports, [⟨"A", "instruction 1 has no source map entry (map has 1 entries)"⟩,
            ⟨"?", "build record has no contractName"⟩]⟩ := by
  have hcovered : (analyzeBatch ⟨false, true⟩ [coveredUnit]).outcome = .ok ⟨[coveredReport], []⟩ := by
    have hrun : ([coveredUnit].mapM (AnalysisUnit.run ⟨false, true⟩)).outcome
        = .ok [.reports [coveredReport]] := by
      rw [Trace.outcome_mapM, List.mapM_cons, coveredUnit_run]
      rfl
    rw [analyzeBatch_outcome hrun]
    rfl
  have hnameless : (analyzeBatch ⟨false, true⟩ [namelessUnit]).outcome
      = .ok ⟨[], [⟨"?", "build record has no contractName"⟩]⟩ := by
    have hrun : ([namelessUnit].mapM (AnalysisUnit.run ⟨false, true⟩)).outcome
        = .ok [.failure ⟨"?", "build record has no contractName"⟩] := by
      rw [Trace.outcome_mapM, List.mapM_cons, namelessUnit_run]
      rfl
    rw [analyzeBatch_outcome hrun]
    rfl
  obtain ⟨-, -, hcompose⟩ := analyzeBatch_append ⟨false, true⟩ [coveredUnit] [namelessUnit]
    (List.forall_mem_singleton.mpr ⟨_, coveredUnit_run⟩)
    (List.forall_mem_singleton.mpr ⟨_, namelessUnit_run⟩)
  obtain ⟨d, hd, -, hinsert⟩ := hcompose _ _ hcovered hnameless
  exact ⟨d, hd, hinsert uncoveredUnit "A" (.uncovered 1 1) rfl uncoveredUnit_analyze rfl⟩

end Pinpoint
