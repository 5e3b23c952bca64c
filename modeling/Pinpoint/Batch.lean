import Pinpoint.Normalize
import Pinpoint.Report.Group

/-!
# Analysing several contracts

Contracts are independent of each other. One whose compiler output cannot be read, or whose source map
does not cover its code where that is required, becomes a failure with its reason; the others are
analysed all the same. The reports of all contracts are then grouped by file.

Events and log lines are noted in the order in which they arise (`Note`). An error of any other kind ends
the whole batch.

Contracts are analysed one after the other. Handing them to an executor, which analyses several at a time, is left
out: it has the same outcomes, which are taken in the order of the contracts as well, and only events and log lines
of different contracts may then come mixed.
-/

namespace Pinpoint

/-- What is analysed: a build record as it is, or a contract that has been read. -/
inductive Subject where
  | record (build : Json)
  | artifact (a : Artifact)

/-- A contract together with the scanner results for it. -/
structure AnalysisUnit where
  subject : Subject
  results : Json

/-- A contract that could not be analysed, and why. -/
structure Failure where
  contractName : Json
  reason : String
  deriving Repr

/-- Something noted during a batch. -/
inductive Note where
  | event (e : Event)
  | log (l : LogLine)
  deriving Repr

/-- The note as a log line. -/
def Note.logLine : Note → LogLine
  | .event e => e.logLine
  | .log l => l

/-- A computation that notes events and log lines and may fail. -/
abbrev Logged (α : Type) := Trace Note Error α

/-- The reports of a contract for scanner results. -/
def analyzeArtifact (settings : Settings) (a : Artifact) (results : Json) :
    Observed (List FileReport) := do
  let t ← Trace.lift (Tables.build a)
  let results ← Trace.lift results.elements
  let reports ← Trace.lift (SourceReport.ofResults results)
  t.normalizeAll settings reports

namespace Subject

/-- The name under which a subject is known when it fails. -/
def name : Subject → Except Error Json
  | .record build => (build.getD "contractName" (.str "?")).map fun j => .str j.display
  | .artifact a => .ok a.contractName

/-- The contract, read if need be. -/
def toArtifact : Subject → Observed Artifact
  | .record build => Artifact.read build
  | .artifact a => pure a

end Subject

/-- The outcome for one contract. -/
inductive UnitOutcome where
  | reports (rs : List FileReport)
  | failure (f : Failure)

/-- The reports of a unit, or the error that keeps it from being analysed. -/
def AnalysisUnit.analyze (settings : Settings) (u : AnalysisUnit) : Observed (List FileReport) := do
  let a ← u.subject.toArtifact
  analyzeArtifact settings a u.results

/-- The line logged for a contract that fails. -/
def failureLine (name : Json) (e : Error) : LogLine :=
  if e.isUncovered then
    ⟨.error, s!"Source map of {name.display} does not cover its bytecode: {e.message}"⟩
  else ⟨.warning, s!"Skipping {name.display}: {e.message}"⟩

/-- Makes a failure of an error that concerns one contract only; any other error is passed on. -/
def outcomeOf (name : Json) (result : Except Error (List FileReport)) : Logged UnitOutcome :=
  match result with
  | .ok reports => pure (.reports reports)
  | .error e =>
    if e.isUnreadable || e.isUncovered then do
      Trace.note (.log (failureLine name e))
      return .failure ⟨name, e.message⟩
    else Trace.lift (.error e)

/-- Analyses one contract of a batch. -/
def AnalysisUnit.run (settings : Settings) (u : AnalysisUnit) : Logged UnitOutcome := do
  let name ← Trace.lift u.subject.name
  let analysis := u.analyze settings
  let result ← (⟨analysis.notes.map .event, .ok analysis.outcome⟩ : Logged _)
  outcomeOf name result

/-- The result of a batch. -/
structure BatchResult where
  reports : List FileReport
  failures : List Failure
  deriving Repr

namespace BatchResult

/-- The number of errors in all reports. -/
def errorCount (b : BatchResult) : Nat :=
  b.reports.foldl (fun count r => count + r.errorCount) 0

/-- The reports as they are written. -/
def toJson (b : BatchResult) : Json :=
  .arr (b.reports.map FileReport.toJson)

end BatchResult

/-- The reports of an outcome. -/
def UnitOutcome.fileReports : UnitOutcome → List FileReport
  | .reports rs => rs
  | .failure _ => []

/-- The failure that an outcome is. -/
def UnitOutcome.failure? : UnitOutcome → Option Failure
  | .reports _ => none
  | .failure f => some f

/-- The line logged at the end of a batch. -/
def summaryLine (units : Nat) (b : BatchResult) : LogLine :=
  ⟨.debug, s!"Analyzed {units} artifact(s): {b.reports.length} report(s), " ++
    s!"{b.failures.length} failure(s)"⟩

/-- Analyses all units, in their order, and groups the reports by file. -/
def analyzeBatch (settings : Settings) (units : List AnalysisUnit) : Logged BatchResult := do
  let outcomes ← units.mapM (AnalysisUnit.run settings)
  let reports ← Trace.lift
    (FileReport.groupByBasename (outcomes.flatMap UnitOutcome.fileReports))
  let result : BatchResult := ⟨reports, outcomes.filterMap UnitOutcome.failure?⟩
  Trace.note (.log (summaryLine units.length result))
  return result

end Pinpoint
