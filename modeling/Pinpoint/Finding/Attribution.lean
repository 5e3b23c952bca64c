import Pinpoint.Finding.Basic
import Pinpoint.Text.Integer
import Pinpoint.Text.Split

/-!
# Which source a finding belongs to

A scanner result lists its sources and its issues, and an issue lists its locations. Each location makes a
finding; an issue without one makes a finding with an empty location. The file index in a location, the
third field of its first entry, says to which of the sources the finding belongs; where it says nothing
usable the finding belongs to the first source, the main contract.

`SourceReport.ofResult` gives one report for each source, in the order of the sources, with the findings
in the order in which they were read.
-/

namespace Pinpoint

/-- The fields of the first entry of a location. -/
def locationFields (location : String) : List (List Char) :=
  Text.splitOn ':' (Text.before ';' location.toList)

/-- The number of the source that a location names, of `count` sources; zero if it names none. -/
def sourceIndex (location : String) (count : Nat) : Nat :=
  match (locationFields location)[2]?.bind Text.readLoose? with
  | some index => if 0 ≤ index ∧ index < count then index.toNat else 0
  | none => 0

/-- The texts of an issue's locations, those that are null left out. -/
def issueLocations (issue : Json) : Except Error (List Json) := do
  let locations ← ((← issue.get "locations").orElse (.arr [])).elements
  let texts ← locations.mapM (·.get "sourceMap")
  return texts.filter fun t => match t with
    | .null => false
    | _ => true

/-- The findings of an issue, each with the number of its source, of `count` sources. -/
def issueFindings (count : Nat) (issue : Json) : Except Error (List (Nat × Finding)) := do
  let locations ← issueLocations issue
  let used := if locations.isEmpty then [.str ""] else locations
  used.mapM fun location => do
    let text ← location.text
    let finding ← Finding.ofIssue issue location
    return (sourceIndex text count, finding)

/-- The sources of a result: those listed, or else the one given. -/
def resultSources (result : Json) : Except Error (List Json) := do
  let sources ← ((← result.get "sourceList").orElse (.arr [])).elements
  if sources.isEmpty then return [← result.getD "source" (.str "")]
  return sources

/-- The findings of a result, each with the number of its source. -/
def resultFindings (result : Json) (count : Nat) : Except Error (List (Nat × Finding)) := do
  let issues ← ((← result.get "issues").orElse (.arr [])).elements
  let findings ← issues.mapM (issueFindings count)
  return findings.flatten

/-- Puts a finding at the end of the bucket that it is meant for. -/
def putInBucket (buckets : List (List Finding)) (f : Nat × Finding) : List (List Finding) :=
  buckets.modify f.1 (· ++ [f.2])

/-- Sorts findings into `count` buckets. -/
def sortIntoBuckets (count : Nat) (findings : List (Nat × Finding)) : List (List Finding) :=
  findings.foldl putInBucket (List.replicate count [])

namespace SourceReport

/-- The reports of a scanner result, one for each of its sources. -/
def ofResult (result : Json) : Except Error (List SourceReport) := do
  let sources ← resultSources result
  let findings ← resultFindings result sources.length
  let format ← result.getD "sourceFormat" (.str "")
  let sourceType ← result.getD "sourceType" (.str "")
  let buckets := sortIntoBuckets sources.length findings
  return sources.zipWith (fun source bucket => ⟨source, format, sourceType, bucket⟩) buckets

/-- The reports of all results of a scanner response, one result after the other. -/
def ofResults (results : List Json) : Except Error (List SourceReport) := do
  let reports ← results.mapM ofResult
  return reports.flatten

end SourceReport

end Pinpoint
