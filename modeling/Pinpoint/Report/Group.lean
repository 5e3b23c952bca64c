import Pinpoint.Json.Access
import Pinpoint.Report.Basic
import Pinpoint.Text.Split

/-!
# Merging the reports of a file

The same file is often reported several times and under different directories. `groupByBasename` merges
the reports whose paths have the same last component: the path seen first is kept, the messages follow
each other in the order of the reports, and the counts of fixable problems are added. The groups come in
the order in which their first reports came.
-/

namespace Pinpoint.FileReport

/-- Adds a later report of the same file to a group. -/
def merge (group later : FileReport) : FileReport :=
  { group with
    messages := group.messages ++ later.messages
    fixableErrorCount := group.fixableErrorCount + later.fixableErrorCount
    fixableWarningCount := group.fixableWarningCount + later.fixableWarningCount }

/-- Adds a report with its name to the groups: to the group of that name, or as a new one at the end. -/
def addToGroups : List (String × FileReport) → String × FileReport → List (String × FileReport)
  | [], r => [r]
  | g :: rest, r =>
    if g.1 = r.1 then (g.1, g.2.merge r.2) :: rest else g :: addToGroups rest r

/-- The report with the last component of its path. -/
def withName (r : FileReport) : Except Error (String × FileReport) := do
  let path ← r.filePath.text
  return (Text.basename path, r)

/-- The groups of reports that have the same name. -/
def groupNamed (reports : List (String × FileReport)) : List FileReport :=
  (reports.foldl addToGroups []).map (·.2)

/-- Merges the reports whose paths have the same last component. -/
def groupByBasename (reports : List FileReport) : Except Error (List FileReport) := do
  let named ← reports.mapM withName
  return groupNamed named

end Pinpoint.FileReport
