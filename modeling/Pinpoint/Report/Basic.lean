import Pinpoint.Json.Basic
import Pinpoint.Position

/-!
# Reports

A message is a finding after resolution: what it says, how severe it is, and where it points. The report
of a file counts its messages: those that are fatal or of severity two are errors, the others warnings.
`FileReport.toJson` gives the fields in the order in which reports are written.
-/

namespace Pinpoint

/-- A message counts as an error when it is flagged fatal or has severity two. -/
def isFatal (fatal : Bool) (severity : Int) : Bool :=
  fatal || severity == 2

/-- A resolved finding. -/
structure Message where
  ruleId : Json
  message : Json
  severity : Int
  /-- The severity as the scanner named it. -/
  mythxSeverity : Json
  fatal : Bool
  start : Position
  stop : Option Position
  deriving Repr

namespace Message

/-- The message counts as an error. -/
def isError (m : Message) : Bool :=
  isFatal m.fatal m.severity

/-- The message as it is written; the end is left out if there is none. -/
def toJson (m : Message) : Json :=
  let stop := match m.stop with
    | some p => [("endLine", Json.int p.line), ("endCol", Json.int p.column)]
    | none => []
  .obj ([("ruleId", m.ruleId), ("message", m.message), ("severity", .int m.severity),
    ("mythXseverity", m.mythxSeverity), ("fatal", .bool m.fatal), ("line", .int m.start.line),
    ("column", .int m.start.column)] ++ stop)

end Message

/-- The messages of a file. -/
structure FileReport where
  filePath : Json
  messages : List Message
  fixableErrorCount : Int
  fixableWarningCount : Int
  deriving Repr

namespace FileReport

/-- The number of errors. -/
def errorCount (r : FileReport) : Nat :=
  r.messages.countP Message.isError

/-- The number of warnings: the messages that are no errors. -/
def warningCount (r : FileReport) : Nat :=
  r.messages.length - r.errorCount

/-- The report as it is written. -/
def toJson (r : FileReport) : Json :=
  .obj [("filePath", r.filePath), ("errorCount", .int r.errorCount),
    ("warningCount", .int r.warningCount), ("fixableErrorCount", .int r.fixableErrorCount),
    ("fixableWarningCount", .int r.fixableWarningCount),
    ("messages", .arr (r.messages.map Message.toJson))]

end FileReport

end Pinpoint
