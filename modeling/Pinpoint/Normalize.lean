import Pinpoint.Ast.Enclosing
import Pinpoint.Report.Basic
import Pinpoint.Resolution

/-!
# From findings to messages

A finding becomes a message with the positions that its location resolves to. It is dropped in one case:
the scanner is known to report declarations of dynamic arrays without reason, so a finding whose range
lies in such a declaration, and in no narrower declaration of another type, is noted and dropped.
-/

namespace Pinpoint

/-- How findings are turned into messages. -/
structure Settings where
  /-- Give the short description only. -/
  spaceLimited : Bool
  /-- Stop at an instruction without an entry in the source map. -/
  strict : Bool
  deriving DecidableEq, Repr

/-- The severity of the messages for a severity named by the scanner. -/
def severityOf (label : Json) : Except Error Int := do
  let _ ← label.key
  return if label.isText "High" then 2 else 1

/-- The text of the message for a finding. -/
def Finding.messageText (f : Finding) (spaceLimited : Bool) : Json :=
  if spaceLimited then f.head else .str s!"{f.head.display} {f.tail.display}"

namespace Tables

/-- The innermost declaration around the range of a resolution, if it declares a dynamic array. -/
def arrayAround (t : Tables) (start length : Int) (source : Json) :
    Except Error (Option Ast.Node) := do
  match ← t.treeFor source with
  | none => return none
  | some tree =>
    return (tree.enclosing? start length .variableDeclaration).filter (·.declaresDynamicArray)

/-- Whether a finding, resolved to `place` in a report on `source`, is to be dropped. -/
def isSuppressed (t : Tables) (f : Finding) (place : Resolution) (source : Json) :
    Observed Bool :=
  match place.srcStart with
  | none => pure false
  | some start => do
    let source := place.source.orElse source
    match ← t.arrayAround start place.srcLength source with
    | none => return false
    | some node =>
      Trace.note (.issueSuppressed f.swcId source node.declaredName)
      return true

/-- The message for a finding that resolves to `place`. -/
def messageAt (settings : Settings) (f : Finding) (fatal : Bool) (place : Resolution) :
    Except Error Message := do
  let severity ← severityOf f.severity
  return {
    ruleId := f.swcId
    message := f.messageText settings.spaceLimited
    severity := severity
    mythxSeverity := f.severity
    fatal := isFatal fatal severity
    start := place.start
    stop := place.stop }

/-- The message for a finding in a report on `source`; none if it is dropped. -/
def normalize (t : Tables) (settings : Settings) (f : Finding) (kind : Option LocationKind)
    (source : Json) (fatal : Bool) : Observed (Option Message) := do
  let place ← t.resolve settings.strict f kind source
  if ← t.isSuppressed f place source then return none
  return some (← messageAt settings f fatal place)

/-- Notes that a report has findings with locations of unknown kind. -/
def noteUnsupported (report : SourceReport) : Observed Unit :=
  if (LocationKind.ofFormat? report.format).isNone && !report.findings.isEmpty then
    Trace.note (.unsupportedFormat report.source report.format report.findings.length)
  else pure ()

/-- The report of a file for the findings of a source. -/
def normalizeReport (t : Tables) (settings : Settings) (report : SourceReport) :
    Observed FileReport := do
  noteUnsupported report
  let kind := LocationKind.ofFormat? report.format
  let messages ← report.findings.mapM fun f => t.normalize settings f kind report.source false
  return ⟨report.source, messages.filterMap id, 0, 0⟩

/-- The reports for several sources, in their order. -/
def normalizeAll (t : Tables) (settings : Settings) (reports : List SourceReport) :
    Observed (List FileReport) :=
  reports.mapM (t.normalizeReport settings)

end Tables

end Pinpoint
