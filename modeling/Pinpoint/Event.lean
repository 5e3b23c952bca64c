import Pinpoint.Json.Display
import Pinpoint.Trace
import Pinpoint.Error

/-!
# Events

What the analysis has to tell besides its reports. The analysis itself never prints: it notes events, and
the command line turns each into a line of a log (`Event.logLine`). An event has a kind, a message, and
the values that the message is about (`Event.details`).
-/

namespace Pinpoint

/-- How much a log line matters. -/
inductive Level where
  | debug
  | warning
  | error
  deriving DecidableEq, Repr

/-- The level as a log shows it. -/
def Level.label : Level → String
  | .debug => "DEBUG"
  | .warning => "WARNING"
  | .error => "ERROR"

/-- A line of a log. -/
structure LogLine where
  level : Level
  message : String
  deriving DecidableEq, Repr

/-- The line as it is printed. -/
def LogLine.text (l : LogLine) : String :=
  s!"{l.level.label}: {l.message}"

/-- Something that happened during the analysis. -/
inductive Event where
  /-- A finding was dropped, because it sits on the declaration of a dynamic array. -/
  | issueSuppressed (swcId source declaration : Json)
  /-- Findings of a source have locations in a format that cannot be resolved. -/
  | unsupportedFormat (source format : Json) (count : Nat)
  /-- An instruction has no entry in the source map. -/
  | resolutionFailed (offset : Int) (instruction : Nat) (contract : Json)
  /-- A build record has a code field without content. -/
  | emptyFieldDropped (contract : Json) (field : String)
  deriving Repr

namespace Event

/-- The kinds of events. -/
inductive Kind where
  | issueSuppressed
  | unsupportedFormat
  | resolutionFailed
  | emptyFieldDropped
  deriving DecidableEq, Repr

/-- The name of a kind. -/
def Kind.label : Kind → String
  | .issueSuppressed => "issue-suppressed"
  | .unsupportedFormat => "unsupported-source-format"
  | .resolutionFailed => "resolution-failed"
  | .emptyFieldDropped => "empty-field-dropped"

/-- What the user should see: a location that could not be resolved is worth a warning, all else is for
those who ask. -/
def Kind.level : Kind → Level
  | .issueSuppressed => .debug
  | .unsupportedFormat => .warning
  | .resolutionFailed => .warning
  | .emptyFieldDropped => .debug

/-- A message about an event of this kind, as a log line. -/
def Kind.logLine (k : Kind) (message : String) : LogLine :=
  ⟨k.level, message⟩

/-- The kind of an event. -/
def kind : Event → Kind
  | .issueSuppressed _ _ _ => .issueSuppressed
  | .unsupportedFormat _ _ _ => .unsupportedFormat
  | .resolutionFailed _ _ _ => .resolutionFailed
  | .emptyFieldDropped _ _ => .emptyFieldDropped

/-- The event in words. -/
def message : Event → String
  | .issueSuppressed swcId source declaration =>
    s!"Ignoring Mythril issue {swcId.display} around dynamically-allocated array " ++
      s!"'{declaration.display}' in {source.display}"
  | .unsupportedFormat source format count =>
    s!"unsupported source format {format.shown} for {source.display}; " ++
      s!"{count} issue(s) left without location"
  | .resolutionFailed offset instruction contract =>
    s!"bytecode offset {offset} (instruction {instruction}) has no source map entry in " ++
      contract.display
  | .emptyFieldDropped contract field => s!"{contract.display}: {field} is empty, omitting it"

/-- The values that the event is about, by name. -/
def details : Event → Json.Fields
  | .issueSuppressed swcId source declaration =>
    [("swc_id", swcId), ("source", source), ("declaration", declaration)]
  | .unsupportedFormat source format _ => [("source", source), ("source_format", format)]
  | .resolutionFailed offset instruction _ =>
    [("offset", .int offset), ("instruction", .int instruction)]
  | .emptyFieldDropped contract field => [("contract", contract), ("field", .str field)]

/-- The event as a log line. -/
def logLine (e : Event) : LogLine :=
  e.kind.logLine e.message

end Event

/-- A computation that notes events and may fail. -/
abbrev Observed (α : Type) := Trace Event Error α

end Pinpoint
