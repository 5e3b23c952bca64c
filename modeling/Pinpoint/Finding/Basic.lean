import Pinpoint.Json.Access

/-!
# Findings

A finding is one issue of a scanner at one location. Its location is a text, and the report that the
finding belongs to says in which format (`LocationKind`). Whatever the scanner gives for the other parts
is kept as it is.
-/

namespace Pinpoint

/-- An issue of a scanner at one location. -/
structure Finding where
  severity : Json
  swcId : Json
  /-- The description in short. -/
  head : Json
  /-- The rest of the description. -/
  tail : Json
  location : Json
  title : Json
  deriving Repr

/-- The findings of one source, with the format of their locations. -/
structure SourceReport where
  source : Json
  format : Json
  sourceType : Json
  findings : List Finding
  deriving Repr

/-- The formats of locations that can be resolved. -/
inductive LocationKind where
  /-- An offset in the deployed bytecode. -/
  | bytecodeOffset
  /-- A range of the source text. -/
  | sourceText
  deriving DecidableEq, Repr

/-- The format with the given name. -/
def LocationKind.ofFormat? (format : Json) : Option LocationKind :=
  if format.isText "evm-byzantium-bytecode" then some .bytecodeOffset
  else if format.isText "text" then some .sourceText
  else none

/-- A scanner's issue at one of its locations. -/
def Finding.ofIssue (issue location : Json) : Except Error Finding := do
  let description := (← issue.get "description").orElse (.obj [])
  let severity ← issue.getD "severity" (.str "")
  let otherId ← issue.getD "swcId" (.str "")
  let swcId ← issue.getD "swcID" otherId
  let head ← description.getD "head" (.str "")
  let tail ← description.getD "tail" (.str "")
  let title ← issue.getD "swcTitle" (.str "")
  return { severity, swcId, head, tail, location, title }

end Pinpoint
