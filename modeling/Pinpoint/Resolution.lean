import Pinpoint.Artifact.Tables
import Pinpoint.Event
import Pinpoint.Finding.Basic
import Pinpoint.Finding.Attribution

/-!
# Where a finding points

A location in the bytecode is an offset. It is taken to the instruction that starts there, from there to
the entry of the source map, and by its range to lines and columns of the file that the entry names. A
location in a source text is a range, which is taken to lines and columns at once. In both only the first
entry of the location counts.

What cannot be resolved is `Resolution.unresolved`. One case is different: an instruction without an entry
means that the source map does not cover the code. It is noted, or ends the analysis if that is asked
for.
-/

namespace Pinpoint

/-- Where a finding points: the positions, and the range of which source they come from. -/
structure Resolution where
  start : Position
  stop : Option Position
  /-- The offset in the source, if there is one. -/
  srcStart : Option Int
  srcLength : Int
  /-- The source that the range belongs to; null if there is none. -/
  source : Json
  deriving Repr

/-- The finding points nowhere. -/
def Resolution.unresolved : Resolution := ⟨.unresolved, none, none, 0, .null⟩

namespace Tables

/-- Takes a range of a source to its positions. Without a length there is no end. -/
def resolveRange (t : Tables) (start : Int) (length : Option Int) (source : Json) :
    Except Error Resolution := do
  let breaks ← t.lineBreaksFor source
  let ends := Position.ofRange start (length.getD (-1)) breaks
  return ⟨ends.1, ends.2, some start, max (length.getD 0) 0, source⟩

/-- The source that a file index names, or `fallback` if it names none. -/
def entrySource (t : Tables) (fileIndex : Int) (fallback : Json) : Json :=
  if 0 ≤ fileIndex then t.artifact.sourceList.getD fileIndex.toNat fallback else fallback

/-- Resolves an instruction without an entry: an error if `strict`, else a note. -/
def uncovered (t : Tables) (strict : Bool) (offset : Int) (instruction : Nat) :
    Observed Resolution :=
  if strict then Trace.lift (.error (.uncovered instruction t.sourceMap.size))
  else do
    Trace.note (.resolutionFailed offset instruction t.artifact.contractName)
    return .unresolved

/-- Resolves an offset of the bytecode, in a report on `source`. -/
def resolveOffset (t : Tables) (strict : Bool) (offset : Int) (source : Json) :
    Observed Resolution :=
  match t.instructions.instructionAt? offset with
  | none => pure .unresolved
  | some instruction => match t.sourceMap.entryAt? instruction with
    | none => t.uncovered strict offset instruction
    | some entry =>
      -- Code made by the compiler itself has no place in the source.
      if entry.start < 0 then pure .unresolved
      else Trace.lift
        (t.resolveRange entry.start (some entry.length) (t.entrySource entry.fileIndex source))

/-- Resolves a location in the bytecode. -/
def resolveBytecode (t : Tables) (strict : Bool) (location source : Json) :
    Observed Resolution := do
  let text ← Trace.lift location.text
  match Text.readLoose? (Text.before ':' text.toList) with
  | none => pure .unresolved
  | some offset => t.resolveOffset strict offset source

/-- Resolves a location in a source text. -/
def resolveText (t : Tables) (location source : Json) : Except Error Resolution := do
  let text ← location.text
  let fields := locationFields text
  match fields[0]?.bind Text.readLoose? with
  | none => return .unresolved
  | some start => t.resolveRange start (fields[1]?.bind Text.readLoose?) source

/-- Resolves the location of a finding in a report on `source`; a location of unknown kind points
nowhere. -/
def resolve (t : Tables) (strict : Bool) (f : Finding) (kind : Option LocationKind)
    (source : Json) : Observed Resolution :=
  match kind with
  | some .bytecodeOffset => t.resolveBytecode strict f.location source
  | some .sourceText => Trace.lift (t.resolveText f.location source)
  | none => pure .unresolved

end Tables

end Pinpoint
