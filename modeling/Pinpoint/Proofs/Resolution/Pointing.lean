import Pinpoint.Proofs.Finding.WellTyped
import Pinpoint.Proofs.Resolution.Reference

/-!
# The range that a finding points to

Before there are lines and columns there is a range of a source: for a location in the bytecode the range
of its source-map entry, for a location in a text the two numbers that it starts with
(`Artifact.pointedRange?`). Either may be without a place in any text, and a range may be without a length.

In a contract of the right types every finding is resolved as long as no source map has to cover the code,
and its place has the range that it points to (`resolve_pointsTo`). Which source a place belongs to is
known to be a text, so it can be looked up again (`treeFor_of_keyedByPath`).
-/

namespace Pinpoint

/-- A range of a source that a finding points to. The length is missing if the location has none. -/
structure PointedRange where
  start : Int
  length : Option Int
  source : Json
  deriving Repr

/-- The length of the range, zero if it is missing or negative. -/
def PointedRange.extent (r : PointedRange) : Int := max (r.length.getD 0) 0

/-- The path of the source that a range belongs to, in a report on `path`. -/
def PointedRange.pathIn (r : PointedRange) (path : String) : String :=
  (r.source.orElse (.str path)).asText

/-- **The range that a location points to** in a report on `source`: that of the source-map entry of an
offset in the bytecode, unless the compiler made the code itself, or the one that a location in a text
gives. -/
def Artifact.pointedRange? (a : Artifact) (kind : Option LocationKind) (location : String)
    (source : Json) : Option PointedRange :=
  match kind with
  | some .bytecodeOffset => (a.entryFor? location).bind fun e =>
      if e.start < 0 then none
      else some ⟨e.start, some e.length, (a.listed? e.fileIndex).getD source⟩
  | some .sourceText =>
    ((locationFields location)[0]?.bind Text.readLoose?).map fun start =>
      ⟨start, (locationFields location)[1]?.bind Text.readLoose?, source⟩
  | none => none

/-- A place has a range, or none if it was not found. -/
def Resolution.PointsTo (place : Resolution) : Option PointedRange → Prop
  | none => place = .unresolved
  | some r => place.srcStart = some r.start ∧ place.srcLength = r.extent ∧ place.source = r.source

section Layers

variable {a : Artifact} {t : Tables}

/-! ### Look-ups of texts -/

/-- In a contract whose sources are a table by path, the line breaks of every path can be looked up. -/
theorem lineBreaksFor_of_keyedByPath (ht : Tables.build a = .ok t) (hkeyed : a.KeyedByPath)
    (path : String) : ∃ breaks, t.lineBreaksFor (.str path) = .ok breaks := by
  rw [lineBreaksFor_eq_chars ht, Artifact.fileFor_eq_nearest hkeyed]
  exact ⟨_, rfl⟩

/-- The syntax tree of every path can be looked up as well. -/
theorem treeFor_of_keyedByPath (ht : Tables.build a = .ok t) (hkeyed : a.KeyedByPath)
    (path : String) : ∃ tree, t.treeFor (.str path) = .ok tree := by
  have hfile := Artifact.fileFor_eq_nearest hkeyed SourceFile.hasTree path
  rw [Tables.treeFor_eq ht, hfile]
  obtain ⟨-, -, -, -, htrees⟩ := Tables.build_eq_ok ht
  cases hnearest : nearest (a.sources.filter SourceFile.hasTree) path with
  | none => exact ⟨none, rfl⟩
  | some file =>
    -- the file is one of the contract, and the trees of all of them could be read
    rw [hnearest] at hfile
    obtain ⟨hmem, -⟩ := Artifact.mem_of_fileFor hfile
    exact Tables.read_of_entriesOf_eq_ok htrees hmem

/-- A source that a file index names is a text. -/
theorem isText_listed (htyped : a.WellTyped) (fileIndex : Int) (path : String) :
    ((a.listed? fileIndex).getD (.str path)).IsText := by
  cases hlisted : a.listed? fileIndex with
  | none => exact ⟨path, rfl⟩
  | some source =>
    unfold Artifact.listed? at hlisted
    split at hlisted
    · exact htyped.listed source (List.mem_of_getElem? hlisted)
    · cases hlisted

/-! ### Resolving a finding -/

/-- A range can be resolved in every path, and its place has this range. -/
theorem resolveRange_pointsTo (ht : Tables.build a = .ok t) (hkeyed : a.KeyedByPath) (start : Int)
    (length : Option Int) {source : Json} (hsource : source.IsText) :
    ∃ place, t.resolveRange start length source = .ok place ∧
      place.PointsTo (some ⟨start, length, source⟩) := by
  obtain ⟨path, rfl⟩ := hsource
  obtain ⟨breaks, hbreaks⟩ := lineBreaksFor_of_keyedByPath ht hkeyed path
  exact ⟨_, Except.bind_eq_ok.mpr ⟨breaks, hbreaks, rfl⟩, rfl, rfl, rfl⟩

/-- The place of an offset has the range of its entry. -/
theorem resolveOffset_pointsTo (ht : Tables.build a = .ok t) (htyped : a.WellTyped) (offset : Int)
    (path : String) : ∃ place, (t.resolveOffset false offset (.str path)).outcome = .ok place ∧
      place.PointsTo ((a.entryAt? offset).bind fun e =>
        if e.start < 0 then none
        else some ⟨e.start, some e.length, (a.listed? e.fileIndex).getD (.str path)⟩) := by
  rw [← instructionAt?_bind_entryAt? ht, Tables.resolveOffset]
  cases t.instructions.instructionAt? offset with
  | none => exact ⟨_, rfl, rfl⟩
  | some instruction =>
    rw [Option.bind_some]
    dsimp only
    cases t.sourceMap.entryAt? instruction with
    | none => exact ⟨_, rfl, rfl⟩
    | some e =>
      rw [Option.bind_some]
      dsimp only
      split
      · exact ⟨_, rfl, rfl⟩
      · rw [entrySource_eq ht]
        exact resolveRange_pointsTo ht htyped.toKeyedByPath e.start (some e.length)
          (isText_listed htyped e.fileIndex path)

/-- **Every finding is resolved** in a contract of the right types, and its place has the range that it
points to. -/
theorem resolve_pointsTo (ht : Tables.build a = .ok t) (htyped : a.WellTyped) {f : Finding}
    (hf : f.WellTyped) (kind : Option LocationKind) (path : String) :
    ∃ place, (t.resolve false f kind (.str path)).outcome = .ok place ∧
      place.PointsTo (a.pointedRange? kind f.location.asText (.str path)) := by
  obtain ⟨location, hlocation⟩ := hf.location
  have htext : f.location.asText = location := by
    rw [hlocation]
    rfl
  unfold Tables.resolve Artifact.pointedRange?
  rw [htext, hlocation]
  split
  · -- an offset of the bytecode, if the location starts with one
    unfold Tables.resolveBytecode Artifact.entryFor?
    rw [Json.text_str, Trace.outcome_bind]
    simp only [Trace.lift_outcome, bind, Except.bind]
    cases Text.readLoose? (Text.before ':' location.toList) with
    | none => exact ⟨_, rfl, rfl⟩
    | some offset => exact resolveOffset_pointsTo ht htyped offset path
  · -- a range of the text, if the location starts with a number
    unfold Tables.resolveText
    rw [Json.text_str, Trace.lift_outcome]
    simp only [bind, Except.bind]
    cases (locationFields location)[0]?.bind Text.readLoose? with
    | none => exact ⟨_, rfl, rfl⟩
    | some start => exact resolveRange_pointsTo ht htyped.toKeyedByPath start _ ⟨path, rfl⟩
  · exact ⟨_, rfl, rfl⟩

/-- The source of a range is a text. -/
theorem isText_source_of_pointedRange (htyped : a.WellTyped) {kind : Option LocationKind}
    {location path : String} {r : PointedRange}
    (h : a.pointedRange? kind location (.str path) = some r) : r.source.IsText := by
  unfold Artifact.pointedRange? at h
  split at h
  · obtain ⟨e, -, h⟩ := Option.bind_eq_some_iff.mp h
    split at h
    · cases h
    · obtain rfl := Option.some.inj h
      exact isText_listed htyped e.fileIndex path
  · obtain ⟨start, -, rfl⟩ := Option.map_eq_some_iff.mp h
    exact ⟨path, rfl⟩
  · cases h

/-- The source of a range, or else that of the report, is a text. -/
theorem orElse_source_of_pointedRange (htyped : a.WellTyped) {kind : Option LocationKind}
    {location path : String} {r : PointedRange}
    (h : a.pointedRange? kind location (.str path) = some r) :
    r.source.orElse (.str path) = .str (r.pathIn path) := by
  obtain ⟨source, hsource⟩ := isText_source_of_pointedRange htyped h
  unfold PointedRange.pathIn Json.orElse
  rw [hsource]
  split <;> rfl

end Layers

end Pinpoint
