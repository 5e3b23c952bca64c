import Pinpoint.Proofs.Bytecode.OpcodeMarks
import Pinpoint.Proofs.LineCount
import Pinpoint.Proofs.SourceMap.CarryForward
import Pinpoint.Proofs.Tables.FileSeparation
import Pinpoint.Resolution

/-!
# Resolving an offset without tables

`Artifact.resolveNaive` takes a location in the bytecode to a place in a source, straight from the texts of
a contract: the bytes of the code are scanned one by one, the entry is read off the segments of the source
map, and lines are counted in the text of the file. There is no table and no search in it.

`resolveBytecode_eq_naive` says that the resolution by tables gives the same, for every contract whose
tables could be built. Each layer has its own law, and they meet in the numbers that they hand on: the
offset of an opcode becomes its number (`instructionAt?_eq`), which is the number of its segment
(`entryAt?_of_decode`), whose file index picks a file, in whose text both ends are counted
(`resolveRange_eq`).

What is left open in the reference is how the two ends of a range are found in a text. `countedRange` is how
it is done: a range of negative length has no end.
-/

namespace Pinpoint

open Bytecode

/-! ### What a contract is made of -/

/-- The characters of a file's text. -/
def SourceFile.chars (f : SourceFile) : List Json :=
  f.text.elements.toOption.getD []

/-- A character that breaks a line. -/
def isNewline (c : Json) : Bool := c.isText "\n"

namespace Artifact

/-- The bytes of the deployed code. -/
def code (a : Artifact) : List UInt8 :=
  (a.deployedBytecode.text >>= decodeHex).toOption.getD []

/-- The segments of the deployed source map. -/
def mapSegments (a : Artifact) : List (List Char) :=
  match a.deployedSourceMap with
  | .str s => SourceMap.segments s
  | _ => []

/-- The listed source that a file index names. -/
def listed? (a : Artifact) (fileIndex : Int) : Option Json :=
  if 0 ≤ fileIndex then a.sourceList[fileIndex.toNat]? else none

/-- The contract has the types that it should have: paths are texts, and so are the listed sources. -/
structure WellTyped (a : Artifact) : Prop extends a.KeyedByPath where
  listed : ∀ p ∈ a.sourceList, ∃ s, p = .str s

end Artifact

/-! ### The reference -/

/-- The two ends of a range that starts at a known place, counted in a text; a range of negative length has
no end. -/
def countedRange (text : List Json) (start : Nat) (length : Int) : Position × Option Position :=
  (Position.counted isNewline text start,
    if length < 0 then none
    else some (Position.counted isNewline text (start + length.toNat)))

namespace Artifact

/-- The place of a range in a source whose file is given; unresolved if there is none with a text. -/
def placeIn (ends : List Json → Nat → Int → Position × Option Position) (start : Nat) (length : Int)
    (source : Json) : Option SourceFile → Resolution
  | none => ⟨.unresolved, none, some start, max length 0, source⟩
  | some f =>
    ⟨(ends f.chars start length).1, (ends f.chars start length).2, some start, max length 0, source⟩

/-- The place of a range in the file that a source names, its ends found by `ends`. -/
def placeOf (a : Artifact) (ends : List Json → Nat → Int → Position × Option Position) (start : Nat)
    (length : Int) (source : Json) : Except Error Resolution :=
  (a.fileFor SourceFile.hasText source).map (placeIn ends start length source)

/-- The entry of the instruction at an offset: the segment of the source map whose number is that of the
opcode. -/
def entryAt? (a : Artifact) (offset : Int) : Option SourceEntry :=
  if isOpcodeAt a.code offset then
    SourceMap.carriedAt? a.mapSegments (opcodesBefore a.code offset.toNat)
  else none

/-- The entry of the instruction at the offset that a location starts with. -/
def entryFor? (a : Artifact) (location : String) : Option SourceEntry :=
  (Text.readLoose? (Text.before ':' location.toList)).bind a.entryAt?

/-- The place that an entry gives in a report on `source`; code made by the compiler itself has none. -/
def placeAt (a : Artifact) (ends : List Json → Nat → Int → Position × Option Position)
    (source : Json) : Option SourceEntry → Except Error Resolution
  | none => .ok .unresolved
  | some e =>
    if e.start < 0 then .ok .unresolved
    else a.placeOf ends e.start.toNat e.length ((a.listed? e.fileIndex).getD source)

/-- **The reference.** A location in the bytecode, resolved in a report on `source` from the texts of the
contract alone. -/
def resolveNaive (a : Artifact) (ends : List Json → Nat → Int → Position × Option Position)
    (location : String) (source : Json) : Except Error Resolution :=
  a.placeAt ends source (a.entryFor? location)

end Artifact

/-! ### One law for each layer -/

section Layers

variable {a : Artifact} {t : Tables}

/-- The index of instructions answers for the bytes of the code. -/
theorem instructions_eq (ht : Tables.build a = .ok t) :
    t.instructions = ⟨instructionStarts a.code⟩ := by
  obtain ⟨-, ⟨text, htext, hofHex⟩, -⟩ := Tables.build_eq_ok ht
  obtain ⟨bytes, hbytes, hindex⟩ := Except.map_eq_ok.mp hofHex
  have hcode : a.code = bytes := by
    rw [Artifact.code, htext]
    exact congrArg (fun x => x.toOption.getD []) hbytes
  rw [← hindex, hcode]

/-- The source map has the entries of its segments. -/
theorem sourceMap_entryAt? (ht : Tables.build a = .ok t) (k : Nat) :
    t.sourceMap.entryAt? k = SourceMap.carriedAt? a.mapSegments k := by
  obtain ⟨-, -, hmap, -, -⟩ := Tables.build_eq_ok ht
  unfold Tables.readSourceMap at hmap
  split at hmap
  next hbare =>
    -- what gives nothing has no segments, not even as a text
    have hnil : a.mapSegments = [] := by
      unfold Artifact.mapSegments
      split
      next s hs =>
        rw [hs, Json.isBare_str, String.isEmpty_iff] at hbare
        rw [hbare]
        rfl
      next => rfl
    obtain hempty := Except.ok.inj hmap
    rw [hnil, ← hempty]
    simp [SourceMap.entryAt?, SourceMap.carriedAt?]
  next =>
    obtain ⟨text, htext, hdecode⟩ := Except.bind_eq_ok.mp hmap
    have hstr : a.deployedSourceMap = .str text := by
      cases h : a.deployedSourceMap <;> rw [h] at htext <;> cases htext
      rfl
    rw [Artifact.mapSegments, hstr]
    exact SourceMap.entryAt?_of_decode hdecode k

/-- The file index names a listed source, or else the source of the report. -/
theorem entrySource_eq (ht : Tables.build a = .ok t) (fileIndex : Int) (source : Json) :
    t.entrySource fileIndex source = (a.listed? fileIndex).getD source := by
  obtain ⟨rfl, -⟩ := Tables.build_eq_ok ht
  unfold Tables.entrySource Artifact.listed?
  split
  · rw [List.getD_eq_getElem?_getD]
  · rfl

/-- The characters of a text are one-character texts. -/
theorem offsetsFrom_str (cs : List Char) (i : Nat) :
    offsetsFrom isNewline i (cs.map fun c => Json.str c.toString)
      = offsetsFrom (· == '\n') i cs := by
  induction cs generalizing i with
  | nil => rfl
  | cons c cs ih =>
    have hnewline : isNewline (.str c.toString) = (c == '\n') := by
      rw [isNewline, Json.isText_str, Bool.eq_iff_iff, beq_iff_eq, beq_iff_eq]
      constructor
      · intro h
        simpa using congrArg String.toList h
      · rintro rfl
        rfl
    rw [List.map_cons, offsetsFrom_cons, offsetsFrom_cons, ih, hnewline]

/-- The line breaks of a file with a text are those of its characters. -/
theorem breaksOf_eq {f : SourceFile} {x : Option LineBreaks} (hhas : f.hasText = true)
    (h : Tables.breaksOf f.text = .ok x) : x = some (offsetsFrom isNewline 0 f.chars) := by
  unfold Tables.breaksOf at h
  unfold SourceFile.chars
  split at h
  next hnull => simp [SourceFile.hasText, hnull] at hhas
  next s hs =>
    obtain rfl := Except.ok.inj h
    rw [hs]
    exact congrArg some (offsetsFrom_str s.toList 0).symm
  next =>
    obtain ⟨items, hitems, rfl⟩ := Except.map_eq_ok.mp h
    rw [hitems]
    rfl

/-- The line breaks that a path is given are those of the characters of its file. -/
theorem lineBreaksFor_eq_chars (ht : Tables.build a = .ok t) (source : Json) :
    t.lineBreaksFor source = (a.fileFor SourceFile.hasText source).map
      (Option.map fun f => offsetsFrom isNewline 0 f.chars) := by
  rw [Tables.lineBreaksFor_eq ht]
  obtain ⟨-, -, -, hbreaks, -⟩ := Tables.build_eq_ok ht
  cases hfile : a.fileFor SourceFile.hasText source with
  | error e => rfl
  | ok file =>
    cases file with
    | none => rfl
    | some f =>
      obtain ⟨hmem, hhas⟩ := Artifact.mem_of_fileFor hfile
      obtain ⟨x, hx⟩ := Tables.read_of_entriesOf_eq_ok hbreaks hmem
      rw [breaksOf_eq hhas hx] at hx
      exact hx

/-- **A range is resolved by counting** in the text of the file that its source names. -/
theorem resolveRange_eq (ht : Tables.build a = .ok t) {start : Int} (hstart : 0 ≤ start)
    (length : Int) (source : Json) :
    t.resolveRange start (some length) source
      = a.placeOf countedRange start.toNat length source := by
  obtain ⟨n, rfl⟩ := Int.eq_ofNat_of_zero_le hstart
  unfold Tables.resolveRange Artifact.placeOf
  rw [lineBreaksFor_eq_chars ht]
  cases a.fileFor SourceFile.hasText source with
  | error e => rfl
  | ok file =>
    cases file with
    | none => rfl
    | some f =>
      simp only [Except.map, Option.map_some, bind, Except.bind, pure, Except.pure,
        Option.getD_some, ofRange_offsetsFrom, Artifact.placeIn, countedRange, Int.toNat_natCast]

/-- The entry of an offset is that of its instruction. -/
theorem instructionAt?_bind_entryAt? (ht : Tables.build a = .ok t) (offset : Int) :
    ((t.instructions.instructionAt? offset).bind fun k => t.sourceMap.entryAt? k)
      = a.entryAt? offset := by
  unfold Artifact.entryAt?
  rw [instructions_eq ht, instructionAt?_eq]
  by_cases hop : isOpcodeAt a.code offset
  · rw [if_pos hop, if_pos hop, Option.bind_some, sourceMap_entryAt? ht]
  · rw [if_neg hop, if_neg hop, Option.bind_none]

/-- An offset is resolved at the range of its entry. -/
theorem resolveOffset_outcome (ht : Tables.build a = .ok t) (offset : Int) (source : Json) :
    (t.resolveOffset false offset source).outcome
      = a.placeAt countedRange source (a.entryAt? offset) := by
  rw [Tables.resolveOffset, ← instructionAt?_bind_entryAt? ht]
  -- Each look-up that fails leaves the location unresolved on both sides.
  cases t.instructions.instructionAt? offset with
  | none => rfl
  | some instruction =>
    dsimp only
    rw [Option.bind_some]
    cases t.sourceMap.entryAt? instruction with
    | none => rfl
    | some e =>
      dsimp only [Artifact.placeAt]
      split
      next => rfl
      next hstart =>
        rw [Trace.lift_outcome, resolveRange_eq ht (Int.not_lt.mp hstart), entrySource_eq ht]

/-- A location is resolved at the offset that it starts with. -/
theorem resolveBytecode_outcome (ht : Tables.build a = .ok t) (location : String) (source : Json) :
    (t.resolveBytecode false (.str location) source).outcome
      = a.resolveNaive countedRange location source := by
  unfold Tables.resolveBytecode Artifact.resolveNaive Artifact.entryFor?
  rw [Json.text_str, Trace.outcome_bind]
  simp only [Trace.lift_outcome, bind, Except.bind]
  cases Text.readLoose? (Text.before ':' location.toList) with
  | none => rfl
  | some offset => exact resolveOffset_outcome ht offset source

/-- In a contract of the right types every source can be looked up. -/
theorem placeOf_isOk (htyped : a.WellTyped)
    (ends : List Json → Nat → Int → Position × Option Position) (start : Nat) (length : Int)
    (path : String) : ∃ r, a.placeOf ends start length (.str path) = .ok r := by
  rw [Artifact.placeOf, Artifact.fileFor_eq_nearest htyped.toKeyedByPath]
  exact ⟨_, rfl⟩

/-- In a contract of the right types every location is resolved. -/
theorem resolveNaive_isOk (htyped : a.WellTyped)
    (ends : List Json → Nat → Int → Position × Option Position) (location path : String) :
    ∃ r, a.resolveNaive ends location (.str path) = .ok r := by
  unfold Artifact.resolveNaive Artifact.placeAt
  split
  · exact ⟨_, rfl⟩
  next e _ =>
    split
    · exact ⟨_, rfl⟩
    · cases hlisted : a.listed? e.fileIndex with
      | none => exact placeOf_isOk htyped ends _ _ path
      | some source =>
        have hmem : source ∈ a.sourceList := by
          unfold Artifact.listed? at hlisted
          split at hlisted
          · exact List.mem_of_getElem? hlisted
          · cases hlisted
        obtain ⟨s, rfl⟩ := htyped.listed source hmem
        exact placeOf_isOk htyped ends _ _ s

/-- **The tables refine the texts.** For every contract whose tables could be built, a location in the
bytecode is resolved as the reference resolves it; and if the contract and the source of the report have
the types that they should have, it is always resolved. -/
theorem resolveBytecode_eq_naive (ht : Tables.build a = .ok t) (location : String) (source : Json) :
    (t.resolveBytecode false (.str location) source).outcome
        = a.resolveNaive countedRange location source ∧
      (a.WellTyped → ∀ path, source = .str path →
        ∃ r, (t.resolveBytecode false (.str location) source).outcome = .ok r) := by
  refine ⟨resolveBytecode_outcome ht location source, fun htyped path hpath => ?_⟩
  rw [resolveBytecode_outcome ht, hpath]
  exact resolveNaive_isOk htyped countedRange location path

end Layers

/-! ### Two contracts -/

/-- A contract with two files, whose third instruction comes from the second one. -/
def withLibrary : Artifact :=
  { contractName := "A", deployedBytecode := "0x6001600200", bytecode := ""
    deployedSourceMap := "0:1:0;;4:3:1", sourceMap := "", sourceList := ["A.sol", "L.sol"]
    sources := [⟨"A.sol", "a", .null⟩, ⟨"L.sol", "ab\ncdef\n", .null⟩] }

/-- The tables of the contract with two files. -/
def withLibraryTables : Tables :=
  ⟨withLibrary, ⟨[0, 2, 4]⟩,
    ⟨[⟨0, 1, 0, .regular, 0⟩, ⟨0, 1, 0, .regular, 0⟩, ⟨4, 3, 1, .regular, 0⟩]⟩,
    [(.text "A.sol", []), (.text "L.sol", [2, 7])], []⟩

/-- The instruction at offset 4 comes from characters 4 to 7 of the library. -/
theorem withLibrary_resolves :
    Tables.build withLibrary = .ok withLibraryTables ∧ withLibrary.WellTyped ∧
      (withLibraryTables.resolveBytecode false (.str "4:1:0") "A.sol").outcome
        = .ok ⟨⟨2, 1⟩, some ⟨2, 4⟩, some 4, 3, "L.sol"⟩ ∧
      ∃ r, (withLibraryTables.resolveBytecode false (.str "4:1:0") "A.sol").outcome = .ok r := by
  have hbuild : Tables.build withLibrary = .ok withLibraryTables := by cbv
  have htyped : withLibrary.WellTyped :=
    ⟨⟨by simp [withLibrary], by simp [withLibrary]⟩, by simp [withLibrary]⟩
  obtain ⟨heq, hok⟩ := resolveBytecode_eq_naive hbuild "4:1:0" "A.sol"
  exact ⟨hbuild, htyped, heq.trans (by cbv), hok htyped "A.sol" rfl⟩

/-- Both ends of a range counted in a text, whatever its length. -/
def countedEnds (text : List Json) (start : Nat) (length : Int) : Position × Option Position :=
  (Position.counted isNewline text start,
    some (Position.counted isNewline text (start + length).toNat))

/-- A contract whose only instruction has a range of negative length. -/
def backwards : Artifact :=
  { contractName := "A", deployedBytecode := "00", bytecode := "", deployedSourceMap := "5:-1:0"
    sourceMap := "", sourceList := ["a.sol"], sources := [⟨"a.sol", "abc\ndefgh\n", .null⟩] }

/-- The end of a range is not always counted: one of negative length has none. -/
theorem not_resolves_by_countedEnds :
    ¬ ∀ (a : Artifact) (t : Tables) (location : String) (source : Json), Tables.build a = .ok t →
      (t.resolveBytecode false (.str location) source).outcome
        = a.resolveNaive countedEnds location source := by
  intro h
  have hbuild : Tables.build backwards
      = .ok ⟨backwards, ⟨[0]⟩, ⟨[⟨5, -1, 0, .regular, 0⟩]⟩, [(.text "a.sol", [3, 9])], []⟩ := by
    cbv
  have hstop := congrArg (fun x => x.toOption.map Resolution.stop)
    (h backwards _ "0:1:0" "a.sol" hbuild)
  have hclaimed : (backwards.resolveNaive countedEnds "0:1:0" "a.sol").toOption.map Resolution.stop
      = some (some ⟨2, 0⟩) := by
    cbv
  rw [hclaimed] at hstop
  revert hstop
  decide

end Pinpoint
