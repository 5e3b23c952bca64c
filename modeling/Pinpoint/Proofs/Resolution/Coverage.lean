import Pinpoint.Proofs.Resolution.Reference

/-!
# Instructions that the source map covers

A complete source map has a segment for each instruction, and a segment may be empty if its entry repeats the
one before. Yet the instructions are not all covered: empty segments at the end of a map do not count, so the
instructions that they stand for have no entry. An instruction has one exactly if its own segment or one
behind it is not empty (`SourceMap.WrittenFrom`, `SourceMap.exists_entryAt?_iff`).

What this means for a location is `resolveBytecode_of_complete`. Where there is an entry nothing is noted in
either mode (`Tables.Covers`): the range of the entry is looked up, and a look-up fails only for a source that
is no path (`lookup_eq_error`). Where there is none the strict mode stops and the lenient one notes it
(`Tables.Misses`).
-/

namespace Pinpoint

/-! ### Entries and segments -/

namespace SourceMap

/-- The segments of a source map as it is written, one for each instruction if it is complete. -/
def writtenSegments (text : String) : List (List Char) :=
  Text.splitOn ';' (Text.trim text.toList)

/-- Segment `k` or one behind it is not empty. -/
def WrittenFrom (text : String) (k : Nat) : Prop :=
  ∃ j segment, k ≤ j ∧ (writtenSegments text)[j]? = some segment ∧ segment ≠ []

/-- The segments that count go up to the last one that is not empty. -/
theorem lt_length_segments_iff {text : String} {k : Nat} :
    k < (segments text).length ↔ WrittenFrom text k := by
  obtain ⟨n, hwritten⟩ : ∃ n, writtenSegments text = segments text ++ List.replicate n [] :=
    exists_append_dropTrailingEmpty (writtenSegments text)
  have hlast : (segments text).getLast? ≠ some [] := getLast?_dropTrailingEmpty (writtenSegments text)
  constructor
  · intro hk
    -- the last segment that counts is not empty, and it does not come before `k`
    have hlt : (segments text).length - 1 < (segments text).length := by omega
    refine ⟨(segments text).length - 1, (segments text)[(segments text).length - 1], by omega, ?_, ?_⟩
    · rw [hwritten, List.getElem?_append_left hlt, List.getElem?_eq_getElem hlt]
    · intro hnil
      rw [List.getLast?_eq_getElem?, List.getElem?_eq_getElem hlt, hnil] at hlast
      exact hlast rfl
  · rintro ⟨j, segment, hk, hsegment, hfull⟩
    by_contra hge
    -- behind the segments that count there are only empty ones
    rw [hwritten, List.getElem?_append_right (by omega)] at hsegment
    exact hfull (List.eq_of_mem_replicate (List.mem_of_getElem? hsegment))

/-- **The entries of a source map** are those of the segments up to the last one that is not empty. -/
theorem exists_entryAt?_iff {text : String} {m : SourceMap} (h : decode text = .ok m) (k : Nat) :
    (∃ e, m.entryAt? k = some e) ↔ WrittenFrom text k := by
  have hsize : m.entries.length = (segments text).length := size_of_decode h
  rw [← lt_length_segments_iff, ← hsize, entryAt?_natCast]
  constructor
  · rintro ⟨e, he⟩
    exact (List.getElem?_eq_some_iff.mp he).1
  · exact fun hk => ⟨m.entries[k], List.getElem?_eq_getElem hk⟩

end SourceMap

/-! ### Offsets and instructions -/

namespace Bytecode.InstructionIndex

variable {offset : Int} {offsets : List Int} {i k : Nat}

/-- Just the offsets in a list have a place there. -/
theorem isSome_lastPlaceFrom?_iff : (lastPlaceFrom? offset i offsets).isSome ↔ offset ∈ offsets := by
  induction offsets generalizing i with
  | nil => simp [lastPlaceFrom?]
  | cons o rest ih =>
    rw [lastPlaceFrom?_cons, Option.isSome_or, Bool.or_eq_true, ih, List.mem_cons, or_comm,
      @eq_comm _ offset]
    by_cases ho : o = offset <;> simp [ho]

/-- A place lies within the list. -/
theorem lt_of_lastPlaceFrom? (h : lastPlaceFrom? offset i offsets = some k) : k < i + offsets.length := by
  induction offsets generalizing i with
  | nil => cases h
  | cons o rest ih =>
    rw [List.length_cons]
    rw [lastPlaceFrom?_cons, Option.or_eq_some_iff] at h
    rcases h with h | ⟨-, h⟩
    · have := ih h
      omega
    · have : i = k := by simpa using (Option.ite_none_right_eq_some.mp h).2
      omega

/-- Every offset in an index has an instruction. -/
theorem exists_instructionAt? {index : InstructionIndex} (h : offset ∈ index.offsets) :
    ∃ k < index.size, index.instructionAt? offset = some k := by
  obtain ⟨k, hk⟩ := Option.isSome_iff_exists.mp (isSome_lastPlaceFrom?_iff (i := 0).mpr h)
  have hlt := lt_of_lastPlaceFrom? hk
  rw [Nat.zero_add] at hlt
  exact ⟨k, hlt, hk⟩

end Bytecode.InstructionIndex

/-! ### Looking up a source -/

section LookUps

variable {α : Type} {e : Error}

namespace Json

theorem key_eq_error {j : Json} (h : j.key = .error e) : e = .wrongType := by
  cases j <;> cases h
  all_goals rfl

theorem text_eq_error {j : Json} (h : j.text = .error e) : e = .wrongType := by
  cases j <;> cases h
  all_goals rfl

end Json

namespace Tables

theorem pathOf_eq_error {key : Json.Key} (h : pathOf key = .error e) : e = .wrongType := by
  cases key <;> cases h
  all_goals rfl

theorem entriesNamed_eq_error {name : String} {table : List (Json.Key × α)}
    (h : entriesNamed name table = .error e) : e = .wrongType := by
  induction table with
  | nil => cases h
  | cons entry rest ih =>
    -- the first key is no path, or else one behind it is none
    rcases Except.bind_eq_error.mp h with h | ⟨path, -, h⟩
    · exact pathOf_eq_error h
    · rcases Except.bind_eq_error.mp h with h | ⟨others, -, h⟩
      · exact ih h
      · cases h

/-- A look-up fails only for what is no path. -/
theorem lookup_eq_error {table : List (Json.Key × α)} {source : Json}
    (h : lookup table source = .error e) : e = .wrongType := by
  rcases Except.bind_eq_error.mp h with h | ⟨key, -, h⟩
  · exact Json.key_eq_error h
  · split at h
    · cases h
    · rcases Except.bind_eq_error.mp h with h | ⟨path, -, h⟩
      · exact Json.text_eq_error h
      · rcases Except.bind_eq_error.mp h with h | ⟨found, -, h⟩
        · exact entriesNamed_eq_error h
        · split at h <;> cases h

theorem resolveRange_eq_error {t : Tables} {start : Int} {length : Option Int} {source : Json}
    (h : t.resolveRange start length source = .error e) : e = .wrongType := by
  rcases Except.bind_eq_error.mp h with h | ⟨breaks, -, h⟩
  · exact lookup_eq_error h
  · cases h

end Tables

end LookUps

/-! ### Resolving a location -/

namespace Tables

variable {a : Artifact} {t : Tables} {offset : Int} {k : Nat} {text : String}

/-- The location is about an offset. -/
def IsAt (location : String) (offset : Int) : Prop :=
  Text.readLoose? (Text.before ':' location.toList) = some offset

/-- **The source map covers an offset.** A location there is resolved in both modes: nothing is noted, only a
source that is no path can get in the way, and in a contract of the right types nothing can. -/
structure Covers (t : Tables) (offset : Int) : Prop where
  quiet : ∀ strict location source, IsAt location offset →
    (t.resolveBytecode strict (.str location) source).notes = []
  untypedOnly : ∀ strict location source e, IsAt location offset →
    (t.resolveBytecode strict (.str location) source).outcome = .error e → e = .wrongType
  resolved : ∀ strict location path, IsAt location offset → t.artifact.WellTyped →
    ∃ place, (t.resolveBytecode strict (.str location) (.str path)).outcome = .ok place

/-- **The source map misses an offset**, that of instruction `k`. In strict mode a location there is an error;
in lenient mode it is noted and not resolved. -/
structure Misses (t : Tables) (offset : Int) (k : Nat) : Prop where
  strict : ∀ location source, IsAt location offset →
    t.resolveBytecode true (.str location) source = ⟨[], .error (.uncovered k t.sourceMap.size)⟩
  lenient : ∀ location source, IsAt location offset →
    t.resolveBytecode false (.str location) source
      = ⟨[.resolutionFailed offset k t.artifact.contractName], .ok .unresolved⟩

/-- A location is resolved at its offset. -/
theorem resolveBytecode_of_isAt {location : String} (h : IsAt location offset) (strict : Bool)
    (source : Json) :
    t.resolveBytecode strict (.str location) source = t.resolveOffset strict offset source := by
  rw [resolveBytecode, Trace.bind_of_ok (x := Trace.lift (Json.str location).text) rfl]
  simp only [show Text.readLoose? (Text.before ':' location.toList) = some offset from h]
  rfl

/-- With an entry the mode does not matter. -/
theorem resolveOffset_of_entry {e : SourceEntry} (hk : t.instructions.instructionAt? offset = some k)
    (he : t.sourceMap.entryAt? k = some e) (strict : Bool) (source : Json) :
    t.resolveOffset strict offset source = Trace.lift (if e.start < 0 then .ok .unresolved
      else t.resolveRange e.start (some e.length) (t.entrySource e.fileIndex source)) := by
  unfold resolveOffset
  rw [hk]
  simp only [he]
  split <;> rfl

/-- Without an entry it does. -/
theorem resolveOffset_of_no_entry (hk : t.instructions.instructionAt? offset = some k)
    (he : t.sourceMap.entryAt? k = none) (strict : Bool) (source : Json) :
    t.resolveOffset strict offset source = t.uncovered strict offset k := by
  unfold resolveOffset
  rw [hk]
  simp only [he]

/-- An instruction with an entry is covered. -/
theorem covers_of_entry (ht : Tables.build a = .ok t) {e : SourceEntry}
    (hk : t.instructions.instructionAt? offset = some k) (he : t.sourceMap.entryAt? k = some e) :
    t.Covers offset where
  quiet strict location source hat := by
    rw [resolveBytecode_of_isAt hat, resolveOffset_of_entry hk he, Trace.lift_notes]
  untypedOnly strict location source error hat herror := by
    rw [resolveBytecode_of_isAt hat, resolveOffset_of_entry hk he, Trace.lift_outcome] at herror
    split at herror
    · cases herror
    · exact resolveRange_eq_error herror
  resolved strict location path hat htyped := by
    obtain ⟨hartifact, -⟩ := build_eq_ok ht
    -- the mode makes no difference, and the lenient one is that of the reference
    have hsame : t.resolveBytecode strict (.str location) (.str path)
        = t.resolveBytecode false (.str location) (.str path) := by
      rw [resolveBytecode_of_isAt hat, resolveBytecode_of_isAt hat, resolveOffset_of_entry hk he,
        resolveOffset_of_entry hk he]
    rw [hsame, resolveBytecode_outcome ht]
    exact resolveNaive_isOk (hartifact ▸ htyped) countedRange location path

/-- An instruction without an entry is missed. -/
theorem misses_of_no_entry (hk : t.instructions.instructionAt? offset = some k)
    (he : t.sourceMap.entryAt? k = none) : t.Misses offset k where
  strict location source hat := by
    rw [resolveBytecode_of_isAt hat, resolveOffset_of_no_entry hk he]
    rfl
  lenient location source hat := by
    rw [resolveBytecode_of_isAt hat, resolveOffset_of_no_entry hk he]
    rfl

/-- The source map among the tables is what the text of the contract decodes to. -/
theorem decode_of_build (ht : Tables.build a = .ok t) (hmap : a.deployedSourceMap = .str text) :
    SourceMap.decode text = .ok t.sourceMap := by
  obtain ⟨-, -, hread, -⟩ := build_eq_ok ht
  rwa [hmap, readSourceMap_str] at hread

/-- **A complete source map** has a segment for each instruction, but not always an entry. There is one for the
instruction at an offset if its segment or a later one is not empty, and then the offset is covered. Else there
is none, and it is missed. -/
theorem resolveBytecode_of_complete (ht : Tables.build a = .ok t) (hmap : a.deployedSourceMap = .str text)
    (hcomplete : (SourceMap.writtenSegments text).length = t.instructions.size)
    (ho : offset ∈ t.instructions.offsets) :
    ∃ k segment, t.instructions.instructionAt? offset = some k ∧
      (SourceMap.writtenSegments text)[k]? = some segment ∧
      (SourceMap.WrittenFrom text k → (∃ e, t.sourceMap.entryAt? k = some e) ∧ t.Covers offset) ∧
      (¬ SourceMap.WrittenFrom text k → t.sourceMap.entryAt? k = none ∧ t.Misses offset k) := by
  obtain ⟨k, hlt, hk⟩ := Bytecode.InstructionIndex.exists_instructionAt? ho
  have hentry := SourceMap.exists_entryAt?_iff (decode_of_build ht hmap) k
  refine ⟨k, _, hk, List.getElem?_eq_getElem (hcomplete ▸ hlt), fun hwritten => ?_, fun hunwritten => ?_⟩
  · obtain ⟨e, he⟩ := hentry.mpr hwritten
    exact ⟨⟨e, he⟩, covers_of_entry ht hk he⟩
  · have he : t.sourceMap.entryAt? k = none := by
      by_contra hsome
      exact hunwritten (hentry.mp (Option.ne_none_iff_exists'.mp hsome))
    exact ⟨he, misses_of_no_entry hk he⟩

end Tables

/-! ### A map that ends with a repeat -/

/-- A contract with three instructions. The last one repeats the entry of the second by an empty segment. -/
def withRepeatedTail : Artifact :=
  { contractName := "A", deployedBytecode := "6001600200", bytecode := ""
    deployedSourceMap := "0:1:0;4:2;", sourceMap := "", sourceList := ["a.sol"], sources := [⟨"a.sol", "ab\ncdef\n", .null⟩] }

/-- The tables of the contract: the last instruction has no entry. -/
def withRepeatedTailTables : Tables :=
  ⟨withRepeatedTail, ⟨[0, 2, 4]⟩, ⟨[⟨0, 1, 0, .regular, 0⟩, ⟨4, 2, 0, .regular, 0⟩]⟩,
    [(.text "a.sol", [2, 7])], []⟩

namespace Tables

/-- The tables of the contract with a repeated tail are built. -/
theorem build_withRepeatedTail : build withRepeatedTail = .ok withRepeatedTailTables := by cbv

/-- The instruction at offset 2 is covered, and the one at offset 4 is not, though its segment is there. -/
theorem repeatedTail_missed :
    (SourceMap.writtenSegments "0:1:0;4:2;").length = withRepeatedTailTables.instructions.size ∧
      withRepeatedTailTables.Covers 2 ∧ withRepeatedTailTables.Misses 4 2 := by
  have hcomplete :
      (SourceMap.writtenSegments "0:1:0;4:2;").length = withRepeatedTailTables.instructions.size := by
    cbv
  have htwo : (2 : Int) ∈ withRepeatedTailTables.instructions.offsets := by decide
  have hfour : (4 : Int) ∈ withRepeatedTailTables.instructions.offsets := by decide
  refine ⟨hcomplete, ?_, ?_⟩
  · obtain ⟨k, -, hk, -, hcovered, -⟩ :=
      resolveBytecode_of_complete build_withRepeatedTail rfl hcomplete htwo
    obtain rfl : 1 = k := Option.some.inj hk
    exact (hcovered (SourceMap.lt_length_segments_iff.mp (by cbv))).2
  · obtain ⟨k, -, hk, -, -, hmissed⟩ :=
      resolveBytecode_of_complete build_withRepeatedTail rfl hcomplete hfour
    obtain rfl : 2 = k := Option.some.inj hk
    exact (hmissed (mt SourceMap.lt_length_segments_iff.mpr (by cbv))).2

/-- A complete source map does not cover all its instructions. -/
theorem not_covers_of_complete :
    ¬ ∀ (a : Artifact) (t : Tables) (text : String), Tables.build a = .ok t →
      a.deployedSourceMap = .str text →
      (SourceMap.writtenSegments text).length = t.instructions.size →
      ∀ offset ∈ t.instructions.offsets, (∃ k e,
        t.instructions.instructionAt? offset = some k ∧ t.sourceMap.entryAt? k = some e) ∧
        t.Covers offset := by
  intro h
  obtain ⟨⟨k, e, hk, he⟩, -⟩ := h withRepeatedTail withRepeatedTailTables "0:1:0;4:2;"
    build_withRepeatedTail rfl (by cbv) 4 (by decide)
  obtain rfl : 2 = k := Option.some.inj hk
  cases he

end Tables

end Pinpoint
