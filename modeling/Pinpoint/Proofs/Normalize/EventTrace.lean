import Pinpoint.Proofs.Normalize.Suppression
import Pinpoint.Proofs.Resolution.Coverage

/-!
# What the lenient analysis notes

The notes of an analysis that does not ask for a source map that covers the code, one by one. For each report
there is at most one note about its format, and then at most one for each of its findings, in their order:
that its instruction has no entry in the source map, or that it was dropped. It is never both, for what has no
entry is not resolved, and what is not resolved has no range that an array could lie around.

The two notes about a finding come from different places, and each place has its own law.
`resolve_lenient_cases` says when the resolution notes something, and `isSuppressed_eq_ok` when the
classification does. `FindingTrace` joins them for one finding, `ReportTrace` lists the findings of a report, and
`notes_normalizeAll_lenient` lists the reports. A trace is stated together with what becomes of the findings: the
notes say of each whether it is in the output.
-/

namespace Pinpoint

/-- Something of this kind is noted. -/
def Event.Occurs (k : Event.Kind) (notes : List Event) : Prop := ∃ e ∈ notes, e.kind = k

theorem Event.not_occurs_nil (k : Event.Kind) : ¬ Event.Occurs k [] := by
  rintro ⟨e, he, -⟩
  exact List.not_mem_nil he

theorem Event.occurs_singleton {k : Event.Kind} {e : Event} : Event.Occurs k [e] ↔ e.kind = k := by
  constructor
  · rintro ⟨e', he', hkind⟩
    rwa [List.mem_singleton.mp he'] at hkind
  · exact fun h => ⟨e, List.mem_singleton_self e, h⟩

/-! ### Formats -/

/-- The name of the format whose locations are offsets of the bytecode. -/
abbrev bytecodeFormat : Json := .str "evm-byzantium-bytecode"

/-- The format is neither of the two whose locations can be resolved. -/
def IsUnsupported (format : Json) : Prop := format ≠ bytecodeFormat ∧ format ≠ .str "text"

theorem ofFormat?_eq_bytecodeOffset_iff {format : Json} :
    LocationKind.ofFormat? format = some .bytecodeOffset ↔ format = bytecodeFormat := by
  unfold LocationKind.ofFormat?
  rw [← Json.isText_iff]
  split
  next h => exact iff_of_true rfl h
  next h =>
    refine iff_of_false ?_ h
    split <;> simp

theorem ofFormat?_eq_none_iff {format : Json} :
    LocationKind.ofFormat? format = none ↔ IsUnsupported format := by
  unfold LocationKind.ofFormat? IsUnsupported
  rw [ne_eq, ne_eq, ← Json.isText_iff, ← Json.isText_iff]
  split
  next h => exact iff_of_false (Option.some_ne_none _) fun hnot => hnot.1 h
  next h =>
    split
    next htext => exact iff_of_false (Option.some_ne_none _) fun hnot => hnot.2 htext
    next htext => exact iff_of_true rfl ⟨h, htext⟩

/-! ### One finding -/

namespace Tables

variable {a : Artifact} {t : Tables} {settings : Settings}

/-- **A location is at an instruction without an entry:** an opcode stands at its offset, and the number of that
instruction is at least the length of the source map. -/
structure IsUncoveredAt (t : Tables) (location : String) (offset : Int) : Prop where
  isAt : IsAt location offset
  opcode : Bytecode.isOpcodeAt t.artifact.code offset = true
  behind : t.sourceMap.size ≤ Bytecode.opcodesBefore t.artifact.code offset.toNat

/-- The note about such a location. -/
def uncoveredNote (t : Tables) (offset : Int) : Event :=
  .resolutionFailed offset (Bytecode.opcodesBefore t.artifact.code offset.toNat) t.artifact.contractName

/-- **What is noted for a finding, and what becomes of it.** -/
structure FindingTrace (t : Tables) (settings : Settings) (format : Json) (f : Finding) (notes : List Event)
    (m : Option Message) : Prop where
  atMostOne : notes.length ≤ 1
  events : ∀ e ∈ notes, (∃ offset, t.IsUncoveredAt f.location.asText offset ∧ e = t.uncoveredNote offset) ∨
    ∃ source declaration, e = .issueSuppressed f.swcId source declaration
  failed_iff : Event.Occurs .resolutionFailed notes ↔
    format = bytecodeFormat ∧ ∃ offset, t.IsUncoveredAt f.location.asText offset
  suppressed_iff : Event.Occurs .issueSuppressed notes ↔ m = none
  message : ∀ msg, m = some msg → ∃ place, messageAt settings f false place = .ok msg
  unresolved : IsUnsupported format ∨ Event.Occurs .resolutionFailed notes →
    ∃ msg, m = some msg ∧ msg.start = .unresolved ∧ msg.stop = none

/-- Beyond the source map there is no entry. -/
theorem entryAt?_eq_none_iff {m : SourceMap} {k : Nat} : m.entryAt? k = none ↔ m.size ≤ k := by
  rw [SourceMap.entryAt?_natCast, List.getElem?_eq_none_iff, SourceMap.size]

/-- An offset is resolved without a note, unless an instruction without an entry starts there. -/
theorem resolveOffset_lenient_cases (ht : build a = .ok t) (offset : Int) (source : Json) :
    (Bytecode.isOpcodeAt t.artifact.code offset = true ∧
        t.sourceMap.size ≤ Bytecode.opcodesBefore t.artifact.code offset.toNat ∧
        t.resolveOffset false offset source = ⟨[t.uncoveredNote offset], .ok .unresolved⟩) ∨
      (¬ (Bytecode.isOpcodeAt t.artifact.code offset = true ∧
          t.sourceMap.size ≤ Bytecode.opcodesBefore t.artifact.code offset.toNat) ∧
        (t.resolveOffset false offset source).notes = []) := by
  obtain ⟨rfl, -⟩ := build_eq_ok ht
  have hinstruction : t.instructions.instructionAt? offset
      = if Bytecode.isOpcodeAt t.artifact.code offset then
          some (Bytecode.opcodesBefore t.artifact.code offset.toNat) else none := by
    rw [instructions_eq ht]
    exact Bytecode.instructionAt?_eq t.artifact.code offset
  by_cases hopcode : Bytecode.isOpcodeAt t.artifact.code offset = true
  · rw [if_pos hopcode] at hinstruction
    cases hentry : t.sourceMap.entryAt? (Bytecode.opcodesBefore t.artifact.code offset.toNat) with
    | none =>
      refine .inl ⟨hopcode, entryAt?_eq_none_iff.mp hentry, ?_⟩
      rw [resolveOffset_of_no_entry hinstruction hentry]
      rfl
    | some e =>
      refine .inr ⟨fun h => ?_, ?_⟩
      · rw [entryAt?_eq_none_iff.mpr h.2] at hentry
        cases hentry
      · rw [resolveOffset_of_entry hinstruction hentry, Trace.lift_notes]
  · -- no instruction starts there, so there is nothing to look up
    rw [if_neg hopcode] at hinstruction
    refine .inr ⟨fun h => hopcode h.1, ?_⟩
    unfold resolveOffset
    rw [hinstruction]
    rfl

/-- **A finding is resolved without a note,** unless its location is at an instruction without an entry. -/
theorem resolve_lenient_cases (ht : build a = .ok t) {f : Finding} (hf : f.WellTyped) (format source : Json) :
    (format = bytecodeFormat ∧ ∃ offset, t.IsUncoveredAt f.location.asText offset ∧
        t.resolve false f (LocationKind.ofFormat? format) source
          = ⟨[t.uncoveredNote offset], .ok .unresolved⟩) ∨
      (¬ (format = bytecodeFormat ∧ ∃ offset, t.IsUncoveredAt f.location.asText offset) ∧
        (t.resolve false f (LocationKind.ofFormat? format) source).notes = []) := by
  obtain ⟨location, hlocation⟩ := hf.location
  have htext : f.location.asText = location := by
    rw [hlocation]
    rfl
  rw [htext]
  by_cases hformat : format = bytecodeFormat
  · have hresolve : t.resolve false f (LocationKind.ofFormat? format) source
        = t.resolveBytecode false (.str location) source := by
      rw [ofFormat?_eq_bytecodeOffset_iff.mpr hformat, ← hlocation]
      rfl
    rw [hresolve]
    cases hread : Text.readLoose? (Text.before ':' location.toList) with
    | none =>
      refine .inr ⟨?_, ?_⟩
      · rintro ⟨-, offset, hoffset⟩
        exact Option.some_ne_none offset (hoffset.isAt.symm.trans hread)
      · unfold resolveBytecode
        rw [Json.text_str, Trace.bind_of_ok (x := Trace.lift (.ok location)) rfl, hread]
        rfl
    | some offset =>
      rw [resolveBytecode_of_isAt hread]
      rcases resolveOffset_lenient_cases ht offset source with ⟨hopcode, hbehind, heq⟩ | ⟨hnot, hquiet⟩
      · exact .inl ⟨hformat, offset, ⟨hread, hopcode, hbehind⟩, heq⟩
      · refine .inr ⟨?_, hquiet⟩
        rintro ⟨-, offset', hoffset⟩
        -- the location starts with one offset only
        obtain rfl : offset = offset' := Option.some.inj (hread.symm.trans hoffset.isAt)
        exact hnot ⟨hoffset.opcode, hoffset.behind⟩
  · refine .inr ⟨fun h => hformat h.1, ?_⟩
    have hkind : LocationKind.ofFormat? format ≠ some .bytecodeOffset :=
      fun h => hformat (ofFormat?_eq_bytecodeOffset_iff.mp h)
    unfold resolve
    split
    next h => exact absurd h hkind
    next => exact Trace.lift_notes _
    next => rfl

/-- In a format that is not known nothing is resolved. -/
theorem resolve_of_isUnsupported {format : Json} (h : IsUnsupported format) (strict : Bool) (f : Finding)
    (source : Json) : t.resolve strict f (LocationKind.ofFormat? format) source = pure .unresolved := by
  rw [ofFormat?_eq_none_iff.mpr h]
  rfl

/-- What is not resolved has no range that an array could lie around. -/
theorem not_hasArrayAround_unresolved {source : Json} {node : Ast.Node} :
    ¬ t.HasArrayAround .unresolved source node := by
  rintro ⟨start, tree, hstart, -⟩
  cases hstart

/-- A finding whose instruction has no entry: this is noted, and its message has no position. -/
theorem FindingTrace.of_uncovered {f : Finding} {offset : Int} {msg : Message}
    (hat : t.IsUncoveredAt f.location.asText offset)
    (hmsg : messageAt settings f false .unresolved = .ok msg) :
    t.FindingTrace settings bytecodeFormat f [t.uncoveredNote offset] (some msg) where
  atMostOne := Nat.le_refl 1
  events e he := .inl ⟨offset, hat, List.mem_singleton.mp he⟩
  failed_iff := iff_of_true (Event.occurs_singleton.mpr rfl) ⟨rfl, offset, hat⟩
  suppressed_iff := by
    refine iff_of_false (fun h => ?_) (Option.some_ne_none msg)
    cases Event.occurs_singleton.mp h
  message msg' h := ⟨.unresolved, Option.some.inj h ▸ hmsg⟩
  unresolved _ := ⟨msg, rfl, messageAt_positions hmsg⟩

/-- A finding that is dropped: this is noted, and there is no message. -/
theorem FindingTrace.of_suppressed {f : Finding} {format : Json}
    (hcovered : ¬ (format = bytecodeFormat ∧ ∃ offset, t.IsUncoveredAt f.location.asText offset))
    (hsupported : ¬ IsUnsupported format) (source declaration : Json) :
    t.FindingTrace settings format f [.issueSuppressed f.swcId source declaration] none where
  atMostOne := Nat.le_refl 1
  events e he := .inr ⟨source, declaration, List.mem_singleton.mp he⟩
  failed_iff := by
    refine iff_of_false (fun h => ?_) hcovered
    cases Event.occurs_singleton.mp h
  suppressed_iff := iff_of_true (Event.occurs_singleton.mpr rfl) rfl
  message msg h := (Option.some_ne_none msg h.symm).elim
  unresolved h := by
    rcases h with hunsupported | hfailed
    · exact absurd hunsupported hsupported
    · cases Event.occurs_singleton.mp hfailed

/-- Any other finding: nothing is noted, and there is a message. -/
theorem FindingTrace.of_quiet {f : Finding} {format : Json} {place : Resolution} {msg : Message}
    (hcovered : ¬ (format = bytecodeFormat ∧ ∃ offset, t.IsUncoveredAt f.location.asText offset))
    (hplace : IsUnsupported format → place = .unresolved)
    (hmsg : messageAt settings f false place = .ok msg) :
    t.FindingTrace settings format f [] (some msg) where
  atMostOne := Nat.zero_le 1
  events e he := absurd he List.not_mem_nil
  failed_iff := iff_of_false (Event.not_occurs_nil _) hcovered
  suppressed_iff := iff_of_false (Event.not_occurs_nil _) (Option.some_ne_none msg)
  message msg' h := ⟨place, Option.some.inj h ▸ hmsg⟩
  unresolved h := by
    rcases h with hunsupported | hfailed
    · obtain rfl := hplace hunsupported
      exact ⟨msg, rfl, messageAt_positions hmsg⟩
    · exact absurd hfailed (Event.not_occurs_nil _)

/-- **The trace of a finding.** The resolution has noted something or not, and then the classification has. -/
theorem findingTrace_of_normalize (ht : build a = .ok t) (hlenient : settings.strict = false) {f : Finding}
    (hf : f.WellTyped) {format source : Json} {notes : List Event} {m : Option Message}
    (h : t.normalize settings f (LocationKind.ofFormat? format) source false = ⟨notes, .ok m⟩) :
    t.FindingTrace settings format f notes m := by
  have houtcome : (t.normalize settings f (LocationKind.ofFormat? format) source false).outcome = .ok m := by
    rw [h]
  obtain ⟨place, dropped, hplace, hdropped, hmessage, -⟩ := normalize_eq_ok houtcome
  have hnotes : notes = (t.resolve false f (LocationKind.ofFormat? format) source).notes
      ++ (t.isSuppressed f place source).notes := by
    rw [← hlenient, ← notes_normalize false hplace hdropped, h]
  rw [hlenient] at hplace
  have hnowhere : IsUnsupported format → place = .unresolved := by
    intro hunsupported
    rw [resolve_of_isUnsupported hunsupported] at hplace
    exact (Except.ok.inj hplace).symm
  rcases resolve_lenient_cases ht hf format source with ⟨rfl, offset, hat, hresolve⟩ | ⟨hcovered, hquiet⟩
  · -- the place is nowhere, so the finding is not dropped as well
    rw [hresolve] at hplace hnotes
    obtain rfl : Resolution.unresolved = place := Except.ok.inj hplace
    rcases isSuppressed_eq_ok hdropped with ⟨-, node, hnode, -⟩ | ⟨rfl, -, hnone⟩
    · exact absurd hnode not_hasArrayAround_unresolved
    · rcases hmessage with ⟨htrue, -⟩ | ⟨-, msg, hmsg, rfl⟩
      · cases htrue
      · rw [hnone] at hnotes
        obtain rfl : notes = [t.uncoveredNote offset] := hnotes
        exact .of_uncovered hat hmsg
  · rw [hquiet, List.nil_append] at hnotes
    rcases isSuppressed_eq_ok hdropped with ⟨rfl, node, hnode, hnoted⟩ | ⟨rfl, -, hnone⟩
    · rcases hmessage with ⟨-, rfl⟩ | ⟨hfalse, -⟩
      · have hsupported : ¬ IsUnsupported format := by
          intro hunsupported
          rw [hnowhere hunsupported] at hnode
          exact not_hasArrayAround_unresolved hnode
        rw [hnotes, hnoted]
        exact .of_suppressed hcovered hsupported _ _
      · cases hfalse
    · rcases hmessage with ⟨htrue, -⟩ | ⟨-, msg, hmsg, rfl⟩
      · cases htrue
      · rw [hnotes, hnone]
        exact .of_quiet hcovered hnowhere hmsg

/-! ### Reports -/

/-- **What is noted for a report, and its output.** The note about the format comes first, if there is one, and then
come the notes about the findings, in their order. The output has their messages, in the same order. -/
structure ReportTrace (t : Tables) (settings : Settings) (report : SourceReport) (notes : List Event)
    (r : FileReport) : Prop where
  split : ∃ (first : List Event) (parts : List (List Event × Option Message)),
    notes = first ++ parts.flatMap (·.1) ∧ r.messages = (parts.map (·.2)).filterMap id ∧
      (IsUnsupported report.format ∧ report.findings ≠ [] →
        first = [.unsupportedFormat report.source report.format report.findings.length]) ∧
      (¬ (IsUnsupported report.format ∧ report.findings ≠ []) → first = []) ∧
      List.Forall₂ (fun f part => t.FindingTrace settings report.format f part.1 part.2) report.findings parts
  filePath : r.filePath = report.source

/-- The format is noted exactly if it is not known and there are findings. -/
theorem noteUnsupported_notes (report : SourceReport) :
    (IsUnsupported report.format ∧ report.findings ≠ [] → (noteUnsupported report).notes
        = [.unsupportedFormat report.source report.format report.findings.length]) ∧
      (¬ (IsUnsupported report.format ∧ report.findings ≠ []) → (noteUnsupported report).notes = []) := by
  have hcond : ((LocationKind.ofFormat? report.format).isNone && !report.findings.isEmpty) = true
      ↔ IsUnsupported report.format ∧ report.findings ≠ [] := by
    rw [Bool.and_eq_true, Option.isNone_iff_eq_none, ofFormat?_eq_none_iff, Bool.not_eq_true',
      ← Bool.not_eq_true, List.isEmpty_iff]
  unfold noteUnsupported
  constructor
  · intro h
    rw [if_pos (hcond.mpr h)]
    rfl
  · intro h
    rw [if_neg (mt hcond.mp h)]
    rfl

/-- **The trace of a report.** -/
theorem reportTrace_of_normalizeReport (ht : build a = .ok t) (hlenient : settings.strict = false)
    {report : SourceReport} (hreport : report.WellTyped) {notes : List Event} {r : FileReport}
    (h : t.normalizeReport settings report = ⟨notes, .ok r⟩) : t.ReportTrace settings report notes r := by
  have houtcome : (t.normalizeReport settings report).outcome = .ok r := by
    rw [h]
  obtain ⟨made, hmade, rfl⟩ := normalizeReport_eq_ok houtcome
  have hnotes := notes_normalizeReport hmade
  obtain ⟨parts, hparts, hflat, rfl⟩ := Trace.exists_parts_of_mapM hmade
  rw [h, hflat] at hnotes
  obtain ⟨hnoted, hquiet⟩ := noteUnsupported_notes report
  refine ⟨⟨_, parts, hnotes, rfl, hnoted, hquiet, ?_⟩, rfl⟩
  have htyped := (List.forall₂_and_left _ _).mpr ⟨hreport.findings, hparts⟩
  exact htyped.imp fun f part hpart => findingTrace_of_normalize ht hlenient hpart.1 hpart.2

/-- **The notes of a lenient analysis** are those of its reports, one after the other. -/
theorem notes_normalizeAll_lenient (ht : build a = .ok t) (htyped : a.WellTyped) (spaceLimited : Bool)
    {reports : List SourceReport} (hreports : ∀ report ∈ reports, report.WellTyped) :
    ∃ traces : List (List Event × FileReport),
      (t.normalizeAll ⟨spaceLimited, false⟩ reports).notes = traces.flatMap (·.1) ∧
      (t.normalizeAll ⟨spaceLimited, false⟩ reports).outcome = .ok (traces.map (·.2)) ∧
      List.Forall₂ (fun report trace => t.ReportTrace ⟨spaceLimited, false⟩ report trace.1 trace.2)
        reports traces := by
  obtain ⟨rs, hrs, -⟩ : ∃ rs, (t.normalizeAll ⟨spaceLimited, false⟩ reports).outcome = .ok rs ∧ _ :=
    normalizeAll_of_wellTyped ht htyped rfl hreports
  obtain ⟨traces, htraces, hnotes, rfl⟩ := Trace.exists_parts_of_mapM hrs
  refine ⟨traces, hnotes, hrs, ?_⟩
  have hboth := (List.forall₂_and_left _ _).mpr ⟨hreports, htraces⟩
  exact hboth.imp fun report trace htrace => reportTrace_of_normalizeReport ht rfl htrace.1 htrace.2

/-- A contract whose first instruction comes from the declaration of an array, and whose second one the source map
does not cover. -/
def arrayFirst : Artifact :=
  { contractName := "A", deployedBytecode := "0000", bytecode := "", deployedSourceMap := "0:9:0"
    sourceMap := "", sourceList := ["a.sol"], sources := [⟨"a.sol", "uint[] xs;\nf();\n", innerArray⟩] }

/-- The tables of the contract. -/
def arrayFirstTables : Tables :=
  ⟨arrayFirst, ⟨[0, 1]⟩, ⟨[⟨0, 9, 0, .regular, 0⟩]⟩, [(.text "a.sol", [10, 15])],
    [(.text "a.sol", innerArrayNode)]⟩

theorem arrayFirst_build : build arrayFirst = .ok arrayFirstTables := by
  have htrees : entriesOf (fun file => Ast.read file.ast) arrayFirst.sources
      = .ok arrayFirstTables.trees := rfl
  rw [build, htrees]
  cbv

/-- Two reports in an unknown format, of which one has a finding, and a report with findings at both instructions
and behind them. -/
def allInstructions : List SourceReport :=
  [⟨"a.sol", "solc", "", [findingAt "0:1:0"]⟩, ⟨"a.sol", "solc", "", []⟩,
    ⟨"a.sol", bytecodeFormat, "", [findingAt "0:1:0", findingAt "1:1:0", findingAt "2:1:0"]⟩]

/-- The unknown format is noted once, what comes from the array is dropped, what is not covered is noted, and for
what is no instruction there is no note. -/
theorem arrayFirst_trace :
    (arrayFirstTables.normalizeAll ⟨false, false⟩ allInstructions).notes
        = [.unsupportedFormat "a.sol" "solc" 1, .issueSuppressed "SWC-110" "a.sol" "xs",
            .resolutionFailed 1 1 "A"] ∧
      ∃ traces : List (List Event × FileReport),
        (arrayFirstTables.normalizeAll ⟨false, false⟩ allInstructions).notes = traces.flatMap (·.1) ∧
        (arrayFirstTables.normalizeAll ⟨false, false⟩ allInstructions).outcome = .ok (traces.map (·.2)) ∧
        List.Forall₂ (fun report trace => arrayFirstTables.ReportTrace ⟨false, false⟩ report trace.1 trace.2)
          allInstructions traces := by
  have htyped : arrayFirst.WellTyped :=
    ⟨⟨by simp [arrayFirst], by simp [arrayFirst]⟩, by simp [arrayFirst]⟩
  have hreports : ∀ report ∈ allInstructions, report.WellTyped := by
    intro report hreport
    simp only [allInstructions, List.mem_cons, List.not_mem_nil, or_false] at hreport
    rcases hreport with rfl | rfl | rfl
    · exact ⟨⟨_, rfl⟩, by simp [findingAt_wellTyped]⟩
    · exact ⟨⟨_, rfl⟩, by simp⟩
    · exact ⟨⟨_, rfl⟩, by simp [findingAt_wellTyped]⟩
  have hnotes : (arrayFirstTables.normalizeAll ⟨false, false⟩ allInstructions).notes
      = [.unsupportedFormat "a.sol" "solc" 1, .issueSuppressed "SWC-110" "a.sol" "xs",
          .resolutionFailed 1 1 "A"] := by
    have hunknown : LocationKind.ofFormat? "solc" = none := rfl
    have hbytecode : LocationKind.ofFormat? bytecodeFormat = some .bytecodeOffset := rfl
    simp only [normalizeAll, allInstructions, List.mapM_cons, List.mapM_nil, normalizeReport,
      noteUnsupported, hunknown, hbytecode]
    cbv
  exact ⟨hnotes, notes_normalizeAll_lenient arrayFirst_build htyped false hreports⟩

end Tables

end Pinpoint
