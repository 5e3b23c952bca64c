import Pinpoint.Proofs.Batch.Conservation
import Pinpoint.Proofs.Resolution.Reference

/-!
# Whose coordinates a message has

A message with a line and a column stands in the report of a file. The report was chosen by the scanner's
file index, the third field of a location; the text in which the line was counted may have been chosen by
the file index of the source map. `Resolution.LiesIn` says in which file a place lies, and
`liesIn_of_resolve` finds it for every finding: it is the file of the report's source, except for an offset
in the bytecode whose entry names a source itself (`Artifact.countedIn`).

So a line is one of the file that it is reported under unless the two indices differ on the file, which is
`Artifact.PointsElsewhere`. Nothing keeps them from differing: `inheriting` is a contract for which they
do. `placesMessages_of_analyzeArtifact` states this for all messages of an analysis.
-/

namespace Pinpoint

variable {a : Artifact} {t : Tables} {settings : Settings}

/-! ### Where a resolved place lies -/

/-- **A place lies in a file:** its start is counted in the text of the file that its source names. -/
structure Resolution.LiesIn (place : Resolution) (a : Artifact) (named : Json) (file : SourceFile)
    (offset : Nat) : Prop where
  source_eq : place.source = named
  srcStart_eq : place.srcStart = some (offset : Int)
  file_eq : a.fileFor SourceFile.hasText named = .ok (some file)
  start_eq : place.start = Position.counted isNewline file.chars offset

/-- What is not found has no position. -/
theorem not_resolved_of_eq_ok {place : Resolution}
    (h : (.ok .unresolved : Except Error Resolution) = .ok place) :
    ¬ place.start.resolved = true := by
  obtain rfl := Except.ok.inj h
  exact Bool.false_ne_true

/-- A range whose start is resolved lies in the file of its source. -/
theorem liesIn_of_resolveRange (ht : Tables.build a = .ok t) {start : Int} {length : Option Int}
    {source : Json} {place : Resolution} (h : t.resolveRange start length source = .ok place)
    (hres : place.start.resolved = true) :
    ∃ file offset, place.LiesIn a source file offset := by
  unfold Tables.resolveRange at h
  rw [lineBreaksFor_eq_chars ht] at h
  obtain ⟨breaks, hbreaks, h⟩ := Except.bind_eq_ok.mp h
  obtain ⟨file, hfile, rfl⟩ := Except.map_eq_ok.mp hbreaks
  obtain rfl := Except.pure_eq_ok.mp h
  dsimp only at hres
  rw [ofRange_fst] at hres
  cases file with
  | none => exact absurd hres Bool.false_ne_true
  | some f =>
    -- an offset before the text has no position, so this one can be counted to
    have hstart : 0 ≤ start := by
      by_contra hneg
      rw [Option.map_some, Position.ofOffset, if_pos (Int.not_le.mp hneg)] at hres
      exact absurd hres Bool.false_ne_true
    obtain ⟨offset, rfl⟩ := Int.eq_ofNat_of_zero_le hstart
    refine ⟨f, offset, rfl, rfl, hfile, ?_⟩
    dsimp only
    rw [ofRange_fst, Option.map_some, ofOffset_offsetsFrom]

/-- The source that the source map names for a location in the bytecode, if it names one. -/
def Artifact.mapped? (a : Artifact) (location : Json) : Option Json :=
  (a.entryFor? location.asText).bind fun e => a.listed? e.fileIndex

/-- The source in whose text a finding in a report on `source` is counted. -/
def Artifact.countedIn (a : Artifact) (kind : Option LocationKind) (location source : Json) : Json :=
  match kind with
  | some .bytecodeOffset => (a.mapped? location).getD source
  | _ => source

/-- An offset of the bytecode whose start is resolved lies in the file of the source that its entry
names. -/
theorem liesIn_of_resolveOffset (ht : Tables.build a = .ok t) {strict : Bool} {offset : Int}
    {source : Json} {place : Resolution}
    (h : (t.resolveOffset strict offset source).outcome = .ok place)
    (hres : place.start.resolved = true) :
    ∃ file start, place.LiesIn a
      (((a.entryAt? offset).bind fun e => a.listed? e.fileIndex).getD source) file start := by
  rw [← instructionAt?_bind_entryAt? ht]
  unfold Tables.resolveOffset at h
  split at h
  next => exact absurd hres (not_resolved_of_eq_ok h)
  next instruction hinstruction =>
    rw [hinstruction, Option.bind_some]
    split at h
    next hentry =>
      -- without an entry there is no place: none at all in strict mode, else an unresolved one
      unfold Tables.uncovered at h
      split at h
      · cases h
      · exact absurd hres (not_resolved_of_eq_ok h)
    next e hentry =>
      rw [hentry, Option.bind_some, ← entrySource_eq ht]
      split at h
      · exact absurd hres (not_resolved_of_eq_ok h)
      · exact liesIn_of_resolveRange ht h hres

/-- **A finding whose start is resolved** lies in the file of the source that it is counted in. -/
theorem liesIn_of_resolve (ht : Tables.build a = .ok t) {strict : Bool} {f : Finding}
    {kind : Option LocationKind} {source : Json} {place : Resolution}
    (h : (t.resolve strict f kind source).outcome = .ok place)
    (hres : place.start.resolved = true) :
    ∃ file offset, place.LiesIn a (a.countedIn kind f.location source) file offset := by
  unfold Tables.resolve at h
  split at h
  next =>
    unfold Tables.resolveBytecode at h
    rw [Trace.outcome_bind] at h
    obtain ⟨text, htext, h⟩ := Except.bind_eq_ok.mp h
    rw [Artifact.countedIn, Artifact.mapped?, Json.asText_of_text htext, Artifact.entryFor?]
    split at h
    next => exact absurd hres (not_resolved_of_eq_ok h)
    next offset hoffset =>
      rw [hoffset, Option.bind_some]
      exact liesIn_of_resolveOffset ht h hres
  next =>
    obtain ⟨text, htext, h⟩ := Except.bind_eq_ok.mp h
    dsimp only at h
    split at h
    next => exact absurd hres (not_resolved_of_eq_ok h)
    next start hstart => exact liesIn_of_resolveRange ht h hres
  next => exact absurd hres (not_resolved_of_eq_ok h)

/-! ### The message of a finding -/

/-- **A finding points elsewhere:** its location is an offset in the bytecode, and the entry of that offset
names a listed source that selects another file than the source of the report does. -/
def Artifact.PointsElsewhere (a : Artifact) (kind : Option LocationKind) (location source : Json) :
    Prop :=
  kind = some .bytecodeOffset ∧ ∃ e listed, a.entryFor? location.asText = some e ∧
    a.listed? e.fileIndex = some listed ∧
    a.fileFor SourceFile.hasText listed ≠ a.fileFor SourceFile.hasText source

/-- The source that a finding is counted in selects the file of the report unless it points elsewhere. -/
theorem fileFor_countedIn_iff (a : Artifact) (kind : Option LocationKind) (location source : Json) :
    a.fileFor SourceFile.hasText source
        = a.fileFor SourceFile.hasText (a.countedIn kind location source)
      ↔ ¬ a.PointsElsewhere kind location source := by
  unfold Artifact.countedIn Artifact.mapped?
  constructor
  · rintro heq ⟨rfl, e, listed, hentry, hlisted, hne⟩
    dsimp only at heq
    rw [hentry, Option.bind_some, hlisted] at heq
    exact hne heq.symm
  · intro hnot
    split
    next =>
      -- if the files differ, then the entry exists and names a source, or they would be the same
      by_contra hne
      cases hentry : a.entryFor? location.asText with
      | none => exact hne (by rw [hentry]; rfl)
      | some e =>
        cases hlisted : a.listed? e.fileIndex with
        | none => exact hne (by rw [hentry, Option.bind_some, hlisted]; rfl)
        | some listed =>
          rw [hentry, Option.bind_some, hlisted] at hne
          exact hnot ⟨rfl, e, listed, hentry, hlisted, Ne.symm hne⟩
    next => rfl

/-- A message is made of a finding of a source, which is not dropped, at the place that the finding
resolves to. -/
structure Tables.MessageOf (t : Tables) (settings : Settings) (s : SourceSlot) (f : Finding)
    (place : Resolution) (m : Message) : Prop where
  finding : ∃ finding ∈ s.findings, Finding.ofIssue finding.1 finding.2 = .ok f
  resolve : (t.resolve settings.strict f (LocationKind.ofFormat? s.format) s.source).outcome
    = .ok place
  kept : (t.isSuppressed f place s.source).outcome = .ok false
  message : Tables.messageAt settings f false place = .ok m

/-- Every message of a report is made of a finding of its source. -/
theorem Tables.messageOf_of_reportOf {s : SourceSlot} {r : FileReport}
    (h : t.reportOf settings s = .ok r) :
    r.filePath = s.source ∧ ∀ m ∈ r.messages, ∃ f place, t.MessageOf settings s f place m := by
  obtain ⟨made, hmade, rfl⟩ := exists_made_of_reportOf h
  refine ⟨rfl, fun m hm => ?_⟩
  obtain ⟨message, hmem, rfl⟩ := List.mem_filterMap.mp hm
  obtain ⟨finding, hfinding, hmade⟩ := List.exists_of_mem_forall₂ hmade hmem
  obtain ⟨f, hf, hmade⟩ := Except.bind_eq_ok.mp hmade
  obtain ⟨place, dropped, hplace, hdropped, hmade, -⟩ := normalize_eq_ok hmade
  rcases hmade with ⟨-, hnone⟩ | ⟨rfl, msg, hmsg, hsome⟩
  · cases hnone
  · obtain rfl := Option.some.inj hsome
    exact ⟨f, place, ⟨finding, hfinding, hf⟩, hplace, hdropped, hmsg⟩

/-- **Where the messages of some reports lie.** Each message of a report is made of a finding of a source
that the report is named after. If its start is resolved, it is counted in the text of the file that the
finding's resolution names, which is the file that the report's source selects unless the finding points
elsewhere. -/
structure Tables.PlacesMessages (t : Tables) (settings : Settings) (results : List Json)
    (rs : List FileReport) : Prop where
  made : ∀ r ∈ rs, ∃ s ∈ slotsOf results, r.filePath = s.source ∧
    ∀ m ∈ r.messages, ∃ f place, t.MessageOf settings s f place m
  counted : ∀ s f place m, t.MessageOf settings s f place m → m.start.resolved = true →
    ∃ file offset, m.start = place.start ∧ place.LiesIn t.artifact place.source file offset ∧
      (t.artifact.fileFor SourceFile.hasText s.source = .ok (some file)
        ↔ ¬ t.artifact.PointsElsewhere (LocationKind.ofFormat? s.format) f.location s.source)

/-- **A message belongs to the file that it is reported under** unless its finding points elsewhere. -/
theorem placesMessages_of_analyzeArtifact {results : Json} {rs : List FileReport}
    (h : (analyzeArtifact settings a results).outcome = .ok rs) :
    ∃ t, Tables.build a = .ok t ∧ t.artifact = a ∧ t.PlacesMessages settings results.items rs := by
  obtain ⟨t, ht, items, hitems, reports, hreports, hrs⟩ := analyzeArtifact_eq_ok.mp h
  obtain ⟨rfl, -⟩ := Tables.build_eq_ok ht
  rw [Json.items_of_elements hitems]
  refine ⟨t, ht, rfl, ?_, ?_⟩
  · intro r hr
    have hslots := List.mapM_eq_ok.mp (Tables.normalizeAll_eq_reportOf hreports hrs)
    obtain ⟨s, hs, hreport⟩ := List.exists_of_mem_forall₂ hslots hr
    exact ⟨s, hs, Tables.messageOf_of_reportOf hreport⟩
  · intro s f place m hmade hres
    obtain ⟨hstart, -⟩ := Tables.messageAt_positions hmade.message
    rw [hstart] at hres
    obtain ⟨file, offset, hlies⟩ := liesIn_of_resolve ht hmade.resolve hres
    refine ⟨file, offset, hstart, ?_, ?_⟩
    · rw [hlies.source_eq]
      exact hlies
    · rw [← fileFor_countedIn_iff, hlies.file_eq]

/-- A contract whose only instruction comes from a library in another file. -/
def inheriting : Artifact :=
  { contractName := "A", deployedBytecode := "00", bytecode := "", deployedSourceMap := "13:4:1"
    sourceMap := "", sourceList := ["A.sol", "L.sol"]
    sources := [⟨"A.sol", "contract A is L \x7b\x7d\n", .null⟩,
      ⟨"L.sol", "library L \x7b\n\n    uint[] xs;\n\x7d\n", .null⟩] }

/-- A result with one issue, at the first instruction. -/
def atFirstInstruction : Json :=
  .arr [.obj [("sourceFormat", "evm-byzantium-bytecode"), ("sourceList", .arr ["A.sol", "L.sol"]),
    ("issues", .arr [.obj [("severity", "High"),
      ("locations", .arr [.obj [("sourceMap", "0:1:0")]])]])]]

/-- The reports of the contract: line three is reported for a file with a single line. -/
def inheritingReports : List FileReport :=
  [⟨"A.sol", [⟨"", " ", 2, "High", true, ⟨3, 0⟩, some ⟨3, 4⟩⟩], 0, 0⟩, ⟨"L.sol", [], 0, 0⟩]

/-- The message is counted in the library, but reported under the contract's own file. -/
theorem inheriting_pointsElsewhere :
    (analyzeArtifact ⟨false, false⟩ inheriting atFirstInstruction).outcome = .ok inheritingReports ∧
      inheriting.PointsElsewhere (some .bytecodeOffset) "0:1:0" "A.sol" ∧
      ∃ t, Tables.build inheriting = .ok t ∧ t.artifact = inheriting ∧
        t.PlacesMessages ⟨false, false⟩ atFirstInstruction.items inheritingReports := by
  have hreports : SourceReport.ofResults atFirstInstruction.items
      = .ok [⟨"A.sol", "evm-byzantium-bytecode", "", [⟨"High", "", "", "", "0:1:0", ""⟩]⟩,
          ⟨"L.sol", "evm-byzantium-bytecode", "", []⟩] := by
    cbv
  have hbuild : Tables.build inheriting = .ok ⟨inheriting, ⟨[0]⟩, ⟨[⟨13, 4, 1, .regular, 0⟩]⟩,
      [(.text "A.sol", [18]), (.text "L.sol", [11, 12, 27, 29])], []⟩ := by
    cbv
  have hformat : LocationKind.ofFormat? "evm-byzantium-bytecode" = some .bytecodeOffset := rfl
  have hrun : (analyzeArtifact ⟨false, false⟩ inheriting atFirstInstruction).outcome
      = .ok inheritingReports := by
    refine analyzeArtifact_eq_ok.mpr ⟨_, hbuild, _, rfl, _, hreports, ?_⟩
    simp only [Tables.normalizeAll, List.mapM_cons, List.mapM_nil, Tables.normalizeReport,
      Tables.noteUnsupported, hformat]
    cbv
  have helsewhere : inheriting.PointsElsewhere (some .bytecodeOffset) "0:1:0" "A.sol" := by
    have hown : inheriting.fileFor SourceFile.hasText "A.sol"
        = .ok (some ⟨"A.sol", "contract A is L \x7b\x7d\n", .null⟩) := by
      cbv
    have hother : inheriting.fileFor SourceFile.hasText "L.sol"
        = .ok (some ⟨"L.sol", "library L \x7b\n\n    uint[] xs;\n\x7d\n", .null⟩) := by
      cbv
    refine ⟨rfl, ⟨13, 4, 1, .regular, 0⟩, "L.sol", by cbv, by cbv, ?_⟩
    rw [hown, hother]
    simp
  exact ⟨hrun, helsewhere, placesMessages_of_analyzeArtifact hrun⟩

end Pinpoint
