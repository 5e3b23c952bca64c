import Pinpoint.Proofs.Artifact.Decoding
import Pinpoint.Proofs.Artifact.SingleFile
import Pinpoint.Proofs.Batch.Composition

/-!
# Malformed compiler output in a batch

Whatever stands in the bytecode and the source map of a build record, the record is to be a failure at most,
and never the end of a batch. That is so with one exception: a number in the source map with more digits than
are read ends the batch, unless something before it is at fault (`Json.HasOverlongMap`).

The ends that the analysis of a record may come to are found in the order of its steps: the record is read
(`Artifact.read_of_isSingleFile`), and then the contract is analysed (`analyzeArtifact_ends`).
`analyze_of_isPlain` has them all, and `analyzeBatch_of_isPlain` says what becomes of a batch.
-/

namespace Pinpoint

/-! ### One unit -/

/-- **The record ends a batch:** it has a name and its code can be decoded, so that the source map comes next,
and the first fault of the source map is a number that is too long. -/
structure Json.HasOverlongMap (build : Json) : Prop where
  named : (build.fieldOr "contractName" .null).isBare = false
  code : ∃ bytes, Bytecode.decodeHex (build.codeText "deployedBytecode") = .ok bytes
  sourceMap : SourceMap.FirstFaultIsOverlong
    (SourceMap.segments (build.codeText "deployedSourceMap"))

/-- What is read of a record of a single file is ready for the analysis. -/
theorem Artifact.ReadFrom.isReadable {a : Artifact} {build : Json} (h : a.ReadFrom build) :
    a.IsReadable := by
  refine ⟨⟨_, h.deployedBytecode⟩, ⟨_, h.deployedSourceMap⟩, h.wellTyped, fun f hf => ?_⟩
  obtain ⟨-, ⟨text, htext⟩, hbare⟩ := h.files f hf
  -- a tree that is not given is not read, so it cannot be at fault
  refine ⟨?_, none, if_pos hbare⟩
  rw [htext]
  exact ⟨_, rfl⟩

/-- A record with a name ends a batch exactly if what is read of it does. -/
theorem Artifact.ReadFrom.hasOverlongMap_iff {a : Artifact} {build : Json} (h : a.ReadFrom build)
    (hnamed : (build.fieldOr "contractName" .null).isBare = false) :
    build.HasOverlongMap ↔ a.HasOverlongMap := by
  have hcode : a.deployedBytecode.asText = build.codeText "deployedBytecode" := by
    rw [h.deployedBytecode, Json.asText_of_text (Json.text_str _)]
  have hmap : a.deployedSourceMap.asText = build.codeText "deployedSourceMap" := by
    rw [h.deployedSourceMap, Json.asText_of_text (Json.text_str _)]
  constructor
  · intro hoverlong
    exact ⟨by rw [hcode]; exact hoverlong.code, by rw [hmap]; exact hoverlong.sourceMap⟩
  · intro hoverlong
    exact ⟨hnamed, by rw [← hcode]; exact hoverlong.code, by rw [← hmap]; exact hoverlong.sourceMap⟩

namespace AnalysisUnit

/-- A unit of a record of a single file, with results of the right types. -/
def IsPlain (u : AnalysisUnit) : Prop :=
  ∃ build items, u = ⟨.record build, .arr items⟩ ∧ build.IsSingleFile ∧
    ∀ result ∈ items, result.IsResult

/-- The record of the unit ends a batch. -/
def HasOverlongMap (u : AnalysisUnit) : Prop :=
  match u.subject with
  | .record build => build.HasOverlongMap
  | .artifact _ => False

/-- **What a unit contributes to a batch:** its reports, or else one failure with its name and its error. -/
inductive Contributes (settings : Settings) (u : AnalysisUnit) : UnitOutcome → Prop where
  | reports (rs : List FileReport) (analysis : (u.analyze settings).outcome = .ok rs) :
    Contributes settings u (.reports rs)
  | failure (name : Json) (e : Error) (name_eq : u.subject.name = .ok name)
      (analysis : (u.analyze settings).outcome = .error e)
      (ofUnit : (e.isUnreadable || e.isUncovered) = true) :
    Contributes settings u (.failure ⟨name, e.message⟩)

variable {settings : Settings} {u : AnalysisUnit}

/-- A unit that comes to its end contributes. -/
theorem contributes_of_run {o : UnitOutcome} (h : (u.run settings).outcome = .ok o) :
    u.Contributes settings o := by
  rw [run_outcome] at h
  obtain ⟨name, hname, h⟩ := Except.bind_eq_ok.mp h
  cases hanalysis : (u.analyze settings).outcome with
  | ok rs =>
    rw [hanalysis] at h
    obtain rfl := Except.ok.inj h
    exact .reports rs hanalysis
  | error e =>
    rw [hanalysis] at h
    unfold outcomeOf at h
    dsimp only at h
    split at h
    next he =>
      obtain rfl := Except.ok.inj h
      exact .failure name e hname hanalysis he
    next =>
      -- any other error ends the batch
      cases h

/-- The analysis of a record that can be read ends as that of the contract does. -/
theorem analyze_of_read (settings : Settings) {build results : Json} {a : Artifact}
    (hread : (Artifact.read build).outcome = .ok a) :
    (analyze settings ⟨.record build, results⟩).outcome
      = (analyzeArtifact settings a results).outcome := by
  rw [analyze, Trace.outcome_bind, Subject.toArtifact, hread]
  rfl

/-- **The ends that the analysis of a record may come to.** -/
theorem analyze_of_isPlain (settings : Settings) (h : u.IsPlain) :
    (u.HasOverlongMap ∧ (u.analyze settings).outcome = .error .integerTooLong) ∨
      ¬ u.HasOverlongMap ∧
        ((∃ rs, (u.analyze settings).outcome = .ok rs ∧ ∀ r ∈ rs, r.filePath.IsText) ∨
          ∃ e, (u.analyze settings).outcome = .error e ∧
            (e.isUnreadable || e.isUncovered) = true) := by
  obtain ⟨build, items, rfl, hrecord, hresults⟩ := h
  by_cases hname : (build.fieldOr "contractName" .null).isBare = true
  · -- without a name the record is not read at all
    have hnot : ¬ build.HasOverlongMap := fun hoverlong =>
      Bool.false_ne_true (hoverlong.named.symm.trans hname)
    have hfails : (analyze settings ⟨.record build, .arr items⟩).outcome
        = .error .noContractName := by
      rw [analyze, Trace.outcome_bind, Subject.toArtifact,
        Artifact.read_of_nameless hrecord.object hname]
      rfl
    exact .inr ⟨hnot, .inr ⟨_, hfails, rfl⟩⟩
  · have hnamed := Bool.eq_false_of_not_eq_true hname
    obtain ⟨a, hread, hfrom⟩ := Artifact.read_of_isSingleFile hrecord hnamed
    have hiff : (⟨.record build, .arr items⟩ : AnalysisUnit).HasOverlongMap ↔ a.HasOverlongMap :=
      hfrom.hasOverlongMap_iff hnamed
    rw [analyze_of_read settings hread, hiff]
    exact analyzeArtifact_ends settings hfrom.isReadable hresults

/-- The name of a record can always be told. -/
theorem name_of_isPlain (h : u.IsPlain) : ∃ name, u.subject.name = .ok name := by
  obtain ⟨build, items, rfl, hrecord, -⟩ := h
  refine ⟨.str (build.fieldOr "contractName" (.str "?")).display, ?_⟩
  show (build.getD "contractName" (.str "?")).map _ = _
  rw [Json.getD_of_isObject hrecord.object]
  rfl

/-- **A record ends the batch, or it contributes to it.** -/
theorem run_of_isPlain (settings : Settings) (h : u.IsPlain) :
    (u.HasOverlongMap ∧ (u.run settings).outcome = .error .integerTooLong) ∨
      ¬ u.HasOverlongMap ∧ ∃ o, (u.run settings).outcome = .ok o ∧
        ∀ r ∈ o.fileReports, r.filePath.IsText := by
  obtain ⟨name, hname⟩ := name_of_isPlain h
  rcases analyze_of_isPlain settings h with ⟨hoverlong, hanalysis⟩ | ⟨hnot, hends⟩
  · refine .inl ⟨hoverlong, ?_⟩
    rw [run_outcome, hname, hanalysis]
    rfl
  · refine .inr ⟨hnot, ?_⟩
    rcases hends with ⟨rs, hanalysis, htexts⟩ | ⟨e, hanalysis, he⟩
    · refine ⟨.reports rs, ?_, htexts⟩
      rw [run_outcome, hname, hanalysis]
      rfl
    · exact ⟨_, run_eq_failure hname hanalysis he, fun r hr => absurd hr List.not_mem_nil⟩

end AnalysisUnit

/-! ### A batch -/

/-- **Malformed compiler output and batches.** A batch of records of single files, with results of the right
types, returns unless a record has an overlong map: every unit contributes its reports or one failure, whatever
its bytecode and its source map hold, and nothing else is in the result. A record with an overlong map ends
the batch, wherever it stands. -/
theorem analyzeBatch_of_isPlain (settings : Settings) (units : List AnalysisUnit)
    (h : ∀ u ∈ units, u.IsPlain) :
    ((∀ u ∈ units, ¬ u.HasOverlongMap) → ∃ b outcomes,
      (analyzeBatch settings units).outcome = .ok b ∧
        List.Forall₂ (fun u o => AnalysisUnit.Contributes settings u o) units outcomes ∧
        b.failures = outcomes.filterMap UnitOutcome.failure? ∧
        FileReport.groupByBasename (outcomes.flatMap UnitOutcome.fileReports) = .ok b.reports) ∧
      ((∃ u ∈ units, u.HasOverlongMap) →
        (analyzeBatch settings units).outcome = .error .integerTooLong) := by
  constructor
  · intro hnone
    have hruns : ∀ u ∈ units, ∃ o, (u.run settings).outcome = .ok o ∧
        ∀ r ∈ o.fileReports, r.filePath.IsText := by
      intro u hu
      rcases AnalysisUnit.run_of_isPlain settings (h u hu) with ⟨hoverlong, -⟩ | ⟨-, hrun⟩
      · exact absurd hoverlong (hnone u hu)
      · exact hrun
    obtain ⟨outcomes, houtcomes, htexts⟩ := List.mapM_ok_of_forall hruns
    have hmapM : (units.mapM (AnalysisUnit.run settings)).outcome = .ok outcomes := by
      rw [Trace.outcome_mapM, houtcomes]
    have hpaths : ∀ r ∈ outcomes.flatMap UnitOutcome.fileReports, r.filePath.IsText := by
      intro r hr
      obtain ⟨o, ho, hr⟩ := List.mem_flatMap.mp hr
      exact htexts o ho r hr
    obtain ⟨reports, hreports⟩ := FileReport.exists_groupByBasename hpaths
    refine ⟨⟨reports, outcomes.filterMap UnitOutcome.failure?⟩, outcomes, ?_, ?_, rfl, hreports⟩
    · rw [analyzeBatch_outcome hmapM, BatchResult.ofOutcomes, hreports]
      rfl
    · exact (List.mapM_eq_ok.mp houtcomes).imp fun u o ho => AnalysisUnit.contributes_of_run ho
  · rintro ⟨u, hu, hoverlong⟩
    have hmapM : (units.mapM (AnalysisUnit.run settings)).outcome = .error .integerTooLong := by
      rw [Trace.outcome_mapM]
      -- the first unit to end the batch need not be this one, but it ends it with the same error
      refine List.mapM_eq_error (fun v hv => ?_) ⟨u, hu, ?_⟩
      · rcases AnalysisUnit.run_of_isPlain settings (h v hv) with ⟨-, hrun⟩ | ⟨-, o, hrun, -⟩
        · exact .inr hrun
        · exact .inl ⟨o, hrun⟩
      · rcases AnalysisUnit.run_of_isPlain settings (h u hu) with ⟨-, hrun⟩ | ⟨hnot, -⟩
        · exact hrun
        · exact absurd hoverlong hnot
    rw [analyzeBatch, Trace.outcome_bind, hmapM]
    rfl

/-- A record whose code is `code` and whose source map is `sourceMap`. -/
def recordWith (code sourceMap : String) : Json :=
  .obj [("contractName", "A"), ("deployedBytecode", .str code),
    ("deployedSourceMap", .str sourceMap), ("sourcePath", "a.sol"), ("source", "x\n")]

/-- The unit of the record, without results. -/
def recordUnit (code sourceMap : String) : AnalysisUnit :=
  ⟨.record (recordWith code sourceMap), .arr []⟩

/-- A code field of the record that has content has its text. -/
theorem codeText_recordWith {code sourceMap : String} (hcode : Artifact.isEmptyCode (.str code) = false)
    (hmap : Artifact.isEmptyCode (.str sourceMap) = false) :
    (recordWith code sourceMap).codeText "deployedBytecode" = code ∧
      (recordWith code sourceMap).codeText "deployedSourceMap" = sourceMap := by
  have hbytecode : (recordWith code sourceMap).fieldOr "deployedBytecode" .null = .str code := rfl
  have hsourceMap : (recordWith code sourceMap).fieldOr "deployedSourceMap" .null = .str sourceMap := rfl
  unfold Json.codeText
  rw [hbytecode, hsourceMap, hcode, hmap]
  exact ⟨rfl, rfl⟩

theorem recordUnit_isPlain (code sourceMap : String) : (recordUnit code sourceMap).IsPlain := by
  refine ⟨_, [], rfl, ?_, fun result h => absurd h List.not_mem_nil⟩
  refine ⟨⟨_, rfl⟩, ⟨_, rfl⟩, ?_, ⟨_, rfl⟩, ⟨_, rfl⟩, ?_, rfl, rfl⟩
  · intro field hfield
    simp only [Artifact.codeFields, List.mem_cons, List.not_mem_nil, or_false] at hfield
    rcases hfield with rfl | rfl | rfl | rfl
    · exact .inl rfl
    · exact .inr ⟨code, rfl⟩
    · exact .inl rfl
    · exact .inr ⟨sourceMap, rfl⟩
  · intro files h
    cases h

/-- A source map that is one number with too many digits. -/
theorem recordUnit_hasOverlongMap {cs : List Char} (hdigits : Text.isDigits cs = true)
    (hlong : Text.digitLimit < cs.length) : (recordUnit "00" (String.ofList cs)).HasOverlongMap := by
  have hne (s : String) (hs : s.toList.length ≤ Text.digitLimit) : String.ofList cs ≠ s := by
    rintro rfl
    rw [String.toList_ofList] at hs
    exact absurd hlong (Nat.not_lt.mpr hs)
  have hfull : Artifact.isEmptyCode (.str (String.ofList cs)) = false := by
    have hempty := hne "" (by decide)
    have hmarker := hne "0x" (by decide)
    simp only [Artifact.isEmptyCode, Bool.or_eq_false_iff, beq_eq_false_iff_ne]
    exact ⟨hempty, hmarker⟩
  obtain ⟨hcode, hmap⟩ := codeText_recordWith (rfl : Artifact.isEmptyCode (.str "00") = false) hfull
  have hbytes : Bytecode.decodeHex "00" = .ok [0] := by cbv
  refine ⟨rfl, ⟨[0], ?_⟩, ?_⟩
  · rw [hcode, hbytes]
  · rw [hmap]
    exact SourceMap.firstFaultIsOverlong_of_isDigits hdigits hlong

theorem recordUnit_fails : (AnalysisUnit.run ⟨false, false⟩ (recordUnit "00" "x")).outcome
    = .ok (.failure ⟨"A", "source map entry 0: malformed start field 'x'"⟩) := by
  have hanalysis : (AnalysisUnit.analyze ⟨false, false⟩ (recordUnit "00" "x")).outcome
      = .error (.badSegment 0 (.malformed .start "x")) := by
    cbv
  rw [AnalysisUnit.run_outcome, hanalysis]
  rfl

/-- A source map of no number at all is a failure; one that is a number with one digit more than is read
ends the batch. -/
theorem recordUnit_ends_batch :
    (∃ b, (analyzeBatch ⟨false, false⟩ [recordUnit "00" "x"]).outcome = .ok b ∧
        b.failures = [⟨"A", "source map entry 0: malformed start field 'x'"⟩]) ∧
      (analyzeBatch ⟨false, false⟩ [recordUnit "00" "x",
        recordUnit "00" (String.ofList (List.replicate (Text.digitLimit + 1) '1'))]).outcome
          = .error .integerTooLong := by
  constructor
  · have hnot : ¬ (recordUnit "00" "x").HasOverlongMap := by
      rcases AnalysisUnit.run_of_isPlain ⟨false, false⟩ (recordUnit_isPlain "00" "x") with
        ⟨-, hrun⟩ | ⟨hnot, -⟩
      · rw [recordUnit_fails] at hrun
        cases hrun
      · exact hnot
    obtain ⟨hreturns, -⟩ := analyzeBatch_of_isPlain ⟨false, false⟩ [recordUnit "00" "x"]
      (List.forall_mem_singleton.mpr (recordUnit_isPlain "00" "x"))
    obtain ⟨b, outcomes, hb, -⟩ := hreturns (List.forall_mem_singleton.mpr hnot)
    have hmapM : ([recordUnit "00" "x"].mapM (AnalysisUnit.run ⟨false, false⟩)).outcome
        = .ok [.failure ⟨"A", "source map entry 0: malformed start field 'x'"⟩] := by
      rw [Trace.outcome_mapM, List.mapM_cons, recordUnit_fails]
      rfl
    refine ⟨b, hb, ?_⟩
    rw [analyzeBatch_outcome hmapM] at hb
    obtain rfl := Except.ok.inj hb
    rfl
  · have hdigits : Text.isDigits (List.replicate (Text.digitLimit + 1) '1') = true := by
      have hall : (List.replicate (Text.digitLimit + 1) '1').all Char.isDigit = true := by
        rw [List.all_eq_true]
        intro c hc
        rw [List.eq_of_mem_replicate hc]
        rfl
      rw [Text.isDigits, hall]
      rfl
    have hlong : Text.digitLimit < (List.replicate (Text.digitLimit + 1) '1').length := by
      rw [List.length_replicate]
      exact Nat.lt_succ_self _
    obtain ⟨-, hends⟩ := analyzeBatch_of_isPlain ⟨false, false⟩ [recordUnit "00" "x",
        recordUnit "00" (String.ofList (List.replicate (Text.digitLimit + 1) '1'))] (by
      intro u hu
      rcases List.mem_cons.mp hu with rfl | hu
      · exact recordUnit_isPlain _ _
      · rw [List.mem_singleton.mp hu]
        exact recordUnit_isPlain _ _)
    exact hends ⟨_, List.mem_cons_of_mem _ List.mem_cons_self,
      recordUnit_hasOverlongMap hdigits hlong⟩

end Pinpoint
