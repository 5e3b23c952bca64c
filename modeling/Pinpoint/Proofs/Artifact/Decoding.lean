import Pinpoint.Proofs.Batch.Conservation
import Pinpoint.Proofs.Bytecode.HexForm
import Pinpoint.Proofs.Finding.WellTyped
import Pinpoint.Proofs.Normalize.StrictMode
import Pinpoint.Proofs.SourceMap.Overlong

/-!
# The analysis of a contract that has been read

A contract is ready for the analysis if its code and its source map are texts, whatever is in them, and the
text and the tree of each of its files can be read (`Artifact.IsReadable`). With results of the right types the
analysis can then come to three ends, which are found in the order of its steps: the tables are decoded
(`Tables.build_ends`), and the findings are resolved, which cannot fail but for a mismatch in strict mode
(`Tables.normalizeAll_ends`). A fault of the compiler output concerns this contract only; a number in the source
map that is too long (`Artifact.HasOverlongMap`) does not (`analyzeArtifact_ends`).
-/

namespace Pinpoint

namespace Artifact

/-- The contract is ready for the analysis: its code and its source map are texts, and the text and the tree of
each of its files can be read. -/
structure IsReadable (a : Artifact) : Prop where
  deployedBytecode : a.deployedBytecode.IsText
  deployedSourceMap : a.deployedSourceMap.IsText
  wellTyped : a.WellTyped
  files : ∀ f ∈ a.sources, (∃ x, Tables.breaksOf f.text = .ok x) ∧ ∃ x, Ast.read f.ast = .ok x

/-- **A number ends the analysis of the contract:** its code can be decoded, so that the source map comes next,
and the first fault of the source map is a number that is too long. -/
structure HasOverlongMap (a : Artifact) : Prop where
  code : ∃ bytes, Bytecode.decodeHex a.deployedBytecode.asText = .ok bytes
  sourceMap : SourceMap.FirstFaultIsOverlong (SourceMap.segments a.deployedSourceMap.asText)

end Artifact

/-- Code that cannot be decoded makes the contract unreadable. -/
theorem Bytecode.isUnreadable_of_decodeHex {text : String} {e : Error}
    (h : Bytecode.decodeHex text = .error e) : e.isUnreadable = true := by
  rcases Bytecode.eq_of_decodeHex_eq_error h with ⟨count, rfl⟩ | rfl
  · rfl
  · rfl

namespace Tables

variable {a : Artifact}

/-- A table can be made of files that can be read. -/
theorem exists_entriesOf {α : Type} {read : SourceFile → Except Error (Option α)}
    {files : List SourceFile} (hpaths : ∀ f ∈ files, f.path.IsText)
    (h : ∀ f ∈ files, ∃ x, read f = .ok x) : ∃ table, entriesOf read files = .ok table := by
  induction files with
  | nil => exact ⟨[], rfl⟩
  | cons f files ih =>
    obtain ⟨⟨path, hpath⟩, hpaths⟩ := List.forall_mem_cons.mp hpaths
    obtain ⟨⟨x, hx⟩, hrest⟩ := List.forall_mem_cons.mp h
    obtain ⟨others, hothers⟩ := ih hpaths hrest
    unfold entriesOf
    rw [hpath, Json.key_str, hx, hothers]
    cases x with
    | none => exact ⟨others, rfl⟩
    | some a => exact ⟨(.text path, a) :: others, rfl⟩

/-- The tables of a contract are decoded if its code and its source map are. -/
theorem build_of_isReadable (h : a.IsReadable) :
    ∃ breaks trees, build a = (do
      let bytes ← Bytecode.decodeHex a.deployedBytecode.asText
      let sourceMap ← SourceMap.decode a.deployedSourceMap.asText
      return ⟨a, ⟨Bytecode.instructionStarts bytes⟩, sourceMap, breaks, trees⟩) := by
  obtain ⟨breaks, hbreaks⟩ := exists_entriesOf h.wellTyped.texts fun f hf => (h.files f hf).1
  obtain ⟨trees, htrees⟩ := exists_entriesOf h.wellTyped.texts fun f hf => (h.files f hf).2
  obtain ⟨code, hcode⟩ := h.deployedBytecode
  obtain ⟨map, hmap⟩ := h.deployedSourceMap
  refine ⟨breaks, trees, ?_⟩
  unfold build
  rw [hcode, hmap, Json.asText_of_text (Json.text_str code), Json.asText_of_text (Json.text_str map),
    readSourceMap_str, hbreaks, htrees, Json.text_str, Except.ok_bind, Bytecode.InstructionIndex.ofHex]
  cases Bytecode.decodeHex code <;> rfl

/-- **The ends that the decoding of a contract may come to.** -/
theorem build_ends (h : a.IsReadable) :
    (a.HasOverlongMap ∧ build a = .error .integerTooLong) ∨
      ¬ a.HasOverlongMap ∧ ((∃ t, build a = .ok t) ∨
        ∃ e, build a = .error e ∧ e.isUnreadable = true) := by
  obtain ⟨breaks, trees, hbuild⟩ := build_of_isReadable h
  have hmap := SourceMap.endsAs_decode a.deployedSourceMap.asText
  cases hcode : Bytecode.decodeHex a.deployedBytecode.asText with
  | error e =>
    -- the source map is not reached, so it does not matter what it holds
    have hnot : ¬ a.HasOverlongMap := fun hoverlong => by
      obtain ⟨bytes, hbytes⟩ := hoverlong.code
      cases hcode.symm.trans hbytes
    have he : build a = .error e := by
      rw [hbuild, hcode]
      rfl
    exact .inr ⟨hnot, .inr ⟨e, he, Bytecode.isUnreadable_of_decodeHex hcode⟩⟩
  | ok bytes =>
    have hreached : a.HasOverlongMap ↔
        SourceMap.decode a.deployedSourceMap.asText = .error .integerTooLong :=
      ⟨fun hoverlong => hmap.tooLong_iff.mpr hoverlong.sourceMap,
        fun htoo => ⟨⟨bytes, hcode⟩, hmap.tooLong_iff.mp htoo⟩⟩
    rw [hreached]
    cases hdecode : SourceMap.decode a.deployedSourceMap.asText with
    | error e =>
      have he : build a = .error e := by
        rw [hbuild, hcode, hdecode]
        rfl
      rcases hmap.error e hdecode with rfl | ⟨entry, fault, rfl⟩
      · exact .inl ⟨rfl, he⟩
      · refine .inr ⟨fun heq => ?_, .inr ⟨_, he, rfl⟩⟩
        cases heq
    | ok sourceMap =>
      refine .inr ⟨fun heq => ?_, .inl ⟨_, by rw [hbuild, hcode, hdecode]; rfl⟩⟩
      cases heq

end Tables

/-- **The ends that the analysis of a contract may come to.** -/
theorem analyzeArtifact_ends (settings : Settings) {a : Artifact} (h : a.IsReadable)
    {items : List Json} (hresults : ∀ result ∈ items, result.IsResult) :
    (a.HasOverlongMap ∧
        (analyzeArtifact settings a (.arr items)).outcome = .error .integerTooLong) ∨
      ¬ a.HasOverlongMap ∧
        ((∃ rs, (analyzeArtifact settings a (.arr items)).outcome = .ok rs ∧
            ∀ r ∈ rs, r.filePath.IsText) ∨
          ∃ e, (analyzeArtifact settings a (.arr items)).outcome = .error e ∧
            (e.isUnreadable || e.isUncovered) = true) := by
  obtain ⟨reports, hreports, htyped⟩ := SourceReport.ofResults_of_isResult hresults
  -- the analysis goes on to the findings only if the tables could be decoded
  have hstops {e : Error} (he : Tables.build a = .error e) :
      (analyzeArtifact settings a (.arr items)).outcome = .error e := by
    rw [analyzeArtifact, Trace.outcome_bind, Trace.lift_outcome, he]
    rfl
  rcases Tables.build_ends h with ⟨hoverlong, he⟩ | ⟨hnot, ⟨t, ht⟩ | ⟨e, he, hunreadable⟩⟩
  · exact .inl ⟨hoverlong, hstops he⟩
  · rw [analyzeArtifact_outcome ht rfl hreports]
    rcases Tables.normalizeAll_ends ht h.wellTyped settings htyped with
      ⟨rs, hrs, htexts⟩ | ⟨e, he, huncovered⟩
    · exact .inr ⟨hnot, .inl ⟨rs, hrs, htexts⟩⟩
    · exact .inr ⟨hnot, .inr ⟨e, he, by rw [huncovered, Bool.or_true]⟩⟩
  · exact .inr ⟨hnot, .inr ⟨e, hstops he, by rw [hunreadable, Bool.true_or]⟩⟩

end Pinpoint
