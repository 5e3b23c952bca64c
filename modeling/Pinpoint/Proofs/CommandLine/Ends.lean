import Pinpoint.Proofs.Artifact.Records
import Pinpoint.Proofs.Batch.Contracts
import Pinpoint.Proofs.CommandLine.Reading
import Pinpoint.Proofs.CommandLine.Stages

/-!
# The ends of a report

A report has a status of its own for input that cannot be used, and this status tells of nothing else. Where the
contents of the files are of the right types (`ContentsTyped`), whatever is wrong with the results or a build
file can be told to the user (`readInput_ends`), and the analysis of what was read ends with one error at most,
that of a number that is too long (`analyzeInput_ends`).

What comes before the input and after the analysis has no such status. A configuration that cannot be read, a
number that is too long to be written, and an output that cannot be written end the program in the middle of its
work, as an overlong number in a source map does. `ReportEnd` lists these ends, `reportEnd_of_run` says that
there are no others, and `withDirectory` is a directory whose configuration ends the program. Which configurations
can be read is up to the reader that is used, and nothing is asked of it.
-/

namespace Pinpoint.CommandLine

variable {yaml : Config.Reader} {t : FileTree} {given o : ReportOptions}

/-! ### Input -/

/-- **The contents of the files are of the right types,** as far as they can be read: the results list scanner
results, and a build record that has a name is one of the right types. -/
structure ContentsTyped (t : FileTree) (o : ReportOptions) : Prop where
  results : ∀ fields, readJson t o.results = .ok (.obj fields) →
    ∀ f ∈ fields, f.2.IsListOf Json.IsResult
  builds : ∀ path ∈ o.builds, ∀ build, readJson t path = .ok build → build.IsObject →
    (build.fieldOr "contractName" .null).isBare = false → build.IsBuild

/-- The input is ready for the analysis. -/
structure Input.IsReady (input : Input) : Prop where
  results : ∀ r ∈ input.results, ∀ result ∈ r.2, result.IsResult
  artifacts : ∀ a ∈ input.artifacts, a.contractName.IsText ∧ a.IsReadable

/-- There are words for a fault. -/
def InputFault.HasWords (fault : InputFault) : Prop := ∃ message, fault.message = .ok message

/-- For a file that is no JSON there are words. -/
theorem hasWords_of_readJson {path : Path} {fault : InputFault} (h : readJson t path = .error fault) :
    fault.HasWords := by
  unfold readJson at h
  rcases Except.bind_eq_error.mp h with h | ⟨text, -, h⟩
  · obtain ⟨e, -, rfl⟩ := Except.mapError_eq_error.mp h
    exact ⟨_, rfl⟩
  · obtain ⟨e, -, rfl⟩ := Except.mapError_eq_error.mp h
    exact ⟨_, rfl⟩

/-- Results of the right types are read, or there are words for what keeps them from that. -/
theorem readResults_ends {path : Path}
    (h : ∀ fields, readJson t path = .ok (.obj fields) → ∀ f ∈ fields, f.2.IsListOf Json.IsResult) :
    (∃ results, readResults t path = .ok results ∧ ∀ r ∈ results, ∀ result ∈ r.2, result.IsResult) ∨
      ∃ fault, readResults t path = .error fault ∧ fault.HasWords := by
  cases hread : readJson t path with
  | error fault =>
    refine .inr ⟨fault, ?_, hasWords_of_readJson hread⟩
    unfold readResults
    rw [hread]
    rfl
  | ok j =>
    match j, hread with
    | .obj fields, hread =>
      have hlisted : ∀ f ∈ fields, ∃ r : String × List Json,
          (listed f.2 = .ok r.2 ∧ r.1 = f.1) ∧ ∀ result ∈ r.2, result.IsResult := by
        intro f hf
        obtain ⟨helements, hresults⟩ := Json.elements_of_isListOf (h fields hread f hf)
        refine ⟨(f.1, f.2.items), ⟨?_, rfl⟩, hresults⟩
        unfold listed
        rw [helements]
        rfl
      obtain ⟨results, hresults, htyped⟩ := List.exists_forall₂_of_forall hlisted
      exact .inl ⟨results, readResults_eq_ok.mpr ⟨fields, hread, hresults⟩, htyped⟩
    | .null, hread | .bool _, hread | .int _, hread | .float _, hread | .str _, hread | .arr _, hread =>
      refine .inr ⟨.noResults path, ?_, _, rfl⟩
      unfold readResults
      rw [hread]
      rfl

/-- A build record of the right types is read, or there are words for what keeps it from that. -/
theorem readBuild_ends {path : Path}
    (h : ∀ build, readJson t path = .ok build → build.IsObject →
      (build.fieldOr "contractName" .null).isBare = false → build.IsBuild) :
    (∃ a, (readBuild t path).outcome = .ok a ∧ a.contractName.IsText ∧ a.IsReadable) ∨
      ∃ fault, (readBuild t path).outcome = .error fault ∧ fault.HasWords := by
  rw [readBuild_outcome]
  cases hread : readJson t path with
  | error fault => exact .inr ⟨fault, rfl, hasWords_of_readJson hread⟩
  | ok build =>
    rw [Except.ok_bind]
    by_cases hobject : build.IsObject
    · -- a record without a name is told about, whatever else is in it
      cases hname : (build.fieldOr "contractName" .null).isBare with
      | true =>
        rw [Artifact.read_of_nameless hobject hname]
        exact .inr ⟨_, rfl, _, rfl⟩
      | false =>
        obtain ⟨text, -, hparse⟩ := readJson_eq_ok.mp hread
        obtain ⟨a, ha, hready⟩ := Artifact.read_of_isBuild (h build hread hobject hname)
          (Json.distinctNames_of_parse hparse) hname
        rw [ha]
        exact .inl ⟨a, rfl, hready⟩
    · have hnone : (Artifact.read build).outcome = .error .noContractName := by
        match build, hobject with
        | .obj fields, hobject => exact absurd ⟨fields, rfl⟩ hobject
        | .null, _ | .bool _, _ | .int _, _ | .float _, _ | .str _, _ | .arr _, _ => rfl
      rw [hnone]
      exact .inr ⟨_, rfl, _, rfl⟩

/-- **Input of the right types** is read and ready for the analysis, or there are words for what keeps it from
that. -/
theorem readInput_ends (h : ContentsTyped t o) :
    (∃ input, (readInput t o.results o.builds).outcome = .ok input ∧ input.IsReady) ∨
      ∃ fault, (readInput t o.results o.builds).outcome = .error fault ∧ fault.HasWords := by
  rw [readInput_outcome]
  rcases readResults_ends h.results with ⟨results, hresults, htyped⟩ | ⟨fault, hfault, hwords⟩
  · rw [hresults, Except.ok_bind]
    rcases List.mapM_ends (fun path => (readBuild t path).outcome) o.builds with
      ⟨artifacts, hartifacts⟩ | ⟨path, hpath, fault, hfault, hbuilds⟩
    · rw [hartifacts]
      -- each artifact was read from a file, which has a typed record if it could be read
      refine .inl ⟨_, rfl, htyped, fun a ha => ?_⟩
      obtain ⟨path, hpath, hread⟩ := List.exists_of_mem_forall₂ (List.mapM_eq_ok.mp hartifacts) ha
      rcases readBuild_ends (h.builds path hpath) with ⟨a', ha', hready⟩ | ⟨fault, hfault, -⟩
      · obtain rfl := Except.ok.inj (hread.symm.trans ha')
        exact hready
      · cases hread.symm.trans hfault
    · rw [hbuilds]
      refine .inr ⟨fault, rfl, ?_⟩
      rcases readBuild_ends (h.builds path hpath) with ⟨a, ha, -⟩ | ⟨fault', hfault', hwords⟩
      · cases ha.symm.trans hfault
      · obtain rfl := Except.error.inj (hfault.symm.trans hfault')
        exact hwords
  · rw [hfault]
    exact .inr ⟨fault, rfl, hwords⟩

/-! ### Analysis -/

/-- Contracts with texts as their names can be asked for by any texts. -/
theorem exists_missingContracts {artifacts : List Artifact}
    (h : ∀ a ∈ artifacts, a.contractName.IsText) (wanted : List String) :
    ∃ missing, missingContracts artifacts (wanted.map .str) = .ok missing := by
  have hpresent : ∃ present, artifacts.mapM (·.contractName.key) = .ok present := by
    refine List.mapM_isOk fun a ha => ?_
    obtain ⟨name, hname⟩ := h a ha
    exact ⟨.text name, by rw [hname, Json.key_str]⟩
  have hkeys : ∃ keys, (wanted.map Json.str).mapM Json.key = .ok keys := by
    refine List.mapM_isOk fun name hname => ?_
    obtain ⟨s, -, rfl⟩ := List.mem_map.mp hname
    exact ⟨_, Json.key_str s⟩
  obtain ⟨present, hpresent⟩ := hpresent
  obtain ⟨keys, hkeys⟩ := hkeys
  unfold missingContracts
  split
  next => exact ⟨_, rfl⟩
  next =>
    rw [hpresent, Except.ok_bind, hkeys]
    exact ⟨_, rfl⟩

/-- The results for a contract are of the right types, if there are any. -/
theorem Input.IsReady.results_of {input : Input} (h : input.IsReady) (name : Json.Key) :
    ∀ result ∈ input.results.of name, result.IsResult := by
  unfold Results.of
  cases hfind : input.results.find? fun r => name = .text r.1 with
  | none => exact fun result hresult => absurd hresult List.not_mem_nil
  | some r => exact h.results r (List.mem_of_find?_eq_some hfind)

/-- A unit is about a contract whose source map has a number that is too long. -/
def IsOverlongUnit (u : AnalysisUnit) : Prop := ∃ a, u.subject = .artifact a ∧ a.HasOverlongMap

/-- A unit is about the contract that it is made for. -/
theorem isOverlongUnit_iff {input : Input} {a : Artifact} {u : AnalysisUnit}
    (h : input.unitFor a = .ok u) : IsOverlongUnit u ↔ a.HasOverlongMap := by
  obtain ⟨name, -, rfl⟩ := unitFor_eq_ok.mp h
  constructor
  · rintro ⟨a', ha', hoverlong⟩
    obtain rfl := Subject.artifact.inj ha'
    exact hoverlong
  · exact fun hoverlong => ⟨a, rfl, hoverlong⟩

/-- The units for some contracts are about these contracts and no others. -/
theorem exists_isOverlongUnit_iff {input : Input} {artifacts : List Artifact} {units : List AnalysisUnit}
    (h : List.Forall₂ (fun a u => input.unitFor a = .ok u) artifacts units) :
    (∃ u ∈ units, IsOverlongUnit u) ↔ ∃ a ∈ artifacts, a.HasOverlongMap := by
  induction h with
  | nil => simp only [List.not_mem_nil, false_and, exists_false]
  | cons hunit _ ih =>
    rw [List.exists_mem_cons_iff, List.exists_mem_cons_iff, isOverlongUnit_iff hunit, ih]

/-- A unit for a contract that is ready contributes to a batch, or has an overlong map. -/
theorem Input.IsReady.endsUnless {input : Input} (h : input.IsReady) (settings : Settings) {a : Artifact}
    (ha : a ∈ input.artifacts) {u : AnalysisUnit} (hunit : input.unitFor a = .ok u) :
    u.EndsUnless settings (IsOverlongUnit u) := by
  rw [isOverlongUnit_iff hunit]
  obtain ⟨name, -, rfl⟩ := unitFor_eq_ok.mp hunit
  exact AnalysisUnit.run_of_isReadable settings (h.artifacts a ha).2 (h.results_of name)

/-- **The analysis of input that is ready** returns, unless a contract to report on has an overlong map. -/
theorem analyzeInput_ends {input : Input} (h : input.IsReady) (o : ReportOptions) :
    ((∃ a ∈ o.selected input.artifacts, a.HasOverlongMap) ∧
        (analyzeInput o input).outcome = .error .integerTooLong) ∨
      (∀ a ∈ o.selected input.artifacts, ¬ a.HasOverlongMap) ∧
        ∃ b, (analyzeInput o input).outcome = .ok b := by
  obtain ⟨missing, hmissing⟩ :=
    exists_missingContracts (fun a ha => (h.artifacts a ha).1) o.contracts
  have hnamed : ∀ a ∈ o.selected input.artifacts, ∃ u, input.unitFor a = .ok u := by
    intro a ha
    obtain ⟨name, hname⟩ := (h.artifacts a (mem_of_mem_selected ha)).1
    exact ⟨_, unitFor_eq_ok.mpr ⟨.text name, by rw [hname, Json.key_str], rfl⟩⟩
  obtain ⟨units, hunits⟩ := List.mapM_isOk hnamed
  have houtcome : (analyzeInput o input).outcome = (analyzeBatch o.settings units).outcome := by
    rw [analyzeInput_outcome, hmissing, Except.ok_bind, hunits, Except.ok_bind]
  -- each unit is made of a contract, and ends as that does
  have hparts := List.mapM_eq_ok.mp hunits
  have hends : ∀ u ∈ units, u.EndsUnless o.settings (IsOverlongUnit u) := by
    intro u hu
    obtain ⟨a, ha, hunit⟩ := List.exists_of_mem_forall₂ hparts hu
    exact h.endsUnless o.settings (mem_of_mem_selected ha) hunit
  have hoverlong := exists_isOverlongUnit_iff hparts
  rw [houtcome]
  rcases analyzeBatch_ends hends with ⟨hsome, hbatch⟩ | ⟨hnone, hbatch⟩
  · exact .inl ⟨hoverlong.mp hsome, hbatch⟩
  · refine .inr ⟨fun a ha hmap => ?_, hbatch⟩
    obtain ⟨u, hu, hunit⟩ := hoverlong.mpr ⟨a, ha, hmap⟩
    exact hnone u hu hunit

/-! ### Reports -/

/-- **The ends that a report may come to,** and when it comes to each. -/
inductive ReportEnd (yaml : Config.Reader) (t : FileTree) (given : ReportOptions) :
    Except Crash Outcome → Prop where
  /-- The configuration cannot be read, which ends the program. -/
  | config (fault : Config.Fault) (complete : given.complete yaml t = .error fault) :
      ReportEnd yaml t given (.error (.config fault))
  /-- The input cannot be read: the user is told why, and no file is changed. -/
  | input (o : ReportOptions) (complete : given.complete yaml t = .ok o) (fault : InputFault)
      (read : (readInput t o.results o.builds).outcome = .error fault) (message : String)
      (words : fault.message = .ok message) :
      ReportEnd yaml t given (.ok ⟨3, "", o.shown ((readInput t o.results o.builds).notes.map Event.logLine)
        ++ [errorLine message], t⟩)
  /-- A number in a source map is too long to be read, which ends the program. -/
  | overlong (o : ReportOptions) (complete : given.complete yaml t = .ok o) (input : Input)
      (read : (readInput t o.results o.builds).outcome = .ok input) (a : Artifact)
      (selected : a ∈ o.selected input.artifacts) (overlong : a.HasOverlongMap) :
      ReportEnd yaml t given (.error (.analysis .integerTooLong))
  /-- A number in the report is too long to be written, which ends the program. -/
  | unwritable (o : ReportOptions) (complete : given.complete yaml t = .ok o) (input : Input)
      (read : (readInput t o.results o.builds).outcome = .ok input)
      (none : ∀ a ∈ o.selected input.artifacts, ¬ a.HasOverlongMap) (b : BatchResult)
      (analysis : (analyzeInput o input).outcome = .ok b) (unwritable : b.toJson.isWritable = false) :
      ReportEnd yaml t given (.error (.analysis .integerTooLong))
  /-- The output cannot be written, which ends the program. -/
  | output (o : ReportOptions) (complete : given.complete yaml t = .ok o) (input : Input)
      (read : (readInput t o.results o.builds).outcome = .ok input)
      (none : ∀ a ∈ o.selected input.artifacts, ¬ a.HasOverlongMap) (b : BatchResult)
      (analysis : (analyzeInput o input).outcome = .ok b) (writable : b.toJson.isWritable = true)
      (fault : WriteFault) (delivery : deliver t o.output (b.toJson.pretty ++ "\n") = .error fault) :
      ReportEnd yaml t given (.error (.output fault))
  /-- The report is made. -/
  | made (o : ReportOptions) (complete : given.complete yaml t = .ok o) (input : Input)
      (read : (readInput t o.results o.builds).outcome = .ok input)
      (none : ∀ a ∈ o.selected input.artifacts, ¬ a.HasOverlongMap) (b : BatchResult)
      (outcome : Outcome)
      (made : MadeOf t o (readInput t o.results o.builds).notes input b outcome) :
      ReportEnd yaml t given (.ok outcome)

/-- A report on input that is ready is made, or it ends the program. -/
theorem reportEnd_of_read (hcomplete : given.complete yaml t = .ok o) {input : Input}
    (hread : (readInput t o.results o.builds).outcome = .ok input) (hready : input.IsReady) :
    ReportEnd yaml t given (reportWith t o) := by
  rw [reportWith_of_read hread]
  -- what is left is the analysis, the writing and the delivery, and each may end the program
  rcases analyzeInput_ends hready o with ⟨⟨a, ha, hoverlong⟩, hanalysis⟩ | ⟨hnone, b, hanalysis⟩
  · unfold reportOn
    dsimp only
    rw [hanalysis]
    exact .overlong o hcomplete input hread a ha hoverlong
  · cases hwritable : b.toJson.isWritable with
    | false =>
      unfold reportOn reportText
      dsimp only
      rw [hanalysis, Except.mapError, Except.ok_bind, hwritable, if_neg Bool.false_ne_true]
      exact .unwritable o hcomplete input hread hnone b hanalysis hwritable
    | true =>
      cases hdelivery : deliver t o.output (b.toJson.pretty ++ "\n") with
      | error fault =>
        unfold reportOn reportText
        dsimp only
        rw [hanalysis, Except.mapError, Except.ok_bind, hwritable, if_pos rfl, Except.mapError,
          Except.ok_bind, hdelivery]
        exact .output o hcomplete input hread hnone b hanalysis hwritable fault hdelivery
      | ok delivered =>
        have hmade : MadeOf t o (readInput t o.results o.builds).notes input b
            ⟨reportStatus b, delivered.1, o.shown ((readInput t o.results o.builds).notes.map
              Event.logLine ++ (analyzeInput o input).notes.map Note.logLine)
              ++ b.failures.map failedLine, delivered.2⟩ :=
          ⟨hanalysis, hwritable, hdelivery, rfl, rfl⟩
        rw [reportOn_eq_ok.mpr ⟨b, hmade⟩]
        exact .made o hcomplete input hread hnone b _ hmade

/-- A report that is made has status zero or one. -/
theorem MadeOf.status_eq {events : List Event} {input : Input} {b : BatchResult} {outcome : Outcome}
    (h : MadeOf t o events input b outcome) : outcome.status = 0 ∨ outcome.status = 1 := by
  rw [h.status]
  unfold reportStatus
  split
  · exact .inl rfl
  · exact .inr rfl

/-- **The ends of a report.** A run that is asked for a report on files whose contents are of the right types comes
to one of the ends that there are. So if it has a status, it is zero, one or three, and it is three exactly if
the configuration can be read and the input cannot. -/
theorem reportEnd_of_run (yaml : Config.Reader) (t : FileTree) (arguments : List String) (given : ReportOptions)
    (harguments : Invocation.ofArguments arguments = .ok (.report given))
    (htyped : ContentsTyped t given) :
    ReportEnd yaml t given (run t arguments yaml) ∧
      ∀ outcome, run t arguments yaml = .ok outcome →
        (outcome.status = 0 ∨ outcome.status = 1 ∨ outcome.status = 3) ∧
          (outcome.status = 3 ↔ ∃ o fault, given.complete yaml t = .ok o ∧
            (readInput t o.results o.builds).outcome = .error fault) := by
  have hend : ReportEnd yaml t given (run t arguments yaml) := by
    rw [run_report harguments, report]
    cases hcomplete : given.complete yaml t with
    | error fault => exact .config fault hcomplete
    | ok o =>
      rw [Except.mapError, Except.ok_bind]
      -- completed options name the same files
      have hsame : ContentsTyped t o := by
        obtain ⟨c, -, rfl⟩ := Except.map_eq_ok.mp hcomplete
        exact ⟨htyped.results, htyped.builds⟩
      rcases readInput_ends hsame with ⟨input, hread, hready⟩ | ⟨fault, hread, message, hwords⟩
      · exact reportEnd_of_read hcomplete hread hready
      · rw [reportWith_of_fault hread, hwords]
        exact .input o hcomplete fault hread message hwords
  refine ⟨hend, fun outcome hrun => ?_⟩
  rw [hrun] at hend
  -- only two of the ends leave a status: there is no input, or there is a report
  cases hend with
  | input o hcomplete fault hread message hwords =>
    exact ⟨.inr (.inr rfl), fun _ => ⟨o, fault, hcomplete, hread⟩, fun _ => rfl⟩
  | made o hcomplete input hread hnone b _ hmade =>
    have hstatus := hmade.status_eq
    refine ⟨by omega, fun hthree => by omega, ?_⟩
    rintro ⟨o', fault, hcomplete', hfault⟩
    obtain rfl := Except.ok.inj (hcomplete.symm.trans hcomplete')
    cases hread.symm.trans hfault

/-- A directory whose configuration is a directory. -/
def withDirectory : FileTree where
  workingDirectory := []
  entries := [([".evmlint.yml"], .directory),
    (["A.json"], asciiFile "\x7b\"contractName\":\"A\"\x7d"), (["r.json"], asciiFile "\x7b\x7d")]

theorem withDirectory_contentsTyped : ContentsTyped withDirectory plainOptions := by
  have hresults : readJson withDirectory plainOptions.results = .ok (.obj []) := by
    cbv
  have hbuild : readJson withDirectory ⟨"", ["A.json"]⟩ = .ok (.obj [("contractName", "A")]) := by
    cbv
  constructor
  · intro fields hfields f hf
    obtain rfl := Json.obj.inj (Except.ok.inj (hresults.symm.trans hfields))
    exact absurd hf List.not_mem_nil
  · refine List.forall_mem_singleton.mpr fun build hread _ _ => ?_
    obtain rfl := Except.ok.inj (hbuild.symm.trans hread)
    refine ⟨⟨_, rfl⟩, ⟨"A", rfl⟩, ?_, ?_, fun _ =>
      ⟨⟨.inl rfl, Ast.isTree_null, Ast.isTree_null⟩, .inl rfl⟩⟩
    · intro field hfield
      simp only [Artifact.codeFields, List.mem_cons, List.not_mem_nil, or_false] at hfield
      rcases hfield with rfl | rfl | rfl | rfl
      · exact .inl rfl
      · exact .inl rfl
      · exact .inl rfl
      · exact .inl rfl
    · intro files hfiles
      cases hfiles

/-- The configuration cannot be read, and the program ends without a status. -/
theorem withDirectory_ends :
    ReportEnd Yaml.parse withDirectory plainOptions (run withDirectory plainArguments) ∧
      run withDirectory plainArguments = .error (.config (.unreadable .isDirectory)) := by
  obtain ⟨hend, -⟩ := reportEnd_of_run Yaml.parse withDirectory plainArguments plainOptions
    ofArguments_plainArguments withDirectory_contentsTyped
  refine ⟨hend, ?_⟩
  rw [run_report ofArguments_plainArguments]
  cbv

end Pinpoint.CommandLine
