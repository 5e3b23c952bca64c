import Pinpoint.Proofs.Batch.Provenance
import Pinpoint.Proofs.CommandLine.Ends
import Pinpoint.Proofs.Files.Writing
import Pinpoint.Proofs.Json.RoundTrip

/-!
# A report is a run of the library

What a report says can be told from the files alone, without the program: it is the batch of the contracts of the
build files, in the order in which these are named, without those that are not asked for, each with what the
results list under its name (`LibraryRun`). The run hands that batch over as a document, either as what it prints
or as the content of the file that is to be written (`Outcome.Emits`), and its status says whether the document
has errors in it. The text that is handed over is read as the document again (`LibraryRun.parse_pretty`).

Whether there is a document at all is decided before it is known where it goes: a report that cannot read its
input has status three, prints nothing and leaves all files as they are. The stages up to the delivery look at
nothing that has to do with the output, so two reports that differ in nothing else hand over the same document.
Configurations may be read by any reader.
-/

namespace Pinpoint.CommandLine

variable {yaml : Config.Reader} {t : FileTree} {given : ReportOptions} {outcome : Outcome}

/-! ### What is analysed -/

/-- What an object of results holds under the name of a contract: an empty list if there is no such field or if it
gives nothing. -/
def listedUnder (fields : Json.Fields) (contract : Json) : Json :=
  match contract with
  | .str name => ((Json.Fields.get? fields name).getD .null).orElse (.arr [])
  | _ => .arr []

/-- The contract that a build file describes. -/
def Describes (t : FileTree) (path : Path) (a : Artifact) : Prop :=
  ∃ build, readJson t path = .ok build ∧ (Artifact.read build).outcome = .ok a

/-- A contract with the results that are listed under its name. -/
def IsUnitFor (fields : Json.Fields) (a : Artifact) (u : AnalysisUnit) : Prop :=
  ∃ items, (listedUnder fields a.contractName).elements = .ok items ∧ u = ⟨.artifact a, .arr items⟩

/-- The contracts that a report is asked for, or those that its configuration names, if it is asked for none. -/
def effectiveContracts (given : ReportOptions) (config : Config) : List String :=
  if given.contracts = [] then config.contracts else given.contracts

/-- The contracts with one of some names, or all of them if there are no names. -/
def restrictedTo (names : List String) (artifacts : List Artifact) : List Artifact :=
  if names = [] then artifacts else artifacts.filter fun a => names.any a.contractName.isText

/-- **The batch that a report is about,** told from the files: the contracts of the build files in their order, as
far as they are asked for, each with the results under its name. -/
structure LibraryRun (yaml : Config.Reader) (t : FileTree) (given : ReportOptions) (config : Config)
    (fields : Json.Fields) (artifacts : List Artifact) (units : List AnalysisUnit) (b : BatchResult) : Prop where
  loaded : Config.load t given.configDirectory yaml = .ok config
  listed : readJson t given.results = .ok (.obj fields)
  described : List.Forall₂ (Describes t) given.builds artifacts
  paired : List.Forall₂ (IsUnitFor fields)
    (restrictedTo (effectiveContracts given config) artifacts) units
  analysed : (analyzeBatch ⟨given.spaceLimited || config.spaceLimited, given.strict || config.strict⟩
    units).outcome = .ok b

/-- The first results of a name are those looked up. -/
theorem Results.of_cons (r : String × List Json) (rest : Results) (name : String) :
    Results.of (r :: rest) (.text name) = if r.1 = name then r.2 else Results.of rest (.text name) := by
  unfold Results.of
  by_cases hname : r.1 = name
  · subst hname
    rw [List.find?_cons_of_pos (by simp), if_pos rfl]
    rfl
  · have hkey : Json.Key.text name ≠ .text r.1 := fun h => hname (Json.Key.text.inj h).symm
    rw [List.find?_cons_of_neg (by simpa using hkey), if_neg hname]

/-- What is looked up under a name is what the object lists there. -/
theorem elements_listedUnder_str {fields : Json.Fields} {results : Results}
    (h : List.Forall₂ (fun f r => listed f.2 = .ok r.2 ∧ r.1 = f.1) fields results) (name : String) :
    (listedUnder fields (.str name)).elements = .ok (results.of (.text name)) := by
  induction h with
  | nil => rfl
  | @cons f r fields results hr _ ih =>
    obtain ⟨hitems, hname⟩ := hr
    unfold listedUnder at ih ⊢
    dsimp only at ih ⊢
    rw [Json.Fields.get?_cons, Results.of_cons, hname]
    split
    next => exact Except.mapError_eq_ok.mp hitems
    next => exact ih

/-- **What is looked up for a contract** is what the object lists under its name. -/
theorem elements_listedUnder {fields : Json.Fields} {results : Results}
    (h : List.Forall₂ (fun f r => listed f.2 = .ok r.2 ∧ r.1 = f.1) fields results) {contract : Json}
    {key : Json.Key} (hkey : contract.key = .ok key) :
    (listedUnder fields contract).elements = .ok (results.of key) := by
  by_cases htext : ∃ name, key = .text name
  · obtain ⟨name, rfl⟩ := htext
    obtain rfl := eq_str_of_key hkey
    exact elements_listedUnder_str h name
  · -- nothing is listed under a name that is no text, and nothing is found for it
    have hnone : results.find? (fun r => key = .text r.1) = none :=
      List.find?_eq_none.mpr fun r _ hr => htext ⟨r.1, of_decide_eq_true hr⟩
    have hother : listedUnder fields contract = .arr [] := by
      unfold listedUnder
      split
      next name => exact absurd ⟨name, (Except.ok.inj hkey).symm⟩ htext
      next => rfl
    rw [hother, Results.of, hnone]
    rfl

/-- A contract is analysed with what is listed under its name. -/
theorem isUnitFor_of_unitFor {fields : Json.Fields} {input : Input}
    (h : List.Forall₂ (fun f r => listed f.2 = .ok r.2 ∧ r.1 = f.1) fields input.results) {a : Artifact}
    {u : AnalysisUnit} (hu : input.unitFor a = .ok u) : IsUnitFor fields a u := by
  obtain ⟨key, hkey, rfl⟩ := unitFor_eq_ok.mp hu
  exact ⟨_, elements_listedUnder h hkey, rfl⟩

/-- The contracts that are selected are those that are asked for. -/
theorem selected_withConfig (given : ReportOptions) (config : Config) (artifacts : List Artifact) :
    (given.withConfig config).selected artifacts
      = restrictedTo (effectiveContracts given config) artifacts := by
  have hcontracts : (given.withConfig config).contracts = effectiveContracts given config := by
    unfold ReportOptions.withConfig effectiveContracts
    simp only [List.isEmpty_iff]
  unfold ReportOptions.selected restrictedTo
  simp only [hcontracts, List.isEmpty_iff]

/-- A build file that was read describes its contract. -/
theorem describes_of_readBuild {path : Path} {a : Artifact} (h : (readBuild t path).outcome = .ok a) :
    Describes t path a := by
  rw [readBuild_outcome] at h
  obtain ⟨build, hbuild, h⟩ := Except.bind_eq_ok.mp h
  exact ⟨build, hbuild, Except.mapError_eq_ok.mp h⟩

/-- **A report that is made** is about the batch of the library. -/
theorem exists_libraryRun {config : Config} {input : Input} {b : BatchResult}
    (hconfig : Config.load t given.configDirectory yaml = .ok config)
    (hread : (readInput t given.results given.builds).outcome = .ok input)
    (hanalysis : (analyzeInput (given.withConfig config) input).outcome = .ok b) :
    ∃ fields artifacts units, LibraryRun yaml t given config fields artifacts units b := by
  obtain ⟨hresults, hbuilds⟩ := readInput_eq_ok.mp hread
  obtain ⟨fields, hfields, hlisted⟩ := readResults_eq_ok.mp hresults
  obtain ⟨-, units, hunits, hbatch⟩ := analyzeInput_eq_ok.mp hanalysis
  refine ⟨fields, input.artifacts, units, hconfig, hfields, ?_, ?_, hbatch⟩
  · exact hbuilds.imp fun path a ha => describes_of_readBuild ha
  · rw [← selected_withConfig]
    exact (List.mapM_eq_ok.mp hunits).imp fun a u hu => isUnitFor_of_unitFor hlisted hu

/-- What is listed under a name is in the object of results. -/
theorem everywhere_listedUnder {fields : Json.Fields} (h : (Json.obj fields).Everywhere Json.DistinctNames)
    (contract : Json) : (listedUnder fields contract).Everywhere Json.DistinctNames := by
  have hnone : (Json.arr []).Everywhere Json.DistinctNames :=
    Json.everywhere_arr.mpr fun item hitem => absurd hitem List.not_mem_nil
  unfold listedUnder
  split
  next name =>
    apply Json.Everywhere.orElse _ hnone
    cases hfield : Json.Fields.get? fields name with
    | none => trivial
    | some value => exact h.get? hfield
  next => exact hnone

/-- **A document that is written is read** as it is: what it takes over was read, so no name is given twice in
one object. -/
theorem LibraryRun.parse_pretty {config : Config} {fields : Json.Fields} {artifacts : List Artifact}
    {units : List AnalysisUnit} {b : BatchResult} (h : LibraryRun yaml t given config fields artifacts units b)
    (hwritable : b.toJson.isWritable = true) :
    Json.parse (b.toJson.pretty ++ "\n").toList = .ok b.toJson := by
  obtain ⟨text, -, hparse⟩ := readJson_eq_ok.mp h.listed
  have hfields := Json.distinctNames_of_parse hparse
  have hresults : ∀ u ∈ units, u.results.Everywhere Json.DistinctNames := by
    intro u hu
    obtain ⟨a, -, items, hitems, rfl⟩ := List.exists_of_mem_forall₂ h.paired hu
    rw [Json.everywhere_arr]
    exact (everywhere_listedUnder hfields a.contractName).elements hitems
  exact Json.parse_pretty ⟨hwritable, distinctNames_toJson hresults h.analysed⟩

/-! ### What is handed over -/

/-- **A run emits a document:** it prints the document and changes no file, or it prints nothing and writes the
document to the file that is named. -/
def Outcome.Emits (outcome : Outcome) (t : FileTree) (output : Option Path) (document : Json) : Prop :=
  match output with
  | none => outcome.output = document.pretty ++ "\n" ∧ outcome.files = t
  | some path => outcome.output = "" ∧
      t.HasWritten outcome.files path (document.pretty ++ "\n").toUTF8.toList

/-- A run does nothing but tell that it cannot do its work. -/
structure Outcome.Refuses (outcome : Outcome) (t : FileTree) : Prop where
  status : outcome.status = 3
  output : outcome.output = ""
  files : outcome.files = t

/-- What is delivered is emitted. -/
theorem emits_of_deliver {output : Option Path} {document : Json}
    (h : deliver t output (document.pretty ++ "\n") = .ok (outcome.output, outcome.files)) :
    outcome.Emits t output document := by
  cases output with
  | none =>
    obtain ⟨hprinted, hfiles⟩ := Prod.mk.inj (Except.ok.inj h)
    exact ⟨hprinted.symm, hfiles.symm⟩
  | some path =>
    obtain ⟨files, hwrite, h⟩ := Except.bind_eq_ok.mp h
    obtain ⟨hprinted, rfl⟩ := Prod.mk.inj (Except.pure_eq_ok.mp h)
    exact ⟨hprinted.symm, FileTree.hasWritten_of_write hwrite⟩

/-- The sum of the numbers of errors that a document gives. -/
def errorsIn (document : Json) : Int :=
  (document.items.map fun report => (report.fieldOr "errorCount" .null).asInt).sum

/-- **The status of a report** says whether there are errors in its document. -/
theorem reportStatus_eq (b : BatchResult) : reportStatus b = if errorsIn b.toJson = 0 then 0 else 1 := by
  have herrors : errorsIn b.toJson = b.errorCount := b.errorCount_eq_sum_written.symm
  rw [reportStatus, herrors]
  exact if_congr Int.natCast_eq_zero.symm rfl rfl

/-! ### Whatever the output -/

/-- What a report comes to, up to where it is handed over: it has no input, or it has a batch. -/
theorem report_ends (h : report yaml t given = .ok outcome) :
    ∃ config, Config.load t given.configDirectory yaml = .ok config ∧
      ((∃ fault, (readInput t given.results given.builds).outcome = .error fault ∧ outcome.Refuses t) ∨
        ∃ input b, (readInput t given.results given.builds).outcome = .ok input ∧
          (analyzeInput (given.withConfig config) input).outcome = .ok b ∧ b.toJson.isWritable = true ∧
          outcome.Emits t given.output b.toJson ∧ outcome.status = reportStatus b) := by
  obtain ⟨o, ho, hmade⟩ := Except.bind_eq_ok.mp h
  obtain ⟨config, hconfig, rfl⟩ := Except.map_eq_ok.mp (Except.mapError_eq_ok.mp ho)
  refine ⟨config, hconfig, ?_⟩
  cases hread : (readInput t given.results given.builds).outcome with
  | error fault =>
    rw [reportWith_of_fault (o := given.withConfig config) hread] at hmade
    obtain ⟨message, -, houtcome⟩ := Except.bind_eq_ok.mp hmade
    obtain rfl := Except.pure_eq_ok.mp houtcome
    exact .inl ⟨fault, rfl, rfl, rfl, rfl⟩
  | ok input =>
    rw [reportWith_of_read (o := given.withConfig config) hread, reportOn_eq_ok] at hmade
    obtain ⟨b, hmade⟩ := hmade
    exact .inr ⟨input, b, rfl, hmade.analysis, hmade.writable, emits_of_deliver hmade.delivered,
      hmade.status⟩

/-- A report is made if the input is read and analysed, and what comes of it can be written and delivered. -/
theorem exists_report {o : ReportOptions} {input : Input} {b : BatchResult} {delivered : String × FileTree}
    (hcomplete : given.complete yaml t = .ok o) (hread : (readInput t o.results o.builds).outcome = .ok input)
    (hanalysis : (analyzeInput o input).outcome = .ok b) (hwritable : b.toJson.isWritable = true)
    (hdelivered : deliver t o.output (b.toJson.pretty ++ "\n") = .ok delivered) :
    ∃ outcome, report yaml t given = .ok outcome ∧ outcome.status = reportStatus b := by
  have hmade : MadeOf t o (readInput t o.results o.builds).notes input b
      ⟨reportStatus b, delivered.1, o.shown ((readInput t o.results o.builds).notes.map Event.logLine
        ++ (analyzeInput o input).notes.map Note.logLine) ++ b.failures.map failedLine, delivered.2⟩ :=
    ⟨hanalysis, hwritable, hdelivered, rfl, rfl⟩
  refine ⟨_, ?_, hmade.status⟩
  rw [report, hcomplete, Except.mapError, Except.ok_bind, reportWith_of_read hread]
  exact reportOn_eq_ok.mpr ⟨b, hmade⟩

/-- **A report is a run of the library.** It refuses, and then so does every report that differs in nothing but
where it goes. Or it emits the document of the batch that is told from the files, which can be read from its text,
and its status says whether the document has errors in it; then every report that differs in nothing but where it
goes emits the same document with the same status. -/
theorem report_eq_libraryRun (yaml : Config.Reader) (t : FileTree) (arguments : List String) (given : ReportOptions)
    (outcome : Outcome) (harguments : Invocation.ofArguments arguments = .ok (.report given))
    (hrun : run t arguments yaml = .ok outcome) :
    (outcome.Refuses t ∧ ∀ arguments' output outcome',
        Invocation.ofArguments arguments' = .ok (.report { given with output := output }) →
        run t arguments' yaml = .ok outcome' → outcome'.Refuses t) ∨
      ∃ config fields artifacts units b, LibraryRun yaml t given config fields artifacts units b ∧
        outcome.Emits t given.output b.toJson ∧
        Json.parse (b.toJson.pretty ++ "\n").toList = .ok b.toJson ∧
        outcome.status = (if errorsIn b.toJson = 0 then 0 else 1) ∧
        ∀ arguments' output outcome',
          Invocation.ofArguments arguments' = .ok (.report { given with output := output }) →
          run t arguments' yaml = .ok outcome' →
          outcome'.Emits t output b.toJson ∧ outcome'.status = outcome.status := by
  rw [run_report harguments] at hrun
  obtain ⟨config, hconfig, hends⟩ := report_ends hrun
  rcases hends with ⟨fault, hread, hrefuses⟩ | ⟨input, b, hread, hanalysis, hwritable, hemits, hstatus⟩
  · refine .inl ⟨hrefuses, ?_⟩
    intro arguments' output outcome' harguments' hrun'
    rw [run_report harguments'] at hrun'
    -- the other report reads the same files
    obtain ⟨-, -, ⟨-, -, hrefuses'⟩ | ⟨input', -, hread', -⟩⟩ := report_ends hrun'
    · exact hrefuses'
    · cases hread.symm.trans hread'
  · obtain ⟨fields, artifacts, units, hlibrary⟩ := exists_libraryRun hconfig hread hanalysis
    have hreadable := hlibrary.parse_pretty hwritable
    refine .inr ⟨config, fields, artifacts, units, b, hlibrary, hemits, hreadable, ?_, ?_⟩
    · rw [hstatus, reportStatus_eq]
    · intro arguments' output outcome' harguments' hrun'
      rw [run_report harguments'] at hrun'
      obtain ⟨config', hconfig', ⟨fault, hread', -⟩ | ⟨input', b', hread', hanalysis', -, hemits', hstatus'⟩⟩ :=
        report_ends hrun'
      · cases hread.symm.trans hread'
      · -- and analyses the same input with the same options, as far as the analysis looks at them
        obtain rfl := Except.ok.inj (hconfig.symm.trans hconfig')
        obtain rfl := Except.ok.inj (hread.symm.trans hread')
        obtain rfl := Except.ok.inj (hanalysis.symm.trans hanalysis')
        exact ⟨hemits', hstatus'.trans hstatus.symm⟩

/-- A directory with a build file, and with results for it that have an error in them. -/
def withHighSeverity : FileTree where
  workingDirectory := []
  entries := [(["A.json"], asciiFile "\x7b\"contractName\":\"A\"\x7d"), (["r.json"], asciiFile
    "\x7b\"A\":[\x7b\"source\":\"a.sol\",\"issues\":[\x7b\"severity\":\"High\"\x7d]\x7d]\x7d")]

/-- The results in it. -/
def highSeverityResults : List Json :=
  [.obj [("source", "a.sol"), ("issues", .arr [.obj [("severity", "High")]])]]

theorem withHighSeverity_read :
    (readInput withHighSeverity plainOptions.results plainOptions.builds).outcome
      = .ok ⟨[("A", highSeverityResults)], [⟨"A", "", "", "", "", [], []⟩]⟩ := by
  have hlisted : readJson withHighSeverity plainOptions.results
      = .ok (.obj [("A", .arr highSeverityResults)]) :=
    readJson_eq_ok.mpr
      ⟨"\x7b\"A\":[\x7b\"source\":\"a.sol\",\"issues\":[\x7b\"severity\":\"High\"\x7d]\x7d]\x7d".toList,
        by cbv, by cbv⟩
  have hrecord : withHighSeverity.readText ⟨"", ["A.json"]⟩ = .ok "\x7b\"contractName\":\"A\"\x7d".toList := by
    cbv
  exact readInput_eq_ok.mpr ⟨readResults_eq_ok.mpr ⟨_, hlisted, .cons ⟨rfl, rfl⟩ .nil⟩,
    .cons (readBuild_of_nameOnly hrecord).1 .nil⟩

/-- The report on it. -/
def highSeverityReport : FileReport := ⟨"a.sol", [⟨"", " ", 2, "High", true, ⟨-1, 0⟩, none⟩], 0, 0⟩

theorem highSeverity_analysed :
    (analyzeInput plainOptions
        ⟨[("A", highSeverityResults)], [⟨"A", "", "", "", "", [], []⟩]⟩).outcome
      = .ok ⟨[highSeverityReport], []⟩ := by
  have hreports : SourceReport.ofResults highSeverityResults
      = .ok [⟨"a.sol", "", "", [⟨"High", "", "", "", "", ""⟩]⟩] := by
    cbv
  have hformat : LocationKind.ofFormat? "" = none := rfl
  have hanalysis : (analyzeArtifact ⟨false, false⟩ ⟨"A", "", "", "", "", [], []⟩
      (.arr highSeverityResults)).outcome = .ok [highSeverityReport] := by
    refine analyzeArtifact_eq_ok.mpr ⟨_, rfl, _, rfl, _, hreports, ?_⟩
    simp only [Tables.normalizeAll, List.mapM_cons, List.mapM_nil, Tables.normalizeReport,
      Tables.noteUnsupported, hformat]
    cbv
  exact Eq.trans (analyzeInput_of_single rfl rfl rfl hanalysis) rfl

theorem withHighSeverity_report (output : Option Path) {delivered : String × FileTree}
    (h : deliver withHighSeverity output
      ((BatchResult.toJson ⟨[highSeverityReport], []⟩).pretty ++ "\n") = .ok delivered) :
    ∃ outcome, report Yaml.parse withHighSeverity { plainOptions with output := output } = .ok outcome ∧
      outcome.status = 1 := by
  have hdefault : Config.fileIn? withHighSeverity plainOptions.configDirectory = none := by
    cbv
  have hcomplete : ({ plainOptions with output := output } : ReportOptions).complete Yaml.parse withHighSeverity
      = .ok { plainOptions with output := output } := complete_of_fileIn?_eq_none hdefault
  exact exists_report hcomplete withHighSeverity_read highSeverity_analysed (isWritable_single " ") h

/-- What is printed for it is written, if a file is named. -/
theorem withHighSeverity_emitted :
    ∃ printed written, run withHighSeverity plainArguments = .ok printed ∧
      run withHighSeverity (plainArguments ++ ["-o", "out/report.json"]) = .ok written ∧
      ∃ b : BatchResult, printed.Emits withHighSeverity none b.toJson ∧
        written.Emits withHighSeverity (some ⟨"", ["out", "report.json"]⟩) b.toJson ∧
        printed.status = 1 ∧ written.status = 1 := by
  have harguments : Invocation.ofArguments (plainArguments ++ ["-o", "out/report.json"])
      = .ok (.report { plainOptions with output := some ⟨"", ["out", "report.json"]⟩ }) := rfl
  have hwrite (content : List UInt8) :
      withHighSeverity.write ⟨"", ["out", "report.json"]⟩ content
        = .ok ((withHighSeverity.put ["out"] .directory).put ["out", "report.json"] (.file content)) := by
    rfl
  obtain ⟨printed, hprinted, hstatus⟩ := withHighSeverity_report none rfl
  obtain ⟨written, hwritten, -⟩ := withHighSeverity_report
    (some ⟨"", ["out", "report.json"]⟩) (Except.bind_eq_ok.mpr ⟨_, hwrite _, rfl⟩)
  have hprinted : run withHighSeverity plainArguments = .ok printed :=
    (run_report ofArguments_plainArguments).trans hprinted
  have hwritten : run withHighSeverity (plainArguments ++ ["-o", "out/report.json"]) = .ok written :=
    (run_report harguments).trans hwritten
  refine ⟨printed, written, hprinted, hwritten, ?_⟩
  rcases report_eq_libraryRun Yaml.parse withHighSeverity plainArguments plainOptions printed
    ofArguments_plainArguments hprinted with ⟨hrefuses, -⟩ | ⟨_, _, _, _, b, -, hemits, -, -, hother⟩
  · cases hstatus.symm.trans hrefuses.status
  · obtain ⟨hemits', hstatus'⟩ := hother _ _ written harguments hwritten
    exact ⟨b, hemits, hemits', hstatus, hstatus'.trans hstatus⟩

end Pinpoint.CommandLine
