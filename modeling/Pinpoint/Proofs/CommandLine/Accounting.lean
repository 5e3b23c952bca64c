import Pinpoint.Proofs.Batch.Composition
import Pinpoint.Proofs.Batch.Malformed
import Pinpoint.Proofs.CommandLine.Reading
import Pinpoint.Proofs.CommandLine.Stages

/-!
# What a report does with the results

Results are listed by the names of contracts, and a report on all contracts asks for them from the side of the
build files: each contract is analysed with what is listed under its name. There nothing is lost. A finding
becomes a message or is dropped for a dynamic array around it (`Tables.Becomes`), unless the contract cannot
be analysed, which the user is told (`Accounts`). What is listed under any other name is not looked at
(`reportOn_restricted`), and nobody is told.

Together this is what `ReportAccounts` says of a report, and `accounts_of_run` shows it of every run without a
selection of contracts. In `withStrayResults` the only finding is listed under a name without a build, and the
report is empty.
-/

namespace Pinpoint

/-! ### One finding -/

/-- **What becomes of a finding** in the report of a source: its message, or nothing if there is a dynamic array
around its place. -/
inductive Tables.Becomes (t : Tables) (settings : Settings) (s : SourceSlot) (finding : Json × Json) :
    Option Message → Prop where
  | reported (f : Finding) (place : Resolution) (m : Message)
      (read : Finding.ofIssue finding.1 finding.2 = .ok f)
      (resolve : (t.resolve settings.strict f (LocationKind.ofFormat? s.format) s.source).outcome
        = .ok place)
      (message : Tables.messageAt settings f false place = .ok m) : Becomes t settings s finding (some m)
  | dropped (f : Finding) (place : Resolution) (node : Ast.Node)
      (read : Finding.ofIssue finding.1 finding.2 = .ok f)
      (resolve : (t.resolve settings.strict f (LocationKind.ofFormat? s.format) s.source).outcome
        = .ok place)
      (array : t.HasArrayAround place s.source node) : Becomes t settings s finding none

theorem Tables.becomes_of_made {t : Tables} {settings : Settings} {s : SourceSlot}
    {finding : Json × Json} {m : Option Message} (h : t.made settings s finding = .ok m) :
    t.Becomes settings s finding m := by
  obtain ⟨f, hread, hnormalize⟩ := Except.bind_eq_ok.mp h
  obtain ⟨place, dropped, hplace, hdropped, hcases, -⟩ := normalize_eq_ok hnormalize
  rcases hcases with ⟨rfl, rfl⟩ | ⟨rfl, message, hmessage, rfl⟩
  · -- nothing but an array around the place drops a finding
    rcases isSuppressed_eq_ok hdropped with ⟨-, node, harray, -⟩ | ⟨hkept, -⟩
    · exact .dropped f place node hread hplace harray
    · cases hkept
  · exact .reported f place message hread hplace hmessage

/-- The findings of some results, each with the source that it is reported for. -/
def sharedFindings (results : List Json) : List (SourceSlot × (Json × Json)) :=
  (slotsOf results).flatMap fun s => s.findings.map fun finding => (s, finding)

/-- Every finding is reported for one source. -/
theorem perm_sharedFindings (results : List Json) :
    List.Perm ((sharedFindings results).map (·.2)) (results.flatMap findingsOf) := by
  have hshared : (sharedFindings results).map (·.2) = (slotsOf results).flatMap SourceSlot.findings := by
    unfold sharedFindings
    rw [List.map_flatMap]
    refine List.flatMap_congr fun s _ => ?_
    rw [List.map_map]
    exact List.map_id _
  rw [hshared]
  exact perm_flatMap_findings results

namespace CommandLine

/-! ### One contract -/

/-- **The findings for a contract are accounted for** by some messages and by the lines for the user: the contract
could not be analysed and a line says so, or the messages are what becomes of the findings. -/
inductive Accounts (settings : Settings) (lines : List String) (a : Artifact) (results : List Json) :
    List Message → Prop where
  | failed (reason : String) (told : failedLine ⟨a.contractName, reason⟩ ∈ lines) :
      Accounts settings lines a results []
  | analysed (t : Tables) (made : List (Option Message)) (build : Tables.build a = .ok t)
      (each : List.Forall₂ (fun p m => t.Becomes settings p.1 p.2 m) (sharedFindings results) made) :
      Accounts settings lines a results (made.filterMap id)

/-- The messages of the reports of sources are what becomes of their findings. -/
theorem exists_becomes_of_mapM {t : Tables} {settings : Settings} {slots : List SourceSlot}
    {rs : List FileReport} (h : slots.mapM (t.reportOf settings) = .ok rs) :
    ∃ made, List.Forall₂ (fun p m => t.Becomes settings p.1 p.2 m)
        (slots.flatMap fun s => s.findings.map fun finding => (s, finding)) made ∧
      rs.flatMap FileReport.messages = made.filterMap id := by
  rw [List.mapM_eq_ok] at h
  induction h with
  | nil => exact ⟨[], .nil, rfl⟩
  | @cons s r slots rs hr _ ih =>
    obtain ⟨later, hlater, hmessages⟩ := ih
    obtain ⟨made, hmade, rfl⟩ := Tables.exists_made_of_reportOf hr
    have hbecomes : List.Forall₂ (fun p m => t.Becomes settings p.1 p.2 m)
        (s.findings.map fun finding => (s, finding)) made := by
      rw [List.forall₂_map_left_iff]
      exact hmade.imp fun finding m hm => Tables.becomes_of_made hm
    refine ⟨made ++ later, List.rel_append hbecomes hlater, ?_⟩
    rw [List.flatMap_cons, List.filterMap_append, hmessages]

/-- What a contract contributes to a batch accounts for its findings, if its failure is told. -/
theorem accounts_of_contributes {settings : Settings} {lines : List String} {a : Artifact}
    {items : List Json} {o : UnitOutcome}
    (h : AnalysisUnit.Contributes settings ⟨.artifact a, .arr items⟩ o)
    (htold : ∀ f, o.failure? = some f → failedLine f ∈ lines) :
    Accounts settings lines a items (o.fileReports.flatMap FileReport.messages) := by
  cases h with
  | reports rs hanalysis =>
    obtain ⟨t, ht, items', hitems, reports, hreports, hrs⟩ := analyzeArtifact_eq_ok.mp hanalysis
    obtain rfl := Except.ok.inj hitems
    obtain ⟨made, hmade, hmessages⟩ :=
      exists_becomes_of_mapM (Tables.normalizeAll_eq_reportOf hreports hrs)
    show Accounts settings lines a items (rs.flatMap FileReport.messages)
    rw [hmessages]
    exact .analysed t made ht hmade
  | failure name e hname hanalysis hunit =>
    obtain rfl := Except.ok.inj hname
    exact .failed e.message (htold _ rfl)

/-! ### A batch -/

/-- Each contract of a batch is accounted for by what it contributes. -/
theorem forall₂_accounts {settings : Settings} {lines : List String} {artifacts : List Artifact}
    {input : Input} {units : List AnalysisUnit} {outcomes : List UnitOutcome}
    (hunits : List.Forall₂ (fun a u => input.unitFor a = .ok u) artifacts units)
    (houtcomes : List.Forall₂ (fun u o => (AnalysisUnit.run settings u).outcome = .ok o) units outcomes)
    (htold : ∀ f ∈ outcomes.filterMap UnitOutcome.failure?, failedLine f ∈ lines) :
    List.Forall₂ (fun a part => ∃ name, a.contractName.key = .ok name ∧
        Accounts settings lines a (input.results.of name) part)
      artifacts (outcomes.map fun o => o.fileReports.flatMap FileReport.messages) := by
  rw [List.forall₂_map_right_iff]
  -- from the contracts to their outcomes, past the units that are made of them
  have hall := List.forall₂_comp hunits houtcomes
  clear hunits houtcomes
  induction hall with
  | nil => exact .nil
  | @cons a o artifacts outcomes hrun _ ih =>
    obtain ⟨u, hu, hrun⟩ := hrun
    obtain ⟨name, hname, rfl⟩ := unitFor_eq_ok.mp hu
    have hfirst : ∀ f, o.failure? = some f → failedLine f ∈ lines := fun f hf =>
      htold f (List.mem_filterMap.mpr ⟨o, List.mem_cons_self, hf⟩)
    have hrest : ∀ f ∈ outcomes.filterMap UnitOutcome.failure?, failedLine f ∈ lines := by
      intro f hf
      obtain ⟨o', ho', hf⟩ := List.mem_filterMap.mp hf
      exact htold f (List.mem_filterMap.mpr ⟨o', List.mem_cons_of_mem o ho', hf⟩)
    have haccounts := accounts_of_contributes (AnalysisUnit.contributes_of_run hrun) hfirst
    exact .cons ⟨name, hname, haccounts⟩ (ih hrest)

/-- **A batch accounts for its contracts:** each has its messages, and all of them together are those of the
reports. -/
theorem exists_accounts_of_batch {settings : Settings} {lines : List String} {artifacts : List Artifact}
    {input : Input} {units : List AnalysisUnit} {b : BatchResult}
    (hunits : artifacts.mapM input.unitFor = .ok units)
    (hbatch : (analyzeBatch settings units).outcome = .ok b)
    (htold : ∀ f ∈ b.failures, failedLine f ∈ lines) :
    ∃ parts, List.Forall₂ (fun a part => ∃ name, a.contractName.key = .ok name ∧
        Accounts settings lines a (input.results.of name) part) artifacts parts ∧
      List.Perm (b.reports.flatMap FileReport.messages) parts.flatten := by
  -- a batch runs its units and then groups the reports
  unfold analyzeBatch at hbatch
  rw [Trace.outcome_bind] at hbatch
  obtain ⟨outcomes, houtcomes, hbatch⟩ := Except.bind_eq_ok.mp hbatch
  rw [Trace.outcome_bind] at hbatch
  obtain ⟨reports, hreports, hbatch⟩ := Except.bind_eq_ok.mp hbatch
  obtain rfl := Except.ok.inj hbatch
  rw [Trace.outcome_mapM, List.mapM_eq_ok] at houtcomes
  refine ⟨outcomes.map fun o => o.fileReports.flatMap FileReport.messages,
    forall₂_accounts (List.mapM_eq_ok.mp hunits) houtcomes htold, ?_⟩
  refine (FileReport.flatMap_messages_groupByBasename hreports).trans (.of_eq ?_)
  rw [List.flatMap_assoc, List.flatMap_def]

/-! ### Results without a build -/

/-- There is a build of the contract with a name. -/
def Input.hasBuild (input : Input) (name : String) : Bool :=
  input.artifacts.any (·.contractName.isText name)

/-- The input without the results that are listed under a name without a build. -/
def Input.restricted (input : Input) : Input :=
  { input with results := input.results.filter fun r => input.hasBuild r.1 }

variable {input : Input}

/-- The results for a contract are listed under its name, so they are among those that are left. -/
theorem results_of_restricted {a : Artifact} (ha : a ∈ input.artifacts) {name : Json.Key}
    (hname : a.contractName.key = .ok name) :
    input.restricted.results.of name = input.results.of name := by
  have hleft : ∀ r : String × List Json, name = .text r.1 → input.hasBuild r.1 = true := by
    rintro r rfl
    have htext : a.contractName = .str r.1 := eq_str_of_key hname
    exact List.any_eq_true.mpr ⟨a, ha, Json.isText_iff.mpr htext⟩
  have hsame : (fun r : String × List Json =>
      decide (input.hasBuild r.1 = true ∧ decide (name = .text r.1) = true))
        = fun r => decide (name = .text r.1) := by
    funext r
    rw [decide_eq_decide, decide_eq_true_iff]
    exact ⟨fun h => h.2, fun h => ⟨hleft r h, h⟩⟩
  unfold Input.restricted Results.of
  rw [List.find?_filter, hsame]

/-- **Results under a name without a build** change nothing in a report, with whatever options it is made. -/
theorem reportOn_restricted (t : FileTree) (o : ReportOptions) (events : List Event) (input : Input) :
    reportOn t o events input.restricted = reportOn t o events input := by
  have hselected : ∀ a ∈ o.selected input.artifacts,
      input.restricted.unitFor a = input.unitFor a := by
    intro a ha
    unfold Input.unitFor
    cases hname : a.contractName.key with
    | error e => rfl
    | ok name => rw [Except.ok_bind, Except.ok_bind, results_of_restricted (mem_of_mem_selected ha) hname]
  have hunits := List.mapM_congr_of_forall hselected
  have hanalysis : analyzeInput o input.restricted = analyzeInput o input := by
    have hartifacts : input.restricted.artifacts = input.artifacts := rfl
    unfold analyzeInput
    rw [hartifacts, hunits]
  unfold reportOn
  rw [hanalysis]

/-! ### A run -/

/-- **What a report on all contracts accounts for.** The messages of the reports are shared by the contracts, one
part each, and the part of a contract accounts for the findings that are listed under its name. What is listed
under any other name is lost. -/
structure ReportAccounts (t : FileTree) (given : ReportOptions) (outcome : Outcome) (input : Input)
    (b : BatchResult) (parts : List (List Message)) : Prop where
  read : (readInput t given.results given.builds).outcome = .ok input
  delivered : deliver t given.output (b.toJson.pretty ++ "\n") = .ok (outcome.output, outcome.files)
  /-- What is listed under a name is what is looked up for it, and none of its findings is left out. -/
  listed : ∀ r ∈ input.results, input.results.of (.text r.1) = r.2 ∧
    List.Perm ((sharedFindings r.2).map (·.2)) (r.2.flatMap findingsOf)
  contracts : List.Forall₂ (fun a part => ∃ name, a.contractName.key = .ok name ∧
    Accounts given.settings outcome.messages a (input.results.of name) part) input.artifacts parts
  messages : List.Perm (b.reports.flatMap FileReport.messages) parts.flatten
  /-- The run is the one for the results that are listed under the names of builds alone. -/
  lost : reportOn t given (readInput t given.results given.builds).notes input.restricted = .ok outcome

/-- **A report on all contracts accounts for what is listed under the names of builds:** let a run be asked for a
report without a selection of contracts, where no configuration is found, and let it end with status zero or
one. -/
theorem accounts_of_run (yaml : Config.Reader) (t : FileTree) (arguments : List String) (given : ReportOptions)
    (outcome : Outcome) (harguments : Invocation.ofArguments arguments = .ok (.report given))
    (hcontracts : given.contracts = []) (hdefault : Config.fileIn? t given.configDirectory = none)
    (hrun : run t arguments yaml = .ok outcome) (hstatus : outcome.status = 0 ∨ outcome.status = 1) :
    ∃ input b parts, ReportAccounts t given outcome input b parts := by
  obtain ⟨o, ho, input, hread, b, hmade⟩ := exists_madeOf_of_run harguments hrun hstatus
  obtain rfl := Except.ok.inj ((complete_of_fileIn?_eq_none hdefault).symm.trans ho)
  obtain ⟨-, units, hunits, hbatch⟩ := analyzeInput_eq_ok.mp hmade.analysis
  have hselected : given.selected input.artifacts = input.artifacts := by
    unfold ReportOptions.selected
    rw [hcontracts]
    rfl
  rw [hselected] at hunits
  have htold : ∀ f ∈ b.failures, failedLine f ∈ outcome.messages := by
    intro f hf
    rw [hmade.messages]
    exact List.mem_append_right _ (List.mem_map_of_mem hf)
  obtain ⟨parts, hparts, hperm⟩ := exists_accounts_of_batch hunits hbatch htold
  have hnames := nodup_names_of_readResults (readInput_eq_ok.mp hread).1
  have hlost : reportOn t given (readInput t given.results given.builds).notes input.restricted
      = .ok outcome := by
    rw [reportOn_restricted]
    exact reportOn_eq_ok.mpr ⟨b, hmade⟩
  exact ⟨input, b, parts,
    { read := hread
      delivered := hmade.delivered
      listed := fun r hr => ⟨Results.of_of_mem hnames hr, perm_sharedFindings r.2⟩
      contracts := hparts
      messages := hperm
      lost := hlost }⟩

/-- A directory with one build file and the results for another contract. -/
def withStrayResults : FileTree where
  workingDirectory := []
  entries := [(["A.json"], asciiFile "\x7b\"contractName\":\"A\"\x7d"),
    (["r.json"], asciiFile "\x7b\"B\":[\x7b\"issues\":[\x7b\x7d]\x7d]\x7d")]

/-- What is read of it. -/
def strayInput : Input where
  results := [("B", [.obj [("issues", .arr [.obj []])]])]
  artifacts := [⟨"A", "", "", "", "", [], []⟩]

theorem withStrayResults_read :
    (readInput withStrayResults plainOptions.results plainOptions.builds).outcome = .ok strayInput ∧
      (readInput withStrayResults plainOptions.results plainOptions.builds).notes = [] := by
  have hlisted : readJson withStrayResults plainOptions.results
      = .ok (.obj [("B", .arr [.obj [("issues", .arr [.obj []])]])]) :=
    readJson_eq_ok.mpr ⟨"\x7b\"B\":[\x7b\"issues\":[\x7b\x7d]\x7d]\x7d".toList, by cbv, by cbv⟩
  have hrecord : withStrayResults.readText ⟨"", ["A.json"]⟩ = .ok "\x7b\"contractName\":\"A\"\x7d".toList := by
    cbv
  obtain ⟨hbuild, hquiet⟩ := readBuild_of_nameOnly hrecord
  have hread : (readInput withStrayResults plainOptions.results plainOptions.builds).outcome
      = .ok strayInput :=
    readInput_eq_ok.mpr ⟨readResults_eq_ok.mpr ⟨_, hlisted, .cons ⟨rfl, rfl⟩ .nil⟩,
      .cons hbuild .nil⟩
  refine ⟨hread, ?_⟩
  have hbuilds : plainOptions.builds = [⟨"", ["A.json"]⟩] := rfl
  rw [readInput_notes hread, hbuilds, List.flatMap_cons, List.flatMap_nil, hquiet, List.append_nil]

/-- The finding that is listed is in no report, and nothing is said about it. -/
theorem withStrayResults_lost :
    (∀ r ∈ strayInput.results, r.2.flatMap findingsOf ≠ []) ∧
      strayInput.restricted.results = [] ∧
      run withStrayResults plainArguments = .ok ⟨0, "[]\n", [], withStrayResults⟩ ∧
      reportOn withStrayResults plainOptions
          (readInput withStrayResults plainOptions.results plainOptions.builds).notes
          strayInput.restricted
        = .ok ⟨0, "[]\n", [], withStrayResults⟩ := by
  have hlisted : ∀ r ∈ strayInput.results, r.2.flatMap findingsOf ≠ [] := by
    refine List.forall_mem_singleton.mpr fun h => ?_
    cases h
  have hdefault : Config.fileIn? withStrayResults plainOptions.configDirectory = none := by
    cbv
  obtain ⟨hread, hnotes⟩ := withStrayResults_read
  have hrun : run withStrayResults plainArguments = .ok ⟨0, "[]\n", [], withStrayResults⟩ := by
    rw [run_report ofArguments_plainArguments, report, complete_of_fileIn?_eq_none hdefault,
      Except.mapError, Except.ok_bind, reportWith_of_read hread, hnotes]
    cbv
  obtain ⟨input, b, parts, haccounts⟩ := accounts_of_run Yaml.parse withStrayResults
    plainArguments plainOptions _ ofArguments_plainArguments rfl hdefault hrun (.inl rfl)
  obtain rfl := Except.ok.inj (haccounts.read.symm.trans hread)
  exact ⟨hlisted, rfl, hrun, haccounts.lost⟩

end CommandLine

end Pinpoint
