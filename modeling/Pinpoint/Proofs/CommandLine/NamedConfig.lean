import Pinpoint.Proofs.Batch.Provenance
import Pinpoint.Proofs.CommandLine.Reading
import Pinpoint.Proofs.CommandLine.Stages
import Pinpoint.Proofs.Files.Replacement

/-!
# The configuration that is named

A report may name the file that it takes its configuration from. What is used of that name is the directory:
the configuration is the one that is found there, under the first of the two names that a configuration may
have. So the file that is named counts if it is found itself (`Config.IsFound`), and then it counts alone
(`load_of_isFound`); otherwise it does not count at all, whatever is in it (`load_withContent`).

`run_of_named_config` says what this means for a run. In `withOwnName` the file that is named says one thing
and the run does another.
-/

namespace Pinpoint

namespace Config

variable {yaml : Reader} {t : FileTree} {file : Path}

/-- **A file is found as the configuration of its directory:** it has the first of the names for that, or it
has the second one and nothing there has the first. -/
def IsFound (t : FileTree) (file : Path) : Prop :=
  file.parts.getLast? = some ".evmlint.yml" ∨
    file.parts.getLast? = some ".evmlint.yaml" ∧
      t.pathExists (file.parent.child ".evmlint.yml") = false

/-- A path is that of its directory with its last name. -/
theorem child_parent {name : String} (h : file.parts.getLast? = some name) :
    file.parent.child name = file := by
  obtain ⟨directory, hparts⟩ := List.getLast?_eq_some_iff.mp h
  unfold Path.parent Path.child
  rw [hparts, List.dropLast_concat, ← hparts]

/-- The search for a configuration looks at the two names in turn. -/
theorem fileIn?_eq (t : FileTree) (directory : Path) :
    fileIn? t directory =
      if t.pathExists (directory.child ".evmlint.yml") then some (directory.child ".evmlint.yml")
      else if t.pathExists (directory.child ".evmlint.yaml") then
        some (directory.child ".evmlint.yaml")
      else none := by
  unfold fileIn? fileNames
  rw [List.map_cons, List.map_cons, List.map_nil, List.find?_cons, List.find?_cons, List.find?_nil]
  cases t.pathExists (directory.child ".evmlint.yml") <;>
    cases t.pathExists (directory.child ".evmlint.yaml") <;> rfl

/-- What is found in a directory has one of the names there. -/
theorem fileIn?_eq_some {directory found : Path} (h : fileIn? t directory = some found) :
    found = directory.child ".evmlint.yml" ∨ found = directory.child ".evmlint.yaml" ∧
      t.pathExists (directory.child ".evmlint.yml") = false := by
  rw [fileIn?_eq] at h
  split at h
  · exact .inl (Option.some.inj h).symm
  · next hfirst =>
    split at h
    · exact .inr ⟨(Option.some.inj h).symm, Bool.eq_false_of_not_eq_true hfirst⟩
    · cases h

/-- **A file that is found** gives its directory its configuration. -/
theorem load_of_isFound {text : List Char} (hfound : IsFound t file)
    (hread : t.readText file = .ok text) : load t file.parent yaml = ofText yaml text := by
  have hthere : t.pathExists file = true := by
    obtain ⟨content, hfind⟩ := FileTree.find_of_readText hread
    exact congrArg Except.isOk hfind
  have hfile : fileIn? t file.parent = some file := by
    rw [fileIn?_eq]
    rcases hfound with hfirst | ⟨hsecond, hnone⟩
    · rw [child_parent hfirst, if_pos hthere]
    · rw [hnone, child_parent hsecond, if_neg Bool.false_ne_true, if_pos hthere]
  unfold load
  rw [hfile]
  dsimp only
  rw [hread]
  rfl

/-- **A file that is not found** can say what it likes: its directory has the same configuration. -/
theorem load_withContent {old : List UInt8} (hfile : t.find file = .ok (.file old))
    (hfound : ¬ IsFound t file) (content : List UInt8) :
    load (t.withContent file content) file.parent yaml = load t file.parent yaml := by
  have hsearch : fileIn? (t.withContent file content) file.parent = fileIn? t file.parent := by
    rw [fileIn?_eq, fileIn?_eq, FileTree.pathExists_withContent hfile,
      FileTree.pathExists_withContent hfile]
  unfold load
  rw [hsearch]
  split
  next => rfl
  next found hfind =>
    -- what is found stands at another place, so it has the same text
    have hplace : t.placeOf found ≠ t.placeOf file := by
      rcases fileIn?_eq_some hfind with rfl | ⟨rfl, hnone⟩
      · exact t.placeOf_child_parent file (by decide) fun hlast => hfound (.inl hlast)
      · exact t.placeOf_child_parent file (by decide) fun hlast => hfound (.inr ⟨hlast, hnone⟩)
    rw [FileTree.readText_withContent hfile content hplace]

end Config

namespace CommandLine

/-- **The configuration that is named.** Let a run be asked for a report with the configuration `file`, which
can be read as the configuration `c`. If the file is found in its directory, then the report is made with each
flag that is given or on in `c`, and with the contracts that are given, or else those of `c`. If it is not
found, then it may have any content: the report is made with the same options. -/
theorem run_of_named_config (yaml : Config.Reader) (t : FileTree) (arguments : List String) (given : ReportOptions)
    (file : Path) (text : List Char) (c : Config)
    (harguments : Invocation.ofArguments arguments = .ok (.report given))
    (hnamed : given.config = some file) (hread : t.readText file = .ok text)
    (hvalid : Config.ofText yaml text = .ok c) :
    (Config.IsFound t file → run t arguments yaml = reportWith t { given with
        spaceLimited := given.spaceLimited || c.spaceLimited
        debug := given.debug || c.debug
        strict := given.strict || c.strict
        contracts := if given.contracts.isEmpty then c.contracts else given.contracts }) ∧
      (¬ Config.IsFound t file → ∀ content, run (t.withContent file content) arguments yaml = (do
        let o ← (given.complete yaml t).mapError .config
        reportWith (t.withContent file content) o)) := by
  have hdirectory : given.configDirectory = file.parent := by
    unfold ReportOptions.configDirectory
    rw [hnamed]
  constructor
  · intro hfound
    have hload : Config.load t given.configDirectory yaml = .ok c := by
      rw [hdirectory, Config.load_of_isFound hfound hread, hvalid]
    have hcomplete : given.complete yaml t = .ok (given.withConfig c) := by
      unfold ReportOptions.complete
      rw [hload]
      rfl
    rw [run_report harguments, report, hcomplete]
    rfl
  · intro hfound content
    obtain ⟨old, hfile⟩ := FileTree.find_of_readText hread
    have hcomplete : given.complete yaml (t.withContent file content) = given.complete yaml t := by
      unfold ReportOptions.complete
      rw [hdirectory, Config.load_withContent hfile hfound]
    rw [run_report harguments, report, hcomplete]

/-- A directory with a build file, with a finding for it, and with a configuration that has a name of its own. -/
def withOwnName : FileTree where
  workingDirectory := []
  entries := [(["A.json"], asciiFile "\x7b\"contractName\":\"A\"\x7d"),
    (["r.json"], asciiFile ("\x7b\"A\":[\x7b\"source\":\"a.sol\",\"issues\":[\x7b\"severity\":\"High\"," ++
      "\"description\":\x7b\"head\":\"h\",\"tail\":\"t\"\x7d\x7d]\x7d]\x7d")),
    (["ci.yml"], asciiFile "report:\n  space-limited: true\n")]

/-- A request for a report with this configuration. -/
def withOwnNameOptions : ReportOptions :=
  { plainOptions with config := some ⟨"", ["ci.yml"]⟩ }

/-- What is read there besides the configuration. -/
def ownNameInput : Input where
  results := [("A", [.obj [("source", "a.sol"), ("issues", .arr [.obj [("severity", "High"),
    ("description", .obj [("head", "h"), ("tail", "t")])]])]])]
  artifacts := [⟨"A", "", "", "", "", [], []⟩]

theorem withOwnName_read :
    (readInput withOwnName plainOptions.results plainOptions.builds).outcome = .ok ownNameInput := by
  have hlisted : readJson withOwnName plainOptions.results
      = .ok (.obj (ownNameInput.results.map fun r => (r.1, .arr r.2))) :=
    readJson_eq_ok.mpr ⟨_, by cbv, by cbv⟩
  have hrecord : withOwnName.readText ⟨"", ["A.json"]⟩ = .ok "\x7b\"contractName\":\"A\"\x7d".toList := by
    cbv
  exact readInput_eq_ok.mpr ⟨readResults_eq_ok.mpr ⟨_, hlisted, .cons ⟨rfl, rfl⟩ .nil⟩,
    .cons (readBuild_of_nameOnly hrecord).1 .nil⟩

/-- The message on the finding. -/
def ownNameMessage (spaceLimited : Bool) : String := if spaceLimited then "h" else "h t"

/-- The batch that is analysed. -/
def ownNameBatch (spaceLimited : Bool) : BatchResult :=
  ⟨[⟨"a.sol", [⟨"", .str (ownNameMessage spaceLimited), 2, "High", true, ⟨-1, 0⟩, none⟩], 0, 0⟩], []⟩

theorem ownName_analysed (spaceLimited : Bool) :
    (analyzeInput { withOwnNameOptions with spaceLimited := spaceLimited } ownNameInput).outcome
      = .ok (ownNameBatch spaceLimited) := by
  have hreports : SourceReport.ofResults (ownNameInput.results.of (.text "A"))
      = .ok [⟨"a.sol", "", "", [⟨"High", "", "h", "t", "", ""⟩]⟩] := by
    cbv
  have hformat : LocationKind.ofFormat? "" = none := rfl
  have hanalysis : (analyzeArtifact ⟨spaceLimited, false⟩ ⟨"A", "", "", "", "", [], []⟩
      (.arr (ownNameInput.results.of (.text "A")))).outcome = .ok (ownNameBatch spaceLimited).reports := by
    refine analyzeArtifact_eq_ok.mpr ⟨_, rfl, _, rfl, _, hreports, ?_⟩
    simp only [Tables.normalizeAll, List.mapM_cons, List.mapM_nil, Tables.normalizeReport,
      Tables.noteUnsupported, hformat]
    cases spaceLimited with
    | true => cbv
    | false => cbv
  exact Eq.trans (analyzeInput_of_single rfl rfl rfl hanalysis) rfl

/-- What is printed for it says whether space is limited. -/
theorem ownName_report (spaceLimited : Bool) :
    ∃ outcome, reportWith withOwnName { withOwnNameOptions with spaceLimited := spaceLimited } = .ok outcome ∧
      outcome.output = (ownNameBatch spaceLimited).toJson.pretty ++ "\n" := by
  have hwritable : (ownNameBatch spaceLimited).toJson.isWritable = true :=
    isWritable_single (ownNameMessage spaceLimited)
  have hread : (readInput withOwnName { withOwnNameOptions with spaceLimited := spaceLimited }.results
      { withOwnNameOptions with spaceLimited := spaceLimited }.builds).outcome = .ok ownNameInput :=
    withOwnName_read
  rw [reportWith_of_read hread]
  refine ⟨⟨_, _, _, _⟩, reportOn_eq_ok.mpr ⟨_, ownName_analysed spaceLimited, hwritable, rfl, rfl, rfl⟩, rfl⟩

theorem ownName_differs :
    (ownNameBatch false).toJson.pretty ++ "\n" ≠ (ownNameBatch true).toJson.pretty ++ "\n" := by
  decide +kernel

/-- The configuration asks for limited space, and the report is made without, whatever it asks for. -/
theorem withOwnName_ignored :
    Config.ofText Yaml.parse "report:\n  space-limited: true\n".toList = .ok ⟨true, false, false, []⟩ ∧
      (∃ printed asked, run withOwnName (plainArguments ++ ["--config", "ci.yml"]) = .ok printed ∧
        reportWith withOwnName { withOwnNameOptions with spaceLimited := true } = .ok asked ∧
        printed.output ≠ asked.output) ∧
      ∀ content, run (withOwnName.withContent ⟨"", ["ci.yml"]⟩ content)
          (plainArguments ++ ["--config", "ci.yml"])
        = reportWith (withOwnName.withContent ⟨"", ["ci.yml"]⟩ content) withOwnNameOptions := by
  have harguments : Invocation.ofArguments (plainArguments ++ ["--config", "ci.yml"])
      = .ok (.report withOwnNameOptions) := rfl
  have hread : withOwnName.readText ⟨"", ["ci.yml"]⟩ = .ok "report:\n  space-limited: true\n".toList := by
    cbv
  have hvalid : Config.ofText Yaml.parse "report:\n  space-limited: true\n".toList
      = .ok ⟨true, false, false, []⟩ := by
    cbv
  have hfound : ¬ Config.IsFound withOwnName ⟨"", ["ci.yml"]⟩ := by
    rintro (h | ⟨h, -⟩)
    · exact absurd h (by decide)
    · exact absurd h (by decide)
  have hcomplete : withOwnNameOptions.complete Yaml.parse withOwnName = .ok withOwnNameOptions := by
    cbv
  obtain ⟨-, hignored⟩ := run_of_named_config Yaml.parse withOwnName _ withOwnNameOptions ⟨"", ["ci.yml"]⟩ _ _
    harguments rfl hread hvalid
  refine ⟨hvalid, ?_, fun content => ?_⟩
  · obtain ⟨printed, hprinted, houtput⟩ := ownName_report false
    obtain ⟨asked, hasked, haskedOutput⟩ := ownName_report true
    refine ⟨printed, asked, ?_, hasked, ?_⟩
    · rw [run_report harguments, report, hcomplete, Except.mapError, Except.ok_bind]
      have hgiven : { withOwnNameOptions with spaceLimited := false } = withOwnNameOptions := rfl
      rw [← hgiven]
      exact hprinted
    · rw [houtput, haskedOutput]
      exact ownName_differs
  · rw [hignored hfound content, hcomplete, Except.mapError, Except.ok_bind]

end CommandLine

end Pinpoint
