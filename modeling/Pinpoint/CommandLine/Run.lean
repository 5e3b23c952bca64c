import Pinpoint.CommandLine.Help
import Pinpoint.CommandLine.Input
import Pinpoint.CommandLine.Invocation
import Pinpoint.Config.Load
import Pinpoint.Json.Writer

/-!
# Running the program

`run` takes the files there are and the arguments of the program, and gives what the run leaves behind: a
status, what is printed, and the files afterwards (`Outcome`). The status is 0 if all is well, 1 if there
is at least one error in the report, 2 if the arguments are at fault, and 3 if the command cannot do its
work. Some faults end the program in the middle of what it does (`Crash`).

A report is made in this order: the configuration, the input, the analysis, the output. A fault of the
input is told, and nothing is printed or written then.
-/

namespace Pinpoint.CommandLine

/-- A fault that ends the program without a status of its own. -/
inductive Crash where
  | config (fault : Config.Fault)
  /-- A value of a wrong type, or a number that is too long. -/
  | analysis (error : Error)
  | output (fault : WriteFault)
  deriving DecidableEq, Repr

/-- The fault in words. -/
def Crash.message : Crash → String
  | .config (.unreadable fault) => fault.message ⟨"", [".evmlint.yml"]⟩
  | .config (.malformed _) => "the configuration is malformed"
  | .config (.content error) => s!"in the configuration, {error.message}"
  | .analysis error => error.message
  | .output .isDirectory => "the output is a directory"
  | .output .fileExists => "a file has the name of the output directory"
  | .output .notDirectory => "a file is in the way of the output directory"

/-- What a run leaves behind. -/
structure Outcome where
  status : Nat
  /-- What is printed. -/
  output : String
  /-- The lines for the user besides the output. -/
  messages : List String
  /-- The files afterwards. -/
  files : FileTree
  deriving DecidableEq, Repr

/-- The lines for the user as a text. -/
def Outcome.messageText (o : Outcome) : String :=
  textOfLines o.messages

/-! ### Reports -/

/-- The options with what a configuration gives besides: a flag that is on stays on, and contracts count
only if none are given. -/
def ReportOptions.withConfig (o : ReportOptions) (c : Config) : ReportOptions :=
  { o with
    spaceLimited := o.spaceLimited || c.spaceLimited
    debug := o.debug || c.debug
    strict := o.strict || c.strict
    contracts := if o.contracts.isEmpty then c.contracts else o.contracts }

/-- The directory whose configuration is used. -/
def ReportOptions.configDirectory (o : ReportOptions) : Path :=
  match o.config with
  | some file => file.parent
  | none => .here

/-- The options, completed by the configuration in force. -/
def ReportOptions.complete (yaml : Config.Reader) (o : ReportOptions) (t : FileTree) :
    Except Config.Fault ReportOptions :=
  (Config.load t o.configDirectory yaml).map o.withConfig

/-- How contracts are analysed. -/
def ReportOptions.settings (o : ReportOptions) : Settings :=
  ⟨o.spaceLimited, o.strict⟩

/-- The artifacts to report on. -/
def ReportOptions.selected (o : ReportOptions) (artifacts : List Artifact) : List Artifact :=
  if o.contracts.isEmpty then artifacts
  else artifacts.filter fun a => o.contracts.any a.contractName.isText

/-- The line about a contract that is asked for and not there. -/
def missingLine (name : Json) : LogLine :=
  ⟨.warning, s!"Contract {name.display} not found in build files"⟩

/-- A contract with the results for it. -/
def Input.unitFor (input : Input) (a : Artifact) : Except Error AnalysisUnit := do
  let name ← a.contractName.key
  return ⟨.artifact a, .arr (input.results.of name)⟩

/-- The analysis of the contracts to report on. -/
def analyzeInput (o : ReportOptions) (input : Input) : Logged BatchResult := do
  let missing ← Trace.lift (missingContracts input.artifacts (o.contracts.map .str))
  missing.forM fun name => Trace.note (.log (missingLine name))
  let units ← Trace.lift ((o.selected input.artifacts).mapM input.unitFor)
  analyzeBatch o.settings units

/-- The log lines that are shown: all of them, or those of a warning at least. -/
def ReportOptions.shown (o : ReportOptions) (lines : List LogLine) : List String :=
  (lines.filter fun l => o.debug || l.level ≠ .debug).map LogLine.text

/-- The line about an error. -/
def errorLine (message : String) : String :=
  s!"Error: {message}"

/-- The line about a contract that could not be analysed. -/
def failedLine (f : Failure) : String :=
  errorLine s!"{f.contractName.display} could not be analyzed: {f.reason}"

/-- The reports as they are printed. -/
def reportText (b : BatchResult) : Except Error String :=
  if b.toJson.isWritable then .ok (b.toJson.pretty ++ "\n") else .error .integerTooLong

/-- The status of a report: whether there are errors in it. -/
def reportStatus (b : BatchResult) : Nat :=
  if b.errorCount = 0 then 0 else 1

/-- Writes a text to a file, or prints it. -/
def deliver (t : FileTree) (output : Option Path) (text : String) :
    Except WriteFault (String × FileTree) :=
  match output with
  | none => .ok (text, t)
  | some path => do return ("", ← t.writeText path text)

/-- Reports on input that has been read. `events` are those noted while reading it. -/
def reportOn (t : FileTree) (o : ReportOptions) (events : List Event) (input : Input) :
    Except Crash Outcome := do
  let analysis := analyzeInput o input
  let batch ← analysis.outcome.mapError .analysis
  let text ← (reportText batch).mapError .analysis
  let (printed, files) ← (deliver t o.output text).mapError .output
  let lines := events.map Event.logLine ++ analysis.notes.map Note.logLine
  return ⟨reportStatus batch, printed, o.shown lines ++ batch.failures.map failedLine, files⟩

/-- Makes a report with options that are complete. -/
def reportWith (t : FileTree) (o : ReportOptions) : Except Crash Outcome :=
  let reading := readInput t o.results o.builds
  match reading.outcome with
  | .ok input => reportOn t o reading.notes input
  | .error fault => do
    let message ← fault.message.mapError .analysis
    return ⟨3, "", o.shown (reading.notes.map Event.logLine) ++ [errorLine message], t⟩

/-- Makes a report. -/
def report (yaml : Config.Reader) (t : FileTree) (given : ReportOptions) : Except Crash Outcome := do
  let o ← (given.complete yaml t).mapError .config
  reportWith t o

/-! ### Writing a configuration -/

/-- The file in which a directory has its configuration. -/
def configFile (root : Path) : Path :=
  root.child ".evmlint.yml"

/-- Writes the default configuration, unless there is one that is not to be overwritten. -/
def init (t : FileTree) (o : InitOptions) : Except Crash Outcome :=
  let target := configFile o.root
  if t.pathExists target && !o.overwrite then
    .ok ⟨3, "", [s!"{target.toString} already exists (use --overwrite)"], t⟩
  else do
    let files ← (t.writeText target Config.default.toYaml).mapError .output
    return ⟨0, s!"Wrote {target.toString}\n", [], files⟩

/-! ### The program -/

/-- The program's name, with that of the command if there is one. -/
def programName : Option Command → String
  | none => "evmlint"
  | some c => s!"evmlint {c.name}"

/-- What a run prints that does nothing else. -/
def Stopped.outcome (t : FileTree) : Stopped → Outcome
  | .fault command f => ⟨2, "", [s!"{programName command}: error: {f.message}"], t⟩
  | .help none => ⟨0, programHelp, [], t⟩
  | .help (some .report) => ⟨0, reportHelp, [], t⟩
  | .help (some .init) => ⟨0, initHelp, [], t⟩
  | .version => ⟨0, versionText [("evmlint", programVersion)] ++ "\n", [], t⟩

/-- Runs the program on files, with its arguments. Configurations are read by `yaml`. -/
def run (t : FileTree) (arguments : List String) (yaml : Config.Reader := Yaml.parse) :
    Except Crash Outcome :=
  match Invocation.ofArguments arguments with
  | .error stopped => .ok (stopped.outcome t)
  | .ok .nothing => .ok ⟨3, programHelp, [], t⟩
  | .ok (.report o) => report yaml t o
  | .ok (.init o) => init t o

/-- The paths at which a run looks or writes. -/
def pathsOf (arguments : List String) : List Path :=
  match Invocation.ofArguments arguments with
  | .ok (.report o) =>
    Config.fileNames.map o.configDirectory.child ++ o.results :: o.builds ++ o.output.toList
  | .ok (.init o) => [configFile o.root]
  | _ => []

end Pinpoint.CommandLine
