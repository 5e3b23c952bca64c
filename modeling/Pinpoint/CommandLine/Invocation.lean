import Pinpoint.CommandLine.Grammar
import Pinpoint.Files.Path

/-!
# What the program is asked to do

The program has two commands. `report` reads build files and scanner results and reports on them; `init`
writes a default configuration. `Invocation.ofArguments` reads the arguments of the program as one of
them, or says what keeps it from that (`Stopped`).

The command checks its own arguments first. Arguments that nothing takes are the program's to complain
about, those before the command's name together with those behind it.
-/

namespace Pinpoint.CommandLine

/-- What to report on, and how. -/
structure ReportOptions where
  builds : List Path
  results : Path
  /-- The file to write; none means to print. -/
  output : Option Path
  spaceLimited : Bool
  debug : Bool
  strict : Bool
  /-- The contracts to report on; none means all, or those that the configuration names. -/
  contracts : List String
  /-- A file in the directory whose configuration is used. -/
  config : Option Path
  deriving DecidableEq, Repr

/-- Where to write a configuration. -/
structure InitOptions where
  root : Path
  overwrite : Bool
  deriving DecidableEq, Repr

/-- What the program is asked to do. -/
inductive Invocation where
  | report (o : ReportOptions)
  | init (o : InitOptions)
  | nothing
  deriving DecidableEq, Repr

/-- The commands of the program. -/
inductive Command where
  | report
  | init
  deriving DecidableEq, Repr

namespace Command

/-- The word that names a command. -/
def name : Command → String
  | .report => "report"
  | .init => "init"

/-- All commands. -/
def all : List Command := [.report, .init]

/-- The command that a word names. -/
def ofName? (s : String) : Option Command :=
  all.find? (·.name = s)

end Command

/-- Why the program does nothing but print a text. -/
inductive Stopped where
  /-- The arguments are at fault: those of a command, or of the program. -/
  | fault (command : Option Command) (f : UsageFault)
  | help (command : Option Command)
  | version
  deriving DecidableEq, Repr

/-- A halt, in the arguments of a command or of the program. -/
def Halt.stopped (command : Option Command) : Halt → Stopped
  | .fault f => .fault command f
  | .help => .help command
  | .version => .version

/-! ### Grammars -/

/-- The option that asks for help. -/
def helpOption : OptionSpec := ⟨["-h", "--help"], .help⟩

/-- What the program itself takes. -/
def programGrammar : Grammar where
  operands := .command
  options := [helpOption, ⟨["--version"], .version⟩]

/-- What a command takes. -/
def Command.grammar : Command → Grammar
  | .report => {
      operands := .many
      options := [helpOption, ⟨["--results"], .value⟩, ⟨["-o", "--output"], .value⟩,
        ⟨["--space-limited"], .flag⟩, ⟨["--debug"], .flag⟩, ⟨["--strict"], .flag⟩,
        ⟨["--contract"], .value⟩, ⟨["--config"], .value⟩] }
  | .init => {
      operands := .single
      options := [helpOption, ⟨["--overwrite"], .flag⟩] }

/-! ### Reading -/

/-- What was taken, as a request to report; build files and results have to be given. -/
def ReportOptions.ofTaken (t : Taken) : Except UsageFault ReportOptions :=
  let noBuilds := if t.operands.isEmpty then ["builds"] else []
  match t.value? "--results" with
  | none => .error (.missing (noBuilds ++ ["--results"]))
  | some results =>
    if t.operands.isEmpty then .error (.missing noBuilds)
    else .ok {
      builds := t.operands.map Path.ofString
      results := Path.ofString results
      output := (t.value? "--output").map Path.ofString
      spaceLimited := t.has "--space-limited"
      debug := t.has "--debug"
      strict := t.has "--strict"
      contracts := t.values "--contract"
      config := (t.value? "--config").map Path.ofString }

/-- What was taken, as a request to write a configuration. -/
def InitOptions.ofTaken (t : Taken) : InitOptions where
  root := Path.ofString (t.operands.headD ".")
  overwrite := t.has "--overwrite"

/-- What was taken, as a request to a command. -/
def Command.invocation (c : Command) (t : Taken) : Except UsageFault Invocation :=
  match c with
  | .report => (ReportOptions.ofTaken t).map .report
  | .init => .ok (.init (InitOptions.ofTaken t))

/-- Refuses arguments that nothing takes. -/
def refuse (leftOver : List String) : Except Stopped Unit :=
  if leftOver.isEmpty then .ok () else .error (.fault none (.leftOver leftOver))

/-- What the arguments of the program ask for. -/
def Invocation.ofArguments (arguments : List String) : Except Stopped Invocation := do
  let t ← (programGrammar.take arguments).mapError (Halt.stopped none)
  match t.operands with
  | [] =>
    refuse t.leftOver
    return .nothing
  | name :: rest => match Command.ofName? name with
    | none => .error (.fault none (.unknownCommand name (Command.all.map Command.name)))
    | some c =>
      let t' ← (c.grammar.take rest).mapError (Halt.stopped (some c))
      let invocation ← (c.invocation t').mapError (.fault (some c))
      refuse (t.leftOver ++ t'.leftOver)
      return invocation

end Pinpoint.CommandLine
