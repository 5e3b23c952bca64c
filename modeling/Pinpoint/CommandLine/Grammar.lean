import Pinpoint.Text.Integer
import Pinpoint.Text.Quoted
import Pinpoint.Text.Split

/-!
# Arguments of a command

A command takes options and operands (`Grammar`). The name of an option is a dash and a letter, or two
dashes and a word. An argument is read in two steps.

First each argument is told apart by itself (`Grammar.piece`). A word that starts with a dash is an
option, unless it is a lone dash, looks like a negative number, or has a space in it without being an
option. The name of a long option may be cut short as long as only one option starts so, and a value may
be attached: behind an equals sign, or right behind the letter of a short option. Behind two dashes
everything is a word.

Then the pieces are taken from left to right (`Grammar.take`). An option that wants a value takes the next
piece, which has to be a word. The operands are the first unbroken run of words; what nothing takes is left
over. Letters behind the letter of an option without a value are further options.
-/

namespace Pinpoint.CommandLine

/-- What an option does. -/
inductive OptionKind where
  /-- It is given or not. -/
  | flag
  /-- It takes a value. -/
  | value
  /-- It asks for the usage of the command, and nothing else is done. -/
  | help
  /-- It asks for the version of the program, and nothing else is done. -/
  | version
  deriving DecidableEq, Repr

/-- An option. -/
structure OptionSpec where
  names : List String
  kind : OptionKind
  deriving DecidableEq, Repr

/-- The option as messages name it. -/
def OptionSpec.label (o : OptionSpec) : String :=
  "/".intercalate o.names

/-- What a command takes besides options. -/
inductive Operands where
  /-- Any number of words. -/
  | many
  /-- One word, if any. -/
  | single
  /-- A word that names another command, and all arguments behind it, whatever they are. -/
  | command
  deriving DecidableEq, Repr

/-- What a command takes. -/
structure Grammar where
  operands : Operands
  options : List OptionSpec
  deriving Repr

/-- What is wrong with the arguments of a command. -/
inductive UsageFault where
  /-- The name of an option is cut so short that several start with it. -/
  | ambiguous (argument : String) (names : List String)
  /-- A value is attached to an option that takes none. -/
  | unwantedValue (label value : String)
  /-- An option that takes a value has none. -/
  | missingValue (label : String)
  | unknownCommand (name : String) (known : List String)
  /-- Operands and options that have to be given are not. -/
  | missing (labels : List String)
  /-- Arguments that nothing takes. -/
  | leftOver (arguments : List String)
  deriving DecidableEq, Repr

/-- The fault in words. -/
def UsageFault.message : UsageFault → String
  | .ambiguous argument names =>
    s!"ambiguous option: {argument} could match " ++ ", ".intercalate names
  | .unwantedValue label value =>
    s!"argument {label}: ignored explicit argument {Text.quote value}"
  | .missingValue label => s!"argument {label}: expected one argument"
  | .unknownCommand name known =>
    let choices := ", ".intercalate (known.map Text.quote)
    s!"argument command: invalid choice: {Text.quote name} (choose from {choices})"
  | .missing labels => "the following arguments are required: " ++ ", ".intercalate labels
  | .leftOver arguments => "unrecognized arguments: " ++ " ".intercalate arguments

/-- Why the arguments of a command do not say what to do. -/
inductive Halt where
  | fault (f : UsageFault)
  | help
  | version
  deriving DecidableEq, Repr

/-- An argument, told apart by itself. -/
inductive Piece where
  | word (text : String)
  /-- The two dashes behind which everything is a word. -/
  | divider
  /-- A short option, with what stands behind its letter. -/
  | short (text : String) (spec : OptionSpec) (behind : List Char)
  /-- A long option, with what stands behind an equals sign. -/
  | long (text : String) (spec : OptionSpec) (value : Option (List Char))
  /-- An argument that looks like an option, but is none of this command. -/
  | unknown (text : String)
  deriving DecidableEq, Repr

/-- The argument as it was given. -/
def Piece.text : Piece → String
  | .word text => text
  | .divider => "--"
  | .short text _ _ => text
  | .long text _ _ => text
  | .unknown text => text

/-- What was taken from the arguments. -/
structure Taken where
  /-- The options with their values, in the order given. -/
  options : List (OptionSpec × Option String)
  operands : List String
  leftOver : List String
  deriving DecidableEq, Repr

/-- The text looks like a negative number. A line feed at its end does not count. -/
def looksNegative (cs : List Char) : Bool :=
  let isDigit := fun c => (Text.digitValue? c).isSome
  match (if cs.getLast? = some '\n' then cs.dropLast else cs) with
  | '-' :: rest => match Text.splitOn '.' rest with
    | [whole] => !whole.isEmpty && whole.all isDigit
    | [whole, fraction] => whole.all isDigit && !fraction.isEmpty && fraction.all isDigit
    | _ => false
  | _ => false

namespace Grammar

/-! ### Telling arguments apart -/

/-- All names of options, each with its option. -/
def named (g : Grammar) : List (String × OptionSpec) :=
  g.options.flatMap fun o => o.names.map fun n => (n, o)

/-- The option with a name. -/
def option? (g : Grammar) (name : List Char) : Option OptionSpec :=
  (g.named.find? fun n => n.1.toList = name).map (·.2)

/-- What follows the first equals sign of an argument. -/
def valueIn? (cs : List Char) : Option (List Char) :=
  if cs.contains '=' then some ((cs.dropWhile (· ≠ '=')).drop 1) else none

/-- What an argument is that starts with a dash and means no option. -/
def pieceWithoutOption (argument : String) : Piece :=
  let cs := argument.toList
  if looksNegative cs || cs.contains ' ' then .word argument else .unknown argument

/-- What an argument is that starts with two dashes. -/
def longPiece (g : Grammar) (argument : String) : Except UsageFault Piece :=
  let cs := argument.toList
  let name := Text.before '=' cs
  match g.option? name with
  | some spec => .ok (.long argument spec (valueIn? cs))
  | none => match g.named.filter fun n => name.isPrefixOf n.1.toList with
    | [] => .ok (pieceWithoutOption argument)
    | [n] => .ok (.long argument n.2 (valueIn? cs))
    | several => .error (.ambiguous argument (several.map (·.1)))

/-- What an argument is by itself. -/
def piece (g : Grammar) (argument : String) : Except UsageFault Piece :=
  match argument.toList with
  | '-' :: '-' :: _ => g.longPiece argument
  | '-' :: letter :: behind => match g.option? ['-', letter] with
    | some spec => .ok (.short argument spec behind)
    | none => .ok (pieceWithoutOption argument)
  | _ => .ok (.word argument)

/-- What the arguments are. -/
def pieces (g : Grammar) : List String → Except UsageFault (List Piece)
  | [] => .ok []
  | argument :: rest =>
    if argument = "--" then .ok (.divider :: rest.map .word)
    else do return (← g.piece argument) :: (← g.pieces rest)

/-! ### Taking them -/

/-- What one argument with options gives: options that are complete, a remainder that is left over, and an
option that still wants a value. -/
structure Use where
  given : List (OptionSpec × Option String)
  leftOver : List String
  wanting : Option OptionSpec

/-- An option without a value attached. -/
def useAlone (spec : OptionSpec) : Use :=
  if spec.kind = .value then ⟨[], [], some spec⟩ else ⟨[(spec, none)], [], none⟩

/-- An option with a value attached. -/
def useValue (spec : OptionSpec) (value : List Char) : Except UsageFault Use :=
  if spec.kind = .value then .ok ⟨[(spec, some (String.ofList value))], [], none⟩
  else .error (.unwantedValue spec.label (String.ofList value))

/-- A short option and what stands behind its letter: a value, or the letters of further options. -/
def useLetters (g : Grammar) (spec : OptionSpec) : List Char → Except UsageFault Use
  | [] => .ok (useAlone spec)
  | '=' :: value => useValue spec value
  | c :: more =>
    if spec.kind = .value ∨ c = '-' then useValue spec (c :: more)
    else match g.option? ['-', c] with
      | none => .ok ⟨[(spec, none)], [String.ofList ('-' :: c :: more)], none⟩
      | some next => (g.useLetters next more).map fun use =>
          { use with given := (spec, none) :: use.given }

/-- What a piece with options gives; nothing if it has none. -/
def use (g : Grammar) : Piece → Except UsageFault Use
  | .short _ spec behind => g.useLetters spec behind
  | .long _ spec none => .ok (useAlone spec)
  | .long _ spec (some value) => useValue spec value
  | .unknown text => .ok ⟨[], [text], none⟩
  | .word _ | .divider => .ok ⟨[], [], none⟩

/-- How far the operands are taken. -/
inductive Stage where
  | before
  /-- In the run of words that are the operands. -/
  | within
  | after
  deriving DecidableEq, Repr

/-- The stage behind an option: a run of words ends there. -/
def Stage.behindOption : Stage → Stage
  | .before => .before
  | .within | .after => .after

/-- The first of the options that asks for information, as a reason to do nothing else. -/
def halt? (given : List (OptionSpec × Option String)) : Option Halt :=
  given.findSome? fun o => match o.1.kind with
    | .help => some .help
    | .version => some .version
    | .flag | .value => none

/-- Puts what an argument gives before what was taken later. -/
def Use.followedBy (use : Use) (later : Except Halt Taken) : Except Halt Taken :=
  match halt? use.given with
  | some halt => .error halt
  | none => later.map fun t =>
    { t with options := use.given ++ t.options, leftOver := use.leftOver ++ t.leftOver }

/-- Puts an operand before what was taken later. -/
def withOperand (text : String) (later : Except Halt Taken) : Except Halt Taken :=
  later.map fun t => { t with operands := text :: t.operands }

/-- Puts an argument that nothing takes before what was taken later. -/
def withLeftOver (text : String) (later : Except Halt Taken) : Except Halt Taken :=
  later.map fun t => { t with leftOver := text :: t.leftOver }

/-- Takes the pieces from left to right. -/
def takePieces (g : Grammar) : Stage → List Piece → Except Halt Taken
  | _, [] => .ok ⟨[], [], []⟩
  | stage, .word text :: rest => match stage, g.operands with
    | .before, .command => .ok ⟨[], text :: rest.map Piece.text, []⟩
    | .before, _ | .within, .many => withOperand text (g.takePieces .within rest)
    | _, _ => withLeftOver text (g.takePieces .after rest)
  | stage, .divider :: rest => match stage, g.operands with
    | .before, .single | .within, .many => g.takePieces stage rest
    | .within, _ => g.takePieces .after rest
    | .before, .many =>
      if rest.isEmpty then .ok ⟨[], [], ["--"]⟩ else g.takePieces stage rest
    | .before, .command =>
      if rest.isEmpty then .ok ⟨[], [], ["--"]⟩ else .ok ⟨[], "--" :: rest.map Piece.text, []⟩
    | .after, _ => withLeftOver "--" (g.takePieces stage rest)
  | stage, p :: rest => match g.use p with
    | .error f => .error (.fault f)
    | .ok use => match use.wanting with
      | none => use.followedBy (g.takePieces stage.behindOption rest)
      | some spec => match rest with
        | .word value :: rest' =>
          { use with given := use.given ++ [(spec, some value)] }.followedBy
            (g.takePieces stage.behindOption rest')
        | _ => .error (.fault (.missingValue spec.label))

/-- What a command takes from its arguments. -/
def take (g : Grammar) (arguments : List String) : Except Halt Taken :=
  match g.pieces arguments with
  | .error f => .error (.fault f)
  | .ok ps => g.takePieces .before ps

end Grammar

namespace Taken

/-- The values given to the option with a name. -/
def values (t : Taken) (name : String) : List String :=
  t.options.filterMap fun o => if o.1.names.contains name then o.2 else none

/-- The value given last to the option with a name. -/
def value? (t : Taken) (name : String) : Option String :=
  (t.values name).getLast?

/-- Whether the option with a name is given. -/
def has (t : Taken) (name : String) : Bool :=
  t.options.any fun o => o.1.names.contains name

end Taken

end Pinpoint.CommandLine
