/-!
# Help texts

What is printed for those who ask how to use the program, and the text that lists versions.
-/

namespace Pinpoint.CommandLine

/-- Names with their versions, sorted by name. -/
def versionText (versions : List (String × String)) : String :=
  let sorted := versions.mergeSort fun a b => decide (a.1 ≤ b.1)
  ", ".intercalate (sorted.map fun v => s!"{v.1}: {v.2}")

/-- The version of this program. -/
def programVersion : String := "0.1.0"

/-- The lines as a text. -/
def textOfLines (lines : List String) : String :=
  String.join (lines.map (· ++ "\n"))

/-- How to use the program. -/
def programHelp : String := textOfLines [
  "usage: evmlint [-h] [--version] \x7breport,init\x7d ...",
  "",
  "evmlint: resolve EVM scanner findings to ESLint-style reports",
  "",
  "positional arguments:",
  "  \x7breport,init\x7d",
  "    report       Normalize scanner results against build artifacts",
  "    init         Write a default .evmlint.yml",
  "",
  "options:",
  "  -h, --help     show this help message and exit",
  "  --version      show program's version number and exit"]

/-- How to use the command that reports. -/
def reportHelp : String := textOfLines [
  "usage: evmlint report [-h] --results RESULTS [-o OUTPUT] [--space-limited]",
  "                      [--debug] [--strict] [--contract CONTRACT]",
  "                      [--config CONFIG]",
  "                      builds [builds ...]",
  "",
  "positional arguments:",
  "  builds                Truffle build JSON files",
  "",
  "options:",
  "  -h, --help            show this help message and exit",
  "  --results RESULTS     JSON object mapping contract names to scanner results",
  "  -o OUTPUT, --output OUTPUT",
  "                        Write JSON here instead of stdout",
  "  --space-limited       Only emit short issue descriptions",
  "  --debug               Log suppressed issues and dropped fields",
  "  --strict              Fail an artifact on source-map inconsistencies instead",
  "                        of reporting unknown locations",
  "  --contract CONTRACT   Only report on this contract (repeatable)",
  "  --config CONFIG       Path to .evmlint.yml"]

/-- How to use the command that writes a configuration. -/
def initHelp : String := textOfLines [
  "usage: evmlint init [-h] [--overwrite] [root]",
  "",
  "positional arguments:",
  "  root",
  "",
  "options:",
  "  -h, --help   show this help message and exit",
  "  --overwrite"]

end Pinpoint.CommandLine
