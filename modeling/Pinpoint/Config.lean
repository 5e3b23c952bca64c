import Pinpoint.Json.Access
import Pinpoint.Json.Display
import Pinpoint.Json.Writer
import Pinpoint.Yaml.Reader
import Pinpoint.Yaml.Writer

/-!
# Configuration

A configuration says how to report and on which contracts. It is read from a document with the sections
`report` and `scan`; what is not given there has its default. The names of the settings may be written
with hyphens or with underscores, and hyphens win. `Config.toYaml` writes a configuration as a document
that can be read again.
-/

namespace Pinpoint

/-- How to report, and on which contracts. -/
structure Config where
  spaceLimited : Bool
  debug : Bool
  strict : Bool
  /-- The contracts to report on; none means all. -/
  contracts : List String
  deriving DecidableEq, Repr

namespace Config

/-- Everything is off, and all contracts are reported on. -/
def default : Config := ⟨false, false, false, []⟩

/-- The file names under which a directory may hold a configuration; an earlier one wins. -/
def fileNames : List String := [".evmlint.yml", ".evmlint.yaml"]

/-- A section of a document. -/
def part (raw : Json) (name : String) : Except Error Json :=
  (raw.get name).map (·.orElse (.obj []))

/-- A setting of a section, under the first of two names if that is given. -/
def flag (reporting : Json) (name otherName : String) : Except Error Bool := do
  let other ← reporting.getD otherName (.bool false)
  let value ← reporting.getD name other
  return !value.isBare

/-- The name of a contract: any value is one, as it is shown. -/
def contractName (j : Json) : Except Error String :=
  if j.isWritable then .ok j.display else .error .integerTooLong

/-- The contracts that a section lists. -/
def contractsOf (scan : Json) : Except Error (List String) := do
  if ← scan.mentions "contracts" then
    let listed ← scan.get "contracts"
    let items ← (listed.orElse (.arr [])).elements
    items.mapM contractName
  else return []

/-- The configuration that a document gives. -/
def ofJson (raw : Json) : Except Error Config := do
  let reporting ← part raw "report"
  let scan ← part raw "scan"
  return {
    spaceLimited := ← flag reporting "space-limited" "space_limited"
    debug := ← flag reporting "debug" "debug"
    strict := ← flag reporting "strict" "strict"
    contracts := ← contractsOf scan }

/-- The configuration that a document gives; nothing in it means the default. -/
def ofDocument (raw : Json) : Except Error Config :=
  ofJson (raw.orElse (.obj []))

/-- The lines of a list of contracts; a text may go on over further ones. -/
def contractLines (contracts : List String) : List String :=
  if contracts.isEmpty then ["  contracts: []"]
  else "  contracts:" :: contracts.map fun c => "  - " ++ Yaml.Writer.scalar c

/-- The lines of a configuration. -/
def lines (c : Config) : List String :=
  ["# .evmlint.yml: evmlint configuration", "", "report:",
    "  space-limited: " ++ Yaml.Writer.bool c.spaceLimited,
    "  debug: " ++ Yaml.Writer.bool c.debug, "  strict: " ++ Yaml.Writer.bool c.strict, "scan:"] ++
    contractLines c.contracts

/-- The configuration as a document. -/
def toYaml (c : Config) : String :=
  String.join (c.lines.map (· ++ "\n"))

end Config

end Pinpoint
