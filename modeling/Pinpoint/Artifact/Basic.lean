import Pinpoint.Event
import Pinpoint.Json.Access

/-!
# Compiled contracts

A build record is what the compiler leaves behind for one contract: its name, its bytecode and source map,
and the source files it came from. `Artifact.read` takes from a record what the analysis needs. The four
code fields may be left without content, which is the same as leaving them out; `withoutEmptyCode` drops
such fields first and notes each.

A record lists its files either in `sources`, by path, or gives a single one by `sourcePath`.
-/

namespace Pinpoint

/-- A source file. The text and the syntax tree are null if the record has none. -/
structure SourceFile where
  path : Json
  text : Json
  ast : Json
  deriving Repr

/-- A compiled contract. -/
structure Artifact where
  contractName : Json
  deployedBytecode : Json
  bytecode : Json
  deployedSourceMap : Json
  sourceMap : Json
  /-- The paths that the file indices of the source maps count. -/
  sourceList : List Json
  sources : List SourceFile
  deriving Repr

namespace Artifact

/-- The first of the listed sources; null if there is none. -/
def mainSource (a : Artifact) : Json :=
  a.sourceList.headD .null

/-- The fields of a build record that may be left without content. -/
def codeFields : List String :=
  ["bytecode", "deployedBytecode", "sourceMap", "deployedSourceMap"]

/-- Null, the empty text and the bare marker `0x` are no content. -/
def isEmptyCode (j : Json) : Bool :=
  match j with
  | .null => true
  | .str s => s == "" || s == "0x"
  | _ => false

/-- Drops one code field of the contract `name` if it has no content. -/
def dropEmpty (name : Json) (fields : Json.Fields) (field : String) : Observed Json.Fields :=
  match Json.Fields.get? fields field with
  | none => pure fields
  | some value =>
    if isEmptyCode value then do
      Trace.note (.emptyFieldDropped name field)
      return fields.erase field
    else pure fields

/-- The record without the code fields that have no content. -/
def withoutEmptyCode (record : Json.Fields) : Observed Json.Fields :=
  let name := (Json.Fields.get? record "contractName").getD (.str "?")
  codeFields.foldlM (dropEmpty name) record

/-- The syntax tree among the fields of a record: the compact one if it is given, else the legacy one. -/
def treeField (fields : Json) : Except Error Json := do
  let compact ← fields.get "ast"
  let legacy ← fields.get "legacyAST"
  return compact.orElse legacy

/-- Reads one file of a record with several. -/
def readSource (file : String × Json) : Except Error SourceFile := do
  let entry := file.2.orElse (.obj [])
  let text ← entry.get "source"
  let ast ← treeField entry
  return ⟨.str file.1, text, ast⟩

/-- The files of a record, with the list that file indices refer to. -/
def readSources (record : Json.Fields) : Except Error (List Json × List SourceFile) :=
  match Json.Fields.getD record "sources" .null with
  | .obj files => do
    let sources ← files.mapM readSource
    let list ← ((Json.Fields.getD record "sourceList" .null).orElse (.obj files)).elements
    return (list, sources)
  | _ =>
    let path := Json.Fields.getD record "sourcePath" .null
    if path.isBare then .ok ([], [])
    else do
      -- A path names the file in tables, so it has to be a table key.
      let _ ← path.key
      let ast ← treeField (.obj record)
      return ([path], [⟨path, Json.Fields.getD record "source" .null, ast⟩])

/-- The contract that a cleaned record describes. -/
def ofRecord (record : Json.Fields) : Except Error Artifact := do
  let (list, sources) ← readSources record
  return {
    contractName := Json.Fields.getD record "contractName" .null
    deployedBytecode := Json.Fields.getD record "deployedBytecode" (.str "")
    bytecode := Json.Fields.getD record "bytecode" (.str "")
    deployedSourceMap := Json.Fields.getD record "deployedSourceMap" (.str "")
    sourceMap := Json.Fields.getD record "sourceMap" (.str "")
    sourceList := list
    sources := sources }

/-- Reads a build record, which must be an object with a contract name. -/
def read (build : Json) : Observed Artifact :=
  match build with
  | .obj record =>
    if (Json.Fields.getD record "contractName" .null).isBare then Trace.lift (.error .noContractName)
    else do
      let cleaned ← withoutEmptyCode record
      Trace.lift (ofRecord cleaned)
  | _ => Trace.lift (.error .noContractName)

end Artifact

/-- The names among `wanted` that belong to no contract, in the order asked for. -/
def missingContracts (artifacts : List Artifact) (wanted : List Json) : Except Error (List Json) := do
  if wanted.isEmpty then return []
  let present ← artifacts.mapM (·.contractName.key)
  let keys ← wanted.mapM Json.key
  return ((wanted.zip keys).filter fun w => !present.contains w.2).map (·.1)

end Pinpoint
