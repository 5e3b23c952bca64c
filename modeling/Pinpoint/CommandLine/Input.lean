import Pinpoint.Batch
import Pinpoint.Files.Tree
import Pinpoint.Json.Reader

/-!
# Reading build files and scanner results

Results are an object that maps the names of contracts to lists of scanner results, where nothing given
means no results. Build files hold one build record each and are read in the order given. What keeps a
file from being read is reported to the user (`InputFault.message`), except for values of a wrong type.
-/

namespace Pinpoint.CommandLine

/-- Why a file cannot be used as input. -/
inductive InputFault where
  | unreadable (path : Path) (fault : ReadFault)
  | notJson (fault : Json.Fault)
  /-- The results are no object. -/
  | noResults (path : Path)
  /-- The file is read, but not what is in it. -/
  | content (error : Error)
  deriving DecidableEq, Repr

/-- What the user is told about a fault; a value of a wrong type is an error of its own. -/
def InputFault.message : InputFault → Except Error String
  | .unreadable path fault => .ok (fault.message path)
  | .notJson fault => .ok fault.message
  | .noResults path =>
    .ok s!"{path.toString}: expected an object mapping contract names to results"
  | .content error => if error.isUnreadable then .ok error.message else .error error

/-- Reads a file as JSON. -/
def readJson (t : FileTree) (path : Path) : Except InputFault Json := do
  let text ← (t.readText path).mapError (.unreadable path)
  (Json.parse text).mapError .notJson

/-- The scanner results for each contract. -/
abbrev Results := List (String × List Json)

/-- The results for a contract: none if the contract is not mentioned. -/
def Results.of (results : Results) (contract : Json.Key) : List Json :=
  ((results.find? fun r => contract = .text r.1).map (·.2)).getD []

/-- The results that a value lists. -/
def listed (j : Json) : Except InputFault (List Json) :=
  (j.orElse (.arr [])).elements.mapError .content

/-- Reads a file of scanner results. -/
def readResults (t : FileTree) (path : Path) : Except InputFault Results := do
  match ← readJson t path with
  | .obj fields => fields.mapM fun f => do return (f.1, ← listed f.2)
  | _ => .error (.noResults path)

/-- Reads a build file. -/
def readBuild (t : FileTree) (path : Path) : Trace Event InputFault Artifact := do
  let build ← Trace.lift (readJson t path)
  (Artifact.read build).mapError .content

/-- What a report is made of. -/
structure Input where
  results : Results
  artifacts : List Artifact

/-- Reads the results, then the build files. -/
def readInput (t : FileTree) (results : Path) (builds : List Path) :
    Trace Event InputFault Input := do
  let results ← Trace.lift (readResults t results)
  let artifacts ← builds.mapM (readBuild t)
  return ⟨results, artifacts⟩

end Pinpoint.CommandLine
