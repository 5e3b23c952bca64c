import Pinpoint.CommandLine.Run

/-!
# The program

Looks up the files that a run needs, runs, and puts its outcome into effect. All else is in
`CommandLine.run`.
-/

namespace Pinpoint.Main

open CommandLine

/-- The names that lead to a place, as a text from the root. -/
def placeText (loc : Location) : String :=
  "/" ++ "/".intercalate loc

/-- What stands at a place. -/
def look (loc : Location) : IO (Option Entry) := do
  try
    let content ← IO.FS.readBinFile (placeText loc)
    return some (.file content.toList)
  catch
    | .inappropriateType .. => return some .directory
    | _ => return none

/-- The tree with what stands at the places to which names lead from a place. -/
def lookAlong (t : FileTree) (loc : Location) : List String → IO FileTree
  | [] => return t
  | name :: rest => do
    let next := Location.step loc name
    match ← look next with
    | none => lookAlong t next rest
    | some entry => lookAlong (if next.isEmpty then t else t.put next entry) next rest

/-- The files that a run needs. -/
def lookUp (workingDirectory : Location) (arguments : List String) : IO FileTree := do
  let start ← lookAlong ⟨workingDirectory, []⟩ [] workingDirectory
  (pathsOf arguments).foldlM (fun t p => lookAlong t (t.startOf p) p.parts) start

/-- Makes a directory or writes a file. -/
def carryOut (change : Location × Entry) : IO Unit :=
  match change.2 with
  | .directory => IO.FS.createDirAll (placeText change.1)
  | .file content => IO.FS.writeBinFile (placeText change.1) ⟨content.toArray⟩

end Pinpoint.Main

open Pinpoint in
/-- Runs the program. -/
def main (arguments : List String) : IO UInt32 := do
  let workingDirectory := (Path.ofString (← IO.currentDir).toString).parts
  let files ← Main.lookUp workingDirectory arguments
  match CommandLine.run files arguments Yaml.parse with
  | .error crash =>
    IO.eprintln crash.message
    return 1
  | .ok outcome =>
    (files.changes outcome.files).forM Main.carryOut
    IO.print outcome.output
    IO.eprint outcome.messageText
    return outcome.status.toUInt32
