import Pinpoint.Artifact.Basic
import Pinpoint.Ast.Legacy
import Pinpoint.Bytecode.Instructions
import Pinpoint.Position
import Pinpoint.SourceMap.Decode

/-!
# Look-up tables of a contract

What the resolution of findings looks up, decoded once: the instructions of the deployed bytecode, its
source map, and for each source file the line breaks and the syntax tree, as far as the file has a text
and a tree.

A scanner often names a file by another path than the compiler. `lookup` therefore takes the entry under
the very path if there is one, and else the only entry whose path has the same last component.
-/

namespace Pinpoint

/-- The tables of a contract. -/
structure Tables where
  artifact : Artifact
  instructions : Bytecode.InstructionIndex
  sourceMap : SourceMap
  lineBreaks : List (Json.Key × LineBreaks)
  trees : List (Json.Key × Ast.Node)

namespace Tables

/-- The line breaks of a file's text; none if the file has no text. A list counts as the text of its
items. -/
def breaksOf (text : Json) : Except Error (Option LineBreaks) :=
  match text with
  | .null => .ok none
  | .str s => .ok (some (Pinpoint.lineBreaks s.toList))
  | other => other.elements.map fun items => some (offsetsFrom (·.isText "\n") 0 items)

/-- The entries that a table built from files has: those of the files for which `read` gives one. -/
def entriesOf {α : Type} (read : SourceFile → Except Error (Option α)) :
    List SourceFile → Except Error (List (Json.Key × α))
  | [] => .ok []
  | file :: rest => do
    let key ← file.path.key
    let entry ← read file
    let others ← entriesOf read rest
    match entry with
    | some a => return (key, a) :: others
    | none => return others

/-- Reads a deployed source map; nothing given means a map without entries. -/
def readSourceMap (j : Json) : Except Error SourceMap :=
  if j.isBare then .ok ⟨[]⟩
  else do
    let text ← j.text
    SourceMap.decode text

/-- Decodes the tables of a contract. -/
def build (artifact : Artifact) : Except Error Tables := do
  let code ← artifact.deployedBytecode.text
  let instructions ← Bytecode.InstructionIndex.ofHex code
  let sourceMap ← readSourceMap artifact.deployedSourceMap
  let lineBreaks ← entriesOf (fun file => breaksOf file.text) artifact.sources
  let trees ← entriesOf (fun file => Ast.read file.ast) artifact.sources
  return ⟨artifact, instructions, sourceMap, lineBreaks, trees⟩

/-- The path that a key is. -/
def pathOf : Json.Key → Except Error String
  | .text s => .ok s
  | _ => .error .wrongType

/-- The entries of a table whose path has the last component `name`. -/
def entriesNamed {α : Type} (name : String) : List (Json.Key × α) → Except Error (List α)
  | [] => .ok []
  | (key, a) :: rest => do
    let path ← pathOf key
    let others ← entriesNamed name rest
    return if Text.basename path = name then a :: others else others

/-- The entry of a table for a source: the one under its path, or else the only one whose path has the
same last component. -/
def lookup {α : Type} (table : List (Json.Key × α)) (source : Json) : Except Error (Option α) := do
  let key ← source.key
  match table.find? (·.1 = key) with
  | some entry => return some entry.2
  | none =>
    let path ← source.text
    let found ← entriesNamed (Text.basename path) table
    match found with
    | [a] => return some a
    | _ => return none

/-- The line breaks of a source. -/
def lineBreaksFor (t : Tables) (source : Json) : Except Error (Option LineBreaks) :=
  lookup t.lineBreaks source

/-- The syntax tree of a source. -/
def treeFor (t : Tables) (source : Json) : Except Error (Option Ast.Node) :=
  lookup t.trees source

end Tables

end Pinpoint
