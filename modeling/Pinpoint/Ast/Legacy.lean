import Pinpoint.Ast.Compact

/-!
# Legacy syntax trees

In the legacy form a node has its type in the field `name`, what it declares in the field `attributes`,
and its children in the field `children`, where only objects count. The declared type of a variable is
its first child; an array type has its element type as first child and, if its length is fixed, the
length as second one.

`Ast.read` accepts both forms: an object with a field `nodeType` is in the compact form.
-/

namespace Pinpoint.Ast

/-- The children of a legacy node, as they are given. -/
def legacyItems (fields : Json.Fields) : Json :=
  (Json.Fields.getD fields "children" (.arr [])).orElse (.arr [])

/-- The attributes of a legacy node. -/
def legacyAttributes (fields : Json.Fields) : Json :=
  (Json.Fields.getD fields "attributes" (.obj [])).orElse (.obj [])

/-- The number of children of a legacy node. -/
def legacyCount (fields : Json.Fields) : Except Error Nat :=
  (legacyItems fields).elements.map List.length

namespace TypeName

/-- The name of an elementary type. -/
def legacyElementary (fields : Json.Fields) : Except Error Json := do
  let attributes := legacyAttributes fields
  let typeText ← attributes.getD "type" (.str "")
  attributes.getD "name" typeText

mutual

/-- Reads a type; none if nothing is given. -/
def ofLegacy : Json → Except Error (Option TypeName)
  | .obj [] => .ok none
  | .obj (f :: fields) =>
    let nodeType := Json.Fields.getD (f :: fields) "name" (.str "")
    if nodeType.isText "ElementaryTypeName" then
      (legacyElementary (f :: fields)).map fun name => some (.elementary name)
    else if nodeType.isText "ArrayTypeName" then do
      let base ← ofLegacyChild 0 (f :: fields)
      let count ← legacyCount (f :: fields)
      return some (.array (base.getD missing) (count < 2))
    else if nodeType.isText "Mapping" then do
      let key ← ofLegacyChild 0 (f :: fields)
      let value ← ofLegacyChild 1 (f :: fields)
      return some (.mapping (key.getD missing) (value.getD missing))
    else if nodeType.isText "UserDefinedTypeName" then
      ((legacyAttributes (f :: fields)).getD "name" (.str "")).map fun name =>
        some (.userDefined name)
    else .ok (some (.other nodeType))
  | j => if j.isBare then .ok none else .error .wrongType

/-- Reads the type that is child number `i`; none if there is no such child. -/
def ofLegacyChild (i : Nat) : List (String × Json) → Except Error (Option TypeName)
  | [] => .ok none
  | (n, value) :: rest =>
    if n = "children" then
      match value with
      | .arr items => ofLegacyItem i items
      | j => if j.isBare then .ok none else .error .wrongType
    else ofLegacyChild i rest

/-- Reads the type that is item number `i` of a list; none if there is no such item. -/
def ofLegacyItem (i : Nat) : List Json → Except Error (Option TypeName)
  | [] => .ok none
  | item :: rest => match i with
    | 0 => ofLegacy item
    | i + 1 => ofLegacyItem i rest

end

end TypeName

namespace Node

/-- The type declared by a legacy node: that of its first child that is an object. -/
def legacyTypeName (items : List Json) : Except Error (Option TypeName) :=
  match items.find? fun item => match item with
    | .obj _ => true
    | _ => false
  with
  | some item => TypeName.ofLegacy item
  | none => .ok none

/-- What a legacy node declares, given its type and fields. -/
def legacyDeclaration (nodeType : Json) (fields : Json.Fields) :
    Except Error (Option Declaration) :=
  if nodeType.isText "VariableDeclaration" then do
    let name ← (legacyAttributes fields).getD "name" (.str "")
    let items ← (legacyItems fields).elements
    let typeName ← legacyTypeName items
    return some ⟨name, typeName⟩
  else .ok none

mutual

/-- Reads a node. -/
def ofLegacy : Json → Except Error Node
  | .obj fields => do
    let nodeType := Json.Fields.getD fields "name" (.str "")
    let src ← SourceRange.ofJson (Json.Fields.getD fields "src" .null)
    let children ← legacyChildren fields
    let declaration ← legacyDeclaration nodeType fields
    return ⟨nodeType, src, declaration, children⟩
  | _ => .error .wrongType

/-- Reads the nodes in the field `children`. -/
def legacyChildren : List (String × Json) → Except Error (List Node)
  | [] => .ok []
  | (name, value) :: rest =>
    if name = "children" then
      match value with
      | .arr items => legacyChildItems items
      -- The characters of a text and the field names of an object are no nodes.
      | .str _ => .ok []
      | .obj _ => .ok []
      | j => if j.isBare then .ok [] else .error .wrongType
    else legacyChildren rest

/-- Reads the objects among the items of a list. -/
def legacyChildItems : List Json → Except Error (List Node)
  | [] => .ok []
  | item :: rest => do
    let here ← match item with
      | .obj fields => (ofLegacy (.obj fields)).map ([·])
      | _ => .ok []
    let others ← legacyChildItems rest
    return here ++ others

end

end Node

/-- Reads a syntax tree in either form; none if nothing is given. -/
def read (j : Json) : Except Error (Option Node) :=
  if j.isBare then .ok none
  else if j.hasField Node.marker then (Node.ofCompact j).map some
  else (Node.ofLegacy j).map some

end Pinpoint.Ast
