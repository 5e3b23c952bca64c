import Pinpoint.Ast.Basic

/-!
# Compact syntax trees

In the compact form a node is an object with a field `nodeType`, and its children are the nodes among its
field values, in the order of the fields: a field may hold a node or a list with nodes in it. The field
`typeDescriptions` holds no children. The declared type of a variable is in its field `typeName`.
-/

namespace Pinpoint.Ast

namespace TypeName

/-- The name of a user-defined type: its own, or that of its path. -/
def userName (fields : Json.Fields) : Except Error Json :=
  let name := Json.Fields.getD fields "name" .null
  if name.isBare then ((Json.Fields.getD fields "pathNode" .null).orElse (.obj [])).getD "name" (.str "")
  else .ok name

mutual

/-- Reads a type; none if nothing is given. -/
def ofCompact : Json → Except Error (Option TypeName)
  | .obj [] => .ok none
  | .obj (f :: fields) =>
    let nodeType := Json.Fields.getD (f :: fields) "nodeType" (.str "")
    if nodeType.isText "ElementaryTypeName" then
      .ok (some (.elementary (Json.Fields.getD (f :: fields) "name" (.str ""))))
    else if nodeType.isText "ArrayTypeName" then do
      let base ← ofCompactField "baseType" (f :: fields)
      let dynamic := match Json.Fields.getD (f :: fields) "length" .null with
        | .null => true
        | _ => false
      return some (.array (base.getD missing) dynamic)
    else if nodeType.isText "Mapping" then do
      let key ← ofCompactField "keyType" (f :: fields)
      let value ← ofCompactField "valueType" (f :: fields)
      return some (.mapping (key.getD missing) (value.getD missing))
    else if nodeType.isText "UserDefinedTypeName" then
      (userName (f :: fields)).map fun name => some (.userDefined name)
    else .ok (some (.other nodeType))
  | j => if j.isBare then .ok none else .error .wrongType

/-- Reads the type in a field; none if the field is absent. -/
def ofCompactField (name : String) : List (String × Json) → Except Error (Option TypeName)
  | [] => .ok none
  | (n, value) :: rest => if n = name then ofCompact value else ofCompactField name rest

end

end TypeName

namespace Node

/-- The field that tells that an object is a node. -/
def marker : String := "nodeType"

/-- What a node declares, given its type and fields. -/
def compactDeclaration (nodeType : Json) (fields : Json.Fields) :
    Except Error (Option Declaration) :=
  if nodeType.isText "VariableDeclaration" then do
    let typeName ← TypeName.ofCompactField "typeName" fields
    return some ⟨Json.Fields.getD fields "name" (.str ""), typeName⟩
  else .ok none

mutual

/-- Reads a node. -/
def ofCompact : Json → Except Error Node
  | .obj fields => do
    let nodeType := Json.Fields.getD fields marker .null
    let src ← SourceRange.ofJson (Json.Fields.getD fields "src" .null)
    let children ← compactChildren fields
    let declaration ← compactDeclaration nodeType fields
    return ⟨nodeType, src, declaration, children⟩
  | _ => .error .wrongType

/-- Reads the nodes among the values of fields. -/
def compactChildren : List (String × Json) → Except Error (List Node)
  | [] => .ok []
  | (name, value) :: rest => do
    let here ←
      if name = "typeDescriptions" then .ok []
      else match value with
        | .obj fields =>
          if (Json.Fields.get? fields marker).isSome then (ofCompact (.obj fields)).map ([·])
          else .ok []
        | .arr items => compactItems items
        | _ => .ok []
    let others ← compactChildren rest
    return here ++ others

/-- Reads the nodes among the items of a list. -/
def compactItems : List Json → Except Error (List Node)
  | [] => .ok []
  | item :: rest => do
    let here ← if item.hasField marker then (ofCompact item).map ([·]) else .ok []
    let others ← compactItems rest
    return here ++ others

end

end Node

end Pinpoint.Ast
