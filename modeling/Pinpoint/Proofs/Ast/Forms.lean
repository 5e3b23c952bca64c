import Pinpoint.Proofs.Ast.CompactNodes

/-!
# One program in both forms

A program is a tree of plain nodes and variable declarations (`ProgramNode`), and the types of its variables are
trees as well (`ProgramType`), with plain nodes in them where an array has a length. Such a program can be written
in both forms. The compact form (`ProgramNode.compact`) gives each part of a node a field of its own, and an array
without a length has a length that is null. The legacy form (`ProgramNode.legacy`) gives everything below a node as
its children, the type of a variable first, and an array without a length has one child less.

Both are read as the same tree (`ofCompact_compact`, `ofLegacy_legacy`), types included. What is found in it can be
said without reading anything: the variables of a program are listed in pre-order (`variables`), and the search
finds the innermost of those around a range, under its own name and type (`enclosing?_of_forms`).
-/

namespace Pinpoint.Ast

/-! ### Programs -/

/-- What a node is that declares no variable: the name of its kind, and the field with its children in the compact
form. Descriptions of types are skipped there, so that field holds no children. -/
structure PlainKind where
  name : String
  listField : String
  name_ne : name ≠ "VariableDeclaration"
  listField_notMem : listField ∉ ["nodeType", "src", "typeDescriptions"]

mutual

/-- A node of a program. Its range is a text in whatever notation, if it has one. -/
inductive ProgramNode where
  | plain (kind : PlainKind) (src : Option String) (children : List ProgramNode)
  | declaration (name : String) (src : Option String) (type : ProgramType)

/-- The type of a variable. The length of an array is an expression, and can be any node. -/
inductive ProgramType where
  | elementary (src : Option String) (name : String)
  | userDefined (src : Option String) (name : String)
  | mapping (src : Option String) (key value : ProgramType)
  | dynamicArray (src : Option String) (base : ProgramType)
  | fixedArray (src : Option String) (base : ProgramType) (length : ProgramNode)

end

/-! ### Writing a program -/

/-- The fields of a node: its type, in the field that the form has for it, its range, and what else it has. -/
def nodeFields (label type : String) (src : Option String) (rest : Json.Fields) : Json.Fields :=
  (label, .str type) :: ((src.map fun s => ("src", .str s)).toList ++ rest)

/-- The fields of a legacy node that has a name besides its type. -/
def namedFields (name : String) (children : List Json) : Json.Fields :=
  [("attributes", .obj [("name", .str name)]), ("children", .arr children)]

mutual

/-- A node in the compact form. -/
def ProgramNode.compact : ProgramNode → Json
  | .plain kind src children =>
    .obj (nodeFields "nodeType" kind.name src [(kind.listField, .arr (ProgramNode.compactAll children))])
  | .declaration name src type =>
    .obj (nodeFields "nodeType" "VariableDeclaration" src
      [("name", .str name), ("typeName", type.compact)])

/-- Nodes in the compact form. -/
def ProgramNode.compactAll : List ProgramNode → List Json
  | [] => []
  | node :: rest => node.compact :: ProgramNode.compactAll rest

/-- A type in the compact form. -/
def ProgramType.compact : ProgramType → Json
  | .elementary src name =>
    .obj (nodeFields "nodeType" "ElementaryTypeName" src [("name", .str name)])
  | .userDefined src name =>
    .obj (nodeFields "nodeType" "UserDefinedTypeName" src [("name", .str name)])
  | .mapping src key value =>
    .obj (nodeFields "nodeType" "Mapping" src [("keyType", key.compact), ("valueType", value.compact)])
  | .dynamicArray src base =>
    .obj (nodeFields "nodeType" "ArrayTypeName" src [("baseType", base.compact), ("length", .null)])
  | .fixedArray src base length =>
    .obj (nodeFields "nodeType" "ArrayTypeName" src
      [("baseType", base.compact), ("length", length.compact)])

end

mutual

/-- A node in the legacy form. -/
def ProgramNode.legacy : ProgramNode → Json
  | .plain kind src children =>
    .obj (nodeFields "name" kind.name src [("children", .arr (ProgramNode.legacyAll children))])
  | .declaration name src type =>
    .obj (nodeFields "name" "VariableDeclaration" src (namedFields name [type.legacy]))

/-- Nodes in the legacy form. -/
def ProgramNode.legacyAll : List ProgramNode → List Json
  | [] => []
  | node :: rest => node.legacy :: ProgramNode.legacyAll rest

/-- A type in the legacy form. -/
def ProgramType.legacy : ProgramType → Json
  | .elementary src name =>
    .obj (nodeFields "name" "ElementaryTypeName" src (namedFields name []))
  | .userDefined src name =>
    .obj (nodeFields "name" "UserDefinedTypeName" src (namedFields name []))
  | .mapping src key value =>
    .obj (nodeFields "name" "Mapping" src [("children", .arr [key.legacy, value.legacy])])
  | .dynamicArray src base =>
    .obj (nodeFields "name" "ArrayTypeName" src [("children", .arr [base.legacy])])
  | .fixedArray src base length =>
    .obj (nodeFields "name" "ArrayTypeName" src [("children", .arr [base.legacy, length.legacy])])

end

/-! ### What a program is read as -/

/-- The range that a text gives. -/
def rangeOfText (src : Option String) : Option SourceRange :=
  src.bind fun s => SourceRange.ofText? s.toList

/-- What is kept of a type. -/
def ProgramType.typeName : ProgramType → TypeName
  | .elementary _ name => .elementary (.str name)
  | .userDefined _ name => .userDefined (.str name)
  | .mapping _ key value => .mapping key.typeName value.typeName
  | .dynamicArray _ base => .array base.typeName true
  | .fixedArray _ base _ => .array base.typeName false

mutual

/-- The tree of a node. -/
def ProgramNode.tree : ProgramNode → Node
  | .plain kind src children =>
    ⟨.str kind.name, rangeOfText src, none, ProgramNode.treeAll children⟩
  | .declaration name src type =>
    ⟨.str "VariableDeclaration", rangeOfText src, some ⟨.str name, some type.typeName⟩, [type.tree]⟩

/-- The trees of nodes. -/
def ProgramNode.treeAll : List ProgramNode → List Node
  | [] => []
  | node :: rest => node.tree :: ProgramNode.treeAll rest

/-- The tree of a type. -/
def ProgramType.tree : ProgramType → Node
  | .elementary src _ => ⟨.str "ElementaryTypeName", rangeOfText src, none, []⟩
  | .userDefined src _ => ⟨.str "UserDefinedTypeName", rangeOfText src, none, []⟩
  | .mapping src key value => ⟨.str "Mapping", rangeOfText src, none, [key.tree, value.tree]⟩
  | .dynamicArray src base => ⟨.str "ArrayTypeName", rangeOfText src, none, [base.tree]⟩
  | .fixedArray src base length =>
    ⟨.str "ArrayTypeName", rangeOfText src, none, [base.tree, length.tree]⟩

end

/-! ### The fields of a node -/

section nodeFields

variable {label type : String} {src : Option String} {rest : Json.Fields}

theorem getD_nodeFields (label type : String) (src : Option String) (rest : Json.Fields) (default : Json) :
    Json.Fields.getD (nodeFields label type src rest) label default = .str type := by
  unfold Json.Fields.getD nodeFields
  rw [Json.Fields.get?_cons, if_pos rfl, Option.getD_some]

/-- The range of a node, if no other field is taken for it. -/
theorem ofJson_nodeFields (hlabel : label ≠ "src") (hrest : Json.Fields.get? rest "src" = none) :
    SourceRange.ofJson (Json.Fields.getD (nodeFields label type src rest) "src" .null) = .ok (rangeOfText src) := by
  unfold Json.Fields.getD nodeFields
  rw [Json.Fields.get?_cons, if_neg hlabel]
  cases src with
  | none =>
    change SourceRange.ofJson ((Json.Fields.get? rest "src").getD .null) = .ok none
    rw [hrest]
    rfl
  | some s =>
    change SourceRange.ofJson (.str s) = .ok (SourceRange.ofText? s.toList)
    unfold SourceRange.ofJson
    split
    next hempty =>
      -- the empty text is no range in either way
      obtain rfl : s = "" := String.isEmpty_iff.mp hempty
      rfl
    next => rfl

end nodeFields

/-! ### Reading the compact form -/

section Compact

variable {rest : Json.Fields}

namespace TypeName

/-- A user-defined type has its own name, even if that is empty: there is no path with another one. -/
theorem ofCompact_userDefined (src : Option String) (name : String) :
    ofCompact (.obj (nodeFields "nodeType" "UserDefinedTypeName" src [("name", .str name)]))
      = .ok (some (.userDefined (.str name))) := by
  have hread : ofCompact (.obj (nodeFields "nodeType" "UserDefinedTypeName" src [("name", .str name)]))
      = (if name.isEmpty then Except.ok (Json.str "") else .ok (.str name)).map
          fun name => some (.userDefined name) := by
    cases src <;> rfl
  rw [hread]
  split
  next hempty =>
    obtain rfl : name = "" := String.isEmpty_iff.mp hempty
    rfl
  next => rfl

/-- A mapping is read from its key and its value. -/
theorem ofCompact_mapping (src : Option String) (key value : Json) :
    ofCompact (.obj (nodeFields "nodeType" "Mapping" src [("keyType", key), ("valueType", value)])) = do
      let key ← ofCompact key
      let value ← ofCompact value
      return some (.mapping (key.getD missing) (value.getD missing)) := by
  cases src <;> rfl

/-- An array is read from the type of its elements. It is dynamic if its length is null. -/
theorem ofCompact_array (src : Option String) (base length : Json) :
    ofCompact (.obj (nodeFields "nodeType" "ArrayTypeName" src [("baseType", base), ("length", length)])) = do
      let base ← ofCompact base
      return some (.array (base.getD missing) length.isNull) := by
  cases src <;> rfl

/-- **A type is read from its compact form.** -/
theorem ofCompact_compact (type : ProgramType) : ofCompact type.compact = .ok (some type.typeName) := by
  match type with
  | .elementary src name => cases src <;> rfl
  | .userDefined src name => exact ofCompact_userDefined src name
  | .mapping src key value =>
    rw [ProgramType.compact, ofCompact_mapping, ofCompact_compact key, ofCompact_compact value]
    rfl
  | .dynamicArray src base =>
    rw [ProgramType.compact, ofCompact_array, ofCompact_compact base]
    rfl
  | .fixedArray src base length =>
    have hlength : length.compact.isNull = false := by
      cases length <;> rfl
    rw [ProgramType.compact, ofCompact_array, ofCompact_compact base, hlength]
    rfl

end TypeName

namespace Node

/-- A field with a text, or with null, has no child in it. -/
theorem compactChildren_cons_text (name : String) {value : Json}
    (hvalue : (∃ s, value = .str s) ∨ value = .null) :
    compactChildren ((name, value) :: rest) = compactChildren rest := by
  have hfield : compactField name value = .ok [] := by
    unfold compactField
    split
    next => rfl
    next => rcases hvalue with ⟨s, rfl⟩ | rfl <;> rfl
  rw [compactChildren_cons, hfield]
  cases compactChildren rest <;> rfl

/-- A field with a node has one child in it. -/
theorem compactChildren_cons_node {name : String} {value : Json} {n : Node}
    (hname : name ≠ "typeDescriptions") (hmarked : value.hasField marker = true)
    (hvalue : ofCompact value = .ok n) :
    compactChildren ((name, value) :: rest) = (compactChildren rest).map (n :: ·) := by
  have hfield : compactField name value = .ok [n] := by
    unfold compactField
    rw [if_neg hname]
    split
    next => cases hmarked
    next =>
      rw [compactItem, if_pos hmarked, hvalue]
      rfl
  rw [compactChildren_cons, hfield]
  cases compactChildren rest <;> rfl

/-- The children of a node are in neither its type nor its range. -/
theorem compactChildren_nodeFields (type : String) (src : Option String) :
    compactChildren (nodeFields "nodeType" type src rest) = compactChildren rest := by
  rw [nodeFields, compactChildren_cons_text "nodeType" (.inl ⟨type, rfl⟩)]
  cases src with
  | none => rfl
  | some s => exact compactChildren_cons_text "src" (.inl ⟨s, rfl⟩)

/-- A node is read from its parts. -/
theorem ofCompact_nodeFields {type : String} {src : Option String} {children : List Node}
    {declaration : Option Declaration} (hsrc : Json.Fields.get? rest "src" = none)
    (hchildren : compactChildren rest = .ok children)
    (hdecl : compactDeclaration (.str type) (nodeFields "nodeType" type src rest) = .ok declaration) :
    ofCompact (.obj (nodeFields "nodeType" type src rest))
      = .ok ⟨.str type, rangeOfText src, declaration, children⟩ := by
  rw [ofCompact, marker, getD_nodeFields, ofJson_nodeFields (by decide) hsrc, compactChildren_nodeFields,
    hchildren, hdecl]
  rfl

/-- A declaration is read from its name and its type. -/
theorem compactDeclaration_variable (src : Option String) (name : String) (type : Json) :
    compactDeclaration (.str "VariableDeclaration")
        (nodeFields "nodeType" "VariableDeclaration" src [("name", .str name), ("typeName", type)]) = do
      let typeName ← TypeName.ofCompact type
      return some ⟨.str name, typeName⟩ := by
  cases src <;> rfl

/-- A node that is no declaration declares nothing. -/
theorem compactDeclaration_of_ne {type : String} {fields : Json.Fields} (h : type ≠ "VariableDeclaration") :
    compactDeclaration (.str type) fields = .ok none := by
  rw [compactDeclaration, Json.isText_str, if_neg (by rwa [beq_iff_eq])]

/-- A node that is no declaration is read from its children. -/
theorem ofCompact_of_ne {type : String} {src : Option String} {children : List Node}
    (htype : type ≠ "VariableDeclaration") (hsrc : Json.Fields.get? rest "src" = none)
    (hchildren : compactChildren rest = .ok children) :
    ofCompact (.obj (nodeFields "nodeType" type src rest)) = .ok ⟨.str type, rangeOfText src, none, children⟩ :=
  ofCompact_nodeFields hsrc hchildren (compactDeclaration_of_ne htype)

end Node

theorem ProgramNode.hasField_compact (node : ProgramNode) : node.compact.hasField Node.marker = true := by
  cases node <;> rfl

theorem ProgramType.hasField_compact (type : ProgramType) : type.compact.hasField Node.marker = true := by
  cases type <;> rfl

-- by recursion on the program: a node, a list of nodes, and a type
mutual

/-- **A node is read from its compact form.** -/
theorem ProgramNode.ofCompact_compact (node : ProgramNode) : Node.ofCompact node.compact = .ok node.tree := by
  match node with
  | .plain kind src children =>
    have hfield : kind.listField ≠ "src" ∧ kind.listField ≠ "typeDescriptions" := by
      have hmem := kind.listField_notMem
      simp only [List.mem_cons, List.not_mem_nil, or_false, not_or] at hmem
      exact ⟨hmem.2.1, hmem.2.2⟩
    rw [ProgramNode.compact]
    apply Node.ofCompact_of_ne kind.name_ne
    · exact (Json.Fields.get?_cons _ _ _).trans (if_neg hfield.1)
    · rw [Node.compactChildren_cons, Node.compactField, if_neg hfield.2,
        ProgramNode.compactItems_compactAll children]
      change Except.ok (ProgramNode.treeAll children ++ []) = _
      rw [List.append_nil]
  | .declaration name src type =>
    have htype := ProgramType.ofCompact_compact type
    rw [ProgramNode.compact]
    apply Node.ofCompact_nodeFields
    · rfl
    · rw [Node.compactChildren_cons_text "name" (.inl ⟨name, rfl⟩),
        Node.compactChildren_cons_node (by decide) type.hasField_compact htype]
      rfl
    · rw [Node.compactDeclaration_variable, TypeName.ofCompact_compact type]
      rfl

theorem ProgramNode.compactItems_compactAll (nodes : List ProgramNode) :
    Node.compactItems (ProgramNode.compactAll nodes) = .ok (ProgramNode.treeAll nodes) := by
  match nodes with
  | [] => rfl
  | node :: rest =>
    rw [ProgramNode.compactAll, Node.compactItems_cons, Node.compactItem, if_pos node.hasField_compact,
      ProgramNode.ofCompact_compact node, ProgramNode.compactItems_compactAll rest]
    rfl

/-- The node of a type is read from its compact form. -/
theorem ProgramType.ofCompact_compact (type : ProgramType) : Node.ofCompact type.compact = .ok type.tree := by
  match type with
  | .elementary src name | .userDefined src name =>
    rw [ProgramType.compact]
    apply Node.ofCompact_of_ne (by decide) rfl
    exact Node.compactChildren_cons_text "name" (.inl ⟨name, rfl⟩)
  | .mapping src key value =>
    rw [ProgramType.compact]
    apply Node.ofCompact_of_ne (by decide) rfl
    rw [Node.compactChildren_cons_node (by decide) key.hasField_compact (ProgramType.ofCompact_compact key),
      Node.compactChildren_cons_node (by decide) value.hasField_compact
        (ProgramType.ofCompact_compact value)]
    rfl
  | .dynamicArray src base =>
    rw [ProgramType.compact]
    apply Node.ofCompact_of_ne (by decide) rfl
    rw [Node.compactChildren_cons_node (by decide) base.hasField_compact (ProgramType.ofCompact_compact base),
      Node.compactChildren_cons_text "length" (.inr rfl)]
    rfl
  | .fixedArray src base length =>
    rw [ProgramType.compact]
    apply Node.ofCompact_of_ne (by decide) rfl
    rw [Node.compactChildren_cons_node (by decide) base.hasField_compact (ProgramType.ofCompact_compact base),
      Node.compactChildren_cons_node (by decide) length.hasField_compact
        (ProgramNode.ofCompact_compact length)]
    rfl

end

end Compact

/-! ### Reading the legacy form -/

section Legacy

variable {rest : Json.Fields} {items : List Json}

namespace TypeName

/-- A mapping is read from its two children. -/
theorem ofLegacy_mapping (src : Option String) (key value : Json) :
    ofLegacy (.obj (nodeFields "name" "Mapping" src [("children", .arr [key, value])])) = do
      let key ← ofLegacy key
      let value ← ofLegacy value
      return some (.mapping (key.getD missing) (value.getD missing)) := by
  cases src <;> rfl

/-- An array is read from its first child. It is dynamic if there is no other. -/
theorem ofLegacy_array (src : Option String) (base : Json) (others : List Json) :
    ofLegacy (.obj (nodeFields "name" "ArrayTypeName" src [("children", .arr (base :: others))])) = do
      let base ← ofLegacy base
      return some (.array (base.getD missing) others.isEmpty) := by
  cases src <;> cases others <;> rfl

/-- **A type is read from its legacy form.** -/
theorem ofLegacy_legacy (type : ProgramType) : ofLegacy type.legacy = .ok (some type.typeName) := by
  match type with
  | .elementary src name | .userDefined src name => cases src <;> rfl
  | .mapping src key value =>
    rw [ProgramType.legacy, ofLegacy_mapping, ofLegacy_legacy key, ofLegacy_legacy value]
    rfl
  | .dynamicArray src base | .fixedArray src base length =>
    rw [ProgramType.legacy, ofLegacy_array, ofLegacy_legacy base]
    rfl

end TypeName

namespace Node

/-- A node among the children is read, and then the others. -/
theorem legacyChildItems_cons {item : Json} {n : Node} (hitem : ofLegacy item = .ok n) :
    legacyChildItems (item :: items) = (legacyChildItems items).map (n :: ·) := by
  cases item with
  | obj fields =>
    rw [legacyChildItems]
    dsimp only
    rw [hitem]
    cases legacyChildItems items <;> rfl
  | _ => cases hitem

/-- A node is read from its parts. -/
theorem ofLegacy_nodeFields {type : String} {src : Option String} {children : List Node}
    {declaration : Option Declaration} (hsrc : Json.Fields.get? rest "src" = none)
    (hitems : legacyChildren rest = legacyChildItems items) (hchildren : legacyChildItems items = .ok children)
    (hdecl : legacyDeclaration (.str type) (nodeFields "name" type src rest) = .ok declaration) :
    ofLegacy (.obj (nodeFields "name" type src rest))
      = .ok ⟨.str type, rangeOfText src, declaration, children⟩ := by
  have hfields : legacyChildren (nodeFields "name" type src rest) = legacyChildren rest := by
    cases src <;> rfl
  rw [ofLegacy, getD_nodeFields, ofJson_nodeFields (by decide) hsrc, hfields, hitems, hchildren,
    hdecl]
  rfl

/-- A declaration is read from its name and its first child, if that is an object. -/
theorem legacyDeclaration_variable (src : Option String) (name : String) (type : Json.Fields) :
    legacyDeclaration (.str "VariableDeclaration")
        (nodeFields "name" "VariableDeclaration" src (namedFields name [.obj type])) = do
      let typeName ← TypeName.ofLegacy (.obj type)
      return some ⟨.str name, typeName⟩ := by
  cases src <;> rfl

/-- A node that is no declaration declares nothing. -/
theorem legacyDeclaration_of_ne {type : String} {fields : Json.Fields} (h : type ≠ "VariableDeclaration") :
    legacyDeclaration (.str type) fields = .ok none := by
  rw [legacyDeclaration, Json.isText_str, if_neg (by rwa [beq_iff_eq])]

/-- A node that is no declaration is read from its children. -/
theorem ofLegacy_of_ne {type : String} {src : Option String} {children : List Node}
    (htype : type ≠ "VariableDeclaration") (hsrc : Json.Fields.get? rest "src" = none)
    (hitems : legacyChildren rest = legacyChildItems items) (hchildren : legacyChildItems items = .ok children) :
    ofLegacy (.obj (nodeFields "name" type src rest)) = .ok ⟨.str type, rangeOfText src, none, children⟩ :=
  ofLegacy_nodeFields hsrc hitems hchildren (legacyDeclaration_of_ne htype)

end Node

theorem ProgramType.legacy_eq_obj (type : ProgramType) : ∃ fields, type.legacy = .obj fields := by
  cases type <;> exact ⟨_, rfl⟩

-- by recursion on the program: a node, a list of nodes, and a type
mutual

/-- **A node is read from its legacy form.** -/
theorem ProgramNode.ofLegacy_legacy (node : ProgramNode) : Node.ofLegacy node.legacy = .ok node.tree := by
  match node with
  | .plain kind src children =>
    rw [ProgramNode.legacy]
    apply Node.ofLegacy_of_ne kind.name_ne rfl rfl
    exact ProgramNode.legacyChildItems_legacyAll children
  | .declaration name src type =>
    rw [ProgramNode.legacy]
    apply Node.ofLegacy_nodeFields
    · rfl
    · rfl
    · rw [Node.legacyChildItems_cons (ProgramType.ofLegacy_legacy type)]
      rfl
    · obtain ⟨fields, hfields⟩ := type.legacy_eq_obj
      rw [hfields, Node.legacyDeclaration_variable, ← hfields, TypeName.ofLegacy_legacy type]
      rfl

theorem ProgramNode.legacyChildItems_legacyAll (nodes : List ProgramNode) :
    Node.legacyChildItems (ProgramNode.legacyAll nodes) = .ok (ProgramNode.treeAll nodes) := by
  match nodes with
  | [] => rfl
  | node :: rest =>
    rw [ProgramNode.legacyAll, Node.legacyChildItems_cons (ProgramNode.ofLegacy_legacy node),
      ProgramNode.legacyChildItems_legacyAll rest]
    rfl

/-- The node of a type is read from its legacy form. -/
theorem ProgramType.ofLegacy_legacy (type : ProgramType) : Node.ofLegacy type.legacy = .ok type.tree := by
  match type with
  | .elementary src name | .userDefined src name =>
    rw [ProgramType.legacy]
    exact Node.ofLegacy_of_ne (by decide) rfl rfl rfl
  | .mapping src key value =>
    rw [ProgramType.legacy]
    apply Node.ofLegacy_of_ne (by decide) rfl rfl
    rw [Node.legacyChildItems_cons (ProgramType.ofLegacy_legacy key),
      Node.legacyChildItems_cons (ProgramType.ofLegacy_legacy value)]
    rfl
  | .dynamicArray src base =>
    rw [ProgramType.legacy]
    apply Node.ofLegacy_of_ne (by decide) rfl rfl
    rw [Node.legacyChildItems_cons (ProgramType.ofLegacy_legacy base)]
    rfl
  | .fixedArray src base length =>
    rw [ProgramType.legacy]
    apply Node.ofLegacy_of_ne (by decide) rfl rfl
    rw [Node.legacyChildItems_cons (ProgramType.ofLegacy_legacy base),
      Node.legacyChildItems_cons (ProgramNode.ofLegacy_legacy length)]
    rfl

end

end Legacy

/-! ### The variables of a program -/

/-- A variable that a program declares. -/
structure Variable where
  name : String
  src : Option String
  type : ProgramType

/-- The range of the declaration holds all of `[start, start + length)`. -/
def Variable.isAround (start length : Int) (v : Variable) : Bool :=
  (rangeOfText v.src).any (·.contains start length)

/-- The length of the declaration's range. -/
def Variable.width (v : Variable) : Int := ((rangeOfText v.src).map SourceRange.length).getD 0

/-- The type is an array without a length. -/
def ProgramType.isDynamicArray : ProgramType → Bool
  | .dynamicArray _ _ => true
  | _ => false

mutual

/-- The variables declared in a node, in pre-order. -/
def ProgramNode.variables : ProgramNode → List Variable
  | .plain _ _ children => ProgramNode.variablesAll children
  | .declaration name src type => ⟨name, src, type⟩ :: type.variables

/-- The variables declared in nodes, in pre-order. -/
def ProgramNode.variablesAll : List ProgramNode → List Variable
  | [] => []
  | node :: rest => node.variables ++ ProgramNode.variablesAll rest

/-- The variables declared in the lengths of a type, in pre-order. -/
def ProgramType.variables : ProgramType → List Variable
  | .elementary _ _ | .userDefined _ _ => []
  | .mapping _ key value => key.variables ++ value.variables
  | .dynamicArray _ base => base.variables
  | .fixedArray _ base length => base.variables ++ length.variables

end

/-- The node is the declaration of the variable: it says its name and what is kept of its type, and has its range. -/
structure Node.Declares (n : Node) (v : Variable) : Prop where
  declaration : n.declaration = some ⟨.str v.name, some v.type.typeName⟩
  src : n.src = rangeOfText v.src

namespace Node.Declares

variable {n : Node} {v : Variable}

theorem kind_eq (h : n.Declares v) : n.kind = .variableDeclaration := by
  rw [Node.kind, h.declaration]
  rfl

theorem declaresDynamicArray_eq (h : n.Declares v) : n.declaresDynamicArray = v.type.isDynamicArray := by
  rw [Node.declaresDynamicArray, h.declaration]
  cases v.type <;> rfl

theorem encloses_eq (h : n.Declares v) (start length : Int) :
    n.encloses start length = v.isAround start length := by
  rw [Node.encloses_eq_any, h.src, Variable.isAround]

theorem width_eq (h : n.Declares v) : n.width = v.width := by
  rw [Node.width_eq_getD, h.src, Variable.width]

end Node.Declares

/-- The declarations among nodes. -/
def declarationsOf (ns : List Node) : List Node := ns.filter (·.kind == .variableDeclaration)

theorem declarationsOf_append (xs ys : List Node) :
    declarationsOf (xs ++ ys) = declarationsOf xs ++ declarationsOf ys :=
  List.filter_append xs ys

/-- A node that declares nothing is passed over. -/
theorem declarationsOf_preorder_other (nodeType : Json) (src : Option SourceRange) (children : List Node) :
    declarationsOf (⟨nodeType, src, none, children⟩ : Node).preorder
      = declarationsOf (Node.preorderAll children) := by
  rw [Node.preorder]
  exact List.filter_cons_of_neg Bool.false_ne_true

-- by recursion on the program: a node, a list of nodes, and a type
mutual

/-- **The declarations of the tree** are those of the program, one by one. -/
theorem ProgramNode.forall₂_declares (node : ProgramNode) :
    List.Forall₂ (fun v n => Node.Declares n v) node.variables (declarationsOf node.tree.preorder) := by
  match node with
  | .plain kind src children =>
    rw [ProgramNode.tree, declarationsOf_preorder_other]
    exact ProgramNode.forall₂_declares_all children
  | .declaration name src type =>
    rw [ProgramNode.tree, Node.preorder, Node.preorderAll, Node.preorderAll, List.append_nil]
    exact .cons ⟨rfl, rfl⟩ (ProgramType.forall₂_declares type)

theorem ProgramNode.forall₂_declares_all (nodes : List ProgramNode) :
    List.Forall₂ (fun v n => Node.Declares n v) (ProgramNode.variablesAll nodes)
      (declarationsOf (Node.preorderAll (ProgramNode.treeAll nodes))) := by
  match nodes with
  | [] => exact .nil
  | node :: rest =>
    rw [ProgramNode.treeAll, Node.preorderAll, declarationsOf_append]
    exact List.rel_append (ProgramNode.forall₂_declares node) (ProgramNode.forall₂_declares_all rest)

/-- The declarations in the tree of a type are those in its lengths. -/
theorem ProgramType.forall₂_declares (type : ProgramType) :
    List.Forall₂ (fun v n => Node.Declares n v) type.variables (declarationsOf type.tree.preorder) := by
  match type with
  | .elementary src name | .userDefined src name => exact .nil
  | .mapping src key value =>
    rw [ProgramType.tree, declarationsOf_preorder_other, Node.preorderAll, Node.preorderAll, Node.preorderAll,
      List.append_nil, declarationsOf_append]
    exact List.rel_append (ProgramType.forall₂_declares key) (ProgramType.forall₂_declares value)
  | .dynamicArray src base =>
    rw [ProgramType.tree, declarationsOf_preorder_other, Node.preorderAll, Node.preorderAll, List.append_nil]
    exact ProgramType.forall₂_declares base
  | .fixedArray src base length =>
    rw [ProgramType.tree, declarationsOf_preorder_other, Node.preorderAll, Node.preorderAll, Node.preorderAll,
      List.append_nil, declarationsOf_append]
    exact List.rel_append (ProgramType.forall₂_declares base) (ProgramNode.forall₂_declares length)

end

/-! ### Both forms -/

namespace ProgramNode

theorem read_compact (program : ProgramNode) : read program.compact = .ok (some program.tree) := by
  have hgiven : program.compact.isBare = false := by
    cases program <;> rfl
  rw [read, hgiven, if_neg Bool.false_ne_true, if_pos program.hasField_compact, program.ofCompact_compact]
  rfl

theorem read_legacy (program : ProgramNode) : read program.legacy = .ok (some program.tree) := by
  have hgiven : program.legacy.isBare = false := by
    cases program <;> rfl
  have hunmarked : program.legacy.hasField Node.marker = false := by
    cases program with
    | plain kind src children => cases src <;> rfl
    | declaration name src type => cases src <;> rfl
  rw [read, hgiven, if_neg Bool.false_ne_true, hunmarked, if_neg Bool.false_ne_true, program.ofLegacy_legacy]
  rfl

/-- What the search finds in the tree of a program is the innermost of its variables. -/
theorem exists_variable {program : ProgramNode} {start length : Int} {n : Node}
    (h : program.tree.enclosing? start length .variableDeclaration = some n) :
    ∃ v, n.Declares v ∧
      IsInnermost (Variable.isAround start length) Variable.width program.variables v := by
  have hinner := (Node.enclosing?_eq_some_iff_filter _ start length _ n).mp h
  exact IsInnermost.exists_of_forall₂ (fun _ _ hd => (hd.encloses_eq start length).symm)
    (fun _ _ hd => hd.width_eq.symm) program.forall₂_declares hinner

/-- If the search finds nothing, no variable of the program is around the range. -/
theorem isAround_eq_false {program : ProgramNode} {start length : Int} {v : Variable}
    (h : program.tree.enclosing? start length .variableDeclaration = none) (hv : v ∈ program.variables) :
    v.isAround start length = false := by
  obtain ⟨n, hn, hdeclares⟩ := List.exists_of_mem_forall₂ program.forall₂_declares.flip hv
  have hmem : n ∈ program.tree.preorder := List.mem_of_mem_filter hn
  have hnot := Node.enclosing?_eq_none_iff.mp h n hmem
  rw [← hdeclares.encloses_eq start length]
  by_contra hencloses
  apply hnot
  exact ⟨hdeclares.kind_eq, Node.encloses_iff.mp (Bool.eq_true_of_not_eq_false hencloses)⟩

/-- **Both forms of a program are read alike.** The search for the declaration around a range finds the same in
both: nothing if no variable of the program is declared around it, and otherwise a node with the name, the range
and the type of the innermost of these variables, which is a dynamic array if that type is one. -/
theorem enclosing?_of_forms (program : ProgramNode) : ∃ tree,
    read program.compact = .ok (some tree) ∧ read program.legacy = .ok (some tree) ∧
    ∀ start length,
      (tree.enclosing? start length .variableDeclaration = none ∧
        ∀ v ∈ program.variables, v.isAround start length = false) ∨
      ∃ n v, tree.enclosing? start length .variableDeclaration = some n ∧
        IsInnermost (Variable.isAround start length) Variable.width program.variables v ∧
        n.Declares v ∧ n.declaresDynamicArray = v.type.isDynamicArray := by
  refine ⟨program.tree, program.read_compact, program.read_legacy, fun start length => ?_⟩
  cases hfound : program.tree.enclosing? start length .variableDeclaration with
  | none => exact .inl ⟨rfl, fun v hv => isAround_eq_false hfound hv⟩
  | some n =>
    obtain ⟨v, hdeclares, hinner⟩ := exists_variable hfound
    exact .inr ⟨n, v, rfl, hinner, hdeclares, hdeclares.declaresDynamicArray_eq⟩

end ProgramNode

end Pinpoint.Ast
