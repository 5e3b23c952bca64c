import Pinpoint.Proofs.Ast.CompactNodes
import Pinpoint.Proofs.Finding.WellTyped
import Pinpoint.Proofs.Json.Objects

/-!
# Documents of the right types

A syntax tree is read from a document without much being asked of it: the range of a node is a text, a type
stands where one is looked for, and the children of a legacy node are a list of objects, each of them if it is
given at all. What is asked is asked of one object at a time (`IsCompactObject`, `IsLegacyNode`), so a document
is of the right types if all its objects are (`IsTree`). Such a document can be read (`exists_read`): its types
can (`TypeName.exists_ofCompact`, `TypeName.exists_ofLegacy`), and then its nodes, from the leaves upwards.
-/

namespace Pinpoint

namespace Json

/-- The value is a text, or nothing is given. -/
def IsOptionalText (j : Json) : Prop := j.isBare = true ∨ j.IsText

/-- The value is an object, or nothing is given. -/
def IsOptionalObject (j : Json) : Prop := j.isBare = true ∨ j.IsObject

/-- The value is a list of objects, each if it is given at all, or nothing is given. -/
def IsObjectList (j : Json) : Prop :=
  j.isBare = true ∨ ∃ items, j = .arr items ∧ ∀ item ∈ items, item.IsOptionalObject

end Json

namespace Ast

/-- A range that is a text can be read, in whatever notation it is. -/
theorem exists_ofJson {j : Json} (h : j.IsOptionalText) : ∃ r, SourceRange.ofJson j = .ok r := by
  unfold SourceRange.ofJson
  split
  next => exact ⟨none, rfl⟩
  next hgiven =>
    rcases h with hbare | ⟨s, rfl⟩
    · exact absurd hbare hgiven
    · exact ⟨SourceRange.ofText? s.toList, rfl⟩

/-! ### The compact form -/

/-- The nodes in which a type is looked up, or the path of one, with the field for it. -/
def typeFields : List (String × String) :=
  [("VariableDeclaration", "typeName"), ("ArrayTypeName", "baseType"), ("Mapping", "keyType"),
    ("Mapping", "valueType"), ("UserDefinedTypeName", "pathNode")]

/-- A node in the compact form has a text as its range, and objects where types are looked up. -/
structure IsCompactNode (fields : Json.Fields) : Prop where
  src : (Json.Fields.getD fields "src" .null).IsOptionalText
  types : ∀ p ∈ typeFields, (Json.Fields.getD fields Node.marker .null).isText p.1 = true →
    (Json.Fields.getD fields p.2 .null).IsOptionalObject

/-- An object that is a node is a node of the right types. -/
def IsCompactObject (fields : Json.Fields) : Prop :=
  (Json.Fields.get? fields Node.marker).isSome = true → IsCompactNode fields

/-- Where a type is looked up there is an object, if anything. -/
theorem IsCompactObject.isOptionalObject {fields : Json.Fields} (h : IsCompactObject fields)
    {p : String × String} (hp : p ∈ typeFields) {default : Json}
    (hdefault : default = .null ∨ default = .str "")
    (htype : (Json.Fields.getD fields Node.marker default).isText p.1 = true) :
    (Json.Fields.getD fields p.2 .null).IsOptionalObject := by
  unfold Json.Fields.getD at htype
  cases hmarker : Json.Fields.get? fields Node.marker with
  | none =>
    -- an object without a type is none of these nodes
    rw [hmarker] at htype
    have hnamed : ∀ q ∈ typeFields, Json.isText .null q.1 = false ∧ Json.isText (.str "") q.1 = false := by
      decide
    obtain ⟨hnull, hempty⟩ := hnamed p hp
    rcases hdefault with rfl | rfl
    · exact absurd (htype.symm.trans hnull) (by decide)
    · exact absurd (htype.symm.trans hempty) (by decide)
  | some nodeType =>
    rw [hmarker] at htype
    refine (h (by rw [hmarker]; rfl)).types p hp ?_
    unfold Json.Fields.getD
    rw [hmarker]
    exact htype

namespace TypeName

/-- The name of a user-defined type can be looked up. -/
theorem exists_userName {fields : Json.Fields}
    (hpath : (Json.Fields.getD fields "pathNode" .null).IsOptionalObject) :
    ∃ name, userName fields = .ok name := by
  unfold userName
  dsimp only
  split
  next =>
    have hobject : ((Json.Fields.getD fields "pathNode" .null).orElse (.obj [])).IsObject := by
      unfold Json.orElse
      split
      next => exact ⟨[], rfl⟩
      next hgiven => exact hpath.resolve_left hgiven
    exact ⟨_, Json.getD_of_isObject hobject "name" (.str "")⟩
  next => exact ⟨_, rfl⟩

/-- Where nothing is given there is no type. -/
theorem ofCompact_of_isBare {j : Json} (h : j.isBare = true) : ofCompact j = .ok none := by
  match j, h with
  | .obj [], _ => rfl
  | .null, _ => rfl
  | .bool b, h | .int n, h | .float x, h | .str s, h | .arr items, h =>
    unfold ofCompact
    rw [if_pos h]

-- by recursion on the document, as it is read: a type, and the type in one of the fields
mutual

/-- A type can be read. -/
theorem exists_ofCompact {j : Json} (hj : j.IsOptionalObject) (h : j.Everywhere IsCompactObject) :
    ∃ type, ofCompact j = .ok type := by
  match j, hj, h with
  | .obj [], _, _ => exact ⟨none, rfl⟩
  | .obj (f :: fields), _, h =>
    obtain ⟨hobject, hfields⟩ := h
    -- whatever field the type of the object asks for can be read
    have hfield (name field : String) (hmem : (name, field) ∈ typeFields)
        (htype : (Json.Fields.getD (f :: fields) "nodeType" (.str "")).isText name = true) :
        ∃ type, ofCompactField field (f :: fields) = .ok type :=
      exists_ofCompactField (hobject.isOptionalObject hmem (.inr rfl) htype) hfields
    unfold ofCompact
    dsimp only
    split
    next => exact ⟨_, rfl⟩
    next =>
      split
      next htype =>
        obtain ⟨base, hbase⟩ := hfield "ArrayTypeName" "baseType" (by decide) htype
        rw [hbase]
        exact ⟨_, rfl⟩
      next =>
        split
        next htype =>
          obtain ⟨key, hkey⟩ := hfield "Mapping" "keyType" (by decide) htype
          obtain ⟨value, hvalue⟩ := hfield "Mapping" "valueType" (by decide) htype
          rw [hkey, hvalue]
          exact ⟨_, rfl⟩
        next =>
          split
          next htype =>
            have hpath : (Json.Fields.getD (f :: fields) "pathNode" .null).IsOptionalObject :=
              hobject.isOptionalObject (p := ("UserDefinedTypeName", "pathNode")) (by decide)
                (.inr rfl) htype
            obtain ⟨name, hname⟩ := exists_userName hpath
            rw [hname]
            exact ⟨_, rfl⟩
          next => exact ⟨_, rfl⟩
  | .null, hj, _ | .bool _, hj, _ | .int _, hj, _ | .float _, hj, _ | .str _, hj, _ | .arr _, hj, _ =>
    rcases hj with hbare | ⟨fields, hfields⟩
    · exact ⟨none, ofCompact_of_isBare hbare⟩
    · cases hfields

/-- The type in a field can be read. -/
theorem exists_ofCompactField {name : String} {fields : List (String × Json)}
    (hvalue : (Json.Fields.getD fields name .null).IsOptionalObject)
    (h : Json.EveryField IsCompactObject fields) :
    ∃ type, ofCompactField name fields = .ok type := by
  match fields, hvalue, h with
  | [], _, _ => exact ⟨none, rfl⟩
  | (n, value) :: rest, hvalue, h =>
    obtain ⟨hfirst, hrest⟩ := h
    unfold Json.Fields.getD at hvalue
    rw [Json.Fields.get?_cons] at hvalue
    unfold ofCompactField
    split
    next hname =>
      rw [if_pos hname] at hvalue
      exact exists_ofCompact hvalue hfirst
    next hname =>
      rw [if_neg hname] at hvalue
      exact exists_ofCompactField hvalue hrest

end

end TypeName

namespace Node

/-- What a node declares can be read. -/
theorem exists_compactDeclaration {fields : Json.Fields} (hobject : IsCompactObject fields)
    (hfields : Json.EveryField IsCompactObject fields) :
    ∃ d, compactDeclaration (Json.Fields.getD fields marker .null) fields = .ok d := by
  unfold compactDeclaration
  split
  next htype =>
    have htypeName : (Json.Fields.getD fields "typeName" .null).IsOptionalObject :=
      hobject.isOptionalObject (p := ("VariableDeclaration", "typeName")) (by decide) (.inl rfl) htype
    obtain ⟨type, hread⟩ := TypeName.exists_ofCompactField htypeName hfields
    rw [hread]
    exact ⟨_, rfl⟩
  next => exact ⟨none, rfl⟩

-- by recursion on the document, as it is read: a value, its fields, and the items of a list
mutual

/-- A node can be read, if the value is one. -/
theorem exists_compactItem {item : Json} (h : item.Everywhere IsCompactObject) :
    ∃ ns, compactItem item = .ok ns := by
  match item, h with
  | .obj fields, h =>
    obtain ⟨hobject, hfields⟩ := h
    unfold compactItem
    rw [Json.hasField]
    split
    next hmarked =>
      obtain ⟨src, hsrc⟩ := exists_ofJson (hobject hmarked).src
      obtain ⟨children, hchildren⟩ := exists_compactChildren hfields
      obtain ⟨d, hd⟩ := exists_compactDeclaration hobject hfields
      unfold ofCompact
      dsimp only
      rw [hsrc, hchildren, hd]
      exact ⟨_, rfl⟩
    next => exact ⟨[], rfl⟩
  | .null, _ | .bool _, _ | .int _, _ | .float _, _ | .str _, _ | .arr _, _ => exact ⟨[], rfl⟩

theorem exists_compactChildren {fields : List (String × Json)}
    (h : Json.EveryField IsCompactObject fields) : ∃ ns, compactChildren fields = .ok ns := by
  match fields, h with
  | [], _ => exact ⟨[], rfl⟩
  | (name, value) :: rest, h =>
    obtain ⟨hvalue, hrest⟩ := h
    obtain ⟨others, hothers⟩ := exists_compactChildren hrest
    have hhere : ∃ here, compactField name value = .ok here := by
      unfold compactField
      split
      next => exact ⟨[], rfl⟩
      next =>
        match value, hvalue with
        | .arr items, hvalue => exact exists_compactItems hvalue
        | .obj fields, hvalue => exact exists_compactItem hvalue
        | .null, hvalue | .bool _, hvalue | .int _, hvalue | .float _, hvalue | .str _, hvalue =>
          exact exists_compactItem hvalue
    obtain ⟨here, hhere⟩ := hhere
    rw [compactChildren_cons, hhere, hothers]
    exact ⟨_, rfl⟩

theorem exists_compactItems {items : List Json} (h : Json.EveryItem IsCompactObject items) :
    ∃ ns, compactItems items = .ok ns := by
  match items, h with
  | [], _ => exact ⟨[], rfl⟩
  | item :: rest, h =>
    obtain ⟨hitem, hrest⟩ := h
    obtain ⟨here, hhere⟩ := exists_compactItem hitem
    obtain ⟨others, hothers⟩ := exists_compactItems hrest
    rw [compactItems_cons, hhere, hothers]
    exact ⟨_, rfl⟩

end

end Node

/-! ### The legacy form -/

/-- A node in the legacy form has a text as its range, an object as its attributes, and a list of objects as its
children. -/
structure IsLegacyNode (fields : Json.Fields) : Prop where
  src : (Json.Fields.getD fields "src" .null).IsOptionalText
  attributes : (Json.Fields.getD fields "attributes" (.obj [])).IsOptionalObject
  children : (Json.Fields.getD fields "children" (.arr [])).IsObjectList

/-- The attributes can be looked into. -/
theorem IsLegacyNode.isObject_attributes {fields : Json.Fields} (h : IsLegacyNode fields) :
    (legacyAttributes fields).IsObject := by
  unfold legacyAttributes Json.orElse
  split
  next => exact ⟨[], rfl⟩
  next hgiven => exact h.attributes.resolve_left hgiven

/-- The children can be gone through, and are in the node. -/
theorem IsLegacyNode.exists_elements {fields : Json.Fields} (h : IsLegacyNode fields)
    (hfields : Json.EveryField IsLegacyNode fields) :
    ∃ items, (legacyItems fields).elements = .ok items ∧
      ∀ item ∈ items, item.Everywhere IsLegacyNode := by
  unfold legacyItems Json.orElse
  split
  next => exact ⟨[], rfl, fun item hitem => absurd hitem List.not_mem_nil⟩
  next hgiven =>
    obtain ⟨items, hitems, -⟩ := h.children.resolve_left hgiven
    rw [hitems]
    refine ⟨items, rfl, ?_⟩
    unfold Json.Fields.getD at hitems
    cases hvalue : Json.Fields.get? fields "children" with
    | none =>
      rw [hvalue] at hitems
      obtain rfl := Json.arr.inj hitems
      exact fun item hitem => absurd hitem List.not_mem_nil
    | some value =>
      rw [hvalue] at hitems
      obtain rfl : value = .arr items := hitems
      have hchildren : (Json.arr items).Everywhere IsLegacyNode :=
        Json.Everywhere.get? (Json.everywhere_obj.mpr ⟨h, Json.everyField_iff.mp hfields⟩) hvalue
      exact Json.everywhere_arr.mp hchildren

namespace TypeName

/-- Where nothing is given there is no type. -/
theorem ofLegacy_of_isBare {j : Json} (h : j.isBare = true) : ofLegacy j = .ok none := by
  match j, h with
  | .obj [], _ => rfl
  | .null, _ => rfl
  | .bool b, h | .int n, h | .float x, h | .str s, h | .arr items, h =>
    unfold ofLegacy
    rw [if_pos h]

/-- A name can be looked up in the attributes. -/
theorem exists_legacyElementary {fields : Json.Fields} (h : IsLegacyNode fields) :
    ∃ name, legacyElementary fields = .ok name := by
  unfold legacyElementary
  dsimp only
  rw [Json.getD_of_isObject h.isObject_attributes, Except.ok_bind,
    Json.getD_of_isObject h.isObject_attributes]
  exact ⟨_, rfl⟩

-- by recursion on the document, as it is read: a type, that of a child, and that of an item
mutual

/-- A type can be read. -/
theorem exists_ofLegacy {j : Json} (hj : j.IsOptionalObject) (h : j.Everywhere IsLegacyNode) :
    ∃ type, ofLegacy j = .ok type := by
  match j, hj, h with
  | .obj [], _, _ => exact ⟨none, rfl⟩
  | .obj (f :: fields), _, h =>
    obtain ⟨hnode, hfields⟩ := h
    have hchild (i : Nat) : ∃ type, ofLegacyChild i (f :: fields) = .ok type :=
      exists_ofLegacyChild i hnode.children hfields
    unfold ofLegacy
    dsimp only
    split
    next =>
      obtain ⟨name, hname⟩ := exists_legacyElementary hnode
      rw [hname]
      exact ⟨_, rfl⟩
    next =>
      split
      next =>
        obtain ⟨base, hbase⟩ := hchild 0
        obtain ⟨items, hitems, -⟩ := hnode.exists_elements hfields
        rw [hbase, legacyCount, hitems]
        exact ⟨_, rfl⟩
      next =>
        split
        next =>
          obtain ⟨key, hkey⟩ := hchild 0
          obtain ⟨value, hvalue⟩ := hchild 1
          rw [hkey, hvalue]
          exact ⟨_, rfl⟩
        next =>
          split
          next =>
            rw [Json.getD_of_isObject hnode.isObject_attributes]
            exact ⟨_, rfl⟩
          next => exact ⟨_, rfl⟩
  | .null, hj, _ | .bool _, hj, _ | .int _, hj, _ | .float _, hj, _ | .str _, hj, _ | .arr _, hj, _ =>
    rcases hj with hbare | ⟨fields, hfields⟩
    · exact ⟨none, ofLegacy_of_isBare hbare⟩
    · cases hfields

/-- The type that is a child can be read. -/
theorem exists_ofLegacyChild (i : Nat) {fields : List (String × Json)}
    (hchildren : (Json.Fields.getD fields "children" (.arr [])).IsObjectList)
    (h : Json.EveryField IsLegacyNode fields) : ∃ type, ofLegacyChild i fields = .ok type := by
  match fields, hchildren, h with
  | [], _, _ => exact ⟨none, rfl⟩
  | (n, value) :: rest, hchildren, h =>
    obtain ⟨hfirst, hrest⟩ := h
    unfold Json.Fields.getD at hchildren
    rw [Json.Fields.get?_cons] at hchildren
    unfold ofLegacyChild
    split
    next hname =>
      rw [if_pos hname] at hchildren
      match value, hchildren, hfirst with
      | .arr items, hchildren, hfirst =>
        have hitems : ∀ item ∈ items, item.IsOptionalObject := by
          rcases hchildren with hbare | ⟨items', hitems', hobjects⟩
          · obtain rfl := List.isEmpty_iff.mp hbare
            exact fun item hitem => absurd hitem List.not_mem_nil
          · obtain rfl := Json.arr.inj hitems'
            exact hobjects
        exact exists_ofLegacyItem i hitems hfirst
      | .null, hchildren, _ | .bool _, hchildren, _ | .int _, hchildren, _ | .float _, hchildren, _
      | .str _, hchildren, _
      | .obj _, hchildren, _ =>
        rcases hchildren with hbare | ⟨items, hitems, -⟩
        · exact ⟨none, if_pos hbare⟩
        · cases hitems
    next hname =>
      rw [if_neg hname] at hchildren
      exact exists_ofLegacyChild i hchildren hrest

/-- The type that is an item of a list can be read. -/
theorem exists_ofLegacyItem (i : Nat) {items : List Json} (hitems : ∀ item ∈ items, item.IsOptionalObject)
    (h : Json.EveryItem IsLegacyNode items) : ∃ type, ofLegacyItem i items = .ok type := by
  match items, i, hitems, h with
  | [], _, _, _ => exact ⟨none, rfl⟩
  | item :: rest, 0, hitems, h => exact exists_ofLegacy (hitems item List.mem_cons_self) h.1
  | item :: rest, i + 1, hitems, h =>
    exact exists_ofLegacyItem i (fun x hx => hitems x (List.mem_cons_of_mem item hx)) h.2

end

end TypeName

namespace Node

/-- What a node declares can be read. -/
theorem exists_legacyDeclaration {fields : Json.Fields} (nodeType : Json) (hnode : IsLegacyNode fields)
    (hfields : Json.EveryField IsLegacyNode fields) :
    ∃ d, legacyDeclaration nodeType fields = .ok d := by
  unfold legacyDeclaration
  split
  next =>
    obtain ⟨items, hitems, heverywhere⟩ := hnode.exists_elements hfields
    have htype : ∃ type, legacyTypeName items = .ok type := by
      unfold legacyTypeName
      split
      next item hitem =>
        have hobject : item.IsObject := by
          have hfound := List.find?_some hitem
          split at hfound
          · exact ⟨_, rfl⟩
          · cases hfound
        exact TypeName.exists_ofLegacy (.inr hobject)
          (heverywhere item (List.mem_of_find?_eq_some hitem))
      next => exact ⟨none, rfl⟩
    obtain ⟨type, htype⟩ := htype
    rw [Json.getD_of_isObject hnode.isObject_attributes, Except.ok_bind, hitems, Except.ok_bind, htype]
    exact ⟨_, rfl⟩
  next => exact ⟨none, rfl⟩

-- by recursion on the document, as it is read: a node, its children, and the items of a list
mutual

/-- A node can be read. -/
theorem exists_ofLegacy {j : Json} (hj : j.IsObject) (h : j.Everywhere IsLegacyNode) :
    ∃ n, ofLegacy j = .ok n := by
  match j, hj, h with
  | .obj fields, _, h =>
    obtain ⟨hnode, hfields⟩ := h
    obtain ⟨src, hsrc⟩ := exists_ofJson hnode.src
    obtain ⟨children, hchildren⟩ := exists_legacyChildren hnode.children hfields
    obtain ⟨d, hd⟩ := exists_legacyDeclaration (Json.Fields.getD fields "name" (.str "")) hnode hfields
    unfold ofLegacy
    dsimp only
    rw [hsrc, hchildren, hd]
    exact ⟨_, rfl⟩
  | .null, hj, _ | .bool _, hj, _ | .int _, hj, _ | .float _, hj, _ | .str _, hj, _ | .arr _, hj, _ =>
    obtain ⟨fields, hfields⟩ := hj
    cases hfields

theorem exists_legacyChildren {fields : List (String × Json)}
    (hchildren : (Json.Fields.getD fields "children" (.arr [])).IsObjectList)
    (h : Json.EveryField IsLegacyNode fields) : ∃ ns, legacyChildren fields = .ok ns := by
  match fields, hchildren, h with
  | [], _, _ => exact ⟨[], rfl⟩
  | (n, value) :: rest, hchildren, h =>
    obtain ⟨hfirst, hrest⟩ := h
    unfold Json.Fields.getD at hchildren
    rw [Json.Fields.get?_cons] at hchildren
    unfold legacyChildren
    split
    next hname =>
      rw [if_pos hname] at hchildren
      match value, hchildren, hfirst with
      | .arr items, _, hfirst => exact exists_legacyChildItems hfirst
      | .str _, _, _ | .obj _, _, _ => exact ⟨[], rfl⟩
      | .null, hchildren, _ | .bool _, hchildren, _ | .int _, hchildren, _ | .float _, hchildren, _ =>
        rcases hchildren with hbare | ⟨items, hitems, -⟩
        · exact ⟨[], if_pos hbare⟩
        · cases hitems
    next hname =>
      rw [if_neg hname] at hchildren
      exact exists_legacyChildren hchildren hrest

theorem exists_legacyChildItems {items : List Json} (h : Json.EveryItem IsLegacyNode items) :
    ∃ ns, legacyChildItems items = .ok ns := by
  match items, h with
  | [], _ => exact ⟨[], rfl⟩
  | item :: rest, h =>
    obtain ⟨hitem, hrest⟩ := h
    obtain ⟨others, hothers⟩ := exists_legacyChildItems hrest
    match item, hitem with
    | .obj fields, hitem =>
      obtain ⟨n, hn⟩ := exists_ofLegacy ⟨fields, rfl⟩ hitem
      unfold legacyChildItems
      dsimp only
      rw [hn, hothers]
      exact ⟨_, rfl⟩
    | .null, _ | .bool _, _ | .int _, _ | .float _, _ | .str _, _ | .arr _, _ =>
      unfold legacyChildItems
      rw [hothers]
      exact ⟨_, rfl⟩

end

end Node

/-! ### Documents -/

/-- **A document of the right types:** nothing is given, or it is an object all of whose objects are nodes in the
form that the document is in. -/
structure IsTree (document : Json) : Prop where
  object : document.IsOptionalObject
  compact : document.hasField Node.marker = true → document.Everywhere IsCompactObject
  legacy : document.hasField Node.marker = false → document.Everywhere IsLegacyNode

theorem isTree_null : IsTree .null :=
  ⟨.inl rfl, fun _ => trivial, fun _ => trivial⟩

/-- **A document of the right types** can be read. -/
theorem exists_read {document : Json} (h : IsTree document) : ∃ tree, read document = .ok tree := by
  unfold read
  split
  next => exact ⟨none, rfl⟩
  next hgiven =>
    have hobject := h.object.resolve_left hgiven
    split
    next hmarked =>
      obtain ⟨ns, hns⟩ := Node.exists_compactItem (h.compact hmarked)
      unfold Node.compactItem at hns
      rw [if_pos hmarked] at hns
      obtain ⟨n, hn, -⟩ := Except.map_eq_ok.mp hns
      rw [hn]
      exact ⟨_, rfl⟩
    next hunmarked =>
      obtain ⟨n, hn⟩ := Node.exists_ofLegacy hobject (h.legacy (Bool.eq_false_of_not_eq_true hunmarked))
      rw [hn]
      exact ⟨_, rfl⟩

end Ast

end Pinpoint
