import Pinpoint.Ast.Legacy
import Pinpoint.Proofs.Ast.Innermost
import Pinpoint.Proofs.Finding.Partition

/-!
# The nodes of a compact tree, as they are written

A compact syntax tree is an object, and its nodes are the objects with a field `nodeType` that are reached
from it through its fields and the lists in them. `nodesAt` lists them in the order of the document, without
reading any of them. What matters of a node can be asked of the object itself: its range (`rangeOf`), whether
it declares a variable (`isDeclaration`), of which name (`nameOf`), and whether that is a dynamic array
(`hasDynamicType`).

The tree that is read from the document has the same nodes in the same order, each with the answers of its
object (`Mirrors`, `mirrors_ofCompact`). So the innermost declaration around a range can be found in the
document (`IsInnermostAround`), and `enclosing?_of_mirrors` says that this is the node that the search finds.
-/

namespace Pinpoint.Ast

/-! ### Nodes in a document -/

mutual

/-- A node and the nodes below it, in the order of the document; none for a value that is no node. -/
def nodesAt : Json → List Json
  | .obj fields =>
    if (Json.Fields.get? fields Node.marker).isSome then .obj fields :: nodesInFields fields else []
  | _ => []

/-- The nodes in the values of fields. The descriptions of types hold none. -/
def nodesInFields : List (String × Json) → List Json
  | [] => []
  | (name, value) :: rest =>
    (if name = "typeDescriptions" then []
      else match value with
        | .arr items => nodesInItems items
        | .obj fields => nodesAt (.obj fields)
        | _ => []) ++ nodesInFields rest

/-- The nodes among the items of a list. -/
def nodesInItems : List Json → List Json
  | [] => []
  | item :: rest => nodesAt item ++ nodesInItems rest

end

/-- The range that a node gives. -/
def rangeOf (node : Json) : Option SourceRange :=
  (SourceRange.ofJson (node.fieldOr "src" .null)).toOption.join

/-- The node declares a variable. -/
def isDeclaration (node : Json) : Bool :=
  (node.fieldOr "nodeType" .null).isText "VariableDeclaration"

/-- The name that a declaration gives. -/
def nameOf (node : Json) : Json := node.fieldOr "name" (.str "")

/-- A type that is an array without a length. -/
def isDynamicArray (type : Json) : Bool :=
  (type.fieldOr "nodeType" (.str "")).isText "ArrayTypeName" &&
    (type.fieldOr "length" .null).isNull

/-- The type that a declaration gives is an array without a length. -/
def hasDynamicType (node : Json) : Bool :=
  isDynamicArray (node.fieldOr "typeName" .null)

/-- The node declares a variable, and its range holds all of `[start, start + length)`. -/
def declaresAround (start length : Int) (node : Json) : Bool :=
  isDeclaration node && (rangeOf node).any (·.contains start length)

/-- The length of the node's range. -/
def widthOf (node : Json) : Int := ((rangeOf node).map SourceRange.length).getD 0

/-- **The innermost declaration around a range,** among the nodes of a document: no other declaration
around the range is narrower, and it comes after those just as narrow. -/
def IsInnermostAround (document : Json) (start length : Int) (node : Json) : Prop :=
  IsInnermost (declaresAround start length) widthOf (nodesAt document) node

/-- What is innermost around a range is a declaration. -/
theorem IsInnermostAround.isDeclaration {document node : Json} {start length : Int}
    (h : IsInnermostAround document start length node) : isDeclaration node = true :=
  (Bool.and_eq_true_iff.mp h.1).1

/-! ### Nodes of the tree that is read -/

/-- A node of a tree has the answers of the object that it was read from. -/
structure Mirrors (node : Json) (n : Node) : Prop where
  src : n.src = rangeOf node
  kind : (n.kind == .variableDeclaration) = isDeclaration node
  dynamic : isDeclaration node = true → n.declaresDynamicArray = hasDynamicType node
  name : isDeclaration node = true → n.declaredName = nameOf node

/-- A value that is one text is no other. -/
theorem isText_eq_false {j : Json} {s t : String} (h : j.isText s = true) (hne : s ≠ t) :
    j.isText t = false := by
  cases j with
  | str u =>
    obtain rfl := eq_of_beq h
    exact beq_eq_false_iff_ne.mpr hne
  | _ => rfl

theorem fieldOr_obj (fields : Json.Fields) (name : String) (default : Json) :
    (Json.obj fields).fieldOr name default = Json.Fields.getD fields name default := rfl

theorem hasField_obj (fields : Json.Fields) (name : String) :
    (Json.obj fields).hasField name = (Json.Fields.get? fields name).isSome := rfl

/-- What a type says about being a dynamic array. -/
def TypeName.isDynamic : Option TypeName → Bool
  | some (.array _ dynamic) => dynamic
  | _ => false

/-- A type that is read is a dynamic array exactly if it is written as one. -/
theorem isDynamic_ofCompact {j : Json} {type : Option TypeName} (h : TypeName.ofCompact j = .ok type) :
    TypeName.isDynamic type = isDynamicArray j := by
  match j, h with
  | .obj [], h =>
    obtain rfl := Except.ok.inj h
    rfl
  | .obj (f :: fields), h =>
    rw [TypeName.ofCompact] at h
    unfold isDynamicArray
    rw [fieldOr_obj, fieldOr_obj]
    split at h
    next helementary =>
      obtain rfl := Except.ok.inj h
      rw [isText_eq_false helementary (by decide), Bool.false_and]
      rfl
    next =>
      split at h
      next harray =>
        obtain ⟨base, -, h⟩ := Except.bind_eq_ok.mp h
        obtain rfl := Except.pure_eq_ok.mp h
        rw [harray, Bool.true_and]
        rfl
      next harray =>
        -- no other type is an array, whatever else can be read of it
        rw [Bool.eq_false_of_not_eq_true harray, Bool.false_and]
        split at h
        next =>
          obtain ⟨key, -, h⟩ := Except.bind_eq_ok.mp h
          obtain ⟨value, -, h⟩ := Except.bind_eq_ok.mp h
          obtain rfl := Except.pure_eq_ok.mp h
          rfl
        next =>
          split at h
          next =>
            obtain ⟨name, -, rfl⟩ := Except.map_eq_ok.mp h
            rfl
          next =>
            obtain rfl := Except.ok.inj h
            rfl
  | .null, h | .bool _, h | .int _, h | .float _, h | .str _, h | .arr _, h =>
    -- what is no object is no type, so at most nothing is read
    unfold TypeName.ofCompact at h
    split at h
    · obtain rfl := Except.ok.inj h
      rfl
    · cases h

theorem ofCompactField_eq (name : String) (fields : Json.Fields) :
    TypeName.ofCompactField name fields
      = ((Json.Fields.get? fields name).map TypeName.ofCompact).getD (.ok none) := by
  induction fields with
  | nil => rfl
  | cons f rest ih =>
    obtain ⟨n, value⟩ := f
    rw [TypeName.ofCompactField, Json.Fields.get?_cons, ih]
    split <;> rfl

theorem declaresDynamicArray_mk (nodeType : Json) (src : Option SourceRange) (name : Json)
    (type : Option TypeName) (children : List Node) :
    (⟨nodeType, src, some ⟨name, type⟩, children⟩ : Node).declaresDynamicArray
      = TypeName.isDynamic type := by
  rcases type with _ | (_ | _ | _ | _ | _) <;> rfl

/-- The root of a tree mirrors the object that it was read from. -/
theorem mirrors_root {fields : Json.Fields} {src : Option SourceRange} {declaration : Option Declaration}
    {children : List Node}
    (hsrc : SourceRange.ofJson (Json.Fields.getD fields "src" .null) = .ok src)
    (hdecl : Node.compactDeclaration (Json.Fields.getD fields Node.marker .null) fields = .ok declaration) :
    Mirrors (.obj fields) ⟨Json.Fields.getD fields Node.marker .null, src, declaration, children⟩ := by
  have hrange : src = rangeOf (.obj fields) := by
    rw [rangeOf, fieldOr_obj, hsrc]
    rfl
  unfold Node.compactDeclaration at hdecl
  split at hdecl
  next hvariable =>
    obtain ⟨type, htype, hdecl⟩ := Except.bind_eq_ok.mp hdecl
    obtain rfl := Except.pure_eq_ok.mp hdecl
    refine ⟨hrange, hvariable.symm, fun _ => ?_, fun _ => rfl⟩
    rw [declaresDynamicArray_mk, hasDynamicType, fieldOr_obj, Json.Fields.getD]
    rw [ofCompactField_eq] at htype
    cases hfield : Json.Fields.get? fields "typeName" with
    | none =>
      rw [hfield] at htype
      obtain rfl := Except.ok.inj htype
      rfl
    | some value =>
      rw [hfield] at htype
      exact isDynamic_ofCompact htype
  next hother =>
    -- of a node that declares nothing only its range is asked
    obtain rfl := Except.ok.inj hdecl
    have hnot : isDeclaration (.obj fields) = false := Bool.eq_false_of_not_eq_true hother
    refine ⟨hrange, hnot.symm, fun h => ?_, fun h => ?_⟩
    · rw [hnot] at h
      cases h
    · rw [hnot] at h
      cases h

/-! ### What is read from one value -/

/-- The node read from a value, none if it is no node. -/
def Node.compactItem (item : Json) : Except Error (List Node) :=
  if item.hasField Node.marker then (Node.ofCompact item).map ([·]) else .ok []

/-- The nodes read from a field. -/
def Node.compactField (name : String) (value : Json) : Except Error (List Node) :=
  if name = "typeDescriptions" then .ok []
  else match value with
    | .arr items => Node.compactItems items
    | value => Node.compactItem value

theorem nodesInFields_cons (name : String) (value : Json) (rest : Json.Fields) :
    nodesInFields ((name, value) :: rest)
      = (if name = "typeDescriptions" then []
          else match value with
            | .arr items => nodesInItems items
            | value => nodesAt value) ++ nodesInFields rest := by
  cases value <;> rfl

theorem Node.compactItems_cons (item : Json) (rest : List Json) :
    Node.compactItems (item :: rest) = do
      let here ← Node.compactItem item
      let others ← Node.compactItems rest
      return here ++ others := by
  rw [Node.compactItems, Node.compactItem]
  split <;> rfl

theorem Node.compactChildren_cons (name : String) (value : Json) (rest : Json.Fields) :
    Node.compactChildren ((name, value) :: rest) = do
      let here ← Node.compactField name value
      let others ← Node.compactChildren rest
      return here ++ others := by
  by_cases hname : name = "typeDescriptions"
  · cases value <;> simp [Node.compactChildren, Node.compactField, hname]
  · cases value with
    | obj fields =>
      have hfield : Node.compactField name (.obj fields) = Node.compactItem (.obj fields) :=
        if_neg hname
      rw [hfield, Node.compactItem, hasField_obj, Node.compactChildren, if_neg hname]
      split <;> rfl
    | _ => simp [Node.compactChildren, Node.compactField, Node.compactItem, Json.hasField, hname]

/-! ### The tree and its document -/

-- by recursion on the document, as it is read: a value, its fields, and the items of a list
mutual

/-- What is read from a value mirrors the nodes in it. -/
theorem mirrors_compactItem {item : Json} {ns : List Node} (h : Node.compactItem item = .ok ns) :
    List.Forall₂ Mirrors (nodesAt item) (Node.preorderAll ns) := by
  match item, h with
  | .obj fields, h =>
    unfold Node.compactItem at h
    unfold nodesAt
    rw [Json.hasField] at h
    split at h
    next hmarked =>
      obtain ⟨n, hn, rfl⟩ := Except.map_eq_ok.mp h
      obtain ⟨src, hsrc, hn⟩ := Except.bind_eq_ok.mp hn
      obtain ⟨children, hchildren, hn⟩ := Except.bind_eq_ok.mp hn
      obtain ⟨declaration, hdecl, hn⟩ := Except.bind_eq_ok.mp hn
      obtain rfl := Except.pure_eq_ok.mp hn
      rw [if_pos hmarked, Node.preorderAll, Node.preorderAll, List.append_nil, Node.preorder]
      exact .cons (mirrors_root hsrc hdecl) (mirrors_compactChildren hchildren)
    next hunmarked =>
      obtain rfl := Except.ok.inj h
      rw [if_neg hunmarked]
      exact .nil
  | .null, h | .bool _, h | .int _, h | .float _, h | .str _, h | .arr _, h =>
    obtain rfl := Except.ok.inj h
    exact .nil

theorem mirrors_compactChildren {fields : List (String × Json)} {ns : List Node}
    (h : Node.compactChildren fields = .ok ns) :
    List.Forall₂ Mirrors (nodesInFields fields) (Node.preorderAll ns) := by
  match fields, h with
  | [], h =>
    obtain rfl := Except.ok.inj h
    exact .nil
  | (name, value) :: rest, h =>
    rw [Node.compactChildren_cons] at h
    obtain ⟨here, hhere, h⟩ := Except.bind_eq_ok.mp h
    obtain ⟨others, hothers, h⟩ := Except.bind_eq_ok.mp h
    obtain rfl := Except.pure_eq_ok.mp h
    rw [nodesInFields_cons, Node.preorderAll_append]
    refine List.rel_append ?_ (mirrors_compactChildren hothers)
    unfold Node.compactField at hhere
    split at hhere
    next hname =>
      obtain rfl := Except.ok.inj hhere
      rw [if_pos hname]
      exact .nil
    next hname =>
      rw [if_neg hname]
      match value, hhere with
      | .arr items, hhere => exact mirrors_compactItems hhere
      | .obj fields, hhere => exact mirrors_compactItem hhere
      | .null, hhere | .bool _, hhere | .int _, hhere | .float _, hhere | .str _, hhere =>
        exact mirrors_compactItem hhere

theorem mirrors_compactItems {items : List Json} {ns : List Node}
    (h : Node.compactItems items = .ok ns) :
    List.Forall₂ Mirrors (nodesInItems items) (Node.preorderAll ns) := by
  match items, h with
  | [], h =>
    obtain rfl := Except.ok.inj h
    exact .nil
  | item :: rest, h =>
    rw [Node.compactItems_cons] at h
    obtain ⟨here, hhere, h⟩ := Except.bind_eq_ok.mp h
    obtain ⟨others, hothers, h⟩ := Except.bind_eq_ok.mp h
    obtain rfl := Except.pure_eq_ok.mp h
    rw [nodesInItems, Node.preorderAll_append]
    exact List.rel_append (mirrors_compactItem hhere) (mirrors_compactItems hothers)

end

/-- **A tree mirrors its document,** node by node. -/
theorem mirrors_ofCompact {j : Json} {n : Node} (hmarked : j.hasField Node.marker = true)
    (h : Node.ofCompact j = .ok n) : List.Forall₂ Mirrors (nodesAt j) n.preorder := by
  have hitem : Node.compactItem j = .ok [n] := by
    rw [Node.compactItem, if_pos hmarked, h]
    rfl
  have hmirrors := mirrors_compactItem hitem
  rwa [Node.preorderAll, Node.preorderAll, List.append_nil] at hmirrors

/-! ### The search and the document -/

/-- The node has the same range as the object that it was read from. -/
theorem Mirrors.width_eq {node : Json} {n : Node} (h : Mirrors node n) : widthOf node = n.width := by
  rw [widthOf, ← h.src, Node.width_eq_getD]

theorem Mirrors.covers_eq {node : Json} {n : Node} (h : Mirrors node n) (start length : Int) :
    declaresAround start length node
      = (n.encloses start length && n.kind == .variableDeclaration) := by
  rw [declaresAround, ← h.src, ← h.kind, Node.encloses_eq_any, Bool.and_comm]

/-- **The search finds the innermost declaration of the document:** it finds a node exactly if the document
has one, and the node that it finds has the answers of that one. -/
theorem enclosing?_of_mirrors {document : Json} {root : Node}
    (h : List.Forall₂ Mirrors (nodesAt document) root.preorder) (start length : Int) :
    (∀ n, root.enclosing? start length .variableDeclaration = some n →
      ∃ node, Mirrors node n ∧ IsInnermostAround document start length node) ∧
    ∀ node, IsInnermostAround document start length node →
      ∃ n, Mirrors node n ∧ root.enclosing? start length .variableDeclaration = some n := by
  constructor
  · intro n hn
    rw [Node.enclosing?_eq_some_iff] at hn
    exact IsInnermost.exists_of_forall₂ (fun _ _ hm => hm.covers_eq start length)
      (fun _ _ hm => hm.width_eq) h hn
  · intro node hnode
    have hcovers : ∀ (n : Node) (other : Json), Mirrors other n →
        (n.encloses start length && n.kind == .variableDeclaration)
          = declaresAround start length other :=
      fun _ _ hm => (hm.covers_eq start length).symm
    have hwidth : ∀ (n : Node) (other : Json), Mirrors other n → n.width = widthOf other :=
      fun _ _ hm => hm.width_eq.symm
    -- innermost is the same thing on both sides, so it goes over from the document to the tree as well
    obtain ⟨n, hn, hinner⟩ := IsInnermost.exists_of_forall₂ hcovers hwidth h.flip hnode
    exact ⟨n, hn, (Node.enclosing?_eq_some_iff root start length .variableDeclaration n).mpr hinner⟩

end Pinpoint.Ast
