import Pinpoint.Json.Access
import Pinpoint.Text.Integer
import Pinpoint.Text.Split

/-!
# Syntax trees

The compiler's syntax tree, cut down to what the classification of a finding needs: every node has a type
and a source range, and a variable declaration has its name and its declared type. `Node.preorder` lists
a node before its descendants, from left to right. `Node.walk` visits the nodes with a stack of those
that are still to come.
-/

namespace Pinpoint.Ast

/-- A range of a source file. -/
structure SourceRange where
  start : Int
  length : Int
  fileIndex : Int
  deriving DecidableEq, Repr

namespace SourceRange

/-- The range holds all of `[start, start + length)`. -/
def contains (r : SourceRange) (start length : Int) : Bool :=
  r.start ≤ start && start + length ≤ r.start + r.length

/-- Reads `start:length` or `start:length:fileIndex`, in the loose notation for integers. What follows a
third colon does not count, and the file index is -1 if it is missing. -/
def ofText? (cs : List Char) : Option SourceRange :=
  match ((Text.splitOn ':' cs).take 3).mapM Text.readLoose? with
  | some [start, length] => some ⟨start, length, -1⟩
  | some [start, length, fileIndex] => some ⟨start, length, fileIndex⟩
  | _ => none

/-- The range that a field of a node gives; none if it gives nothing or cannot be read. -/
def ofJson (j : Json) : Except Error (Option SourceRange) :=
  if j.isBare then .ok none else j.text.map fun s => ofText? s.toList

end SourceRange

/-- The declared type of a variable, as far as it matters. -/
inductive TypeName where
  | elementary (name : Json)
  /-- An array of elements; its length is fixed unless it is dynamic. -/
  | array (base : TypeName) (dynamic : Bool)
  | mapping (key value : TypeName)
  | userDefined (name : Json)
  | other (nodeType : Json)
  deriving Repr

/-- The type that stands for one that is not given. -/
def TypeName.missing : TypeName := .other (.str "")

/-- What a variable declaration says besides its range. -/
structure Declaration where
  name : Json
  typeName : Option TypeName
  deriving Repr

/-- A node of a syntax tree. -/
structure Node where
  nodeType : Json
  src : Option SourceRange
  declaration : Option Declaration
  children : List Node
  deriving Repr

/-- The kinds of nodes that are told apart. -/
inductive NodeKind where
  | variableDeclaration
  | other
  deriving DecidableEq, Repr

namespace Node

/-- The kind of a node. -/
def kind (n : Node) : NodeKind :=
  if n.declaration.isSome then .variableDeclaration else .other

/-- A declaration of a variable whose type is an array without a fixed length. -/
def declaresDynamicArray (n : Node) : Bool :=
  match n.declaration with
  | some ⟨_, some (.array _ dynamic)⟩ => dynamic
  | _ => false

/-- The declared name; null for a node that declares nothing. -/
def declaredName (n : Node) : Json :=
  match n.declaration with
  | some d => d.name
  | none => .null

mutual

/-- The number of nodes of a tree. -/
def count : Node → Nat
  | ⟨_, _, _, children⟩ => countAll children + 1

/-- The number of nodes of several trees. -/
def countAll : List Node → Nat
  | [] => 0
  | n :: rest => count n + countAll rest

end

mutual

/-- The nodes of a tree: the root, then the nodes below it from left to right. -/
def preorder : Node → List Node
  | ⟨nodeType, src, declaration, children⟩ =>
    ⟨nodeType, src, declaration, children⟩ :: preorderAll children

/-- The nodes of several trees, one tree after the other. -/
def preorderAll : List Node → List Node
  | [] => []
  | n :: rest => preorder n ++ preorderAll rest

end

theorem count_eq (n : Node) : n.count = countAll n.children + 1 := by
  cases n
  rfl

theorem countAll_append (xs ys : List Node) : countAll (xs ++ ys) = countAll xs + countAll ys := by
  induction xs with
  | nil => simp [countAll]
  | cons n rest ih => simp [countAll, ih, Nat.add_assoc]

/-- Visits the trees on a stack, the topmost first: takes a node off and puts its children on. -/
def walkFrom : List Node → List Node
  | [] => []
  | n :: rest => n :: walkFrom (n.children ++ rest)
termination_by stack => countAll stack
decreasing_by
  rw [countAll_append]
  simp only [countAll, count_eq]
  omega

/-- Visits all nodes of a tree. -/
def walk (root : Node) : List Node :=
  walkFrom [root]

end Node

end Pinpoint.Ast
