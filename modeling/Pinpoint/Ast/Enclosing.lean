import Pinpoint.Ast.Basic

/-!
# The node around a range

`Node.enclosing?` finds, among the nodes of one kind whose range holds a given range, the one with the
least length. Of several with that length it takes the one visited last, so that a child goes before a
parent with the same range.
-/

namespace Pinpoint.Ast.Node

/-- The node has a range, and it holds all of `[start, start + length)`. -/
def encloses (n : Node) (start length : Int) : Bool :=
  match n.src with
  | some r => r.contains start length
  | none => false

/-- The length of the node's range; zero for a node without one. -/
def width (n : Node) : Int :=
  match n.src with
  | some r => r.length
  | none => 0

/-- The better of the narrowest node so far and a later one: the later one unless it is wider. -/
def inner (best : Option Node) (candidate : Node) : Option Node :=
  match best with
  | none => some candidate
  | some b => if candidate.width ≤ b.width then some candidate else some b

/-- The innermost node of a kind around `[start, start + length)`. -/
def enclosing? (root : Node) (start length : Int) (kind : NodeKind) : Option Node :=
  (root.walk.filter fun n => n.encloses start length && n.kind == kind).foldl inner none

end Pinpoint.Ast.Node
