import Pinpoint.Proofs.Ast.Places

/-!
# The walk with a stack

A walk goes on in turns (`StackWalk.turn`): the topmost tree is taken off the stack, its root is visited, and the
trees below the root are put on in its place, the first one on top. The stack shrinks and grows, so neither its
height nor its order says that the walk ends or what it will visit. Two quantities of the whole stack do:

* the nodes that have been visited, followed by those that a walk from the stack will visit, are the same list before
  and after a turn (`StackWalk.agenda_turn`);
* a turn takes away one of the nodes on the stack as long as there are any (`StackWalk.remaining_turn`).

So `k` turns have visited the first `k` nodes of the walk, and the walk is over after as many turns as there are
nodes, and not before (`StackWalk.visited_iterate`, `StackWalk.stack_iterate_eq_nil_iff`).

A node may occur in a tree several times. What is visited is an occurrence, that is, a place: pre-order is the
ascending order of the places (`Node.places`), in which an ancestor comes before its descendants and a child with
all that is below it before the next one. Both sides meet in `Node.walk_visits_places`.
-/

namespace Pinpoint.Ast

/-- A walk under way: the trees that are still to come, the topmost first, and the nodes visited so far. -/
structure StackWalk where
  stack : List Node
  visited : List Node

namespace StackWalk

/-- Nothing is visited yet, and the whole tree is still to come. -/
def start (root : Node) : StackWalk := ⟨[root], []⟩

/-- One turn of the walk; nothing happens when the stack is empty. -/
def turn (w : StackWalk) : StackWalk :=
  match w.stack with
  | [] => w
  | n :: rest => ⟨n.children ++ rest, w.visited ++ [n]⟩

/-- What the walk will have visited in the end. -/
def agenda (w : StackWalk) : List Node := w.visited ++ Node.walkFrom w.stack

/-- The number of nodes that are still to come. -/
def remaining (w : StackWalk) : Nat := Node.countAll w.stack

/-- A turn of a walk that is not over. -/
theorem turn_cons (n : Node) (rest visited : List Node) :
    turn ⟨n :: rest, visited⟩ = ⟨n.children ++ rest, visited ++ [n]⟩ := rfl

/-- **A turn leaves the agenda as it is.** -/
theorem agenda_turn (w : StackWalk) : w.turn.agenda = w.agenda := by
  obtain ⟨stack, visited⟩ := w
  cases stack with
  | nil => rfl
  | cons n rest =>
    rw [turn_cons, agenda, agenda, Node.walkFrom, List.append_assoc, List.singleton_append]

/-- **A turn takes one node off** those that are still to come. -/
theorem remaining_turn (w : StackWalk) : w.turn.remaining = w.remaining - 1 := by
  obtain ⟨stack, visited⟩ := w
  cases stack with
  | nil => rfl
  | cons n rest =>
    rw [turn_cons, remaining, remaining, Node.countAll_append, Node.countAll, Node.count_eq]
    omega

theorem remaining_eq_zero_iff (w : StackWalk) : w.remaining = 0 ↔ w.stack = [] := by
  obtain ⟨stack, visited⟩ := w
  cases stack with
  | nil => exact ⟨fun _ => rfl, fun _ => rfl⟩
  | cons n rest =>
    have hpos : 0 < remaining ⟨n :: rest, visited⟩ := by
      rw [remaining, Node.countAll, Node.count_eq]
      omega
    exact ⟨fun h => absurd h hpos.ne', fun h => absurd h (List.cons_ne_nil n rest)⟩

/-! ### Many turns -/

theorem agenda_iterate (w : StackWalk) (k : Nat) : (turn^[k] w).agenda = w.agenda := by
  induction k with
  | zero => rfl
  | succ k ih => rw [Function.iterate_succ_apply', agenda_turn, ih]

theorem remaining_iterate (w : StackWalk) (k : Nat) : (turn^[k] w).remaining = w.remaining - k := by
  induction k with
  | zero => rfl
  | succ k ih => rw [Function.iterate_succ_apply', remaining_turn, ih, Nat.sub_sub]

/-- All nodes that are still to come will be visited. -/
theorem length_walkFrom (ns : List Node) : (Node.walkFrom ns).length = Node.countAll ns := by
  fun_induction Node.walkFrom ns with
  | case1 => rfl
  | case2 n rest ih =>
    rw [List.length_cons, ih, Node.countAll_append, Node.countAll, Node.count_eq]
    omega

variable (root : Node)

theorem remaining_start : (start root).remaining = root.walk.length := (length_walkFrom [root]).symm

/-- **The walk is over** after as many turns as there are nodes, and not before. -/
theorem stack_iterate_eq_nil_iff (k : Nat) :
    (turn^[k] (start root)).stack = [] ↔ root.walk.length ≤ k := by
  rw [← remaining_eq_zero_iff, remaining_iterate, remaining_start, Nat.sub_eq_zero_iff_le]

/-- **So many turns, so many nodes:** the first ones of the walk. -/
theorem visited_iterate (k : Nat) : (turn^[k] (start root)).visited = root.walk.take k := by
  have hagenda : (turn^[k] (start root)).agenda = root.walk := agenda_iterate (start root) k
  have hremaining : (turn^[k] (start root)).remaining = root.walk.length - k := by
    rw [remaining_iterate, remaining_start]
  rw [agenda] at hagenda
  rcases Nat.le_total k root.walk.length with hk | hk
  · -- what has been visited is what the walk holds besides the nodes that are still to come
    have hlength := congrArg List.length hagenda
    rw [List.length_append, length_walkFrom, ← remaining, hremaining] at hlength
    have hvisited : (turn^[k] (start root)).visited.length = k := by omega
    rw [← hagenda, List.take_left' hvisited]
  · have hover := (stack_iterate_eq_nil_iff root k).mpr hk
    rw [hover, Node.walkFrom, List.append_nil] at hagenda
    rw [hagenda, List.take_of_length_le hk]

end StackWalk

/-! ### Pre-order as an order of places -/

namespace Node

mutual

/-- The places of a tree, an ancestor before its descendants and a child before the next one. -/
def places : Node → List (List Nat)
  | ⟨_, _, _, children⟩ => [] :: placesFrom 0 children

/-- The places of several trees that are the children of a node, the first of them with number `i`. -/
def placesFrom (i : Nat) : List Node → List (List Nat)
  | [] => []
  | n :: rest => (places n).map (i :: ·) ++ placesFrom (i + 1) rest

end

variable {n m : Node} {p : List Nat}

theorem places_eq (n : Node) : n.places = [] :: placesFrom 0 n.children := by
  cases n
  rfl

theorem mem_placesFrom {i : Nat} {ns : List Node} : p ∈ placesFrom i ns ↔
    ∃ (j : Nat) (c : Node) (q : List Nat), ns[j]? = some c ∧ q ∈ c.places ∧ p = (i + j) :: q := by
  induction ns generalizing i with
  | nil => simp [placesFrom]
  | cons first ns ih =>
    rw [placesFrom, List.mem_append, List.mem_map, ih]
    constructor
    · rintro (⟨q, hq, rfl⟩ | ⟨j, c, q, hc, hq, rfl⟩)
      · exact ⟨0, first, q, rfl, hq, rfl⟩
      · exact ⟨j + 1, c, q, hc, hq, by rw [Nat.add_right_comm, Nat.add_assoc]⟩
    · rintro ⟨j, c, q, hc, hq, rfl⟩
      cases j with
      | zero =>
        obtain rfl := Option.some.inj hc
        exact .inl ⟨q, hq, rfl⟩
      | succ j => exact .inr ⟨j, c, q, hc, hq, by rw [Nat.add_right_comm, Nat.add_assoc]⟩

/-- The list of places is complete. -/
theorem mem_places : p ∈ n.places ↔ ∃ m, n.at? p = some m := by
  induction p generalizing n with
  | nil => simp [places_eq]
  | cons i p ih =>
    have hroot : i :: p ≠ [] := List.cons_ne_nil i p
    rw [places_eq, List.mem_cons, or_iff_right hroot, mem_placesFrom]
    simp only [at?_cons_eq_some]
    constructor
    · rintro ⟨j, c, q, hc, hq, heq⟩
      rw [Nat.zero_add] at heq
      obtain ⟨rfl, rfl⟩ := List.cons.inj heq
      obtain ⟨m, hm⟩ := ih.mp hq
      exact ⟨m, c, hc, hm⟩
    · rintro ⟨m, c, hc, hm⟩
      exact ⟨i, c, p, hc, ih.mpr ⟨m, hm⟩, by rw [Nat.zero_add]⟩

/-- Places in ascending order stay so below the children of a node. -/
theorem pairwise_placesFrom {i : Nat} {ns : List Node} (h : ∀ c ∈ ns, c.places.Pairwise (· < ·)) :
    (placesFrom i ns).Pairwise (· < ·) := by
  induction ns generalizing i with
  | nil => exact List.Pairwise.nil
  | cons first ns ih =>
    obtain ⟨hfirst, hrest⟩ := List.forall_mem_cons.mp h
    rw [placesFrom, List.pairwise_append, List.pairwise_map]
    refine ⟨hfirst.imp fun hlt => List.cons_lt_cons_self.mpr hlt, ih hrest, ?_⟩
    -- a place below the first child starts with a smaller number than all others
    intro p hp q hq
    obtain ⟨p', -, rfl⟩ := List.mem_map.mp hp
    obtain ⟨j, c, q', -, -, rfl⟩ := mem_placesFrom.mp hq
    exact List.cons_lt_cons_iff.mpr (.inl (by omega))

/-- **The places are listed in ascending order.** -/
theorem pairwise_places (n : Node) : n.places.Pairwise (· < ·) := by
  induction n using inductionOn with
  | step n ih =>
    rw [places_eq, List.pairwise_cons]
    refine ⟨fun p hp => ?_, pairwise_placesFrom ih⟩
    obtain ⟨j, c, q, -, -, rfl⟩ := mem_placesFrom.mp hp
    exact List.nil_lt_cons _ _

/-- What stands at the places below some of the children, from the one with number `i` on. -/
theorem map_at?_placesFrom {i : Nat} {ns : List Node} (hns : n.children.drop i = ns)
    (h : ∀ c ∈ ns, c.places.map c.at? = c.preorder.map some) :
    (placesFrom i ns).map n.at? = (preorderAll ns).map some := by
  induction ns generalizing i with
  | nil => rfl
  | cons first ns ih =>
    obtain ⟨hfirst, hrest⟩ := List.forall_mem_cons.mp h
    have hchild : n.children[i]? = some first := by
      rw [← List.head?_drop, hns]
      rfl
    have hdrop : n.children.drop (i + 1) = ns := by
      rw [← List.tail_drop, hns]
      rfl
    have hbelow : n.at? ∘ (i :: ·) = first.at? := by
      funext p
      rw [Function.comp_apply, at?_cons, hchild]
      rfl
    rw [placesFrom, preorderAll, List.map_append, List.map_append, List.map_map, hbelow, hfirst,
      ih hdrop hrest]

/-- **The pre-order** is what stands at the places, one after the other. -/
theorem map_at?_places (n : Node) : n.places.map n.at? = n.preorder.map some := by
  induction n using inductionOn with
  | step n ih =>
    rw [places_eq, preorder_eq, List.map_cons, List.map_cons, at?_nil,
      map_at?_placesFrom List.drop_zero ih]

/-! ### What a walk visits -/

/-- The root, and then the walks through its children from left to right. -/
theorem walk_eq_cons (n : Node) : n.walk = n :: n.children.flatMap walk := by
  have hwalk : walk = preorder := funext walk_eq_preorder
  rw [hwalk, preorder_eq, preorderAll_eq_flatMap]

/-- **The walk with a stack is the recursive pre-order,** for every tree: it consists of the root and the walks
through its children, from left to right; it is reached in as many turns of the stack as there are nodes and in no
fewer, and `k` turns have visited its first `k` nodes; and it visits what stands at the places of the tree, in the
ascending order of all of them, each place once. -/
theorem walk_visits_places (root : Node) :
    (root.walk = root.preorder ∧ root.walk = root :: root.children.flatMap walk) ∧
    (∀ k, (StackWalk.turn^[k] (.start root)).visited = root.walk.take k ∧
      ((StackWalk.turn^[k] (.start root)).stack = [] ↔ root.walk.length ≤ k)) ∧
    ∃ visits : List (List Nat), visits.Pairwise (· < ·) ∧ (∀ p, p ∈ visits ↔ ∃ m, root.at? p = some m) ∧
      root.walk.map some = visits.map root.at? := by
  refine ⟨⟨walk_eq_preorder root, walk_eq_cons root⟩, fun k => ⟨?_, ?_⟩, root.places, pairwise_places root,
    fun p => mem_places, ?_⟩
  · exact StackWalk.visited_iterate root k
  · exact StackWalk.stack_iterate_eq_nil_iff root k
  · rw [walk_eq_preorder, map_at?_places]

end Node

end Pinpoint.Ast
