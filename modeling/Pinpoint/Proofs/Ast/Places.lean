import Pinpoint.Proofs.Ast.Innermost

/-!
# Places in a tree

A node can occur in a tree several times, so what is said of nodes and their ancestors is said of places. A place is
the list of the numbers of the children that lead to it from the root (`at?`), and its ancestors are its prefixes.

The nodes of the pre-order are those at the places (`mem_preorder_iff`). The nodes below a place stand right behind
the node at the place: wherever the pre-order is cut, what follows begins with a whole tree
(`exists_at?_of_preorder_eq`).
-/

namespace Pinpoint.Ast.Node

variable {n m c : Node} {i : Nat} {p q : List Nat}

/-- The node at a place; none if there is no such place in the tree. -/
def at? (n : Node) : List Nat → Option Node
  | [] => some n
  | i :: rest => n.children[i]?.bind (·.at? rest)

@[simp] theorem at?_nil (n : Node) : n.at? [] = some n := rfl

theorem at?_cons (n : Node) (i : Nat) (p : List Nat) :
    n.at? (i :: p) = n.children[i]?.bind (·.at? p) := rfl

theorem at?_cons_eq_some : n.at? (i :: p) = some m ↔ ∃ c, n.children[i]? = some c ∧ c.at? p = some m := by
  rw [at?_cons, Option.bind_eq_some_iff]

/-- The way to a place leads through its ancestors. -/
theorem at?_append (n : Node) (p q : List Nat) : n.at? (p ++ q) = (n.at? p).bind (·.at? q) := by
  induction p generalizing n with
  | nil => rfl
  | cons i p ih =>
    rw [List.cons_append, at?_cons, at?_cons]
    cases n.children[i]? with
    | none => rfl
    | some c => exact ih c

/-! ### From the children to the node -/

theorem count_le_countAll {ns : List Node} (h : c ∈ ns) : c.count ≤ countAll ns := by
  induction ns with
  | nil => cases h
  | cons first ns ih =>
    rw [countAll]
    rcases List.mem_cons.mp h with rfl | h
    · exact Nat.le_add_right _ _
    · exact (ih h).trans (Nat.le_add_left _ _)

/-- A child has fewer nodes than its parent. -/
theorem count_lt_of_mem_children (h : c ∈ n.children) : c.count < n.count := by
  rw [count_eq n]
  exact Nat.lt_succ_of_le (count_le_countAll h)

/-- **From the leaves upwards:** what holds of a node if it holds of its children holds of all nodes. -/
theorem inductionOn {motive : Node → Prop} (n : Node)
    (step : ∀ n : Node, (∀ c ∈ n.children, motive c) → motive n) : motive n := by
  induction hcount : n.count using Nat.strong_induction_on generalizing n with
  | h k ih =>
    subst hcount
    exact step n fun c hc => ih c.count (count_lt_of_mem_children hc) c rfl

/-! ### Places in the pre-order -/

theorem preorderAll_eq_flatMap (ns : List Node) : preorderAll ns = ns.flatMap preorder := by
  induction ns with
  | nil => rfl
  | cons n ns ih => rw [preorderAll, List.flatMap_cons, ih]

/-- What comes behind a node among several trees begins with what comes behind it in its own tree. -/
theorem exists_child_of_preorderAll_eq {ns before after : List Node}
    (h : preorderAll ns = before ++ m :: after) :
    ∃ (i : Nat) (c : Node) (front back rest : List Node),
      ns[i]? = some c ∧ c.preorder = front ++ m :: back ∧ after = back ++ rest := by
  induction ns generalizing before with
  | nil =>
    have hnil : before ++ m :: after = [] := h.symm
    exact absurd (List.append_eq_nil_iff.mp hnil).2 (List.cons_ne_nil m after)
  | cons first ns ih =>
    rw [preorderAll] at h
    -- the node is in the first tree, or else in one of the others
    have hwhere : (∃ back, first.preorder = before ++ m :: back ∧ after = back ++ preorderAll ns) ∨
        ∃ front, preorderAll ns = front ++ m :: after := by
      rcases List.append_eq_append_iff.mp h with ⟨front, -, hfront⟩ | ⟨part, hfirst, hpart⟩
      · exact .inr ⟨front, hfront⟩
      · cases part with
        | nil => exact .inr ⟨[], hpart.symm⟩
        | cons m' back =>
          obtain ⟨rfl, hafter⟩ := List.cons.inj hpart
          exact .inl ⟨back, hfirst, hafter⟩
    rcases hwhere with ⟨back, hfirst, hafter⟩ | ⟨front, hfront⟩
    · exact ⟨0, first, before, back, preorderAll ns, rfl, hfirst, hafter⟩
    · obtain ⟨i, c, front, back, rest, hc, hcut, hafter⟩ := ih hfront
      exact ⟨i + 1, c, front, back, rest, hc, hcut, hafter⟩

/-- **Every node of the pre-order stands at a place,** and the nodes below it come right behind it. -/
theorem exists_at?_of_preorder_eq {before after : List Node} (h : n.preorder = before ++ m :: after) :
    ∃ p rest, n.at? p = some m ∧ after = preorderAll m.children ++ rest := by
  induction n using inductionOn generalizing before after with
  | step n ih =>
    rw [preorder_eq] at h
    cases before with
    | nil =>
      -- the root itself
      obtain ⟨rfl, rfl⟩ := List.cons.inj h
      exact ⟨[], [], rfl, (List.append_nil _).symm⟩
    | cons first before =>
      obtain ⟨-, hchildren⟩ := List.cons.inj h
      obtain ⟨i, c, front, back, rest, hc, hcut, rfl⟩ := exists_child_of_preorderAll_eq hchildren
      obtain ⟨p, more, hp, rfl⟩ := ih c (List.mem_of_getElem? hc) hcut
      exact ⟨i :: p, more ++ rest, at?_cons_eq_some.mpr ⟨c, hc, hp⟩, List.append_assoc _ _ _⟩

/-- **The nodes of the pre-order** are the nodes at the places of the tree. -/
theorem mem_preorder_iff : m ∈ n.preorder ↔ ∃ p, n.at? p = some m := by
  constructor
  · intro h
    obtain ⟨before, after, hcut⟩ := List.append_of_mem h
    obtain ⟨p, -, hp, -⟩ := exists_at?_of_preorder_eq hcut
    exact ⟨p, hp⟩
  · rintro ⟨p, hp⟩
    induction p generalizing n with
    | nil =>
      obtain rfl := Option.some.inj hp
      rw [preorder_eq]
      exact List.mem_cons_self
    | cons i p ih =>
      obtain ⟨c, hc, hp⟩ := at?_cons_eq_some.mp hp
      rw [preorder_eq, preorderAll_eq_flatMap]
      exact List.mem_cons_of_mem n (List.mem_flatMap_of_mem (List.mem_of_getElem? hc) (ih hp))

/-- What stands below a node is among what comes behind it. -/
theorem mem_preorderAll_children (h : n.at? (i :: p) = some m) : m ∈ preorderAll n.children := by
  obtain ⟨c, hc, hp⟩ := at?_cons_eq_some.mp h
  rw [preorderAll_eq_flatMap]
  exact List.mem_flatMap_of_mem (List.mem_of_getElem? hc) (mem_preorder_iff.mpr ⟨p, hp⟩)

end Pinpoint.Ast.Node
