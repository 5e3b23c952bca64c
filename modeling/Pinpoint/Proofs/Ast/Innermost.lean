import Pinpoint.Ast.Enclosing
import Pinpoint.Proofs.Trace

/-!
# The innermost node around a range

The search for the node around a range goes through the nodes with a stack and keeps the narrowest so far,
giving way to a later one that is just as narrow. Here both are said without a state. The stack visits the
nodes in pre-order (`walkFrom_eq_preorderAll`), and what the search keeps is the *innermost* of the nodes
around the range (`IsInnermost`): no other is narrower, and of those just as narrow it is the last one
(`enclosing?_eq_some_iff`).

`IsInnermost` speaks of any list of things with widths, so it carries over from one list to another that
agrees with it element by element (`IsInnermost.exists_of_forall₂`). In this way the search in a tree is
compared with one in the document that the tree was read from.

For a single tree, `enclosing?_finds_narrowest` says what is found without the help of lists cut in two: the
narrowest of the nodes that surround the range (`Surrounds`), and the last of these in pre-order.
-/

namespace Pinpoint.Ast

variable {α β : Type}

/-! ### The innermost element of a list -/

/-- **The innermost of the elements that cover:** none of the others is narrower, and it comes after those
that are just as narrow. -/
def IsInnermost (covers : α → Bool) (width : α → Int) (xs : List α) (x : α) : Prop :=
  covers x = true ∧ ∃ before after, xs = before ++ x :: after ∧
    (∀ y ∈ before, covers y = true → width x ≤ width y) ∧
    ∀ y ∈ after, covers y = true → width x < width y

section IsInnermost

variable {covers : α → Bool} {width : α → Int} {xs : List α} {x y : α}

theorem IsInnermost.mem (h : IsInnermost covers width xs x) : x ∈ xs := by
  obtain ⟨-, before, after, rfl, -⟩ := h
  exact List.mem_append_right before List.mem_cons_self

/-- Nothing that covers is narrower than the innermost element. -/
theorem IsInnermost.width_le (h : IsInnermost covers width xs x) (hy : y ∈ xs)
    (hcovers : covers y = true) : width x ≤ width y := by
  obtain ⟨-, before, after, rfl, hbefore, hafter⟩ := h
  rcases List.mem_append.mp hy with hy | hy
  · exact hbefore y hy hcovers
  · rcases List.mem_cons.mp hy with rfl | hy
    · exact le_rfl
    · exact le_of_lt (hafter y hy hcovers)

/-- With one more element at the end, either this is the innermost one now, or the innermost one stays
because it is strictly narrower. -/
theorem isInnermost_append_singleton :
    IsInnermost covers width (xs ++ [y]) x ↔
      (x = y ∧ covers y = true ∧ ∀ z ∈ xs, covers z = true → width y ≤ width z) ∨
        (IsInnermost covers width xs x ∧ (covers y = true → width x < width y)) := by
  constructor
  · rintro ⟨hx, before, after, heq, hbefore, hafter⟩
    -- the element is the new one exactly if nothing comes after it
    rcases List.eq_nil_or_concat' after with rfl | ⟨front, last, rfl⟩
    · obtain ⟨rfl, hlast⟩ := List.append_inj' heq rfl
      obtain rfl := List.singleton_inj.mp hlast
      exact .inl ⟨rfl, hx, hbefore⟩
    · rw [← List.cons_append, ← List.append_assoc] at heq
      obtain ⟨rfl, hlast⟩ := List.append_inj' heq rfl
      obtain rfl := List.singleton_inj.mp hlast
      refine .inr ⟨⟨hx, before, front, rfl, hbefore, fun z hz => ?_⟩, fun hy => ?_⟩
      · exact hafter z (List.mem_append_left _ hz)
      · exact hafter y (List.mem_append_right _ List.mem_cons_self) hy
  · rintro (⟨rfl, hy, hall⟩ | ⟨⟨hx, before, after, rfl, hbefore, hafter⟩, hlast⟩)
    · exact ⟨hy, xs, [], rfl, hall, fun z hz => absurd hz List.not_mem_nil⟩
    · refine ⟨hx, before, after ++ [y], by simp, hbefore, fun z hz hcovers => ?_⟩
      rcases List.mem_append.mp hz with hz | hz
      · exact hafter z hz hcovers
      · obtain rfl := List.mem_singleton.mp hz
        exact hlast hcovers

/-- **The innermost element by its place in the list:** none that covers is narrower, and of those just as narrow
none stands further back. -/
theorem isInnermost_iff_getElem? :
    IsInnermost covers width xs x ↔ covers x = true ∧ ∃ i : Nat, xs[i]? = some x ∧
      (∀ y ∈ xs, covers y = true → width x ≤ width y) ∧
      ∀ (j : Nat) y, xs[j]? = some y → covers y = true → width y = width x → j ≤ i := by
  constructor
  · intro h
    obtain ⟨hx, before, after, rfl, -, hafter⟩ := id h
    have hhere : (before ++ x :: after)[before.length]? = some x := by
      rw [List.getElem?_append_right le_rfl, Nat.sub_self, List.getElem?_cons_zero]
    refine ⟨hx, before.length, hhere, fun y hy => h.width_le hy, ?_⟩
    intro j y hy hcovers hwidth
    by_contra hlt
    obtain ⟨k, rfl⟩ : ∃ k, j = before.length + (k + 1) :=
      ⟨j - before.length - 1, by omega⟩
    -- a place further back is one of the part after the element, where everything is wider
    rw [List.getElem?_append_right (Nat.le_add_right _ _), Nat.add_sub_cancel_left,
      List.getElem?_cons_succ] at hy
    have hwider := hafter y (List.mem_of_getElem? hy) hcovers
    exact absurd hwidth (ne_of_gt hwider)
  · rintro ⟨hx, i, hi, hnarrow, hlast⟩
    obtain ⟨hlt, rfl⟩ := List.getElem?_eq_some_iff.mp hi
    have hcut : xs = xs.take i ++ xs[i] :: xs.drop (i + 1) := by
      rw [← List.drop_eq_getElem_cons hlt, List.take_append_drop]
    refine ⟨hx, xs.take i, xs.drop (i + 1), hcut, ?_, ?_⟩
    · intro y hy
      exact hnarrow y (List.mem_of_mem_take hy)
    · intro y hy hcovers
      obtain ⟨k, hk⟩ := List.mem_iff_getElem?.mp hy
      rw [List.getElem?_drop] at hk
      -- just as narrow it would stand further back than the last of those
      refine lt_of_le_of_ne (hnarrow y (List.mem_of_mem_drop hy) hcovers) fun hwidth => ?_
      have hle := hlast (i + 1 + k) y hk hcovers hwidth.symm
      omega

/-- **From list to list.** If two lists agree, element by element, on what covers and how wide it is, then
the innermost elements stand at the same place. -/
theorem IsInnermost.exists_of_forall₂ {covers' : β → Bool} {width' : β → Int} {R : α → β → Prop}
    {ys : List β} {b : β} (hcovers : ∀ x y, R x y → covers x = covers' y)
    (hwidth : ∀ x y, R x y → width x = width' y) (h : List.Forall₂ R xs ys)
    (hb : IsInnermost covers' width' ys b) : ∃ x, R x b ∧ IsInnermost covers width xs x := by
  obtain ⟨hcov, before, after, rfl, hbefore, hafter⟩ := hb
  have hfront := List.forall₂_take_append xs before (b :: after) h
  have hback := List.forall₂_drop_append xs before (b :: after) h
  obtain ⟨x, rest, hx, hrest, hdrop⟩ := List.forall₂_cons_right_iff.mp hback
  refine ⟨x, hx, by rw [hcovers x b hx, hcov], xs.take before.length, rest, ?_, ?_, ?_⟩
  · rw [← hdrop, List.take_append_drop]
  · intro z hz hzcovers
    obtain ⟨w, hw, hR⟩ := List.exists_of_mem_forall₂ hfront.flip hz
    rw [hwidth x b hx, hwidth z w hR]
    rw [hcovers z w hR] at hzcovers
    exact hbefore w hw hzcovers
  · intro z hz hzcovers
    obtain ⟨w, hw, hR⟩ := List.exists_of_mem_forall₂ hrest.flip hz
    rw [hwidth x b hx, hwidth z w hR]
    rw [hcovers z w hR] at hzcovers
    exact hafter w hw hzcovers

end IsInnermost

/-! ### The search in a tree -/

namespace Node

theorem encloses_eq_any (n : Node) (start length : Int) :
    n.encloses start length = n.src.any (·.contains start length) := by
  unfold encloses
  cases n.src <;> rfl

theorem width_eq_getD (n : Node) : n.width = (n.src.map SourceRange.length).getD 0 := by
  unfold width
  cases n.src <;> rfl

theorem preorder_eq (n : Node) : n.preorder = n :: preorderAll n.children := by
  cases n
  rfl

theorem preorderAll_append (xs ys : List Node) :
    preorderAll (xs ++ ys) = preorderAll xs ++ preorderAll ys := by
  induction xs with
  | nil => rfl
  | cons n rest ih =>
    rw [List.cons_append, preorderAll, preorderAll, ih, List.append_assoc]

/-- **The stack is worked off in pre-order.** -/
theorem walkFrom_eq_preorderAll (stack : List Node) : walkFrom stack = preorderAll stack := by
  fun_induction walkFrom stack with
  | case1 => rfl
  | case2 n rest ih =>
    rw [ih, preorderAll_append, preorderAll, preorder_eq, List.cons_append]

theorem inner_ne_none (best : Option Node) (n : Node) : inner best n ≠ none := by
  unfold inner
  split
  · exact Option.some_ne_none n
  · split
    · exact Option.some_ne_none n
    · exact Option.some_ne_none _

/-- Only where there is nothing to choose from is nothing found. -/
theorem eq_nil_of_foldl_inner {ns : List Node} (h : ns.foldl inner none = none) : ns = [] := by
  rcases List.eq_nil_or_concat' ns with rfl | ⟨front, last, rfl⟩
  · rfl
  · rw [List.foldl_append] at h
    exact absurd h (inner_ne_none _ last)

/-- **What the search keeps** is the innermost of the nodes that cover. -/
theorem foldl_inner_eq_some_iff (covers : Node → Bool) (ns : List Node) (n : Node) :
    (ns.filter covers).foldl inner none = some n ↔ IsInnermost covers width ns n := by
  -- The last node decides against the best of those before it, so nodes are taken off at the end.
  induction ns using List.reverseRecOn generalizing n with
  | nil =>
    constructor
    · intro h
      cases h
    · intro h
      exact absurd h.mem List.not_mem_nil
  | append_singleton ns last ih =>
    rw [List.filter_append, List.foldl_append, isInnermost_append_singleton, List.filter_singleton]
    cases hlast : covers last with
    | false =>
      -- a node that does not cover changes nothing
      simp only [cond_false, List.foldl_nil, ih, Bool.false_eq_true, false_and, and_false,
        false_or, false_implies, and_true]
    | true =>
      simp only [cond_true, List.foldl_cons, List.foldl_nil, true_and, true_implies]
      cases hbest : (ns.filter covers).foldl inner none with
      | none =>
        have hno : ∀ z ∈ ns, covers z = true → last.width ≤ z.width := fun z hz hcovers =>
          absurd (List.mem_filter.mpr ⟨hz, hcovers⟩) (by simp [eq_nil_of_foldl_inner hbest])
        have hnot : ¬ IsInnermost covers width ns n := by
          rw [← ih, hbest]
          exact (Option.some_ne_none n).symm
        simp only [inner, Option.some.injEq, hnot, false_and, or_false]
        exact ⟨fun h => ⟨h.symm, hno⟩, fun h => h.1.symm⟩
      | some best =>
        have hinner := (ih best).mp hbest
        rw [← ih n, hbest, inner]
        split
        next hle =>
          -- the last node is no wider than the best so far, so it is no wider than any
          rw [Option.some.injEq, Option.some.injEq]
          constructor
          · rintro rfl
            exact .inl ⟨rfl, fun z hz hcovers => hle.trans (hinner.width_le hz hcovers)⟩
          · rintro (⟨rfl, -⟩ | ⟨rfl, hlt⟩)
            · rfl
            · exact absurd hle (not_le.mpr hlt)
        next hgt =>
          rw [Option.some.injEq]
          constructor
          · rintro rfl
            exact .inr ⟨rfl, not_le.mp hgt⟩
          · rintro (⟨rfl, hall⟩ | ⟨rfl, -⟩)
            · exact absurd (hall best hinner.mem hinner.1) hgt
            · rfl

/-- The tree is walked in pre-order. -/
theorem walk_eq_preorder (root : Node) : root.walk = root.preorder := by
  rw [walk, walkFrom_eq_preorderAll, preorderAll, preorderAll, List.append_nil]

/-- **The node around a range** is the innermost one of its kind, in pre-order. -/
theorem enclosing?_eq_some_iff (root : Node) (start length : Int) (kind : NodeKind) (n : Node) :
    root.enclosing? start length kind = some n ↔
      IsInnermost (fun n => n.encloses start length && n.kind == kind) width root.preorder n := by
  rw [enclosing?, walk_eq_preorder, foldl_inner_eq_some_iff]

/-- **The node around a range,** among those of its kind alone. -/
theorem enclosing?_eq_some_iff_filter (root : Node) (start length : Int) (kind : NodeKind) (n : Node) :
    root.enclosing? start length kind = some n ↔
      IsInnermost (fun n => n.encloses start length) width (root.preorder.filter (·.kind == kind)) n := by
  rw [enclosing?, walk_eq_preorder, ← List.filter_filter, foldl_inner_eq_some_iff]

/-! ### What the search finds -/

/-- A node of the kind, with a range that holds all of `[start, start + length)`. -/
structure Surrounds (start length : Int) (kind : NodeKind) (n : Node) : Prop where
  kind : n.kind = kind
  range : ∃ r, n.src = some r ∧ r.start ≤ start ∧ start + length ≤ r.start + r.length

section Surrounds

variable {kind : NodeKind} {start length : Int} {n root : Node}

theorem encloses_iff : n.encloses start length = true ↔
    ∃ r, n.src = some r ∧ r.start ≤ start ∧ start + length ≤ r.start + r.length := by
  unfold encloses SourceRange.contains
  cases n.src <;> simp

theorem surrounds_iff :
    (n.encloses start length && n.kind == kind) = true ↔ n.Surrounds start length kind := by
  rw [Bool.and_eq_true, encloses_iff, beq_iff_eq]
  constructor
  · rintro ⟨hrange, hkind⟩
    exact ⟨hkind, hrange⟩
  · rintro ⟨hkind, hrange⟩
    exact ⟨hrange, hkind⟩

/-- Nothing is found exactly if no node is around the range. -/
theorem enclosing?_eq_none_iff : root.enclosing? start length kind = none ↔
    ∀ n ∈ root.preorder, ¬ n.Surrounds start length kind := by
  rw [enclosing?, walk_eq_preorder]
  constructor
  · intro h n hn hsurrounds
    have hnil := List.filter_eq_nil_iff.mp (eq_nil_of_foldl_inner h)
    exact hnil n hn (surrounds_iff.mpr hsurrounds)
  · intro h
    have hnil : root.preorder.filter (fun n => n.encloses start length && n.kind == kind) = [] := by
      rw [List.filter_eq_nil_iff]
      intro n hn hcovers
      exact h n hn (surrounds_iff.mp hcovers)
    rw [hnil]
    rfl

/-- The node stands around the range, no other node that does has a shorter range, and of those with a range of
the same length it is the last one in pre-order. -/
structure IsNarrowest (root : Node) (start length : Int) (kind : NodeKind) (n : Node) : Prop where
  surrounds : n.Surrounds start length kind
  width_le : ∀ m ∈ root.preorder, m.Surrounds start length kind → n.width ≤ m.width
  last : ∃ i : Nat, root.preorder[i]? = some n ∧
    ∀ (j : Nat) m, root.preorder[j]? = some m → m.Surrounds start length kind → m.width = n.width → j ≤ i

/-- **The search finds the narrowest node,** whatever the tree, the range and the kind: nothing exactly if no node
of the kind is around the range, and a node exactly if it is the narrowest of them, the last one in pre-order if
there are several. -/
theorem enclosing?_finds_narrowest (root : Node) (start length : Int) (kind : NodeKind) :
    (root.enclosing? start length kind = none ↔
      ∀ n ∈ root.preorder, ¬ n.Surrounds start length kind) ∧
    ∀ n, root.enclosing? start length kind = some n ↔ IsNarrowest root start length kind n := by
  refine ⟨enclosing?_eq_none_iff, fun n => ?_⟩
  rw [enclosing?_eq_some_iff, isInnermost_iff_getElem?]
  simp only [surrounds_iff]
  constructor
  · rintro ⟨hn, i, hi, hwidth, hlast⟩
    exact ⟨hn, hwidth, i, hi, hlast⟩
  · rintro ⟨hn, hwidth, i, hi, hlast⟩
    exact ⟨hn, i, hi, hwidth, hlast⟩

end Surrounds

end Node

end Pinpoint.Ast
