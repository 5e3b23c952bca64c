import Pinpoint.Proofs.Ast.Places

/-!
# Well-nested trees

The search for the node around a range compares lengths and never looks at the depth of a node. In a tree as a
compiler writes it, both come to the same thing. There the range of a child lies within that of its parent, and the
ranges of siblings have no offset in common (`IsWellNested`).

The nodes around a range that is not empty then stand on one path from the root (`exists_path`): with a node its
ancestors are around the range (`encloses_of_at?`), and of the children of a node at most one is
(`IsNested.eq_of_encloses`). Down that path ranges can only become shorter (`width_le_of_at?`). So the last of the
shortest ranges is that of the deepest node, since a node comes before those below it in pre-order; this is where
`Places` is used. `enclosing?_deepest` puts it together: what is found is the deepest node of its kind around the
range, and all others stand above it.
-/

namespace Pinpoint.Ast.Node

variable {n m c d root : Node} {i j : Nat} {p q : List Nat} {start length x : Int} {kind : NodeKind}

/-! ### Offsets in a range -/

/-- The offset lies in the range of the node. -/
def Spans (n : Node) (x : Int) : Prop := ∃ r, n.src = some r ∧ r.start ≤ x ∧ x < r.start + r.length

theorem spans_iff {r : SourceRange} (h : n.src = some r) :
    n.Spans x ↔ r.start ≤ x ∧ x < r.start + r.length := by
  unfold Spans
  rw [h]
  constructor
  · rintro ⟨s, hs, hx⟩
    obtain rfl := Option.some.inj hs
    exact hx
  · intro hx
    exact ⟨r, rfl, hx⟩

/-- A node is around a range that is not empty if it spans every offset of it. -/
theorem encloses_iff_spans (hlength : 1 ≤ length) :
    n.encloses start length = true ↔ ∀ x, start ≤ x → x < start + length → n.Spans x := by
  rw [encloses_iff]
  constructor
  · rintro ⟨r, hr, hstart, hstop⟩ x hx hlt
    exact ⟨r, hr, hstart.trans hx, hlt.trans_le hstop⟩
  · intro h
    -- it spans the first offset and the last one
    obtain ⟨r, hr, hstart, -⟩ := h start le_rfl (by omega)
    have hlast := h (start + length - 1) (by omega) (by omega)
    rw [spans_iff hr] at hlast
    exact ⟨r, hr, hstart, by omega⟩

theorem spans_start (hlength : 1 ≤ length) (h : n.encloses start length = true) : n.Spans start :=
  (encloses_iff_spans hlength).mp h start le_rfl (by omega)

/-! ### Well-nested trees -/

/-- The node has a range, which is not of negative length. The ranges of its children lie within it, and those of
different children have no offset in common. -/
structure IsNested (n : Node) : Prop where
  range : ∃ r, n.src = some r ∧ 0 ≤ r.length
  within : ∀ c ∈ n.children, ∀ x, c.Spans x → n.Spans x
  apart : n.children.Pairwise fun c d => ∀ x, ¬ (c.Spans x ∧ d.Spans x)

/-- By the bounds of the ranges: a node is nested if its children lie within it, and one of any two ends before the
other begins. -/
theorem isNested_of_bounds {r : SourceRange} (hr : n.src = some r) (hlength : 0 ≤ r.length)
    (hwithin : ∀ c ∈ n.children, ∃ s, c.src = some s ∧ r.contains s.start s.length = true)
    (hapart : n.children.Pairwise fun c d => ∀ s t, c.src = some s → d.src = some t →
      s.start + s.length ≤ t.start ∨ t.start + t.length ≤ s.start) : n.IsNested := by
  refine ⟨⟨r, hr, hlength⟩, ?_, ?_⟩
  · intro c hc x hx
    obtain ⟨s, hs, hcontains⟩ := hwithin c hc
    have hbounds : r.start ≤ s.start ∧ s.start + s.length ≤ r.start + r.length := by
      simpa [SourceRange.contains] using hcontains
    rw [spans_iff hs] at hx
    rw [spans_iff hr]
    omega
  · apply hapart.imp
    rintro c d hends x ⟨⟨s, hs, hx⟩, t, ht, hx'⟩
    rcases hends s t hs ht with hbefore | hbefore <;> omega

/-- Every node of the tree is nested. -/
def IsWellNested (root : Node) : Prop := ∀ n ∈ root.preorder, n.IsNested

theorem IsWellNested.isNested (h : n.IsWellNested) : n.IsNested := by
  apply h
  rw [preorder_eq]
  exact List.mem_cons_self

/-- What stands at a place of a well-nested tree is a well-nested tree. -/
theorem IsWellNested.of_at? (h : n.IsWellNested) (hm : n.at? p = some m) : m.IsWellNested := by
  intro k hk
  obtain ⟨q, hq⟩ := mem_preorder_iff.mp hk
  apply h
  rw [mem_preorder_iff]
  refine ⟨p ++ q, ?_⟩
  rw [at?_append, hm]
  exact hq

theorem IsWellNested.child (h : n.IsWellNested) (hc : n.children[i]? = some c) : c.IsWellNested := by
  have hplace : n.at? [i] = some c := at?_cons_eq_some.mpr ⟨c, hc, rfl⟩
  exact h.of_at? hplace

/-- Of the children of a node at most one is around a range. -/
theorem IsNested.eq_of_encloses (h : n.IsNested) (hlength : 1 ≤ length) (hc : n.children[i]? = some c)
    (hd : n.children[j]? = some d) (hencloses : c.encloses start length = true)
    (hothers : d.encloses start length = true) : i = j := by
  have hspans := spans_start hlength hencloses
  have hspans' := spans_start hlength hothers
  obtain ⟨hi, rfl⟩ := List.getElem?_eq_some_iff.mp hc
  obtain ⟨hj, rfl⟩ := List.getElem?_eq_some_iff.mp hd
  have hapart := List.pairwise_iff_getElem.mp h.apart
  -- both span the first offset of the range, which siblings do not
  rcases Nat.lt_trichotomy i j with hlt | heq | hgt
  · exact absurd ⟨hspans, hspans'⟩ (hapart i j hi hj hlt start)
  · exact heq
  · exact absurd ⟨hspans', hspans⟩ (hapart j i hj hi hgt start)

/-- A child that is around a range is no longer than its parent. -/
theorem IsNested.width_le (h : n.IsNested) (hlength : 1 ≤ length) (hc : c ∈ n.children)
    (hencloses : c.encloses start length = true) : c.width ≤ n.width := by
  obtain ⟨r, hr, -⟩ := h.range
  obtain ⟨s, hs, hstart, hstop⟩ := encloses_iff.mp hencloses
  have hwidth : c.width = s.length := by rw [width, hs]
  have hparent : n.width = r.length := by rw [width, hr]
  -- the first offset of the child and the last one lie in the range of the parent
  have hfirst := h.within c hc s.start ((spans_iff hs).mpr (by omega))
  have hlast := h.within c hc (s.start + s.length - 1) ((spans_iff hs).mpr (by omega))
  rw [spans_iff hr] at hfirst hlast
  omega

/-! ### The path around a range -/

/-- **With a node its ancestors are around the range.** -/
theorem encloses_of_at? (h : n.IsWellNested) (hlength : 1 ≤ length) (hm : n.at? p = some m)
    (hencloses : m.encloses start length = true) : n.encloses start length = true := by
  induction p generalizing n with
  | nil =>
    obtain rfl := Option.some.inj hm
    exact hencloses
  | cons i p ih =>
    obtain ⟨c, hc, hm⟩ := at?_cons_eq_some.mp hm
    have hchild := ih (h.child hc) hm
    rw [encloses_iff_spans hlength] at hchild ⊢
    intro x hx hlt
    exact h.isNested.within c (List.mem_of_getElem? hc) x (hchild x hx hlt)

/-- **Down the path ranges become shorter,** if not strictly so. -/
theorem width_le_of_at? (h : n.IsWellNested) (hlength : 1 ≤ length) (hm : n.at? p = some m)
    (hencloses : m.encloses start length = true) : m.width ≤ n.width := by
  induction p generalizing n with
  | nil =>
    obtain rfl := Option.some.inj hm
    exact le_rfl
  | cons i p ih =>
    obtain ⟨c, hc, hm⟩ := at?_cons_eq_some.mp hm
    have hchild := encloses_of_at? (h.child hc) hlength hm hencloses
    calc m.width ≤ c.width := ih (h.child hc) hm
      _ ≤ n.width := h.isNested.width_le hlength (List.mem_of_getElem? hc) hchild

/-- The place holds a node around the range. -/
def EnclosesAt (root : Node) (start length : Int) (p : List Nat) : Prop :=
  ∃ n, root.at? p = some n ∧ n.encloses start length = true

theorem enclosesAt_cons : n.EnclosesAt start length (i :: p) ↔
    ∃ c, n.children[i]? = some c ∧ c.EnclosesAt start length p := by
  unfold EnclosesAt
  constructor
  · rintro ⟨m, hm, hencloses⟩
    obtain ⟨c, hc, hm⟩ := at?_cons_eq_some.mp hm
    exact ⟨c, hc, m, hm, hencloses⟩
  · rintro ⟨c, hc, m, hm, hencloses⟩
    exact ⟨m, at?_cons_eq_some.mpr ⟨c, hc, hm⟩, hencloses⟩

/-- **The nodes around a range stand on one path:** they are those on the way from the root to the deepest of
them. -/
theorem exists_path (h : n.IsWellNested) (hlength : 1 ≤ length) (hroot : n.encloses start length = true) :
    ∃ path, ∀ p, n.EnclosesAt start length p ↔ p <+: path := by
  -- from the leaves upwards: the path of the one child around the range, if there is one, is prolonged
  induction n using inductionOn with
  | step n ih =>
    have hnil : n.EnclosesAt start length [] := ⟨n, rfl, hroot⟩
    by_cases hchild : ∃ (i : Nat) (c : Node), n.children[i]? = some c ∧ c.encloses start length = true
    · obtain ⟨i, c, hc, hencloses⟩ := hchild
      obtain ⟨path, hpath⟩ := ih c (List.mem_of_getElem? hc) (h.child hc) hencloses
      refine ⟨i :: path, fun p => ?_⟩
      cases p with
      | nil => exact iff_of_true hnil List.nil_prefix
      | cons j p =>
        rw [enclosesAt_cons, List.cons_prefix_cons, ← hpath]
        constructor
        · rintro ⟨d, hd, m, hm, hbelow⟩
          have hothers := encloses_of_at? (h.child hd) hlength hm hbelow
          obtain rfl := h.isNested.eq_of_encloses hlength hd hc hothers hencloses
          obtain rfl : d = c := Option.some.inj (hd.symm.trans hc)
          exact ⟨rfl, m, hm, hbelow⟩
        · rintro ⟨rfl, hbelow⟩
          exact ⟨c, hc, hbelow⟩
    · refine ⟨[], fun p => ?_⟩
      cases p with
      | nil => exact iff_of_true hnil List.nil_prefix
      | cons j p =>
        refine iff_of_false ?_ (by simp)
        rw [enclosesAt_cons]
        rintro ⟨d, hd, m, hm, hbelow⟩
        exact hchild ⟨j, d, hd, encloses_of_at? (h.child hd) hlength hm hbelow⟩

/-- Of two nodes around a range one stands above the other. -/
theorem prefix_or_prefix (h : root.IsWellNested) (hlength : 1 ≤ length)
    (hp : root.EnclosesAt start length p) (hq : root.EnclosesAt start length q) : p <+: q ∨ q <+: p := by
  obtain ⟨m, hm, hencloses⟩ := id hp
  obtain ⟨path, hpath⟩ := exists_path h hlength (encloses_of_at? h hlength hm hencloses)
  exact List.prefix_or_prefix_of_prefix ((hpath p).mp hp) ((hpath q).mp hq)

/-! ### The deepest node -/

/-- The node at a place is around the range, and all others of the kind that are stand above it. -/
structure IsDeepestAt (root : Node) (start length : Int) (kind : NodeKind) (n : Node) (p : List Nat) : Prop where
  here : root.at? p = some n
  surrounds : n.Surrounds start length kind
  above : ∀ q m, root.at? q = some m → m.Surrounds start length kind → q <+: p

theorem Surrounds.enclosesAt (h : n.Surrounds start length kind) (hn : root.at? p = some n) :
    root.EnclosesAt start length p := ⟨n, hn, encloses_iff.mpr h.range⟩

/-- **The innermost node is the deepest one.** -/
theorem exists_isDeepestAt (h : root.IsWellNested) (hlength : 1 ≤ length)
    (hinner : IsInnermost (fun n => n.encloses start length && n.kind == kind) width root.preorder n) :
    ∃ p, IsDeepestAt root start length kind n p := by
  obtain ⟨hn, before, after, hcut, -, hafter⟩ := hinner
  obtain ⟨p, rest, hp, rfl⟩ := exists_at?_of_preorder_eq hcut
  have hsurrounds := surrounds_iff.mp hn
  refine ⟨p, hp, hsurrounds, fun q m hq hm => ?_⟩
  rcases prefix_or_prefix h hlength (hsurrounds.enclosesAt hp) (hm.enclosesAt hq) with ⟨below, rfl⟩ | hle
  · rw [at?_append, hp] at hq
    cases below with
    | nil => rw [List.append_nil]
    | cons i below =>
      -- a node further down would come later and so be wider, but it cannot be
      have hlater : m ∈ preorderAll n.children ++ rest :=
        List.mem_append_left rest (mem_preorderAll_children hq)
      have hwider : n.width < m.width := hafter m hlater (surrounds_iff.mpr hm)
      have hle : m.width ≤ n.width :=
        width_le_of_at? (h.of_at? hp) hlength hq (encloses_iff.mpr hm.range)
      exact absurd hwider (not_lt.mpr hle)
  · exact hle

/-- **The narrowest node is the deepest one.** In a well-nested tree the nodes around a range that is not empty
are those on a path from the root, if there are any. The search finds nothing exactly if none of them is of the kind,
and a node exactly if it is the deepest of those that are: all others are its ancestors, also those with the same
range. -/
theorem enclosing?_deepest (h : root.IsWellNested) (start : Int) (hlength : 1 ≤ length) (kind : NodeKind) :
    ((∀ p, ¬ root.EnclosesAt start length p) ∨
      ∃ path, ∀ p, root.EnclosesAt start length p ↔ p <+: path) ∧
    (root.enclosing? start length kind = none ↔
      ∀ p n, root.at? p = some n → ¬ n.Surrounds start length kind) ∧
    ∀ n, root.enclosing? start length kind = some n ↔ ∃ p, IsDeepestAt root start length kind n p := by
  have hnone : root.enclosing? start length kind = none ↔
      ∀ p n, root.at? p = some n → ¬ n.Surrounds start length kind := by
    rw [enclosing?_eq_none_iff]
    constructor
    · intro hall p n hn
      exact hall n (mem_preorder_iff.mpr ⟨p, hn⟩)
    · intro hall n hn
      obtain ⟨p, hp⟩ := mem_preorder_iff.mp hn
      exact hall p n hp
  refine ⟨?_, hnone, fun n => ?_⟩
  · by_cases hroot : root.encloses start length = true
    · exact .inr (exists_path h hlength hroot)
    · refine .inl fun p hp => ?_
      obtain ⟨n, hn, hencloses⟩ := hp
      exact hroot (encloses_of_at? h hlength hn hencloses)
  · constructor
    · intro hfound
      exact exists_isDeepestAt h hlength ((enclosing?_eq_some_iff root start length kind n).mp hfound)
    · rintro ⟨p, hp⟩
      -- something is found, which stands just as deep, and so at the same place
      cases hfound : root.enclosing? start length kind with
      | none => exact absurd hp.surrounds (hnone.mp hfound p n hp.here)
      | some m =>
        obtain ⟨q, hq⟩ := exists_isDeepestAt h hlength
          ((enclosing?_eq_some_iff root start length kind m).mp hfound)
        have hle := hp.above q m hq.here hq.surrounds
        have hge := hq.above p n hp.here hp.surrounds
        obtain rfl : p = q := hge.eq_of_length_le hle.length_le
        exact hq.here.symm.trans hp.here

/-- A declaration whose only child is a declaration with the same range, and one that follows without a gap. -/
def overlaid : Node :=
  ⟨"SourceUnit", some ⟨0, 60, 0⟩, none,
    [⟨"VariableDeclaration", some ⟨10, 30, 0⟩, some ⟨"outer", none⟩,
        [⟨"VariableDeclaration", some ⟨10, 30, 0⟩, some ⟨"inner", none⟩,
          [⟨"ElementaryTypeName", some ⟨12, 5, 0⟩, none, []⟩]⟩]⟩,
      ⟨"VariableDeclaration", some ⟨40, 20, 0⟩, some ⟨"next", none⟩, []⟩]⟩

theorem overlaid_isWellNested : overlaid.IsWellNested := by
  intro n hn
  simp only [overlaid, preorder, preorderAll, List.append_nil, List.cons_append, List.nil_append,
    List.mem_cons, List.not_mem_nil, or_false] at hn
  rcases hn with rfl | rfl | rfl | rfl | rfl <;>
    exact isNested_of_bounds rfl (by decide) (by simp [SourceRange.contains]) (by simp)

/-- Of two declarations with the same range around the query the inner one is found. -/
theorem overlaid_inner : overlaid.IsWellNested ∧ (1 : Int) ≤ 2 ∧
    (∃ path, ∀ p, overlaid.EnclosesAt 20 2 p ↔ p <+: path) ∧
    ∃ n p, overlaid.enclosing? 20 2 .variableDeclaration = some n ∧ n.declaredName = .str "inner" ∧
      IsDeepestAt overlaid 20 2 .variableDeclaration n p := by
  have hlength : (1 : Int) ≤ 2 := by decide
  obtain ⟨hpath, -, hfound⟩ :=
    enclosing?_deepest overlaid_isWellNested 20 hlength .variableDeclaration
  have hroot : overlaid.EnclosesAt 20 2 [] := ⟨overlaid, rfl, rfl⟩
  have hinner : overlaid.enclosing? 20 2 .variableDeclaration = some
      ⟨"VariableDeclaration", some ⟨10, 30, 0⟩, some ⟨"inner", none⟩,
        [⟨"ElementaryTypeName", some ⟨12, 5, 0⟩, none, []⟩]⟩ := by
    cbv
  obtain ⟨p, hp⟩ := (hfound _).mp hinner
  exact ⟨overlaid_isWellNested, hlength, hpath.resolve_left fun hnone => hnone [] hroot,
    _, p, hinner, rfl, hp⟩

end Pinpoint.Ast.Node
