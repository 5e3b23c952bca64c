import Pinpoint.Proofs.LineCount

/-!
# Positions come in the order of their offsets

In a table of breaks in increasing order the search for an offset counts the breaks before it
(`countBefore_eq_countP`). All of these lie before the offset, so its column is not negative, and a later offset
has at least as many of them: it is on a later line, or on the same line further right
(`Position.ofOffset_lt_ofOffset`). So positions are ordered as their offsets, and different offsets have
different positions.

`comparePlaces` is the same order as a number. It is negative, zero or positive as the one position comes before
the other, is the same, or comes after it (`comparePlaces_neg_iff`, `comparePlaces_eq_zero_iff`,
`comparePlaces_pos_iff`).

All this together says that a table of breaks in increasing order keeps the order of the offsets
(`KeepsOrder`, `keepsOrder_of_increasing`): no matter how many breaks lie between two offsets, whether the one or the
other is itself at a break, and whether breaks lie before the text.
-/

namespace Pinpoint

variable {α : Type} {p : α → Bool} {breaks : LineBreaks}

/-! ### Tables of breaks -/

/-- The offsets of elements come in increasing order. -/
theorem increasing_offsetsFrom (p : α → Bool) (i : Nat) (xs : List α) :
    (offsetsFrom p i xs).Pairwise (· < ·) := by
  induction xs generalizing i with
  | nil => exact .nil
  | cons x xs ih =>
    rw [offsetsFrom_cons]
    split
    · -- all others are counted from one further on
      refine List.pairwise_cons.mpr ⟨fun o ho => ?_, ih (i + 1)⟩
      have := (bounds_of_mem_offsetsFrom ho).1
      omega
    · exact ih (i + 1)

/-- A table in increasing order is cut at an offset into the breaks before it and those that are not. -/
theorem exists_cut (h : breaks.Pairwise (· < ·)) (offset : Int) :
    ∃ before after, breaks = before ++ after ∧ (∀ o ∈ before, o < offset) ∧
      ∀ o ∈ after, offset ≤ o := by
  induction breaks with
  | nil => exact ⟨[], [], rfl, by simp, by simp⟩
  | cons b breaks ih =>
    obtain ⟨hb, hrest⟩ := List.pairwise_cons.mp h
    by_cases hlt : b < offset
    · obtain ⟨before, after, rfl, hbefore, hafter⟩ := ih hrest
      exact ⟨b :: before, after, rfl, List.forall_mem_cons.mpr ⟨hlt, hbefore⟩, hafter⟩
    · -- the first break is not before the offset, and so no other one is
      refine ⟨[], b :: breaks, rfl, by simp, List.forall_mem_cons.mpr ⟨Int.not_lt.mp hlt, ?_⟩⟩
      intro o ho
      have := hb o ho
      omega

/-- **The search counts** the breaks before an offset. -/
theorem countBefore_eq_countP (h : breaks.Pairwise (· < ·)) (offset : Int) :
    countBefore breaks offset = breaks.countP (· < offset) := by
  obtain ⟨before, after, rfl, hbefore, hafter⟩ := exists_cut h offset
  have hall : before.countP (· < offset) = before.length :=
    List.countP_eq_length.mpr fun o ho => decide_eq_true (hbefore o ho)
  have hnone : after.countP (· < offset) = 0 := by
    refine List.countP_eq_zero.mpr fun o ho => ?_
    have := hafter o ho
    simpa using this
  rw [countBefore_append hbefore hafter, List.countP_append, hall, hnone, Nat.add_zero]

/-- There are no fewer breaks before a later offset. -/
theorem countBefore_mono (h : breaks.Pairwise (· < ·)) {offset later : Int} (hle : offset ≤ later) :
    countBefore breaks offset ≤ countBefore breaks later := by
  rw [countBefore_eq_countP h, countBefore_eq_countP h]
  refine List.countP_mono_left fun o _ ho => ?_
  have hlt : o < offset := of_decide_eq_true ho
  exact decide_eq_true (by omega)

/-- The breaks that are counted lie before the offset. -/
theorem getD_lt_of_lt_countBefore (h : breaks.Pairwise (· < ·)) {offset : Int} {j : Nat}
    (hj : j < countBefore breaks offset) : breaks.getD j 0 < offset := by
  obtain ⟨before, after, rfl, hbefore, hafter⟩ := exists_cut h offset
  rw [countBefore_append hbefore hafter] at hj
  rw [List.getD_append _ _ _ _ hj, List.getD_eq_getElem _ _ hj]
  exact hbefore _ (List.getElem_mem hj)

/-! ### The order as a number -/

theorem comparePlaces_neg_iff {p q : Position} :
    comparePlaces p.line p.column q.line q.column < 0 ↔ p < q := by
  show _ ↔ p.line < q.line ∨ (p.line = q.line ∧ p.column < q.column)
  unfold comparePlaces
  split <;> omega

theorem comparePlaces_eq_zero_iff {p q : Position} :
    comparePlaces p.line p.column q.line q.column = 0 ↔ p = q := by
  rw [Position.mk.injEq, show p = ⟨p.line, p.column⟩ from rfl]
  unfold comparePlaces
  split <;> omega

theorem comparePlaces_pos_iff {p q : Position} :
    0 < comparePlaces p.line p.column q.line q.column ↔ q < p := by
  show _ ↔ q.line < p.line ∨ (q.line = p.line ∧ q.column < p.column)
  unfold comparePlaces
  split <;> omega

namespace Position

/-! ### Positions in a table -/

theorem lt_irrefl (p : Position) : ¬ p < p := by
  show ¬ (p.line < p.line ∨ (p.line = p.line ∧ p.column < p.column))
  omega

/-- The position of an offset that does not lie before the text. -/
theorem ofOffset_of_nonneg {offset : Int} (hoffset : 0 ≤ offset) (breaks : LineBreaks) :
    ofOffset offset (some breaks)
      = ⟨countBefore breaks offset + 1, offset - if countBefore breaks offset = 0 then 0
          else breaks.getD (countBefore breaks offset - 1) 0 + 1⟩ := by
  rw [ofOffset]
  exact if_neg (Int.not_lt.mpr hoffset)

/-- **Lines are counted from one and columns from zero.** -/
theorem bounds_ofOffset (h : breaks.Pairwise (· < ·)) {offset : Int} (hoffset : 0 ≤ offset) :
    1 ≤ (ofOffset offset (some breaks)).line ∧ 0 ≤ (ofOffset offset (some breaks)).column := by
  rw [ofOffset_of_nonneg hoffset]
  refine ⟨by dsimp only; omega, ?_⟩
  dsimp only
  split
  next => omega
  next hpos =>
    -- the line starts behind a break that lies before the offset
    have := getD_lt_of_lt_countBefore h (Nat.sub_one_lt hpos)
    omega

/-- **A later offset has a later position.** -/
theorem ofOffset_lt_ofOffset (h : breaks.Pairwise (· < ·)) {offset later : Int} (hoffset : 0 ≤ offset)
    (hlt : offset < later) : ofOffset offset (some breaks) < ofOffset later (some breaks) := by
  have hlines := countBefore_mono h (Int.le_of_lt hlt)
  rw [ofOffset_of_nonneg hoffset, ofOffset_of_nonneg (Int.le_trans hoffset (Int.le_of_lt hlt))]
  rcases Nat.lt_or_eq_of_le hlines with hmore | hsame
  · refine .inl ?_
    dsimp only
    omega
  · -- on the same line both are counted from the same place
    rw [hsame]
    refine .inr ⟨rfl, ?_⟩
    dsimp only
    omega

/-- Different offsets have different positions. -/
theorem ofOffset_inj (h : breaks.Pairwise (· < ·)) {offset other : Int} (hoffset : 0 ≤ offset)
    (hother : 0 ≤ other) :
    ofOffset offset (some breaks) = ofOffset other (some breaks) ↔ offset = other := by
  refine ⟨fun heq => ?_, fun heq => by rw [heq]⟩
  rcases Int.lt_trichotomy offset other with hlt | hsame | hgt
  · exact absurd (heq ▸ ofOffset_lt_ofOffset h hoffset hlt) (lt_irrefl _)
  · exact hsame
  · exact absurd (heq ▸ ofOffset_lt_ofOffset h hother hgt) (lt_irrefl _)

/-- The positions of two offsets in their order do not compare as positive. -/
theorem comparePlaces_ofOffset_nonpos (h : breaks.Pairwise (· < ·)) {offset later : Int}
    (hoffset : 0 ≤ offset) (hle : offset ≤ later) :
    comparePlaces (ofOffset offset (some breaks)).line (ofOffset offset (some breaks)).column
      (ofOffset later (some breaks)).line (ofOffset later (some breaks)).column ≤ 0 := by
  rcases Int.lt_or_eq_of_le hle with hlt | rfl
  · exact Int.le_of_lt (comparePlaces_neg_iff.mpr (ofOffset_lt_ofOffset h hoffset hlt))
  · exact Int.le_of_eq (comparePlaces_eq_zero_iff.mpr rfl)

/-- **Positions compare as their offsets,** in either direction. -/
theorem ofOffset_lt_iff (h : breaks.Pairwise (· < ·)) {offset other : Int} (hoffset : 0 ≤ offset)
    (hother : 0 ≤ other) :
    ofOffset offset (some breaks) < ofOffset other (some breaks) ↔ offset < other := by
  refine ⟨fun hlt => ?_, ofOffset_lt_ofOffset h hoffset⟩
  by_contra hge
  have hnonpos := comparePlaces_ofOffset_nonpos h hother (Int.not_lt.mp hge)
  exact absurd (comparePlaces_pos_iff.mpr hlt) (Int.not_lt.mpr hnonpos)

/-- A range from a known offset on, with a length that is not negative, has an end. -/
theorem ofRange_of_nonneg {start length : Int} (hstart : 0 ≤ start) (hlength : 0 ≤ length)
    (breaks : LineBreaks) : ofRange start length (some breaks)
      = (ofOffset start (some breaks), some (ofOffset (start + length) (some breaks))) := by
  have hresolved : (ofOffset start (some breaks)).resolved = true := by
    rw [resolved, bne_iff_ne]
    intro hline
    rw [ofOffset_of_nonneg hstart] at hline
    dsimp only at hline
    omega
  have hknown : (!(ofOffset start (some breaks)).resolved || decide (length < 0)) = false := by
    rw [hresolved, decide_eq_false (Int.not_lt.mpr hlength)]
    rfl
  unfold ofRange
  dsimp only
  rw [hknown]
  rfl

/-! ### Keeping the order -/

/-- **A table of breaks keeps the order of the offsets.** The comparison of two positions has the sign of the
difference of their offsets, and positions are in the order of their offsets, so different offsets have
different positions. A range has its end where it starts or behind that. -/
structure KeepsOrder (breaks : LineBreaks) : Prop where
  sign : ∀ a b : Int, 0 ≤ a → 0 ≤ b →
    (comparePlaces (ofOffset a (some breaks)).line (ofOffset a (some breaks)).column
      (ofOffset b (some breaks)).line (ofOffset b (some breaks)).column).sign = (a - b).sign
  lt_iff : ∀ a b : Int, 0 ≤ a → 0 ≤ b →
    (ofOffset a (some breaks) < ofOffset b (some breaks) ↔ a < b)
  eq_iff : ∀ a b : Int, 0 ≤ a → 0 ≤ b →
    (ofOffset a (some breaks) = ofOffset b (some breaks) ↔ a = b)
  range : ∀ start length : Int, 0 ≤ start → 0 ≤ length →
    ∃ stop, ofRange start length (some breaks) = (ofOffset start (some breaks), some stop) ∧
      (ofOffset start (some breaks) = stop ∨ ofOffset start (some breaks) < stop)

/-- A table of breaks in increasing order keeps the order of the offsets. -/
theorem keepsOrder_of_increasing (h : breaks.Pairwise (· < ·)) : KeepsOrder breaks := by
  refine ⟨fun a b ha hb => ?_, fun a b ha hb => ofOffset_lt_iff h ha hb,
    fun a b ha hb => ofOffset_inj h ha hb, fun start length hstart hlength => ?_⟩
  · -- both signs are those of the order of the offsets
    rcases Int.lt_trichotomy a b with hlt | rfl | hgt
    · rw [Int.sign_eq_neg_one_of_neg (comparePlaces_neg_iff.mpr (ofOffset_lt_ofOffset h ha hlt)),
        Int.sign_eq_neg_one_of_neg (Int.sub_neg_of_lt hlt)]
    · rw [comparePlaces_eq_zero_iff.mpr rfl, Int.sub_self]
    · rw [Int.sign_eq_one_of_pos (comparePlaces_pos_iff.mpr (ofOffset_lt_ofOffset h hb hgt)),
        Int.sign_eq_one_of_pos (Int.sub_pos_of_lt hgt)]
  · refine ⟨_, ofRange_of_nonneg hstart hlength breaks, ?_⟩
    -- an empty range ends where it starts
    rcases Int.lt_or_eq_of_le hlength with hpos | rfl
    · exact .inr (ofOffset_lt_ofOffset h hstart (Int.lt_add_of_pos_right start hpos))
    · exact .inl (by rw [Int.add_zero])

/-- Around the break at offset 2: the break itself belongs to the first line, the offset behind it starts the
second one, and the range from the one to the other ends there. -/
theorem threeLines_keepOrder : ([2, 7] : LineBreaks).Pairwise (· < ·) ∧
    ofOffset 2 (some [2, 7]) = ⟨1, 2⟩ ∧ ofOffset 3 (some [2, 7]) = ⟨2, 0⟩ ∧
    (comparePlaces 1 2 2 0).sign = (2 - 3 : Int).sign ∧ (⟨1, 2⟩ : Position) < ⟨2, 0⟩ ∧
    ofRange 2 1 (some [2, 7]) = (⟨1, 2⟩, some ⟨2, 0⟩) ∧
    ((⟨1, 2⟩ : Position) = ⟨2, 0⟩ ∨ (⟨1, 2⟩ : Position) < ⟨2, 0⟩) := by
  have hincreasing : ([2, 7] : LineBreaks).Pairwise (· < ·) := by decide
  have hbreak : ofOffset 2 (some [2, 7]) = ⟨1, 2⟩ := by cbv
  have hnext : ofOffset 3 (some [2, 7]) = ⟨2, 0⟩ := by cbv
  obtain ⟨hsign, hlt, -, hrange⟩ := keepsOrder_of_increasing hincreasing
  have hcompare := hsign 2 3 (by decide) (by decide)
  have hbefore := (hlt 2 3 (by decide) (by decide)).mpr (by decide)
  rw [hbreak, hnext] at hcompare hbefore
  have hwhole : ofRange 2 1 (some [2, 7]) = (⟨1, 2⟩, some ⟨2, 0⟩) := by cbv
  obtain ⟨stop, hstop, hbehind⟩ := hrange 2 1 (by decide) (by decide)
  rw [hwhole, hbreak] at hstop
  obtain rfl := Option.some.inj (congrArg Prod.snd hstop)
  rw [hbreak] at hbehind
  exact ⟨hincreasing, hbreak, hnext, hcompare, hbefore, hwhole, hbehind⟩

end Position

end Pinpoint
