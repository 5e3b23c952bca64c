import Pinpoint.Proofs.Offsets
import Mathlib.Data.List.GetD

/-!
# Lines and columns by counting

`Position.counted` is what a line and a column mean: the line of an offset is one more than the number of
breaks before it, and its column is the distance from the place just after the last of them, or from the
beginning of the text if there is none. `ofOffset_offsetsFrom` says that the search in the table of breaks
finds exactly this position, also for an offset beyond the end of the text.

The search halves an interval. Its invariant is that the interval holds the *split*, the number `k` such
that the breaks before place `k`, and no others, are below the offset (`searchBreak_eq`). The table of
breaks of a text is split where the text itself is cut at the offset.
-/

namespace Pinpoint

variable {α : Type} {p : α → Bool}

namespace Position

/-- The position of an offset, found by counting the breaks before it; `p` tells which elements of the
text are breaks. -/
def counted (p : α → Bool) (text : List α) (offset : Nat) : Position :=
  let before := text.take offset
  ⟨1 + before.countP p, offset - (before.rdropWhile fun x => !p x).length⟩

end Position

/-! ### The search for a break -/

/-- **The search finds the split.** If the breaks before place `k`, and no others, are below the offset,
then every search in an interval around `k` ends at `k`. -/
theorem searchBreak_eq {breaks : LineBreaks} {offset : Int} {k : Nat}
    (below : ∀ j < k, breaks.getD j 0 < offset)
    (above : ∀ j, k ≤ j → j < breaks.length → offset ≤ breaks.getD j 0)
    (lo hi : Nat) (hlo : lo ≤ k) (hk : k ≤ hi) (hhi : hi ≤ breaks.length) :
    searchBreak breaks offset lo hi = k := by
  fun_induction searchBreak breaks offset lo hi with
  | case1 lo hi hlt middle hmid ih =>
    -- the middle is below the offset, so the split lies behind it
    have hsplit : middle < k := by
      by_contra hge
      have := above middle (by omega) (by omega)
      omega
    exact ih (by omega) hk hhi
  | case2 lo hi hlt middle hmid ih =>
    -- the middle is not below the offset, so the split does not lie behind it
    have hsplit : k ≤ middle := by
      by_contra hge
      exact hmid (below middle (by omega))
    exact ih hlo hsplit (by omega)
  | case3 lo hi hle => omega

/-- The number of breaks before an offset, where the table is cut at the offset. -/
theorem countBefore_append {xs ys : LineBreaks} {offset : Int} (hx : ∀ o ∈ xs, o < offset)
    (hy : ∀ o ∈ ys, offset ≤ o) : countBefore (xs ++ ys) offset = xs.length := by
  refine searchBreak_eq ?_ ?_ 0 _ (Nat.zero_le _) ?_ le_rfl
  · intro j hj
    rw [List.getD_append _ _ _ _ hj, List.getD_eq_getElem _ _ hj]
    exact hx _ (List.getElem_mem hj)
  · intro j hj hlt
    have hlt' : j - xs.length < ys.length := by
      rw [List.length_append] at hlt
      omega
    rw [List.getD_append_right _ _ _ _ hj, List.getD_eq_getElem _ _ hlt']
    exact hy _ (List.getElem_mem hlt')
  · rw [List.length_append]
    omega

/-! ### The position of an offset -/

/-- The breaks of a text before an offset are those of the text up to there. -/
theorem countBefore_offsetsFrom (p : α → Bool) (text : List α) (offset : Nat) :
    countBefore (offsetsFrom p 0 text) offset = (text.take offset).countP p := by
  -- cut the text at the offset; the table is cut at the same place
  have hcut := offsetsFrom_append p 0 (text.take offset) (text.drop offset)
  rw [List.take_append_drop] at hcut
  rw [hcut, countBefore_append, length_offsetsFrom]
  · intro o ho
    have hb := bounds_of_mem_offsetsFrom ho
    rw [List.length_take] at hb
    omega
  · intro o ho
    have hb := bounds_of_mem_offsetsFrom ho
    -- past the end of the text nothing is left to be cut off
    rcases Nat.lt_or_ge text.length offset with hlt | hge
    · rw [List.drop_eq_nil_of_le (Nat.le_of_lt hlt)] at ho
      cases ho
    · rw [List.length_take, Nat.min_eq_left hge] at hb
      omega

/-- The place just after the last break before an offset. -/
theorem lineStart_offsetsFrom (p : α → Bool) (text : List α) (offset : Nat) :
    (if (text.take offset).countP p = 0 then 0
      else (offsetsFrom p 0 text).getD ((text.take offset).countP p - 1) 0 + 1)
      = (((text.take offset).rdropWhile fun x => !p x).length : Int) := by
  have hcut := offsetsFrom_append p 0 (text.take offset) (text.drop offset)
  rw [List.take_append_drop] at hcut
  rw [← offsetsFrom_last, ← length_offsetsFrom p 0 (text.take offset), hcut]
  split
  · rfl
  · -- the last break before the offset stands in the first part of the table
    rw [List.getD_append _ _ _ _ (by omega)]

/-- **Lines are counted.** With the table of its breaks, the position of an offset in a text is the one
that counting the breaks before it gives. -/
theorem ofOffset_offsetsFrom (p : α → Bool) (text : List α) (offset : Nat) :
    Position.ofOffset offset (some (offsetsFrom p 0 text)) = Position.counted p text offset := by
  have hline := countBefore_offsetsFrom p text offset
  have hstart := lineStart_offsetsFrom p text offset
  have hpos : ¬ (offset : Int) < 0 := by omega
  simp only [Position.ofOffset, if_neg hpos, hline, hstart, Position.counted, Position.mk.injEq,
    and_true]
  omega

/-- A position found by counting is never the unresolved one. -/
theorem counted_resolved (p : α → Bool) (text : List α) (offset : Nat) :
    (Position.counted p text offset).resolved = true := by
  simp only [Position.resolved, Position.counted, bne_iff_ne]
  omega

/-- An offset has no position exactly if the line breaks are not known or it lies before the text. -/
theorem ofOffset_eq_unresolved_iff {offset : Int} {breaks : Option LineBreaks} :
    Position.ofOffset offset breaks = .unresolved ↔ breaks = none ∨ offset < 0 := by
  cases breaks with
  | none => exact iff_of_true rfl (.inl rfl)
  | some breaks =>
    rw [Position.ofOffset]
    by_cases hneg : offset < 0
    · rw [if_pos hneg]
      exact iff_of_true rfl (.inr hneg)
    · rw [if_neg hneg]
      -- a line that was counted is at least the first one
      refine iff_of_false (fun h => ?_) (not_or.mpr ⟨Option.some_ne_none breaks, hneg⟩)
      have hline : (countBefore breaks offset : Int) + 1 = -1 := congrArg Position.line h
      omega

/-- A range starts where its first offset is. -/
theorem ofRange_fst (start length : Int) (breaks : Option LineBreaks) :
    (Position.ofRange start length breaks).1 = Position.ofOffset start breaks := by
  unfold Position.ofRange
  dsimp only
  split <;> rfl

/-- Where the start of a range is not found there is no end. -/
theorem ofRange_snd_of_unresolved {start length : Int} {breaks : Option LineBreaks}
    (h : Position.ofOffset start breaks = .unresolved) :
    (Position.ofRange start length breaks).2 = none := by
  unfold Position.ofRange
  rw [h]
  rfl

/-- **The ends of a range** from a known offset on: its start is counted; its end is counted too, unless
the length is negative, in which case there is none. -/
theorem ofRange_offsetsFrom (p : α → Bool) (text : List α) (start : Nat) (length : Int) :
    Position.ofRange start length (some (offsetsFrom p 0 text))
      = (Position.counted p text start,
          if length < 0 then none
          else some (Position.counted p text (start + length.toNat))) := by
  rw [Position.ofRange, ofOffset_offsetsFrom, counted_resolved]
  by_cases hlen : length < 0
  · simp [hlen]
  · have hend : (start : Int) + length = ((start + length.toNat : Nat) : Int) := by omega
    rw [hend, ofOffset_offsetsFrom]
    simp [hlen]

end Pinpoint
