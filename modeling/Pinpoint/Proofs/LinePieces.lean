import Pinpoint.Proofs.LineCount
import Pinpoint.Text.Split

/-!
# Lines as the pieces of a text

The text before an offset is cut at its line breaks into pieces: all but the last are whole lines, and the
last is the part of the offset's own line that lies before the offset. So the position of an offset can be
read off the pieces. Its line is their number and its column is the length of the last one
(`ofOffset_lineBreaks`); beyond the end of the text the column counts on.

Where the last piece starts is `StartsLastLine`: just behind the last line break. Both ways of counting are
tied to it, the distance from the last break by `startsLastLine_rdropWhile` and the last piece by
`StartsLastLine.getLast?_splitOn`.
-/

namespace Pinpoint

/-! ### The pieces of a text -/

namespace Text

variable {sep : Char}

/-- A text is cut at a separator into the pieces before it and those after it. -/
theorem splitOn_append_cons (sep : Char) (cs rest : List Char) :
    splitOn sep (cs ++ sep :: rest) = splitOn sep cs ++ splitOn sep rest := by
  induction cs with
  | nil => exact if_pos rfl
  | cons c cs ih =>
    obtain ⟨piece, pieces, hpieces⟩ := List.exists_cons_of_ne_nil (splitOn_ne_nil sep cs)
    rw [hpieces] at ih
    by_cases hc : c = sep
    · -- a separator opens a new piece, whatever comes behind it
      simp only [List.cons_append, splitOn, if_pos hc, hpieces, ih]
    · -- any other character is put in front of the first piece
      simp only [List.cons_append, splitOn, if_neg hc, hpieces, ih]

/-- There is one piece more than there are separators. -/
theorem length_splitOn (sep : Char) (cs : List Char) :
    (splitOn sep cs).length = cs.count sep + 1 := by
  induction cs with
  | nil => rfl
  | cons c cs ih =>
    obtain ⟨piece, pieces, hpieces⟩ := List.exists_cons_of_ne_nil (splitOn_ne_nil sep cs)
    by_cases hc : c = sep
    · rw [splitOn, if_pos hc, List.length_cons, ih, hc, List.count_cons_self]
    · rw [splitOn, if_neg hc, hpieces, List.count_cons_of_ne hc, ← ih, hpieces]
      rfl

end Text

/-! ### The last line -/

/-- The last line of a text starts there: just behind the last line break, or at the beginning if there is
no line break. -/
structure StartsLastLine (cs : List Char) (start : Nat) : Prop where
  behindBreak : start = 0 ∨ cs[start - 1]? = some '\n'
  noBreak : '\n' ∉ cs.drop start

namespace StartsLastLine

variable {cs : List Char} {start : Nat}

theorem le_length (h : StartsLastLine cs start) : start ≤ cs.length := by
  rcases h.behindBreak with rfl | hbreak
  · exact Nat.zero_le _
  · obtain ⟨hlt, -⟩ := List.getElem?_eq_some_iff.mp hbreak
    omega

/-- **The last piece** of a text, cut at its line breaks, is what follows the last of them. -/
theorem getLast?_splitOn (h : StartsLastLine cs start) :
    (Text.splitOn '\n' cs).getLast? = some (cs.drop start) := by
  rcases Nat.eq_zero_or_pos start with rfl | hpos
  · -- no line break at all, and the text is its only piece
    have hnone : '\n' ∉ cs := h.noBreak
    rw [Text.splitOn_of_not_mem hnone]
    rfl
  · -- the text is cut at its last line break, and no further behind it
    have hbreak := h.behindBreak.resolve_left (Nat.ne_of_gt hpos)
    obtain ⟨hlt, hget⟩ := List.getElem?_eq_some_iff.mp hbreak
    have hcut : cs = cs.take (start - 1) ++ '\n' :: cs.drop start := by
      calc cs = cs.take (start - 1) ++ cs.drop (start - 1) := (List.take_append_drop _ cs).symm
        _ = cs.take (start - 1) ++ cs[start - 1] :: cs.drop (start - 1 + 1) := by
            rw [List.drop_eq_getElem_cons hlt]
        _ = cs.take (start - 1) ++ '\n' :: cs.drop start := by
            rw [hget, Nat.sub_add_cancel hpos]
    have hlast : Text.splitOn '\n' (cs.drop start) = [cs.drop start] :=
      Text.splitOn_of_not_mem h.noBreak
    conv_lhs => rw [hcut]
    rw [Text.splitOn_append_cons, hlast]
    exact List.getLast?_concat

end StartsLastLine

/-- What is left of a text when the characters behind its last line break are dropped ends where the last
line starts. -/
theorem startsLastLine_rdropWhile (cs : List Char) :
    StartsLastLine cs (cs.rdropWhile fun c => !(c == '\n')).length := by
  -- Characters are dropped from the end, so the induction takes them off there.
  induction cs using List.reverseRecOn with
  | nil => exact ⟨.inl rfl, List.not_mem_nil⟩
  | append_singleton cs c ih =>
    by_cases hc : c = '\n'
    · -- the text ends in a line break, and its last line is empty
      rw [List.rdropWhile_concat_neg _ _ _ (by simp [hc])]
      have hlength : (cs ++ [c]).length = cs.length + 1 := List.length_append
      refine ⟨.inr ?_, ?_⟩
      · rw [hlength, Nat.add_sub_cancel, List.getElem?_concat_length, hc]
      · rw [List.drop_length]
        exact List.not_mem_nil
    · -- the last line goes on by one character
      rw [List.rdropWhile_concat_pos _ _ _ (by simp [hc])]
      have hle := ih.le_length
      refine ⟨ih.behindBreak.imp_right fun hbreak => ?_, ?_⟩
      · obtain ⟨hlt, -⟩ := List.getElem?_eq_some_iff.mp hbreak
        rw [List.getElem?_append_left hlt, hbreak]
      · rw [List.drop_append_of_le_length hle, List.mem_append, List.mem_singleton]
        rintro (hmem | heq)
        · exact ih.noBreak hmem
        · exact hc heq.symm

/-! ### The position of an offset -/

/-- **Line and column are read off the text before the offset.** The line is one more than the number of line
breaks there, and the column is the distance from the place just behind the last of them, or from the
beginning. So there are as many pieces, cut at the line breaks, as the line says, and the last has as many
characters as the column says; for an offset beyond the end of the text, the characters that are missing
count as well. -/
theorem ofOffset_lineBreaks (text : List Char) (offset : Nat) :
    let before := text.take offset
    let position := Position.ofOffset offset (some (lineBreaks text))
    (∃ start, StartsLastLine before start ∧ position = ⟨1 + before.count '\n', offset - start⟩) ∧
      position.line = (Text.splitOn '\n' before).length ∧
      ∃ last, (Text.splitOn '\n' before).getLast? = some last ∧
        position.column = last.length + (offset - text.length : Nat) := by
  intro before position
  have hposition : position = Position.counted (· == '\n') text offset :=
    ofOffset_offsetsFrom (· == '\n') text offset
  have hstart := startsLastLine_rdropWhile before
  refine ⟨⟨_, hstart, hposition⟩, ?_, before.drop _, hstart.getLast?_splitOn, ?_⟩
  · rw [hposition, Text.length_splitOn]
    show 1 + (before.count '\n' : Int) = (before.count '\n' + 1 : Nat)
    omega
  · have hle := hstart.le_length
    have hlength : before.length = min offset text.length := List.length_take
    rw [hposition, List.length_drop]
    show (offset : Int) - (before.rdropWhile fun c => !(c == '\n')).length = _
    omega

/-- A line break belongs to the line that it ends, also where that line has nothing else. -/
example : Position.ofOffset 3 (some (lineBreaks ['a', 'b', '\n', '\n', 'c'])) = ⟨2, 0⟩ := by cbv

end Pinpoint
