/-!
# Positions in a text

A position is a line, counted from one, and a column, counted from zero. It is found from an offset and
the offsets of all line breaks (`lineBreaks`): the line is the number of breaks before the offset, and the
column is the distance from the last of them. A line break belongs to the line that it ends. What cannot
be found is `Position.unresolved`.

The search for the number of breaks before an offset, `countBefore`, halves the range in each step.
-/

namespace Pinpoint

/-- The offsets of the line breaks of a text. -/
abbrev LineBreaks := List Int

/-- A line and a column. -/
structure Position where
  line : Int
  column : Int
  deriving DecidableEq, Repr

/-- The offsets, from `i` on, at which the elements of a list have a property. -/
def offsetsFrom {α : Type} (p : α → Bool) (i : Nat) : List α → LineBreaks
  | [] => []
  | a :: rest => if p a then (i : Int) :: offsetsFrom p (i + 1) rest else offsetsFrom p (i + 1) rest

/-- The offsets of the line breaks of a text, in increasing order. -/
def lineBreaks (cs : List Char) : LineBreaks :=
  offsetsFrom (· == '\n') 0 cs

/-- Searches `breaks` between `lo` and `hi` for the first break that is not before `offset`. -/
def searchBreak (breaks : LineBreaks) (offset : Int) (lo hi : Nat) : Nat :=
  if lo < hi then
    let middle := (lo + hi) / 2
    if breaks.getD middle 0 < offset then searchBreak breaks offset (middle + 1) hi
    else searchBreak breaks offset lo middle
  else lo
termination_by hi - lo

/-- How many breaks lie before `offset`; the breaks are in increasing order. -/
def countBefore (breaks : LineBreaks) (offset : Int) : Nat :=
  searchBreak breaks offset 0 breaks.length

/-- The order of two positions given by their lines and columns: negative, zero or positive. -/
def comparePlaces (line column line' column' : Int) : Int :=
  if line ≠ line' then line - line' else column - column'

namespace Position

/-- No position was found. -/
def unresolved : Position := ⟨-1, 0⟩

/-- A position was found. -/
def resolved (p : Position) : Bool := p.line != -1

/-- The position of the character at an offset; unresolved if the offset is negative or the line breaks
are not known. An offset beyond the text counts on in the last line. -/
def ofOffset (offset : Int) (breaks : Option LineBreaks) : Position :=
  match breaks with
  | none => unresolved
  | some breaks =>
    if offset < 0 then unresolved
    else
      let line := countBefore breaks offset
      let lineStart := if line = 0 then 0 else breaks.getD (line - 1) 0 + 1
      ⟨line + 1, offset - lineStart⟩

/-- The two ends of a range. The end is `none` if the start is unresolved or the length negative. -/
def ofRange (start length : Int) (breaks : Option LineBreaks) : Position × Option Position :=
  let first := ofOffset start breaks
  if !first.resolved || length < 0 then (first, none)
  else (first, some (ofOffset (start + length) breaks))

/-- The order of positions: by line, then by column. -/
protected def lt (p q : Position) : Prop :=
  p.line < q.line ∨ (p.line = q.line ∧ p.column < q.column)

instance : LT Position := ⟨Position.lt⟩

instance (p q : Position) : Decidable (p < q) :=
  inferInstanceAs (Decidable (p.line < q.line ∨ (p.line = q.line ∧ p.column < q.column)))

end Position

end Pinpoint
