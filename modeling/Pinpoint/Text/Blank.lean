/-!
# Blank characters and trimming

`isBlank` is the property of being white space in Unicode, together with the four information
separators U+001C to U+001F. `trim` removes blanks from both ends of a text and nothing else:
what it removes are blanks (`exists_blanks_trim`), what it leaves does not end in one
(`not_isBlank_of_mem_getLast?_trim`), and blanks put around a text make no difference to it
(`trim_append`). `trim_eq_self` is the case in which there is nothing to remove.
-/

namespace Pinpoint.Text

/-- White space: the characters that `trim` removes. The zero-width space and the byte order mark are
not among them. -/
def isBlank (c : Char) : Bool :=
  let n := c.toNat
  (0x09 ≤ n && n ≤ 0x0D) || (0x1C ≤ n && n ≤ 0x20) || n == 0x85 || n == 0xA0 || n == 0x1680 ||
    (0x2000 ≤ n && n ≤ 0x200A) || n == 0x2028 || n == 0x2029 || n == 0x202F || n == 0x205F ||
    n == 0x3000

/-- Drops the characters with property `p` from both ends. -/
def trimBy (p : Char → Bool) (cs : List Char) : List Char :=
  ((cs.dropWhile p).reverse.dropWhile p).reverse

/-- Drops the blanks from both ends. -/
def trim (cs : List Char) : List Char :=
  trimBy isBlank cs

@[simp] theorem trim_nil : trim [] = [] := rfl

/-! ### Dropping from both ends -/

section TrimBy

variable {p : Char → Bool}

/-- A text at whose two ends there is nothing to drop is left alone. -/
theorem trimBy_eq_self {cs : List Char} (h : ∀ c ∈ cs.head?, p c = false)
    (h' : ∀ c ∈ cs.getLast?, p c = false) : trimBy p cs = cs := by
  have front : cs.dropWhile p = cs := by
    cases cs with
    | nil => rfl
    | cons c r => simp [h c (by simp)]
  have back : cs.reverse.dropWhile p = cs.reverse := by
    cases hr : cs.reverse with
    | nil => rfl
    | cons c r =>
      have hc : c ∈ cs.getLast? := by
        rw [← List.head?_reverse, hr]
        rfl
      simp [h' c hc]
  simp [trimBy, front, back]

/-- What is dropped has the property, at either end. -/
theorem exists_append_trimBy (p : Char → Bool) (cs : List Char) :
    ∃ front back, cs = front ++ trimBy p cs ++ back ∧
      (∀ c ∈ front, p c = true) ∧ ∀ c ∈ back, p c = true := by
  have hall (xs : List Char) : ∀ c ∈ xs.takeWhile p, p c = true :=
    List.all_eq_true.mp List.all_takeWhile
  let rest := cs.dropWhile p
  refine ⟨cs.takeWhile p, (rest.reverse.takeWhile p).reverse, ?_, hall cs, ?_⟩
  · -- from the end of what is left behind the first ones, the last ones are cut off
    have hrest : trimBy p cs ++ (rest.reverse.takeWhile p).reverse = rest := by
      show (rest.reverse.dropWhile p).reverse ++ _ = rest
      rw [← List.reverse_append, List.takeWhile_append_dropWhile, List.reverse_reverse]
    rw [List.append_assoc, hrest]
    exact List.takeWhile_append_dropWhile.symm
  · intro c hc
    exact hall _ c (List.mem_reverse.mp hc)

/-- **What has the property is dropped,** in whatever number it stands around a text. -/
theorem trimBy_append {front back : List Char} (cs : List Char) (hfront : ∀ c ∈ front, p c = true)
    (hback : ∀ c ∈ back, p c = true) : trimBy p (front ++ cs ++ back) = trimBy p cs := by
  unfold trimBy
  rw [List.append_assoc, List.dropWhile_append_of_pos hfront, List.dropWhile_append]
  split
  next hall =>
    -- the text is dropped as well, and so is everything
    have hnone : back.dropWhile p = [] := by
      rw [← List.append_nil back, List.dropWhile_append_of_pos hback]
      rfl
    rw [List.isEmpty_iff.mp hall, hnone]
  next =>
    rw [List.reverse_append, List.dropWhile_append_of_pos]
    intro c hc
    exact hback c (List.mem_reverse.mp hc)

end TrimBy

/-! ### Blanks -/

/-- A text whose two ends are not blank is left alone. -/
theorem trim_eq_self {cs : List Char} (h : ∀ c ∈ cs.head?, isBlank c = false)
    (h' : ∀ c ∈ cs.getLast?, isBlank c = false) : trim cs = cs :=
  trimBy_eq_self h h'

/-- Only blanks are removed, from the two ends. -/
theorem exists_blanks_trim (cs : List Char) : ∃ front back, cs = front ++ trim cs ++ back ∧
    (∀ c ∈ front, isBlank c = true) ∧ ∀ c ∈ back, isBlank c = true :=
  exists_append_trimBy isBlank cs

/-- What is left does not end in a blank. -/
theorem not_isBlank_of_mem_getLast?_trim {cs : List Char} {c : Char} (h : c ∈ (trim cs).getLast?) :
    isBlank c = false := by
  have hend := List.head?_dropWhile_not isBlank (cs.dropWhile isBlank).reverse
  rw [trim, trimBy, List.getLast?_reverse, Option.mem_def] at h
  rw [h] at hend
  exact hend

/-- **Blanks around a text** are removed. -/
theorem trim_append {front back : List Char} (cs : List Char) (hfront : ∀ c ∈ front, isBlank c = true)
    (hback : ∀ c ∈ back, isBlank c = true) : trim (front ++ cs ++ back) = trim cs :=
  trimBy_append cs hfront hback

end Pinpoint.Text
