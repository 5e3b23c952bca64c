import Pinpoint.Bytecode.Instructions
import Pinpoint.Position
import Mathlib.Data.List.DropRight

/-!
# Offsets of the elements with a property

`offsetsFrom p i xs` lists the offsets, counted from `i`, of the elements of `xs` with property `p`. Both
tables of offsets that the resolution works with have this form: the line breaks of a text by definition,
and the instruction starts of a code by `startsFrom_eq_offsetsFrom`, where the property is a mark that a
scan of the bytes has set.

The list is cut where its source is cut (`offsetsFrom_append`), and every offset lies within its piece
(`bounds_of_mem_offsetsFrom`). So the entries below an offset `i + n` are those of `xs.take n`, of which
there are `(xs.take n).countP p`: from this come the place of an offset in the table
(`lastPlaceFrom?_offsetsFrom`) and, in the module on lines, the number of a line.
-/

namespace Pinpoint

variable {α : Type} {p : α → Bool}

/-! ### Cutting the list of offsets -/

theorem offsetsFrom_cons (p : α → Bool) (i : Nat) (x : α) (xs : List α) :
    offsetsFrom p i (x :: xs)
      = if p x then (i : Int) :: offsetsFrom p (i + 1) xs else offsetsFrom p (i + 1) xs := rfl

theorem offsetsFrom_append (p : α → Bool) (i : Nat) (xs ys : List α) :
    offsetsFrom p i (xs ++ ys) = offsetsFrom p i xs ++ offsetsFrom p (i + xs.length) ys := by
  induction xs generalizing i with
  | nil => rfl
  | cons x xs ih =>
    have hlen : i + (x :: xs).length = i + 1 + xs.length := by
      rw [List.length_cons]
      omega
    rw [List.cons_append, offsetsFrom_cons, offsetsFrom_cons, ih, hlen]
    split <;> rfl

theorem length_offsetsFrom (p : α → Bool) (i : Nat) (xs : List α) :
    (offsetsFrom p i xs).length = xs.countP p := by
  induction xs generalizing i with
  | nil => rfl
  | cons x xs ih =>
    rw [offsetsFrom_cons, List.countP_cons]
    split
    · rw [List.length_cons, ih]
    · rw [ih, Nat.add_zero]

/-- Every listed offset lies within the list that it was counted in. -/
theorem bounds_of_mem_offsetsFrom {i : Nat} {xs : List α} {o : Int} (h : o ∈ offsetsFrom p i xs) :
    (i : Int) ≤ o ∧ o < i + xs.length := by
  induction xs generalizing i with
  | nil => cases h
  | cons x xs ih =>
    rw [List.length_cons]
    rw [offsetsFrom_cons] at h
    split at h
    · rcases List.mem_cons.mp h with rfl | h
      · omega
      · have := ih h
        omega
    · have := ih h
      omega

/-- The last offset belongs to the end of the part that is left when the elements without the property
are dropped from the end. -/
theorem offsetsFrom_last (p : α → Bool) (xs : List α) :
    (if (offsetsFrom p 0 xs).length = 0 then 0
      else (offsetsFrom p 0 xs).getD ((offsetsFrom p 0 xs).length - 1) 0 + 1)
      = ((xs.rdropWhile fun x => !p x).length : Int) := by
  -- Both sides look at the end of the list, so the induction takes elements off there.
  induction xs using List.reverseRecOn with
  | nil => rfl
  | append_singleton xs x ih =>
    rw [offsetsFrom_append, offsetsFrom_cons, Nat.zero_add]
    by_cases hx : p x
    · rw [if_pos hx, List.rdropWhile_concat_neg _ _ _ (by simp [hx])]
      simp [offsetsFrom]
    · rw [if_neg hx, List.rdropWhile_concat_pos _ _ _ (by simp [hx])]
      simpa [offsetsFrom] using ih

/-! ### The number of an offset -/

namespace Bytecode

/-- Later places come before the head. -/
theorem lastPlaceFrom?_cons (offset : Int) (n : Nat) (o : Int) (rest : List Int) :
    InstructionIndex.lastPlaceFrom? offset n (o :: rest)
      = (InstructionIndex.lastPlaceFrom? offset (n + 1) rest).or
          (if o = offset then some n else none) := by
  rw [InstructionIndex.lastPlaceFrom?]
  cases InstructionIndex.lastPlaceFrom? offset (n + 1) rest <;> rfl

/-- **The place of an offset** among the offsets with the property: it is listed exactly if the element
there has the property, and then as many are listed before it as elements before it have the property. -/
theorem lastPlaceFrom?_offsetsFrom (offset : Int) (n i : Nat) (xs : List α) :
    InstructionIndex.lastPlaceFrom? offset n (offsetsFrom p i xs)
      = if i ≤ offset ∧ ∃ x ∈ xs[(offset - i).toNat]?, p x then
          some (n + (xs.take (offset - i).toNat).countP p)
        else none := by
  induction xs generalizing n i with
  | nil => simp [offsetsFrom, InstructionIndex.lastPlaceFrom?]
  | cons x xs ih =>
    rcases Int.lt_trichotomy offset i with hlt | rfl | hgt
    · -- before the head nothing is listed
      have htail : ¬ ((i + 1 : Nat) : Int) ≤ offset := by omega
      have hhead : ¬ (i : Int) ≤ offset := by omega
      have hne : ¬ (i : Int) = offset := by omega
      simp only [offsetsFrom_cons, hhead, false_and, if_false]
      split
      · rw [lastPlaceFrom?_cons, ih, if_neg (fun h => htail h.1), if_neg hne, Option.or_none]
      · rw [ih, if_neg (fun h => htail h.1)]
    · -- at the head: the tail does not list it again
      have htail : ¬ ((i + 1 : Nat) : Int) ≤ i := by omega
      rw [offsetsFrom_cons]
      split
      next hx =>
        rw [lastPlaceFrom?_cons, ih, if_neg (fun h => htail h.1)]
        simp [hx]
      next hx =>
        rw [ih, if_neg (fun h => htail h.1)]
        simp [hx]
    · -- behind the head the same offset is counted from one further on
      have hstep : (offset - i).toNat = (offset - (i + 1 : Nat)).toNat + 1 := by omega
      have hle : (i : Int) ≤ offset := by omega
      have hle' : ((i + 1 : Nat) : Int) ≤ offset := by omega
      have hne : ¬ (i : Int) = offset := by omega
      rw [offsetsFrom_cons, hstep, List.getElem?_cons_succ, List.take_succ_cons, List.countP_cons]
      split
      next hx =>
        rw [lastPlaceFrom?_cons, ih, if_neg hne, Option.or_none]
        simp only [hle, hle', true_and, Nat.add_assoc, Nat.add_comm 1]
      next hx =>
        rw [ih]
        simp only [hle, hle', true_and, Nat.add_zero]

end Bytecode

end Pinpoint
