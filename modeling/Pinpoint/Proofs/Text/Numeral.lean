import Pinpoint.Text.Integer
import Mathlib

/-!
# Numerals

A *numeral* is an integer in the plain notation: ASCII digits, after a minus sign if need be. `Numeral cs n`
says so without reading anything, and tells the number that is meant.

Reading finds that number and no other (`Numeral.of_readPlain`, `Numeral.readPlain`), unless there are more
digits than are read. What is written for a number, `decimal n`, is one of its numerals (`numeral_decimal`),
and a number that can be written at all is short enough to be read again (`readPlain_decimal`).
-/

namespace Pinpoint.Text

/-! ### Digits -/

theorem isDigit_bounds {c : Char} (h : c.isDigit = true) : 0x30 ≤ c.toNat ∧ c.toNat ≤ 0x39 := by
  simp only [Char.isDigit, Bool.and_eq_true, decide_eq_true_eq] at h
  exact ⟨h.1, h.2⟩

theorem isBlank_of_isDigit {c : Char} (h : c.isDigit = true) : isBlank c = false := by
  obtain ⟨hlow, hhigh⟩ := isDigit_bounds h
  unfold isBlank
  simp only [Bool.or_eq_false_iff, Bool.and_eq_false_iff, decide_eq_false_iff_not, beq_eq_false_iff_ne]
  omega

theorem isDigits_iff {cs : List Char} :
    isDigits cs = true ↔ cs ≠ [] ∧ ∀ c ∈ cs, c.isDigit = true := by
  simp [isDigits]

theorem not_isDigits_minus (cs : List Char) : ¬ isDigits ('-' :: cs) = true := by
  rw [isDigits_iff]
  rintro ⟨-, hall⟩
  exact absurd (hall '-' List.mem_cons_self) (by decide)

/-- The number that digits write is that of base ten. -/
theorem ofDigits_eq (cs : List Char) :
    ofDigits (cs.map asciiDigitValue) = Nat.ofDigitChars 10 cs 0 := by
  rw [ofDigits, List.foldl_map, Nat.ofDigitChars_eq_foldl]
  rfl

/-- Digits are read, unless there are too many of them. -/
theorem readDigits_of_isDigits {ds : List Char} (h : isDigits ds = true) :
    readDigits ds = if digitLimit < ds.length then .tooLong
      else .value (Nat.ofDigitChars 10 ds 0 : Nat) := by
  unfold readDigits
  rw [h, ofDigits_eq]
  rfl

/-- Only digits are read as digits. -/
theorem eq_of_readDigits {ds : List Char} {n : Int} (h : readDigits ds = .value n) :
    isDigits ds = true ∧ n = (Nat.ofDigitChars 10 ds 0 : Nat) := by
  by_cases hdigits : isDigits ds = true
  · rw [readDigits_of_isDigits hdigits] at h
    split at h
    · cases h
    · exact ⟨hdigits, (Reading.value.inj h).symm⟩
  · rw [readDigits, if_pos (by simpa using hdigits)] at h
    cases h

/-- Digits without a sign are read as digits. -/
theorem readPlain_of_isDigits {ds : List Char} (h : isDigits ds = true) :
    readPlain ds = readDigits ds := by
  unfold readPlain
  split
  next rest => exact absurd h (not_isDigits_minus rest)
  next => rfl

/-! ### Numerals and their numbers -/

/-- **A numeral and its number:** one or more ASCII digits, in base ten, or a minus sign before them. -/
inductive Numeral : List Char → Int → Prop where
  | digits {ds : List Char} (h : isDigits ds = true) : Numeral ds (Nat.ofDigitChars 10 ds 0 : Nat)
  | minus {ds : List Char} (h : isDigits ds = true) :
      Numeral ('-' :: ds) (-(Nat.ofDigitChars 10 ds 0 : Nat))

namespace Numeral

variable {cs : List Char} {n : Int}

theorem ne_nil (h : Numeral cs n) : cs ≠ [] := by
  cases h with
  | digits h => exact (isDigits_iff.mp h).1
  | minus h => exact List.cons_ne_nil _ _

/-- A numeral holds digits, and otherwise only the sign. -/
theorem eq_or_isDigit_of_mem (h : Numeral cs n) {c : Char} (hc : c ∈ cs) :
    c = '-' ∨ c.isDigit = true := by
  cases h with
  | digits h => exact .inr ((isDigits_iff.mp h).2 c hc)
  | minus h => exact (List.mem_cons.mp hc).imp_right ((isDigits_iff.mp h).2 c)

/-- A numeral has one number. -/
theorem unique {m : Int} (h : Numeral cs n) (h' : Numeral cs m) : n = m := by
  cases h with
  | digits h =>
    cases h' with
    | digits _ => rfl
    | minus _ => exact absurd h (not_isDigits_minus _)
  | minus _ =>
    cases h' with
    | digits h' => exact absurd h' (not_isDigits_minus _)
    | minus _ => rfl

/-- What is read as a number is a numeral of it. -/
theorem of_readPlain (h : Text.readPlain cs = .value n) : Numeral cs n := by
  unfold Text.readPlain at h
  split at h
  next ds =>
    split at h
    next m hm =>
      obtain rfl := Reading.value.inj h
      obtain ⟨hdigits, rfl⟩ := eq_of_readDigits hm
      exact .minus hdigits
    next other hother => exact absurd h (hother n)
  next =>
    obtain ⟨hdigits, rfl⟩ := eq_of_readDigits h
    exact .digits hdigits

/-- **A numeral is read,** unless it has too many digits. -/
theorem readPlain (h : Numeral cs n) :
    Text.readPlain cs = .value n ∨ Text.readPlain cs = .tooLong := by
  cases h with
  | digits h =>
    rw [readPlain_of_isDigits h, readDigits_of_isDigits h]
    by_cases hlong : digitLimit < cs.length
    · exact .inr (if_pos hlong)
    · exact .inl (if_neg hlong)
  | @minus ds h =>
    rw [Text.readPlain, readDigits_of_isDigits h]
    by_cases hlong : digitLimit < ds.length
    · rw [if_pos hlong]
      exact .inr rfl
    · rw [if_neg hlong]
      exact .inl rfl

end Numeral

/-! ### Writing numbers -/

/-- A number in decimal notation, without leading zeros. -/
def decimal (n : Int) : List Char := (toString n).toList

/-- A number is written with its digits, and with a sign if it is negative. -/
theorem decimal_eq (n : Int) :
    decimal n = if 0 ≤ n then Nat.toDigits 10 n.natAbs else '-' :: Nat.toDigits 10 n.natAbs := by
  unfold decimal
  rw [Int.toString_eq_repr, Int.repr_eq_if]
  split
  next h =>
    have habs : n.toNat = n.natAbs := by omega
    rw [Nat.repr_eq_ofList_toDigits, String.toList_ofList, habs]
  next h =>
    have habs : (-n).toNat = n.natAbs := by omega
    rw [Nat.repr_eq_ofList_toDigits, String.toList_append, String.toList_ofList,
      String.toList_ofList, habs]
    rfl

theorem isDigits_toDigits (n : Nat) : isDigits (Nat.toDigits 10 n) = true :=
  isDigits_iff.mpr ⟨Nat.toDigits_ne_nil, fun _ hc =>
    Nat.isDigit_of_mem_toDigits (by decide) (by decide) hc⟩

/-- What is written for a number is one of its numerals. -/
theorem numeral_decimal (n : Int) : Numeral (decimal n) n := by
  have hvalue : Nat.ofDigitChars 10 (Nat.toDigits 10 n.natAbs) 0 = n.natAbs :=
    Nat.ofDigitChars_ten_toDigits
  rw [decimal_eq]
  split
  next h =>
    have hnumeral := Numeral.digits (isDigits_toDigits n.natAbs)
    rwa [hvalue, Int.natAbs_of_nonneg h] at hnumeral
  next h =>
    have hnumeral := Numeral.minus (isDigits_toDigits n.natAbs)
    have hneg : -(n.natAbs : Int) = n := by omega
    rwa [hvalue, hneg] at hnumeral

/-- A number that can be written has no more digits than are read. -/
theorem length_toDigits_of_tooLong_eq_false {n : Int} (h : tooLong n = false) :
    (Nat.toDigits 10 n.natAbs).length ≤ digitLimit := by
  -- for any limit, so that no power of ten is computed
  have hlength (limit : Nat) (hpos : 0 < limit) (hlt : n.natAbs < Nat.pow 10 limit) :
      (Nat.toDigits 10 n.natAbs).length ≤ limit := Nat.toDigits_length 10 n.natAbs limit hpos hlt
  unfold tooLong tooLongFrom at h
  rw [decide_eq_false_iff_not, Nat.not_le] at h
  exact hlength digitLimit (by decide) h

/-- A number that is no greater than the limit on digits can be written. -/
theorem tooLong_of_natAbs_le {n : Int} (h : n.natAbs ≤ digitLimit) : tooLong n = false := by
  have hpow (limit : Nat) (hle : n.natAbs ≤ limit) : n.natAbs < Nat.pow 10 limit :=
    Nat.lt_of_le_of_lt hle (Nat.lt_pow_self (by decide))
  unfold tooLong tooLongFrom
  rw [decide_eq_false_iff_not, Nat.not_le]
  exact hpow digitLimit h

/-- **What can be written can be read again.** -/
theorem readPlain_decimal {n : Int} (h : tooLong n = false) : readPlain (decimal n) = .value n := by
  have hlen := length_toDigits_of_tooLong_eq_false h
  -- it is read as a number or it has too many digits, and it has not
  refine (numeral_decimal n).readPlain.resolve_right fun hlong => ?_
  rw [decimal_eq] at hlong
  split at hlong
  · rw [readPlain_of_isDigits (isDigits_toDigits _), readDigits_of_isDigits (isDigits_toDigits _),
      if_neg (Nat.not_lt.mpr hlen)] at hlong
    cases hlong
  · rw [readPlain, readDigits_of_isDigits (isDigits_toDigits _), if_neg (Nat.not_lt.mpr hlen)] at hlong
    cases hlong

end Pinpoint.Text
