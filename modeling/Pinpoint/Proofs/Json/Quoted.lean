import Mathlib.Data.List.Basic
import Pinpoint.Json.Reader
import Pinpoint.Json.Writer

/-!
# Texts between quotes can be read

A character is written between quotes as itself, or as one or two escapes. What the reader makes of it are the
code points of the character, one or the two halves of a surrogate pair (`unitsOf`), whichever way it was
written (`WrittenAs`, `readText_of_writtenAs`). At the closing quote the halves are joined again, which gives
the characters that they were made of (`joinHalves_unitsOf`). So a text is read as it was written
(`readText_text`).
-/

namespace Pinpoint.Json

namespace Reader

variable {opening rest tail : List Char} {done : List Nat} {c : Char}

/-- The code points by which a character is given: its own, or those of two halves. -/
def unitsOf (c : Char) : List Nat :=
  if c.toNat < 0x10000 then [c.toNat]
  else [0xD800 + (c.toNat - 0x10000) / 0x400, 0xDC00 + (c.toNat - 0x10000) % 0x400]

/-! ### One character -/

/-- Four digits are read as the number that they write. -/
theorem unit?_hexDigits {n : Nat} (h : n < 0x10000) :
    unit? (Text.hexDigit (n / 16 / 16 / 16 % 16)) (Text.hexDigit (n / 16 / 16 % 16))
      (Text.hexDigit (n / 16 % 16)) (Text.hexDigit (n % 16)) = some n := by
  have hvalue (m : Nat) : Text.hexValue? (Text.hexDigit (m % 16)) = some (m % 16) :=
    Text.hexValue?_hexDigit _ (Nat.mod_lt m (by decide))
  unfold unit?
  simp only [hvalue, bind, Option.bind, pure]
  refine congrArg some ?_
  omega

/-- An escape of four digits gives the number that they write. -/
theorem readText_unitEscape {n : Nat} (h : n < 0x10000) (htail : tail ≠ []) :
    readText opening done (Writer.unitEscape n ++ tail) = readText opening (n :: done) tail := by
  obtain ⟨e, behind, rfl⟩ := List.exists_cons_of_ne_nil htail
  show readText opening done ('\\' :: 'u' :: _ :: _ :: _ :: _ :: e :: behind) = _
  rw [readText, unit?_hexDigits h]

/-- An escape of one letter gives the character that the letter stands for. -/
theorem readText_letter {letter : Char} (hletter : letter ≠ 'u') (h : escaped? letter = some c) :
    readText opening done ('\\' :: letter :: tail) = readText opening (c.toNat :: done) tail := by
  rw [readText.eq_def]
  split
  next heq => cases heq
  next heq => cases heq
  next heq =>
    obtain ⟨rfl, -⟩ := List.cons.inj (List.cons.inj heq).2
    exact absurd rfl hletter
  next heq =>
    obtain ⟨rfl, rfl⟩ := List.cons.inj (List.cons.inj heq).2
    rw [h]
  next heq => cases heq
  next hother _ heq =>
    obtain ⟨rfl, rfl⟩ := List.cons.inj heq
    exact absurd rfl (hother _ _ rfl)

/-- A character that needs no escape gives its code point. -/
theorem readText_plain (hquote : c ≠ '"') (hbackslash : c ≠ '\\') (hlow : 0x20 ≤ c.toNat) :
    readText opening done (c :: tail) = readText opening (c.toNat :: done) tail := by
  rw [readText.eq_def]
  split
  next heq => cases heq
  next heq => exact absurd (List.cons.inj heq).1 hquote
  next heq => exact absurd (List.cons.inj heq).1 hbackslash
  next heq => exact absurd (List.cons.inj heq).1 hbackslash
  next heq => exact absurd (List.cons.inj heq).1 hbackslash
  next heq =>
    obtain ⟨rfl, rfl⟩ := List.cons.inj heq
    exact if_neg (Nat.not_lt.mpr hlow)

/-- **The ways to write a character** between quotes. -/
inductive WrittenAs (c : Char) : List Char → Prop where
  | letter (l : Char) (ne : l ≠ 'u') (stands : escaped? l = some c) : WrittenAs c ['\\', l]
  | plain (quote : c ≠ '"') (backslash : c ≠ '\\') (low : 0x20 ≤ c.toNat) (small : c.toNat < 0x10000) :
      WrittenAs c [c]
  | unit (small : c.toNat < 0x10000) : WrittenAs c (Writer.unitEscape c.toNat)
  | halves (large : 0x10000 ≤ c.toNat) :
      WrittenAs c (Writer.unitEscape (0xD800 + (c.toNat - 0x10000) / 0x400)
        ++ Writer.unitEscape (0xDC00 + (c.toNat - 0x10000) % 0x400))

/-- The writer uses one of these ways. -/
theorem writtenAs_escapeChar (c : Char) : WrittenAs c (Writer.escapeChar c) := by
  have hchar (n : Nat) (h : c.toNat = n) : c = Char.ofNat n := by rw [← h, Char.ofNat_toNat]
  unfold Writer.escapeChar
  dsimp only
  split
  next h => exact .letter '"' (by decide) (congrArg some h.symm)
  split
  next h => exact .letter '\\' (by decide) (congrArg some h.symm)
  split
  next h => exact .letter 'n' (by decide) (congrArg some h.symm)
  split
  next h => exact .letter 'r' (by decide) (congrArg some h.symm)
  split
  next h => exact .letter 't' (by decide) (congrArg some h.symm)
  split
  next h => exact .letter 'b' (by decide) (congrArg some (hchar 8 h).symm)
  split
  next h => exact .letter 'f' (by decide) (congrArg some (hchar 12 h).symm)
  split
  next hquote hbackslash _ _ _ _ _ h => exact .plain hquote hbackslash h.1 (by omega)
  split
  next h => exact .unit h
  next h => exact .halves (Nat.not_lt.mp h)

/-- A letter stands for a character with one code point. -/
theorem toNat_lt_of_escaped? {l : Char} (h : escaped? l = some c) : c.toNat < 0x10000 := by
  unfold escaped? at h
  split at h
  all_goals cases h
  all_goals decide

/-- No code point is beyond the last one, and none is half a surrogate pair. -/
theorem toNat_bounds (c : Char) : c.toNat < 0xD800 ∨ 0xDFFF < c.toNat ∧ c.toNat < 0x110000 := c.valid

/-- **A character** gives the code points by which it is given, however it is written. -/
theorem readText_of_writtenAs {cs : List Char} (h : WrittenAs c cs) (htail : tail ≠ []) :
    readText opening done (cs ++ tail) = readText opening ((unitsOf c).reverse ++ done) tail := by
  cases h with
  | letter l hne hstands =>
    rw [unitsOf, if_pos (toNat_lt_of_escaped? hstands)]
    exact readText_letter hne hstands
  | plain hquote hbackslash hlow hsmall =>
    rw [unitsOf, if_pos hsmall]
    exact readText_plain hquote hbackslash hlow
  | unit hsmall =>
    rw [unitsOf, if_pos hsmall]
    exact readText_unitEscape hsmall htail
  | halves hlarge =>
    have hbounds := toNat_bounds c
    have hfirst : 0xD800 + (c.toNat - 0x10000) / 0x400 < 0x10000 := by omega
    have hsecond : 0xDC00 + (c.toNat - 0x10000) % 0x400 < 0x10000 := by omega
    have hmore : Writer.unitEscape (0xDC00 + (c.toNat - 0x10000) % 0x400) ++ tail ≠ [] :=
      List.cons_ne_nil _ _
    rw [unitsOf, if_neg (Nat.not_lt.mpr hlarge), List.append_assoc, readText_unitEscape hfirst hmore,
      readText_unitEscape hsecond htail]
    rfl

/-! ### A text -/

/-- A code point that is no half gives its character. -/
theorem joinHalves_cons {n : Nat} {units : List Nat} (hhigh : isHighHalf n = false)
    (hlow : isLowHalf n = false) : joinHalves (n :: units) = Char.ofNat n :: joinHalves units := by
  have hchar : charOf n = Char.ofNat n := by
    rw [charOf, hhigh, hlow]
    rfl
  cases units with
  | nil => rw [joinHalves, joinHalves, hchar]
  | cons m units =>
    rw [joinHalves, hhigh, hchar]
    rfl

/-- Two halves give the character beyond U+FFFF that they are the halves of. -/
theorem joinHalves_halves {n m : Nat} {units : List Nat} (hhigh : isHighHalf n = true)
    (hlow : isLowHalf m = true) :
    joinHalves (n :: m :: units)
      = Char.ofNat (0x10000 + (n - 0xD800) * 0x400 + (m - 0xDC00)) :: joinHalves units := by
  rw [joinHalves, hhigh, hlow]
  rfl

/-- **The code points of characters** are joined to these characters. -/
theorem joinHalves_unitsOf (cs : List Char) : joinHalves (cs.flatMap unitsOf) = cs := by
  induction cs with
  | nil => rfl
  | cons c cs ih =>
    have hbounds := toNat_bounds c
    rw [List.flatMap_cons, unitsOf]
    split
    next hsmall =>
      have hhigh : isHighHalf c.toNat = false := by
        simp only [isHighHalf, Bool.and_eq_false_iff, decide_eq_false_iff_not]
        omega
      have hlow : isLowHalf c.toNat = false := by
        simp only [isLowHalf, Bool.and_eq_false_iff, decide_eq_false_iff_not]
        omega
      rw [List.singleton_append, joinHalves_cons hhigh hlow, ih, Char.ofNat_toNat]
    next hlarge =>
      have hhigh : isHighHalf (0xD800 + (c.toNat - 0x10000) / 0x400) = true := by
        simp only [isHighHalf, Bool.and_eq_true, decide_eq_true_iff]
        omega
      have hlow : isLowHalf (0xDC00 + (c.toNat - 0x10000) % 0x400) = true := by
        simp only [isLowHalf, Bool.and_eq_true, decide_eq_true_iff]
        omega
      have hjoined : 0x10000 + (0xD800 + (c.toNat - 0x10000) / 0x400 - 0xD800) * 0x400
          + (0xDC00 + (c.toNat - 0x10000) % 0x400 - 0xDC00) = c.toNat := by omega
      rw [List.cons_append, List.singleton_append, joinHalves_halves hhigh hlow, hjoined, ih,
        Char.ofNat_toNat]

theorem readText_flatMap (opening : List Char) (done : List Nat) (cs rest : List Char) :
    readText opening done (cs.flatMap Writer.escapeChar ++ '"' :: rest)
      = .ok (String.ofList (joinHalves (done.reverse ++ cs.flatMap unitsOf)), rest) := by
  induction cs generalizing done with
  | nil => rw [List.flatMap_nil, List.flatMap_nil, List.append_nil, List.nil_append, readText]
  | cons c cs ih =>
    have htail : cs.flatMap Writer.escapeChar ++ '"' :: rest ≠ [] :=
      List.append_ne_nil_of_right_ne_nil _ (List.cons_ne_nil _ _)
    rw [List.flatMap_cons, List.flatMap_cons, List.append_assoc,
      readText_of_writtenAs (writtenAs_escapeChar c) htail, ih, List.reverse_append, List.reverse_reverse,
      List.append_assoc]

end Reader

/-- **A text is read** as it was written. -/
theorem Reader.readText_text (s : String) (opening rest : List Char) :
    readText opening [] (s.toList.flatMap Writer.escapeChar ++ '"' :: rest) = .ok (s, rest) := by
  rw [readText_flatMap, List.reverse_nil, List.nil_append, joinHalves_unitsOf, String.ofList_toList]

end Pinpoint.Json
