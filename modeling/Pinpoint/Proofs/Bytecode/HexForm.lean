import Pinpoint.Bytecode.Instructions
import Pinpoint.Text.Quoted
import Mathlib.Data.List.Induction
import Mathlib.Data.List.TakeWhile

/-!
# Bytes in hexadecimal

`hexForm` writes bytes as bytecode is usually given, two lower-case digits for each and the high half first.
A text *spells* the bytes (`Spells`) if it has these digits, in either case, behind a marker or none and
with blanks around everything. Exactly what spells bytes is read as those bytes, and all other texts are
refused, for the number of their digits or for a character that is no digit (`decodeHex_iff_spells`).

The three steps of the reading have different notions of a digit, and each has a gap that the step before
closes. The check of the digits would let a line break pass at their end, but blanks are gone from there
(`isDigitLine_hexDigitsOf_iff`). The conversion passes over spaces and refuses a single last digit; but
after the check there are no spaces, and digits in pairs are always converted (`exists_hexForm`).
-/

namespace Pinpoint.Bytecode

variable {text digits : List Char} {code : List UInt8} {c : Char} {n : Nat}

/-! ### Digits -/

theorem isHexDigit_eq_isSome (c : Char) : isHexDigit c = (Text.hexValue? c).isSome := by
  unfold isHexDigit Text.hexValue?
  split_ifs <;> simp_all

theorem bounds_of_isHexDigit (h : isHexDigit c = true) :
    (0x30 ≤ c.toNat ∧ c.toNat ≤ 0x39) ∨ (0x61 ≤ c.toNat ∧ c.toNat ≤ 0x66) ∨
      (0x41 ≤ c.toNat ∧ c.toNat ≤ 0x46) := by
  simp only [isHexDigit, Bool.or_eq_true, Bool.and_eq_true, decide_eq_true_eq] at h
  rcases h with (⟨hlow, hhigh⟩ | ⟨hlow, hhigh⟩) | ⟨hlow, hhigh⟩
  · exact .inl ⟨hlow, hhigh⟩
  · exact .inr (.inl ⟨hlow, hhigh⟩)
  · exact .inr (.inr ⟨hlow, hhigh⟩)

/-- A digit is not blank. -/
theorem isBlank_of_isHexDigit (h : isHexDigit c = true) : Text.isBlank c = false := by
  have hbounds := bounds_of_isHexDigit h
  unfold Text.isBlank
  simp only [Bool.or_eq_false_iff, Bool.and_eq_false_iff, decide_eq_false_iff_not, beq_eq_false_iff_ne]
  omega

/-- A digit is no space that the conversion passes over. -/
theorem isSpace_of_isHexDigit (h : isHexDigit c = true) : isSpace c = false := by
  rw [← Bool.not_eq_true]
  intro hspace
  rw [isSpace, Bool.or_eq_true, beq_iff_eq, Bool.and_eq_true, decide_eq_true_eq, decide_eq_true_eq]
    at hspace
  rcases hspace with rfl | ⟨-, htop⟩
  · exact absurd h (by decide)
  · have hbounds := bounds_of_isHexDigit h
    have htop' : c.toNat ≤ 0x0D := htop
    omega

/-- **The value of a digit:** in lower case, it is the digit that is written for the value. -/
theorem hexValue?_eq_some_iff : Text.hexValue? c = some n ↔ n < 16 ∧ c.toLower = Text.hexDigit n := by
  -- Only the first 128 characters have to be looked at, each by its number.
  have hascii : ∀ k < 128, ∀ n < 16,
      (Char.ofNat k).toLower = Text.hexDigit n ↔ Text.hexValue? (Char.ofNat k) = some n := by
    decide +kernel
  have hbound : ∀ k < 128, ∀ m ∈ Text.hexValue? (Char.ofNat k), m < 16 := by decide +kernel
  constructor
  · intro h
    have hdigit : isHexDigit c = true := by
      rw [isHexDigit_eq_isSome, h]
      rfl
    have hlt : c.toNat < 128 := by
      have := bounds_of_isHexDigit hdigit
      omega
    rw [← Char.ofNat_toNat c] at h ⊢
    have hn := hbound _ hlt n h
    exact ⟨hn, (hascii _ hlt n hn).mpr h⟩
  · rintro ⟨hn, h⟩
    have hlt : c.toNat < 128 := by
      by_contra hge
      -- other characters are their own lower case, and no digit is among them
      have hself : c.toLower = c := by
        refine dif_neg fun hupper => hge ?_
        have htop : c.toNat ≤ 0x5A := hupper.2
        omega
      have hall : ∀ n < 16, (Text.hexDigit n).toNat < 128 := by decide
      rw [hself] at h
      exact hge (h ▸ hall n hn)
    rw [← Char.ofNat_toNat c] at h ⊢
    exact (hascii _ hlt n hn).mp h

theorem isHexDigit_iff : isHexDigit c = true ↔ ∃ n < 16, c.toLower = Text.hexDigit n := by
  rw [isHexDigit_eq_isSome, Option.isSome_iff_exists]
  exact exists_congr fun n => hexValue?_eq_some_iff

/-! ### The digits of bytes -/

/-- The bytes as hexadecimal digits. -/
def hexForm (code : List UInt8) : String :=
  String.ofList (code.flatMap fun b => Text.hexDigits 2 b.toNat)

/-- The two digits of a byte are those of its halves. -/
theorem hexForm_cons (b : UInt8) (code : List UInt8) : (hexForm (b :: code)).toList
    = Text.hexDigit (b.toNat / 16) :: Text.hexDigit (b.toNat % 16) :: (hexForm code).toList := by
  have hbyte := b.toNat_lt
  have hhigh : b.toNat / 16 % 16 = b.toNat / 16 := Nat.mod_eq_of_lt (by omega)
  rw [hexForm, hexForm, String.toList_ofList, String.toList_ofList, List.flatMap_cons]
  simp only [Text.hexDigits, List.nil_append, List.cons_append, hhigh]

/-- There are two digits for each byte. -/
theorem length_hexForm (code : List UInt8) : (hexForm code).toList.length = 2 * code.length := by
  induction code with
  | nil => rfl
  | cons b code ih =>
    rw [hexForm_cons, List.length_cons, List.length_cons, ih, List.length_cons]
    omega

/-- Only digits are written, in lower case. -/
theorem exists_of_mem_hexForm (h : c ∈ (hexForm code).toList) : ∃ n < 16, c = Text.hexDigit n := by
  induction code with
  | nil => cases h
  | cons b code ih =>
    have hbyte := b.toNat_lt
    rw [hexForm_cons, List.mem_cons, List.mem_cons] at h
    rcases h with rfl | rfl | h
    · exact ⟨b.toNat / 16, by omega, rfl⟩
    · exact ⟨b.toNat % 16, by omega, rfl⟩
    · exact ih h

/-- What is written is in lower case. -/
theorem map_toLower_hexForm (code : List UInt8) :
    (hexForm code).toList.map Char.toLower = (hexForm code).toList := by
  have hall : ∀ n < 16, (Text.hexDigit n).toLower = Text.hexDigit n := by decide
  calc (hexForm code).toList.map Char.toLower
      = (hexForm code).toList.map id := by
        apply List.map_congr_left
        intro c hc
        obtain ⟨n, hn, rfl⟩ := exists_of_mem_hexForm hc
        exact hall n hn
    _ = (hexForm code).toList := List.map_id _

/-- The digits of bytes in either case are digits. -/
theorem isHexDigit_of_mem (h : digits.map Char.toLower = (hexForm code).toList) :
    ∀ c ∈ digits, isHexDigit c = true := by
  intro c hc
  have hlower : c.toLower ∈ (hexForm code).toList := h ▸ List.mem_map_of_mem hc
  exact isHexDigit_iff.mpr (exists_of_mem_hexForm hlower)

/-- **Digits in pairs** are those of some bytes. -/
theorem exists_hexForm (h : ∀ c ∈ digits, isHexDigit c = true) (heven : digits.length % 2 = 0) :
    ∃ code, digits.map Char.toLower = (hexForm code).toList := by
  induction digits using List.twoStepInduction with
  | nil => exact ⟨[], rfl⟩
  | singleton c =>
    rw [List.length_singleton] at heven
    omega
  | cons_cons high low digits ih _ =>
    obtain ⟨hhigh, hlow, hrest⟩ : isHexDigit high = true ∧ isHexDigit low = true ∧
        ∀ c ∈ digits, isHexDigit c = true := by
      simpa only [List.forall_mem_cons] using h
    rw [List.length_cons, List.length_cons] at heven
    obtain ⟨code, hcode⟩ := ih hrest (by omega)
    obtain ⟨m, hm, hm'⟩ := isHexDigit_iff.mp hhigh
    obtain ⟨n, hn, hn'⟩ := isHexDigit_iff.mp hlow
    -- the byte with these halves
    have hbyte : (UInt8.ofNat (16 * m + n)).toNat = 16 * m + n := UInt8.toNat_ofNat_of_lt' (by
      show 16 * m + n < 256
      omega)
    refine ⟨UInt8.ofNat (16 * m + n) :: code, ?_⟩
    rw [hexForm_cons, hbyte, List.map_cons, List.map_cons, hm', hn', hcode]
    congr 3 <;> omega

/-- **The conversion** of the digits of bytes gives these bytes. -/
theorem bytesOfHex?_eq_some (h : digits.map Char.toLower = (hexForm code).toList) :
    bytesOfHex? digits = some code := by
  induction code generalizing digits with
  | nil =>
    obtain rfl := List.map_eq_nil_iff.mp h
    rfl
  | cons b code ih =>
    have hbyte := b.toNat_lt
    have hhalves : 16 * (b.toNat / 16) + b.toNat % 16 = b.toNat := by omega
    have hdigits := isHexDigit_of_mem h
    rw [hexForm_cons] at h
    obtain ⟨high, rest, rfl, hhigh, h⟩ := List.map_eq_cons_iff.mp h
    obtain ⟨low, digits, rfl, hlow, h⟩ := List.map_eq_cons_iff.mp h
    have hhigh' := hexValue?_eq_some_iff.mpr ⟨(by omega : b.toNat / 16 < 16), hhigh⟩
    have hlow' := hexValue?_eq_some_iff.mpr ⟨(by omega : b.toNat % 16 < 16), hlow⟩
    have hspace := isSpace_of_isHexDigit (hdigits high List.mem_cons_self)
    -- the first pair stands for the first byte
    rw [bytesOfHex?, hspace]
    show (do
      let h ← Text.hexValue? high
      let l ← Text.hexValue? low
      let bytes ← bytesOfHex? digits
      return UInt8.ofNat (16 * h + l) :: bytes) = some (b :: code)
    rw [hhigh', hlow', ih h]
    show some (UInt8.ofNat (16 * (b.toNat / 16) + b.toNat % 16) :: code) = some (b :: code)
    rw [hhalves, UInt8.ofNat_toNat]

/-! ### What stands around the digits -/

/-- The markers that may stand before the digits, one of them empty. -/
def markers : List (List Char) := [[], ['0', 'x'], ['0', 'X']]

/-- **A text spells bytes** if it has their digits, in either case, behind a marker or none, and blanks
around them. -/
inductive Spells : List Char → List UInt8 → Prop
  | intro {front marker digits back : List Char} {code : List UInt8}
      (blankFront : ∀ c ∈ front, Text.isBlank c = true) (marked : marker ∈ markers)
      (spelled : digits.map Char.toLower = (hexForm code).toList)
      (blankBack : ∀ c ∈ back, Text.isBlank c = true) :
      Spells (front ++ (marker ++ digits) ++ back) code

/-- What is dropped from the front is a marker. -/
theorem exists_marker (cs : List Char) : ∃ marker ∈ markers, cs = marker ++ dropMarker cs := by
  unfold dropMarker
  split
  · exact ⟨['0', 'x'], by decide, rfl⟩
  · exact ⟨['0', 'X'], by decide, rfl⟩
  · exact ⟨[], by decide, rfl⟩

/-- Digits do not start with a marker. -/
theorem dropMarker_append {marker : List Char} (hmarker : marker ∈ markers)
    (h : ∀ c ∈ digits, isHexDigit c = true) : dropMarker (marker ++ digits) = digits := by
  have hx : ∀ rest, digits ≠ '0' :: 'x' :: rest := by
    rintro rest rfl
    exact absurd (h 'x' (by simp)) (by decide)
  have hX : ∀ rest, digits ≠ '0' :: 'X' :: rest := by
    rintro rest rfl
    exact absurd (h 'X' (by simp)) (by decide)
  simp only [markers, List.mem_cons, List.not_mem_nil, or_false] at hmarker
  rcases hmarker with rfl | rfl | rfl
  · rw [List.nil_append]
    unfold dropMarker
    split
    next rest => exact absurd rfl (hx rest)
    next rest => exact absurd rfl (hX rest)
    next => rfl
  · rfl
  · rfl

/-- A text spells bytes exactly if what is left of it are their digits. -/
theorem spells_iff : Spells text code ↔ (hexDigitsOf text).map Char.toLower = (hexForm code).toList := by
  constructor
  · rintro @⟨front, marker, digits, back, code, hfront, hmarker, h, hback⟩
    have hdigits := isHexDigit_of_mem h
    -- neither marker nor digits are blank, so trimming ends at them
    have hkept : ∀ c ∈ marker ++ digits, Text.isBlank c = false := by
      intro c hc
      have hall : markers.all (·.all fun c => !Text.isBlank c) = true := by decide
      rcases List.mem_append.mp hc with hc | hc
      · have hblank := List.all_eq_true.mp (List.all_eq_true.mp hall marker hmarker) c hc
        exact Bool.not_eq_true' _ ▸ hblank
      · exact isBlank_of_isHexDigit (hdigits c hc)
    have htrim : Text.trim (front ++ (marker ++ digits) ++ back) = marker ++ digits := by
      rw [Text.trim_append _ hfront hback]
      exact Text.trim_eq_self (fun c hc => hkept c (List.mem_of_mem_head? hc))
        fun c hc => hkept c (List.mem_of_mem_getLast? hc)
    rw [hexDigitsOf, htrim, dropMarker_append hmarker hdigits, h]
  · intro h
    obtain ⟨front, back, htext, hfront, hback⟩ := Text.exists_blanks_trim text
    obtain ⟨marker, hmarker, htrim⟩ := exists_marker (Text.trim text)
    rw [htext, htrim]
    exact .intro hfront hmarker h hback

/-! ### Reading -/

/-- **The check of the digits** has no gap: blanks were dropped, so there is no line break at the end. -/
theorem isDigitLine_hexDigitsOf_iff (cs : List Char) :
    isDigitLine (hexDigitsOf cs) = true ↔ ∀ c ∈ hexDigitsOf cs, isHexDigit c = true := by
  have hend : (hexDigitsOf cs).getLast? ≠ some '\n' := by
    intro hbreak
    obtain ⟨marker, -, htrim⟩ := exists_marker (Text.trim cs)
    have hlast : (Text.trim cs).getLast? = some '\n' := by
      rw [htrim, List.getLast?_append]
      show (hexDigitsOf cs).getLast?.or _ = _
      rw [hbreak]
      rfl
    exact absurd (Text.not_isBlank_of_mem_getLast?_trim hlast) (by decide)
  have hline : (hexDigitsOf cs).dropWhile isHexDigit ≠ ['\n'] := by
    intro hrest
    apply hend
    rw [← List.takeWhile_append_dropWhile (p := isHexDigit) (l := hexDigitsOf cs), hrest]
    exact List.getLast?_concat
  rw [isDigitLine, Bool.or_eq_true, beq_iff_eq, beq_iff_eq, or_iff_left hline,
    List.dropWhile_eq_nil_iff]

/-- The digits of bytes are read as these bytes. -/
theorem decodeHex_of_spells {text : String} (h : Spells text.toList code) : decodeHex text = .ok code := by
  have hdigits := spells_iff.mp h
  have heven : ¬ (hexDigitsOf text.toList).length % 2 ≠ 0 := by
    have hlength : (hexDigitsOf text.toList).length = 2 * code.length := by
      rw [← length_hexForm, ← hdigits, List.length_map]
    omega
  have hline := (isDigitLine_hexDigitsOf_iff text.toList).mpr (isHexDigit_of_mem hdigits)
  unfold decodeHex
  dsimp only
  rw [if_neg heven, hline, bytesOfHex?_eq_some hdigits]

/-- **The ends of the reading.** What does not spell bytes has an odd number of digits, or a character
among them that is none. -/
theorem decodeHex_ends (text : String) : (∃ code, Spells text.toList code) ∨
    (∃ count, decodeHex text = .error (.oddDigits count)) ∨ decodeHex text = .error .notHex := by
  by_cases hodd : (hexDigitsOf text.toList).length % 2 ≠ 0
  · exact .inr (.inl ⟨_, if_pos hodd⟩)
  · by_cases hline : isDigitLine (hexDigitsOf text.toList) = true
    · obtain ⟨code, hcode⟩ := exists_hexForm ((isDigitLine_hexDigitsOf_iff _).mp hline)
        (not_not.mp hodd)
      exact .inl ⟨code, spells_iff.mpr hcode⟩
    · refine .inr (.inr ?_)
      unfold decodeHex
      dsimp only
      rw [if_neg hodd, Bool.eq_false_iff.mpr hline]

/-- A text that cannot be read is refused for the number or the kind of its digits. -/
theorem eq_of_decodeHex_eq_error {text : String} {e : Error} (h : decodeHex text = .error e) :
    (∃ count, e = .oddDigits count) ∨ e = .notHex := by
  rcases decodeHex_ends text with ⟨code, hcode⟩ | ⟨count, hcount⟩ | hnot
  · cases h.symm.trans (decodeHex_of_spells hcode)
  · exact .inl ⟨count, Except.error.inj (h.symm.trans hcount)⟩
  · exact .inr (Except.error.inj (h.symm.trans hnot))

/-- **Reading accepts exactly what spells bytes,** and gives these bytes. All other texts are refused for the
number or the kind of their digits, and for nothing else. -/
theorem decodeHex_iff_spells (text : String) :
    (∀ code, decodeHex text = .ok code ↔ Spells text.toList code) ∧
      ((∀ code, ¬ Spells text.toList code) ↔
        (∃ count, decodeHex text = .error (.oddDigits count)) ∨ decodeHex text = .error .notHex) := by
  rcases decodeHex_ends text with ⟨code, hcode⟩ | herror
  · -- a text that spells bytes is read as these, so it spells no others and is not refused
    have hok := decodeHex_of_spells hcode
    refine ⟨fun other => ⟨fun hother => ?_, decodeHex_of_spells⟩, ?_⟩
    · obtain rfl := Except.ok.inj (hok.symm.trans hother)
      exact hcode
    · rw [hok]
      refine iff_of_false (fun hnone => hnone code hcode) ?_
      rintro (⟨count, hcount⟩ | hnot)
      · cases hcount
      · cases hnot
  · -- a text that is refused spells nothing, for else it would be read
    have hnone : ∀ code, decodeHex text ≠ .ok code := by
      intro code hok
      rcases herror with ⟨count, hcount⟩ | hnot
      · cases hok.symm.trans hcount
      · cases hok.symm.trans hnot
    have hspells : ∀ code, ¬ Spells text.toList code := fun code hcode =>
      hnone code (decodeHex_of_spells hcode)
    exact ⟨fun code => iff_of_false (hnone code) (hspells code), iff_of_true hspells herror⟩

/-- **What is written is read** as the bytes that it was written for. -/
theorem decodeHex_hexForm (code : List UInt8) : decodeHex (hexForm code) = .ok code := by
  have hbare : Spells ([] ++ ([] ++ (hexForm code).toList) ++ []) code :=
    .intro (List.forall_mem_nil _) List.mem_cons_self (map_toLower_hexForm code) (List.forall_mem_nil _)
  rw [List.append_nil] at hbare
  exact decodeHex_of_spells hbare

/-- The index of a text is that of the bytes in it. -/
theorem InstructionIndex.ofHex_of_decodeHex {text : String} {code : List UInt8}
    (h : decodeHex text = .ok code) : ofHex text = .ok ⟨instructionStarts code⟩ := by
  unfold ofHex
  rw [h]
  rfl

end Pinpoint.Bytecode
