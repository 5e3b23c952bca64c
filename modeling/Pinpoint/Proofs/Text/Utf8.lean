import Mathlib.Tactic.Ring
import Pinpoint.Text.Utf8

/-!
# Texts as bytes and back

A text that is written as UTF-8 is read back as it was (`decode_toUTF8`). The reader goes byte by byte and keeps
what the character under way still owes, so the proof follows one character through the reader: its first byte
promises the bytes behind it (`decodeFrom_lead`), and these add six bits each until none is owed any more
(`decodeFrom_tails`).
-/

namespace Pinpoint.Text.Utf8

variable {i : Nat} {done : List Char} {b : UInt8} {rest : List UInt8}

/-! ### Bytes one at a time -/

/-- A byte that is a character of its own. -/
theorem decodeFrom_single {bits : Nat} (h : lead? b.toNat = some ⟨0, 0x80, 0xBF, bits⟩) :
    decodeFrom i done none (b :: rest) = decodeFrom (i + 1) (Char.ofNat bits :: done) none rest := by
  simp only [decodeFrom, h, if_pos]

/-- The first byte of a character to which more belong. -/
theorem decodeFrom_lead {l : Lead} (h : lead? b.toNat = some l) (htails : l.tails ≠ 0) :
    decodeFrom i done none (b :: rest)
      = decodeFrom (i + 1) done (some ⟨l, i, b.toNat, 1⟩) rest := by
  simp only [decodeFrom, h, if_neg htails]

/-- A byte behind which more are owed. -/
theorem decodeFrom_tail {p : Pending} (hlow : p.lead.low ≤ b.toNat) (hhigh : b.toNat ≤ p.lead.high)
    (htails : p.lead.tails ≠ 1) :
    decodeFrom i done (some p) (b :: rest)
      = decodeFrom (i + 1) done (some ⟨⟨p.lead.tails - 1, 0x80, 0xBF, p.lead.bits * 64 + (b.toNat - 0x80)⟩,
          p.position, p.byte, p.taken + 1⟩) rest := by
  have hrange : (b.toNat < p.lead.low || p.lead.high < b.toNat) = false := by
    simp only [Bool.or_eq_false_iff, decide_eq_false_iff_not, not_lt]
    exact ⟨hlow, hhigh⟩
  simp only [decodeFrom, hrange, Bool.false_eq_true, if_false, if_neg htails]

/-- The last byte of a character. -/
theorem decodeFrom_last {p : Pending} (hlow : p.lead.low ≤ b.toNat) (hhigh : b.toNat ≤ p.lead.high)
    (htails : p.lead.tails = 1) :
    decodeFrom i done (some p) (b :: rest)
      = decodeFrom (i + 1) (Char.ofNat (p.lead.bits * 64 + (b.toNat - 0x80)) :: done) none rest := by
  have hrange : (b.toNat < p.lead.low || p.lead.high < b.toNat) = false := by
    simp only [Bool.or_eq_false_iff, decide_eq_false_iff_not, not_lt]
    exact ⟨hlow, hhigh⟩
  simp only [decodeFrom, hrange, Bool.false_eq_true, if_false, if_pos htails]

theorem toNat_ofNat_of_lt {n : Nat} (h : n < 256) : (UInt8.ofNat n).toNat = n := by
  rw [UInt8.toNat_ofNat', Nat.mod_eq_of_lt h]

/-- The bytes that carry the last `k` groups of six bits of a number. -/
def tailBytes (k v : Nat) : List UInt8 :=
  match k with
  | 0 => []
  | k + 1 => UInt8.ofNat (v / 64 ^ k % 64 + 0x80) :: tailBytes k v

/-- **The bytes behind the first one** add their bits to the number, if the first of them is in its range. -/
theorem decodeFrom_tails (i : Nat) (done : List Char) (rest : List UInt8) {k v : Nat} {p : Pending}
    (htails : p.lead.tails = k + 1) (hlow : p.lead.low ≤ v / 64 ^ k % 64 + 0x80)
    (hhigh : v / 64 ^ k % 64 + 0x80 ≤ p.lead.high) :
    ∃ j, decodeFrom i done (some p) (tailBytes (k + 1) v ++ rest)
      = decodeFrom j (Char.ofNat (p.lead.bits * 64 ^ (k + 1) + v % 64 ^ (k + 1)) :: done) none rest := by
  induction k generalizing p i with
  | zero =>
    have hbyte := toNat_ofNat_of_lt (n := v / 64 ^ 0 % 64 + 0x80) (by omega)
    refine ⟨i + 1, ?_⟩
    rw [← hbyte] at hlow hhigh
    rw [tailBytes, tailBytes, List.singleton_append, decodeFrom_last hlow hhigh htails, hbyte,
      Nat.add_sub_cancel, pow_zero, Nat.div_one, zero_add, pow_one]
  | succ k ih =>
    have hbyte := toNat_ofNat_of_lt (n := v / 64 ^ (k + 1) % 64 + 0x80) (by omega)
    have hmore : p.lead.tails ≠ 1 := by omega
    rw [← hbyte] at hlow hhigh
    -- what is owed now is one byte less, and the bits so far have moved up by six
    let next : Pending := ⟨⟨p.lead.tails - 1, 0x80, 0xBF, p.lead.bits * 64 + v / 64 ^ (k + 1) % 64⟩,
      p.position, p.byte, p.taken + 1⟩
    have hnext : next.lead.tails = k + 1 := by
      show p.lead.tails - 1 = k + 1
      omega
    have hlownext : next.lead.low ≤ v / 64 ^ k % 64 + 0x80 := Nat.le_add_left _ _
    have hhighnext : v / 64 ^ k % 64 + 0x80 ≤ next.lead.high := by
      show v / 64 ^ k % 64 + 0x80 ≤ 0xBF
      omega
    obtain ⟨j, hj⟩ := ih (i + 1) hnext hlownext hhighnext
    have hbits : next.lead.bits * 64 ^ (k + 1) + v % 64 ^ (k + 1)
        = p.lead.bits * 64 ^ (k + 1 + 1) + v % 64 ^ (k + 1 + 1) := by
      show (p.lead.bits * 64 + v / 64 ^ (k + 1) % 64) * 64 ^ (k + 1) + v % 64 ^ (k + 1) = _
      rw [pow_succ 64 (k + 1), Nat.mod_mul]
      ring
    refine ⟨j, ?_⟩
    rw [tailBytes, List.cons_append, decodeFrom_tail hlow hhigh hmore, hbyte, Nat.add_sub_cancel]
    rw [hbits] at hj
    exact hj

/-! ### First bytes -/

theorem lead?_two {n : Nat} (h : 0xC2 ≤ n) (h' : n < 0xE0) :
    lead? n = some ⟨1, 0x80, 0xBF, n - 0xC0⟩ := by
  unfold lead?
  rw [if_neg (by omega), if_neg (by omega), if_pos h']

/-- A first byte of three: the least and the greatest byte behind it leave out what is shorter and what is half of
a surrogate pair. -/
theorem lead?_three {n : Nat} (h : 0xE0 ≤ n) (h' : n < 0xF0) :
    lead? n = some ⟨2, if n = 0xE0 then 0xA0 else 0x80, if n = 0xED then 0x9F else 0xBF, n - 0xE0⟩ := by
  unfold lead?
  rw [if_neg (by omega), if_neg (by omega), if_neg (by omega)]
  by_cases hE0 : n = 0xE0
  · subst hE0
    rfl
  by_cases hED : n = 0xED
  · subst hED
    rfl
  rw [if_neg hE0, if_neg hED, if_pos h', if_neg hE0, if_neg hED]

/-- A first byte of four: the least and the greatest byte behind it leave out what is shorter and what is beyond
Unicode. -/
theorem lead?_four {n : Nat} (h : 0xF0 ≤ n) (h' : n ≤ 0xF4) :
    lead? n = some ⟨3, if n = 0xF0 then 0x90 else 0x80, if n = 0xF4 then 0x8F else 0xBF, n - 0xF0⟩ := by
  obtain rfl | rfl | rfl | rfl | rfl : n = 0xF0 ∨ n = 0xF1 ∨ n = 0xF2 ∨ n = 0xF3 ∨ n = 0xF4 := by omega
  all_goals rfl

/-! ### A character -/

/-- The numbers of characters leave out the halves of surrogate pairs. -/
theorem toNat_range (c : Char) : c.val.toNat < 0xD800 ∨ (0xDFFF < c.val.toNat ∧ c.val.toNat < 0x110000) :=
  c.valid

/-- **A character of several bytes is read back:** the first byte carries what is above the bits of the others. -/
theorem decodeFrom_lead_tails (i : Nat) (done : List Char) (rest : List UInt8)
    {k v first low high base : Nat} (hfirst : first < 256)
    (hlead : lead? first = some ⟨k + 1, low, high, first - base⟩) (hbits : first - base = v / 64 ^ (k + 1))
    (hlow : low ≤ v / 64 ^ k % 64 + 0x80) (hhigh : v / 64 ^ k % 64 + 0x80 ≤ high) :
    ∃ j, decodeFrom i done none (UInt8.ofNat first :: tailBytes (k + 1) v ++ rest)
      = decodeFrom j (Char.ofNat v :: done) none rest := by
  have hbyte := toNat_ofNat_of_lt hfirst
  rw [← hbyte] at hlead
  obtain ⟨j, hj⟩ := decodeFrom_tails (i + 1) done rest (v := v)
    (p := ⟨⟨k + 1, low, high, (UInt8.ofNat first).toNat - base⟩, i, (UInt8.ofNat first).toNat, 1⟩) rfl hlow hhigh
  refine ⟨j, ?_⟩
  rw [List.cons_append, decodeFrom_lead hlead (Nat.succ_ne_zero k), hj]
  show decodeFrom j (Char.ofNat (((UInt8.ofNat first).toNat - base) * 64 ^ (k + 1) + v % 64 ^ (k + 1)) :: done)
    none rest = _
  rw [hbyte, hbits, Nat.div_add_mod']

/-- **A character is read back** from the bytes that write it. -/
theorem decodeFrom_utf8EncodeChar (c : Char) (i : Nat) (done : List Char) (rest : List UInt8) :
    ∃ j, decodeFrom i done none (String.utf8EncodeChar c ++ rest) = decodeFrom j (c :: done) none rest := by
  have hrange := toNat_range c
  have hchar : Char.ofNat c.val.toNat = c := Char.ofNat_toNat c
  unfold String.utf8EncodeChar
  dsimp only
  generalize c.val.toNat = v at hrange hchar
  rw [← hchar]
  split
  next hone =>
    have hbyte := toNat_ofNat_of_lt (n := v) (by omega)
    have hlead : lead? (UInt8.ofNat v).toNat = some ⟨0, 0x80, 0xBF, v⟩ := by
      rw [hbyte, lead?, if_pos (by omega)]
    exact ⟨i + 1, decodeFrom_single hlead⟩
  next hone =>
    split
    next htwo =>
      have hlead := lead?_two (n := v / 64 % 0x20 + 0xc0) (by omega) (by omega)
      have hread := decodeFrom_lead_tails i done rest (k := 0) (v := v) (by omega) hlead
        (by omega) (by omega) (by omega)
      simpa [tailBytes] using hread
    next htwo =>
      split
      next hthree =>
        have hlead := lead?_three (n := v / 4096 % 0x10 + 0xe0) (by omega) (by omega)
        have hread := decodeFrom_lead_tails i done rest (k := 1) (v := v) (by omega)
          hlead (by omega) (by split <;> omega) (by split <;> omega)
        simpa [tailBytes] using hread
      next hthree =>
        have hlead := lead?_four (n := v / 262144 % 0x08 + 0xf0) (by omega) (by omega)
        have hread := decodeFrom_lead_tails i done rest (k := 2) (v := v) (by omega)
          hlead (by omega) (by split <;> omega) (by split <;> omega)
        simpa [tailBytes] using hread

/-! ### A text -/

theorem decodeFrom_flatMap (cs : List Char) (i : Nat) (done : List Char) :
    decodeFrom i done none (cs.flatMap String.utf8EncodeChar) = .ok (done.reverse ++ cs) := by
  induction cs generalizing i done with
  | nil => simp [decodeFrom]
  | cons c cs ih =>
    obtain ⟨j, hj⟩ := decodeFrom_utf8EncodeChar c i done (cs.flatMap String.utf8EncodeChar)
    rw [List.flatMap_cons, hj, ih, List.reverse_cons, List.append_assoc, List.singleton_append]

/-- The bytes of an array from one on, behind those that were collected already. -/
theorem toList_loop_eq (bytes : ByteArray) (i : Nat) (done : List UInt8) :
    ByteArray.toList.loop bytes i done = done.reverse ++ bytes.data.toList.drop i := by
  fun_induction ByteArray.toList.loop bytes i done with
  | case1 i done h ih =>
    have hlt : i < bytes.data.toList.length := by simpa using h
    have hget : bytes.get! i = bytes.data.toList[i] := by
      show bytes.data[i]! = _
      rw [getElem!_pos bytes.data i h, Array.getElem_toList]
    rw [ih, List.reverse_cons, List.append_assoc, List.singleton_append, hget, ← List.drop_eq_getElem_cons hlt]
  | case2 i done h =>
    have hle : bytes.data.toList.length ≤ i := by simpa using h
    rw [List.drop_of_length_le hle, List.append_nil]

/-- The bytes of a text are those of its characters. -/
theorem toList_toUTF8 (s : String) : s.toUTF8.toList = s.toList.flatMap String.utf8EncodeChar := by
  rw [ByteArray.toList, toList_loop_eq, String.toUTF8_eq_toByteArray, ← String.utf8Encode_toList, List.utf8Encode,
    List.data_toByteArray]
  rfl

/-- **A text is read back from its bytes.** -/
theorem decode_toUTF8 (s : String) : decode s.toUTF8.toList = .ok s.toList := by
  rw [decode, toList_toUTF8, decodeFrom_flatMap, List.reverse_nil, List.nil_append]

end Pinpoint.Text.Utf8
