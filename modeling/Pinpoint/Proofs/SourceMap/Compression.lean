import Pinpoint.Proofs.SourceMap.CarryForward
import Pinpoint.Proofs.Text.Numeral

/-!
# Compressed spellings

A list of entries has many spellings as a source map: each field may be written out, or left empty where it
repeats the entry before (`Repeats`), and empty fields at the end of a segment may be left out together with
their colons (`Spells`). Before the first entry there is a regular jump and the modifier depth zero to repeat,
and nothing else. `decode_of_spellsAll` says that all spellings are decoded to the list that they spell.

What the decoder carries to a segment is the entry before (`carryOf`). A segment that spells the next entry
takes the carry there (`next_of_spells`), and so through the whole list (`decodeFrom_of_spellsAll`). That the
text falls apart into just these segments and fields is a matter of characters: neither blanks nor separators
are written within a field (`IsFieldChar`).
-/

namespace Pinpoint.SourceMap

/-! ### Spellings -/

/-- The text of column `c` of an entry. -/
def written (e : SourceEntry) : Nat → List Char
  | 0 => Text.decimal e.start
  | 1 => Text.decimal e.length
  | 2 => Text.decimal e.fileIndex
  | 3 => e.jump.letter.toList
  | _ => Text.decimal e.modifierDepth

/-- Column `c` of an entry has the value of the entry before, or the one that holds before anything is written. -/
def Repeats (before : Option SourceEntry) (e : SourceEntry) : Nat → Prop
  | 0 => before.map (·.start) = some e.start
  | 1 => before.map (·.length) = some e.length
  | 2 => before.map (·.fileIndex) = some e.fileIndex
  | 3 => (before.map (·.jump)).getD .regular = e.jump
  | _ => (before.map (·.modifierDepth)).getD 0 = e.modifierDepth

instance (before : Option SourceEntry) (e : SourceEntry) : (c : Nat) → Decidable (Repeats before e c)
  | 0 => inferInstanceAs (Decidable (before.map (·.start) = some e.start))
  | 1 => inferInstanceAs (Decidable (before.map (·.length) = some e.length))
  | 2 => inferInstanceAs (Decidable (before.map (·.fileIndex) = some e.fileIndex))
  | 3 => inferInstanceAs (Decidable ((before.map (·.jump)).getD .regular = e.jump))
  | _ + 4 => inferInstanceAs (Decidable ((before.map (·.modifierDepth)).getD 0 = e.modifierDepth))

/-- **A segment spells an entry** that stands behind `before`: it has up to five fields, and each of the five
columns is written out, or is empty or left out and repeats the entry before. -/
def Spells (before : Option SourceEntry) (e : SourceEntry) (segment : List Char) : Prop :=
  ∃ fields : List (List Char), segment = Text.join ':' fields ∧ fields.length ≤ 5 ∧
    ∀ c < 5, fields.getD c [] = written e c ∨ fields.getD c [] = [] ∧ Repeats before e c

/-- **Segments spell entries,** one each, the first of which stands behind `before`. -/
inductive SpellsAll : Option SourceEntry → List SourceEntry → List (List Char) → Prop where
  | nil (before : Option SourceEntry) : SpellsAll before [] []
  | cons {before : Option SourceEntry} {e : SourceEntry} {segment : List Char}
      {entries : List SourceEntry} {segments : List (List Char)} (first : Spells before e segment)
      (rest : SpellsAll (some e) entries segments) : SpellsAll before (e :: entries) (segment :: segments)

/-- None of the numbers of an entry has more digits than are written. -/
structure Writable (e : SourceEntry) : Prop where
  start : Text.tooLong e.start = false
  length : Text.tooLong e.length = false
  fileIndex : Text.tooLong e.fileIndex = false
  modifierDepth : Text.tooLong e.modifierDepth = false

instance (e : SourceEntry) : Decidable (Writable e) :=
  decidable_of_iff (Text.tooLong e.start = false ∧ Text.tooLong e.length = false ∧
      Text.tooLong e.fileIndex = false ∧ Text.tooLong e.modifierDepth = false)
    ⟨fun ⟨hstart, hlength, hfile, hdepth⟩ => ⟨hstart, hlength, hfile, hdepth⟩,
      fun ⟨hstart, hlength, hfile, hdepth⟩ => ⟨hstart, hlength, hfile, hdepth⟩⟩

/-! ### Characters -/

/-- A character that is written within a field. -/
def IsFieldChar (x : Char) : Prop := x = '-' ∨ x = 'i' ∨ x = 'o' ∨ x.isDigit = true

instance (x : Char) : Decidable (IsFieldChar x) :=
  inferInstanceAs (Decidable (_ ∨ _))

theorem IsFieldChar.ne {x sep : Char} (h : IsFieldChar x) (hsep : sep = ':' ∨ sep = ';') : x ≠ sep := by
  rintro rfl
  rcases hsep with rfl | rfl <;> exact absurd h (by decide)

theorem IsFieldChar.not_blank {x : Char} (h : IsFieldChar x) : Text.isBlank x = false := by
  rcases h with rfl | rfl | rfl | h
  · rfl
  · rfl
  · rfl
  · exact Text.isBlank_of_isDigit h

theorem isFieldChar_of_mem_written {e : SourceEntry} {c : Nat} {x : Char} (h : x ∈ written e c) :
    IsFieldChar x := by
  have hnumber {n : Int} (hx : x ∈ Text.decimal n) : IsFieldChar x :=
    ((Text.numeral_decimal n).eq_or_isDigit_of_mem hx).imp_right fun hdigit => .inr (.inr hdigit)
  have hletter {j : JumpType} (hx : x ∈ j.letter.toList) : IsFieldChar x := by
    cases j with
    | into => exact .inr (.inl (List.mem_singleton.mp hx))
    | out => exact .inr (.inr (.inl (List.mem_singleton.mp hx)))
    | regular => exact .inl (List.mem_singleton.mp hx)
  unfold written at h
  split at h
  · exact hnumber h
  · exact hnumber h
  · exact hnumber h
  · exact hletter h
  · exact hnumber h

theorem written_ne_nil (e : SourceEntry) (c : Nat) : written e c ≠ [] := by
  unfold written
  split
  · exact (Text.numeral_decimal _).ne_nil
  · exact (Text.numeral_decimal _).ne_nil
  · exact (Text.numeral_decimal _).ne_nil
  · cases e.jump <;> decide
  · exact (Text.numeral_decimal _).ne_nil

/-! ### One segment -/

/-- What is carried behind an entry. -/
def carryOf (before : Option SourceEntry) : Carry :=
  ⟨before.map (·.start), before.map (·.length), before.map (·.fileIndex),
    (before.map (·.jump)).getD .regular, (before.map (·.modifierDepth)).getD 0⟩

@[simp] theorem carryOf_none : carryOf none = .initial := rfl

theorem entry_carryOf (e : SourceEntry) (k : Nat) : (carryOf (some e)).entry k = .ok e := rfl

section Spells

variable {before : Option SourceEntry} {e : SourceEntry} {segment : List Char}

/-- Nothing else is written within the fields of a spelling. -/
theorem isFieldChar_of_mem_field {fields : List (List Char)} (hfew : fields.length ≤ 5)
    (h : ∀ c < 5, fields.getD c [] = written e c ∨ fields.getD c [] = [] ∧ Repeats before e c)
    {field : List Char} (hfield : field ∈ fields) {x : Char} (hx : x ∈ field) : IsFieldChar x := by
  obtain ⟨c, hc, rfl⟩ := List.getElem_of_mem hfield
  have hcolumn := h c (Nat.lt_of_lt_of_le hc hfew)
  rw [List.getD_eq_getElem _ _ hc] at hcolumn
  rcases hcolumn with hwritten | ⟨hempty, -⟩
  · rw [hwritten] at hx
    exact isFieldChar_of_mem_written hx
  · rw [hempty] at hx
    cases hx

/-- The fields of a segment that is put together are found again. -/
theorem fieldOf_join {fields : List (List Char)} (h : ∀ field ∈ fields, ':' ∉ field) (c : Nat) :
    fieldOf c (Text.join ':' fields) = fields.getD c [] := by
  unfold fieldOf
  cases fields with
  | nil => cases c <;> rfl
  | cons field fields => rw [Text.splitOn_join (List.cons_ne_nil field fields) h]

theorem length_splitOn_join {fields : List (List Char)} (h : ∀ field ∈ fields, ':' ∉ field)
    (hfew : fields.length ≤ 5) : (Text.splitOn ':' (Text.join ':' fields)).length ≤ 5 := by
  cases fields with
  | nil => decide
  | cons field fields => rwa [Text.splitOn_join (List.cons_ne_nil field fields) h]

/-- A field that is written out, or is empty where its value is carried, is read. -/
theorem fieldOr_eq {α : Type} {carried v : α} {read : List Char → Except Error α} {cs text : List Char}
    (hfull : text ≠ []) (hread : read text = .ok v) (h : cs = text ∨ cs = [] ∧ carried = v) :
    fieldOr carried read cs = .ok v := by
  unfold fieldOr
  rcases h with rfl | ⟨rfl, rfl⟩
  · rw [if_neg fun hempty => hfull (List.isEmpty_iff.mp hempty), hread]
  · rfl

theorem readNumber_decimal {n : Int} (h : Text.tooLong n = false) (k : Nat) (field : SegmentField) :
    readNumber k field (Text.decimal n) = .ok n :=
  readNumber_eq_ok.mpr (plainValue?_eq_some_iff.mpr (Text.readPlain_decimal h))

/-- A number for which nothing may have been carried so far. -/
theorem fieldOr_decimal {n : Int} (h : Text.tooLong n = false) (k : Nat) (field : SegmentField)
    {carried : Option Int} {cs : List Char} (hcs : cs = Text.decimal n ∨ cs = [] ∧ carried = some n) :
    fieldOr carried (fun cs => (readNumber k field cs).map some) cs = .ok (some n) := by
  refine fieldOr_eq (Text.numeral_decimal n).ne_nil ?_ hcs
  rw [readNumber_decimal h]
  rfl

/-- **A spelling is read as the entry that it spells.** -/
theorem next_of_spells (hwritable : Writable e) (h : Spells before e segment) (k : Nat) :
    (carryOf before).next k segment = .ok (carryOf (some e)) := by
  obtain ⟨fields, rfl, hfew, hcolumns⟩ := h
  -- no field holds a colon, so the segment is split into just these fields
  have hcolon : ∀ field ∈ fields, ':' ∉ field := fun field hfield hmem =>
    (isFieldChar_of_mem_field hfew hcolumns hfield hmem).ne (.inl rfl) rfl
  -- the five columns, one after the other
  simp only [← fieldOf_join hcolon] at hcolumns
  have hstart := fieldOr_decimal hwritable.start k .start (hcolumns 0 (by decide))
  have hlength := fieldOr_decimal hwritable.length k .length (hcolumns 1 (by decide))
  have hfile := fieldOr_decimal hwritable.fileIndex k .fileIndex (hcolumns 2 (by decide))
  have hletter : readJump k (written e 3) = .ok e.jump :=
    readJump_eq_ok.mpr (JumpType.ofLetter?_letter e.jump)
  have hjump := fieldOr_eq (written_ne_nil e 3) hletter (hcolumns 3 (by decide))
  have hdepth := fieldOr_eq (written_ne_nil e 4)
    (readNumber_decimal hwritable.modifierDepth k .modifierDepth) (hcolumns 4 (by decide))
  unfold Carry.next
  dsimp only
  rw [if_neg (Nat.not_lt.mpr (length_splitOn_join hcolon hfew))]
  exact Except.bind_eq_ok.mpr ⟨_, hstart, Except.bind_eq_ok.mpr ⟨_, hlength,
    Except.bind_eq_ok.mpr ⟨_, hfile, Except.bind_eq_ok.mpr ⟨_, hjump,
    Except.bind_eq_ok.mpr ⟨_, hdepth, rfl⟩⟩⟩⟩⟩

/-- A segment holds what its fields hold, and colons. -/
theorem isFieldChar_or_of_mem (h : Spells before e segment) {x : Char} (hx : x ∈ segment) :
    IsFieldChar x ∨ x = ':' := by
  obtain ⟨fields, rfl, hfew, hcolumns⟩ := h
  rcases Text.mem_join hx with rfl | ⟨field, hfield, hx⟩
  · exact .inr rfl
  · exact .inl (isFieldChar_of_mem_field hfew hcolumns hfield hx)

end Spells

/-! ### A whole map -/

section SpellsAll

variable {before : Option SourceEntry} {entries : List SourceEntry} {segments : List (List Char)}

/-- **A run over spelled segments** gives the entries that they spell. -/
theorem decodeFrom_of_spellsAll (h : SpellsAll before entries segments)
    (hwritable : ∀ e ∈ entries, Writable e) (k : Nat) :
    decodeFrom k (carryOf before) segments = .ok entries := by
  induction h generalizing k with
  | nil before => rfl
  | @cons before e segment entries segments first rest ih =>
    obtain ⟨he, hentries⟩ := List.forall_mem_cons.mp hwritable
    rw [decodeFrom, next_of_spells he first, Except.ok_bind, entry_carryOf, Except.ok_bind,
      ih hentries (k + 1), Except.ok_bind]
    rfl

theorem isFieldChar_or_of_mem_segment (h : SpellsAll before entries segments) {segment : List Char}
    (hsegment : segment ∈ segments) {x : Char} (hx : x ∈ segment) : IsFieldChar x ∨ x = ':' := by
  induction h with
  | nil before => cases hsegment
  | cons first rest ih =>
    rcases List.mem_cons.mp hsegment with rfl | hsegment
    · exact isFieldChar_or_of_mem first hx
    · exact ih hsegment

/-- A text put together from spelled segments falls apart into them, if none is missing at the end. -/
theorem segments_join (h : SpellsAll before entries segments) (hlast : segments.getLast? ≠ some []) :
    SourceMap.segments (String.ofList (Text.join ';' segments)) = segments := by
  have hsemicolon : ∀ segment ∈ segments, ';' ∉ segment := fun segment hsegment hmem =>
    (isFieldChar_or_of_mem_segment h hsegment hmem).elim (fun hx => hx.ne (.inr rfl) rfl) (by decide)
  have hblank : ∀ x ∈ Text.join ';' segments, Text.isBlank x = false := by
    intro x hx
    rcases Text.mem_join hx with rfl | ⟨segment, hsegment, hx⟩
    · rfl
    · rcases isFieldChar_or_of_mem_segment h hsegment hx with hx | rfl
      · exact hx.not_blank
      · rfl
  -- without blanks at its ends the text is not trimmed
  have htrim : Text.trim (Text.join ';' segments) = Text.join ';' segments :=
    Text.trim_eq_self (fun x hx => hblank x (List.mem_of_mem_head? hx))
      (fun x hx => hblank x (List.mem_of_getLast? hx))
  rw [SourceMap.segments, String.toList_ofList, htrim]
  cases segments with
  | nil => rfl
  | cons segment segments =>
    rw [Text.splitOn_join (List.cons_ne_nil segment segments) hsemicolon, dropTrailingEmpty_eq_self hlast]

/-- **Every spelling of a source map is decoded to it.** The segments may leave out what repeats the entry
before, but the last one may not be left out altogether. -/
theorem decode_of_spellsAll (hwritable : ∀ e ∈ entries, Writable e) (h : SpellsAll none entries segments)
    (hlast : segments.getLast? ≠ some []) :
    decode (String.ofList (Text.join ';' segments)) = .ok ⟨entries⟩ := by
  rw [decode, segments_join h hlast, ← carryOf_none, decodeFrom_of_spellsAll h hwritable]
  rfl

end SpellsAll

/-- Three entries: the second is a copy of the first, the third repeats length and file. -/
def threeEntries : List SourceEntry :=
  [⟨10, 5, 0, .regular, 0⟩, ⟨10, 5, 0, .regular, 0⟩, ⟨-1, 5, 0, .into, 2⟩]

/-- A spelling that leaves out all that may be left out. -/
theorem threeEntries_spelled :
    (∀ e ∈ threeEntries, Writable e) ∧
      SpellsAll none threeEntries ["10:5:0".toList, [], "-1:::i:2".toList] ∧
      decode "10:5:0;;-1:::i:2" = .ok ⟨threeEntries⟩ := by
  have hwritable : ∀ e ∈ threeEntries, Writable e := by decide +kernel
  have hfirst : Spells none ⟨10, 5, 0, .regular, 0⟩ "10:5:0".toList :=
    ⟨["10".toList, "5".toList, "0".toList], rfl, by decide, by decide +kernel⟩
  have hsecond : Spells (some ⟨10, 5, 0, .regular, 0⟩) ⟨10, 5, 0, .regular, 0⟩ [] :=
    ⟨[], rfl, by decide, by decide +kernel⟩
  have hthird : Spells (some ⟨10, 5, 0, .regular, 0⟩) ⟨-1, 5, 0, .into, 2⟩ "-1:::i:2".toList :=
    ⟨["-1".toList, [], [], "i".toList, "2".toList], rfl, by decide, by decide +kernel⟩
  have hspelled : SpellsAll none threeEntries ["10:5:0".toList, [], "-1:::i:2".toList] :=
    .cons hfirst (.cons hsecond (.cons hthird (.nil _)))
  have htext : String.ofList (Text.join ';' ["10:5:0".toList, [], "-1:::i:2".toList])
      = "10:5:0;;-1:::i:2" := by decide
  refine ⟨hwritable, hspelled, ?_⟩
  rw [← htext]
  exact decode_of_spellsAll hwritable hspelled (by decide)

end Pinpoint.SourceMap
