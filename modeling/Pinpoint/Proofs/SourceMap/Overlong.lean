import Pinpoint.Proofs.SourceMap.CarryForward
import Pinpoint.Proofs.Text.Numeral

/-!
# Source maps with a number that is too long

A source map that cannot be decoded is at fault in one of two ways. Mostly one of its segments is
(`Error.badSegment`), and then the contract cannot be read. But a numeric field may be written as it should be
and have more digits than are read (`IsOverlong`), and then the error is another one.

Which of the two it is depends on what comes first. Segments are read from left to right, and so are the
fields of a segment. `EndsAs` says of a reading when it has a result and when it stops at such a number; it
goes through chains (`EndsAs.bind`), from a field to a segment (`endsAs_next`) and to a list of segments
(`endsAs_decodeFrom`). The map stops at a number that is too long exactly if all before it can be read
(`FirstFaultIsOverlong`, `endsAs_decode`).
-/

namespace Pinpoint.SourceMap

/-! ### Fields -/

/-- What follows the minus sign of a text, or all of it. -/
def unsigned : List Char → List Char
  | '-' :: cs => cs
  | cs => cs

/-- **An integer with more digits than are read.** -/
def IsOverlong (cs : List Char) : Prop :=
  Text.isDigits (unsigned cs) = true ∧ Text.digitLimit < (unsigned cs).length

theorem readDigits_eq_tooLong_iff {cs : List Char} :
    Text.readDigits cs = .tooLong ↔ Text.isDigits cs = true ∧ Text.digitLimit < cs.length := by
  unfold Text.readDigits
  cases Text.isDigits cs with
  | false => simp
  | true =>
    by_cases hlong : Text.digitLimit < cs.length
    · simp [hlong]
    · simp [hlong]

theorem readPlain_eq_tooLong_iff {cs : List Char} :
    Text.readPlain cs = .tooLong ↔ IsOverlong cs := by
  unfold Text.readPlain IsOverlong
  split
  next rest =>
    rw [unsigned, ← readDigits_eq_tooLong_iff]
    cases Text.readDigits rest <;> simp
  next hminus =>
    have hself : unsigned cs = cs := by
      unfold unsigned
      split
      next rest => exact absurd rfl (hminus rest)
      next => rfl
    rw [hself, readDigits_eq_tooLong_iff]

/-! ### How reading ends -/

/-- A reading of a part of a source map ends with a result exactly if `reads`, and at a number that is too
long exactly if `overlong`. Otherwise a segment is at fault. -/
structure EndsAs {α : Type} (x : Except Error α) (reads overlong : Prop) : Prop where
  ok_iff : (∃ a, x = .ok a) ↔ reads
  tooLong_iff : x = .error .integerTooLong ↔ overlong
  error : ∀ e, x = .error e → e = .integerTooLong ∨ ∃ entry fault, e = .badSegment entry fault

section EndsAs

variable {α β : Type} {reads overlong reads' overlong' : Prop}

theorem EndsAs.congr {x : Except Error α} (h : EndsAs x reads overlong) (hreads : reads ↔ reads')
    (hoverlong : overlong ↔ overlong') : EndsAs x reads' overlong' :=
  ⟨h.ok_iff.trans hreads, h.tooLong_iff.trans hoverlong, h.error⟩

theorem endsAs_ok (a : α) : EndsAs (.ok a) True False := by
  refine ⟨⟨fun _ => trivial, fun _ => ⟨a, rfl⟩⟩, ⟨fun h => ?_, False.elim⟩, fun e h => ?_⟩
  · cases h
  · cases h

theorem endsAs_fail (entry : Nat) (fault : SegmentFault) :
    EndsAs (fail entry fault : Except Error α) False False := by
  refine ⟨⟨fun ⟨a, h⟩ => ?_, False.elim⟩, ⟨fun h => ?_, False.elim⟩, fun e h => ?_⟩
  · cases h
  · cases h
  · exact .inr ⟨entry, fault, (Except.error.inj h).symm⟩

/-- **One after the other:** what follows is read only if what comes first could be. -/
theorem EndsAs.bind {x : Except Error α} {f : α → Except Error β} (hx : EndsAs x reads overlong)
    (hf : ∀ a, x = .ok a → EndsAs (f a) reads' overlong') :
    EndsAs (x >>= f) (reads ∧ reads') (overlong ∨ reads ∧ overlong') := by
  cases h : x with
  | error e =>
    -- nothing is read after an error, so it is the end of both
    have hreads : ¬ reads := fun hr => by
      obtain ⟨a, ha⟩ := hx.ok_iff.mpr hr
      rw [h] at ha
      cases ha
    have hstop : (.error e >>= f : Except Error β) = .error e := rfl
    rw [hstop]
    refine ⟨⟨fun ⟨b, hb⟩ => ?_, fun hr => absurd hr.1 hreads⟩, ?_, fun e' he' => ?_⟩
    · cases hb
    · rw [← hx.tooLong_iff, h, Except.error.injEq, Except.error.injEq]
      exact ⟨.inl, fun ho => ho.resolve_right fun hr => hreads hr.1⟩
    · obtain rfl := Except.error.inj he'
      exact hx.error e h
  | ok a =>
    have hreads : reads := hx.ok_iff.mp ⟨a, h⟩
    have hoverlong : ¬ overlong := fun ho => by
      have htoo := hx.tooLong_iff.mpr ho
      rw [h] at htoo
      cases htoo
    exact (hf a h).congr (and_iff_right hreads).symm
      ((and_iff_right hreads).symm.trans (or_iff_right hoverlong).symm)

theorem EndsAs.map {x : Except Error α} (h : EndsAs x reads overlong) (f : α → β) :
    EndsAs (x.map f) reads overlong := by
  cases x with
  | error e =>
    refine ⟨⟨fun ⟨b, hb⟩ => ?_, fun hr => ?_⟩, ?_, fun e' he' => ?_⟩
    · cases hb
    · obtain ⟨a, ha⟩ := h.ok_iff.mpr hr
      cases ha
    · rw [← h.tooLong_iff, Except.map, Except.error.injEq, Except.error.injEq]
    · obtain rfl := Except.error.inj he'
      exact h.error e rfl
  | ok a =>
    have hreads : reads := h.ok_iff.mp ⟨a, rfl⟩
    refine ⟨⟨fun _ => hreads, fun _ => ⟨f a, rfl⟩⟩, ⟨fun he => ?_, fun ho => ?_⟩, fun e he => ?_⟩
    · cases he
    · cases h.tooLong_iff.mpr ho
    · cases he

end EndsAs

/-! ### Segments -/

/-- The text in column `i` of a segment can be read: it is empty, a jump letter in the column of the jumps,
or a number in any other. -/
def FieldReads (i : Nat) (cs : List Char) : Prop :=
  cs.isEmpty = true ∨
    if i = 3 then (JumpType.ofLetter? cs).isSome = true else (plainValue? cs).isSome = true

/-- A segment can be read. -/
def SegmentReads (segment : List Char) : Prop :=
  (Text.splitOn ':' segment).length ≤ 5 ∧ ∀ i < 5, FieldReads i (fieldOf i segment)

/-- The text in column `i` is a number that is too long. -/
def FieldOverlong (i : Nat) (cs : List Char) : Prop :=
  i ≠ 3 ∧ IsOverlong cs

/-- **The first fault of a segment** is a number that is too long. -/
def SegmentOverlong (segment : List Char) : Prop :=
  (Text.splitOn ':' segment).length ≤ 5 ∧
    ∃ i < 5, FieldOverlong i (fieldOf i segment) ∧ ∀ j < i, FieldReads j (fieldOf j segment)

theorem not_isOverlong_of_isEmpty {cs : List Char} (h : cs.isEmpty = true) : ¬ IsOverlong cs := by
  obtain rfl := List.isEmpty_iff.mp h
  intro hlong
  exact Nat.not_lt_zero _ hlong.2

theorem endsAs_readNumber (entry : Nat) (field : SegmentField) (cs : List Char) :
    EndsAs (readNumber entry field cs) ((plainValue? cs).isSome = true) (IsOverlong cs) := by
  unfold readNumber plainValue?
  rw [← readPlain_eq_tooLong_iff]
  cases Text.readPlain cs with
  | malformed => exact (endsAs_fail entry _).congr (by simp) (by simp)
  | value n => exact (endsAs_ok n).congr (by simp) (by simp)
  | tooLong =>
    refine ⟨⟨fun ⟨a, h⟩ => ?_, fun h => ?_⟩, ⟨fun _ => rfl, fun _ => rfl⟩, fun e h => ?_⟩
    · cases h
    · cases h
    · exact .inl (Except.error.inj h).symm

/-- A field that may be left empty. -/
theorem endsAs_fieldOr {α : Type} {carried : α} {read : List Char → Except Error α} {cs : List Char}
    {reads overlong : Prop} (h : EndsAs (read cs) reads overlong)
    (hempty : cs.isEmpty = true → ¬ overlong) :
    EndsAs (fieldOr carried read cs) (cs.isEmpty = true ∨ reads) overlong := by
  unfold fieldOr
  split
  next hbare =>
    exact (endsAs_ok carried).congr (by simp [hbare]) (by simp [hempty hbare])
  next hfull => exact h.congr (or_iff_right hfull).symm Iff.rfl

/-- A column with a number, whatever is made of the number. -/
theorem endsAs_number {α : Type} {i : Nat} {cs : List Char} (carried : α)
    {read : List Char → Except Error α} (hi : i ≠ 3)
    (hread : EndsAs (read cs) ((plainValue? cs).isSome = true) (IsOverlong cs)) :
    EndsAs (fieldOr carried read cs) (FieldReads i cs) (FieldOverlong i cs) := by
  refine (endsAs_fieldOr hread not_isOverlong_of_isEmpty).congr ?_ (and_iff_right hi).symm
  rw [FieldReads, if_neg hi]

/-- The column of the jumps. -/
theorem endsAs_jump (carried : JumpType) (entry : Nat) (cs : List Char) :
    EndsAs (fieldOr carried (readJump entry) cs) (FieldReads 3 cs) (FieldOverlong 3 cs) := by
  have hread : EndsAs (readJump entry cs) ((JumpType.ofLetter? cs).isSome = true) False := by
    unfold readJump
    cases JumpType.ofLetter? cs with
    | none => exact (endsAs_fail entry _).congr (by simp) Iff.rfl
    | some j => exact (endsAs_ok j).congr (by simp) Iff.rfl
  refine (endsAs_fieldOr hread fun _ => id).congr ?_ ?_
  · rw [FieldReads, if_pos rfl]
  · exact ⟨False.elim, fun h => h.1 rfl⟩

/-- What is first of some columns is the first of them all, or it is first after that. -/
theorem exists_first_succ {n : Nat} {p q : Nat → Prop} :
    (∃ i < n + 1, p i ∧ ∀ j < i, q j) ↔
      p 0 ∨ q 0 ∧ ∃ i < n, p (i + 1) ∧ ∀ j < i, q (j + 1) := by
  constructor
  · rintro ⟨i, hi, hp, hq⟩
    cases i with
    | zero => exact .inl hp
    | succ i =>
      refine .inr ⟨hq 0 (Nat.zero_lt_succ i), i, Nat.lt_of_succ_lt_succ hi, hp, fun j hj => ?_⟩
      exact hq (j + 1) (Nat.succ_lt_succ hj)
  · rintro (hp | ⟨hq0, i, hi, hp, hq⟩)
    · exact ⟨0, Nat.zero_lt_succ n, hp, fun j hj => absurd hj (Nat.not_lt_zero j)⟩
    · refine ⟨i + 1, Nat.succ_lt_succ hi, hp, fun j hj => ?_⟩
      cases j with
      | zero => exact hq0
      | succ j => exact hq j (Nat.lt_of_succ_lt_succ hj)

/-- **A segment is read** from left to right. -/
theorem endsAs_next (carry : Carry) (entry : Nat) (segment : List Char) :
    EndsAs (carry.next entry segment) (SegmentReads segment) (SegmentOverlong segment) := by
  unfold Carry.next
  dsimp only
  split
  next hmany =>
    have hnot : ¬ (Text.splitOn ':' segment).length ≤ 5 := Nat.not_le.mpr hmany
    exact (endsAs_fail entry _).congr ⟨False.elim, fun h => hnot h.1⟩ ⟨False.elim, fun h => hnot h.1⟩
  next hfew =>
    have hfew : (Text.splitOn ':' segment).length ≤ 5 := Nat.not_lt.mp hfew
    have hnumber (i : Nat) (field : SegmentField) (carried : Option Int) (hi : i ≠ 3) :
        EndsAs (fieldOr carried (fun cs => (readNumber entry field cs).map some) (fieldOf i segment))
          (FieldReads i (fieldOf i segment)) (FieldOverlong i (fieldOf i segment)) :=
      endsAs_number carried hi ((endsAs_readNumber entry field _).map some)
    -- the five columns, one after the other; what is carried over is never at fault
    have hchain := (hnumber 0 .start carry.start (by decide)).bind fun start _ =>
      (hnumber 1 .length carry.length (by decide)).bind fun length _ =>
      (hnumber 2 .fileIndex carry.fileIndex (by decide)).bind fun fileIndex _ =>
      (endsAs_jump carry.jump entry (fieldOf 3 segment)).bind fun jump _ =>
      (endsAs_number carry.modifierDepth (by decide : 4 ≠ 3)
        (endsAs_readNumber entry .modifierDepth (fieldOf 4 segment))).bind fun depth _ =>
      endsAs_ok (Carry.mk start length fileIndex jump depth)
    refine hchain.congr ?_ ?_
    · rw [SegmentReads, and_iff_right hfew]
      simp only [Nat.forall_lt_succ_left, Nat.not_lt_zero, false_implies, implies_true, and_true]
    · rw [SegmentOverlong, and_iff_right hfew]
      simp only [exists_first_succ, Nat.not_lt_zero, false_and, exists_false, and_false, or_false]

/-- All the values that an entry needs have been written. -/
def Carry.IsComplete (carry : Carry) : Prop :=
  carry.start.isSome = true ∧ carry.length.isSome = true ∧ carry.fileIndex.isSome = true

theorem endsAs_entry (carry : Carry) (entry : Nat) :
    EndsAs (carry.entry entry) carry.IsComplete False := by
  obtain ⟨start, length, fileIndex, jump, depth⟩ := carry
  unfold Carry.entry Carry.IsComplete
  dsimp only
  split
  next => exact (endsAs_ok _).congr (by simp) Iff.rfl
  next hnone =>
    -- with all three values the other branch would have been taken
    refine (endsAs_fail entry _).congr ⟨False.elim, fun ⟨hs, hl, hf⟩ => ?_⟩ Iff.rfl
    obtain ⟨_, rfl⟩ := Option.isSome_iff_exists.mp hs
    obtain ⟨_, rfl⟩ := Option.isSome_iff_exists.mp hl
    obtain ⟨_, rfl⟩ := Option.isSome_iff_exists.mp hf
    exact hnone _ _ _ rfl rfl rfl

/-- A field that is read gives a value unless it is empty and nothing was carried. -/
theorem isSome_of_fieldOr {carried v : Option Int} {entry : Nat} {field : SegmentField} {cs : List Char}
    (h : fieldOr carried (fun cs => (readNumber entry field cs).map some) cs = .ok v) :
    v.isSome = true ↔ carried.isSome = true ∨ ¬ cs.isEmpty = true := by
  rcases fieldOr_eq_ok h with ⟨hempty, rfl⟩ | ⟨hfull, hread⟩
  · exact (or_iff_left (not_not.mpr hempty)).symm
  · obtain ⟨n, -, rfl⟩ := Except.map_eq_ok.mp hread
    exact ⟨fun _ => .inr hfull, fun _ => rfl⟩

theorem isComplete_next_iff {carry carry' : Carry} {entry : Nat} {segment : List Char}
    (h : carry.next entry segment = .ok carry') :
    carry'.IsComplete ↔
      (carry.start.isSome = true ∨ ¬ (fieldOf 0 segment).isEmpty = true) ∧
        (carry.length.isSome = true ∨ ¬ (fieldOf 1 segment).isEmpty = true) ∧
        (carry.fileIndex.isSome = true ∨ ¬ (fieldOf 2 segment).isEmpty = true) := by
  unfold Carry.next at h
  dsimp only at h
  split at h
  · cases h
  · obtain ⟨start, hstart, h⟩ := Except.bind_eq_ok.mp h
    obtain ⟨length, hlength, h⟩ := Except.bind_eq_ok.mp h
    obtain ⟨fileIndex, hfile, h⟩ := Except.bind_eq_ok.mp h
    obtain ⟨jump, -, h⟩ := Except.bind_eq_ok.mp h
    obtain ⟨depth, -, h⟩ := Except.bind_eq_ok.mp h
    obtain rfl := Except.pure_eq_ok.mp h
    rw [Carry.IsComplete, isSome_of_fieldOr hstart, isSome_of_fieldOr hlength, isSome_of_fieldOr hfile]
    rfl

theorem isComplete_next {carry carry' : Carry} {entry : Nat} {segment : List Char}
    (hcarry : carry.IsComplete) (h : carry.next entry segment = .ok carry') : carry'.IsComplete :=
  (isComplete_next_iff h).mpr ⟨.inl hcarry.1, .inl hcarry.2.1, .inl hcarry.2.2⟩

/-- A segment gives all the values that an entry needs. -/
def SegmentComplete (segment : List Char) : Prop :=
  ∀ i < 3, ¬ (fieldOf i segment).isEmpty = true

/-- The first segment has to give all values. -/
theorem isComplete_next_initial {carry : Carry} {entry : Nat} {segment : List Char}
    (h : Carry.initial.next entry segment = .ok carry) :
    carry.IsComplete ↔ SegmentComplete segment := by
  rw [isComplete_next_iff h]
  simp only [Carry.initial, Option.isSome_none, Bool.false_eq_true, false_or, SegmentComplete,
    Nat.forall_lt_succ_left, Nat.not_lt_zero, false_implies, implies_true, and_true]

/-! ### Source maps -/

/-- What is first in a list is its head, or it is first after that. -/
theorem exists_first_cons {α : Type} {p q : α → Prop} {x : α} {xs : List α} :
    (∃ before y after, x :: xs = before ++ y :: after ∧ (∀ b ∈ before, q b) ∧ p y) ↔
      p x ∨ q x ∧ ∃ before y after, xs = before ++ y :: after ∧ (∀ b ∈ before, q b) ∧ p y := by
  constructor
  · rintro ⟨before, y, after, heq, hq, hp⟩
    cases before with
    | nil =>
      obtain ⟨rfl, rfl⟩ := List.cons.inj heq
      exact .inl hp
    | cons b before =>
      obtain ⟨rfl, rfl⟩ := List.cons.inj heq
      obtain ⟨hb, hq⟩ := List.forall_mem_cons.mp hq
      exact .inr ⟨hb, before, y, after, rfl, hq, hp⟩
  · rintro (hp | ⟨hx, before, y, after, rfl, hq, hp⟩)
    · exact ⟨[], x, xs, rfl, fun b hb => absurd hb List.not_mem_nil, hp⟩
    · exact ⟨x :: before, y, after, rfl, List.forall_mem_cons.mpr ⟨hx, hq⟩, hp⟩

/-- Some segment is at fault with a number that is too long, and all before it can be read. -/
def OverlongFirst (segments : List (List Char)) : Prop :=
  ∃ before segment after, segments = before ++ segment :: after ∧
    (∀ s ∈ before, SegmentReads s) ∧ SegmentOverlong segment

theorem overlongFirst_cons {segment : List Char} {rest : List (List Char)} :
    OverlongFirst (segment :: rest)
      ↔ SegmentOverlong segment ∨ SegmentReads segment ∧ OverlongFirst rest :=
  exists_first_cons

/-- **Segments are read** from left to right. -/
theorem endsAs_decodeFrom {carry : Carry} (hcarry : carry.IsComplete) (i : Nat)
    (rest : List (List Char)) :
    EndsAs (decodeFrom i carry rest) (∀ s ∈ rest, SegmentReads s) (OverlongFirst rest) := by
  induction rest generalizing i carry with
  | nil =>
    refine (endsAs_ok []).congr (by simp) ⟨False.elim, ?_⟩
    rintro ⟨before, segment, after, heq, -⟩
    cases before <;> cases heq
  | cons segment rest ih =>
    -- the carry stays complete, so that only the segment itself and those after it can be at fault
    have hchain := (endsAs_next carry i segment).bind fun carry' hnext =>
      have hcarry' := isComplete_next hcarry hnext
      ((endsAs_entry carry' i).congr (iff_true_intro hcarry') Iff.rfl).bind fun e _ =>
      (ih hcarry' (i + 1)).bind fun entries _ => endsAs_ok (e :: entries)
    refine hchain.congr ?_ ?_
    · simp only [true_and, and_true, List.forall_mem_cons]
    · rw [overlongFirst_cons]
      simp only [true_and, false_or, and_false, or_false]

/-- **The first fault of a source map** is a number that is too long: some segment has one, all segments before
it can be read, and the first of them gives all values. -/
def FirstFaultIsOverlong (segments : List (List Char)) : Prop :=
  ∃ before segment after, segments = before ++ segment :: after ∧
    (∀ s ∈ before, SegmentReads s) ∧ (∀ first ∈ before.head?, SegmentComplete first) ∧
    SegmentOverlong segment

/-- All segments can be read, and the first one gives all values. -/
def Decodes (segments : List (List Char)) : Prop :=
  (∀ s ∈ segments, SegmentReads s) ∧ ∀ first ∈ segments.head?, SegmentComplete first

theorem not_firstFaultIsOverlong_nil : ¬ FirstFaultIsOverlong [] := by
  rintro ⟨before, segment, after, heq, -⟩
  cases before <;> cases heq

theorem firstFaultIsOverlong_cons {first : List Char} {rest : List (List Char)} :
    FirstFaultIsOverlong (first :: rest) ↔
      SegmentOverlong first ∨ SegmentReads first ∧ SegmentComplete first ∧ OverlongFirst rest := by
  constructor
  · rintro ⟨before, segment, after, heq, hreads, hcomplete, hoverlong⟩
    cases before with
    | nil =>
      obtain ⟨rfl, rfl⟩ := List.cons.inj heq
      exact .inl hoverlong
    | cons s before =>
      obtain ⟨rfl, rfl⟩ := List.cons.inj heq
      obtain ⟨hs, hreads⟩ := List.forall_mem_cons.mp hreads
      exact .inr ⟨hs, hcomplete _ rfl, before, segment, after, rfl, hreads, hoverlong⟩
  · rintro (hoverlong | ⟨hs, hcomplete, before, segment, after, rfl, hreads, hoverlong⟩)
    · exact ⟨[], first, rest, rfl, by simp, by simp, hoverlong⟩
    · refine ⟨first :: before, segment, after, rfl, List.forall_mem_cons.mpr ⟨hs, hreads⟩, ?_, hoverlong⟩
      intro s hs
      obtain rfl := Option.some.inj hs
      exact hcomplete

/-- **How the decoding of a source map ends.** -/
theorem endsAs_decode (text : String) :
    EndsAs (decode text) (Decodes (segments text)) (FirstFaultIsOverlong (segments text)) := by
  refine EndsAs.map ?_ SourceMap.mk
  cases segments text with
  | nil =>
    refine (endsAs_ok []).congr ?_ ⟨False.elim, not_firstFaultIsOverlong_nil⟩
    exact ⟨fun _ => ⟨by simp, by simp⟩, fun _ => trivial⟩
  | cons first rest =>
    -- nothing is carried to the first segment, and after it the carry is complete
    have hchain := (endsAs_next .initial 0 first).bind fun carry hnext =>
      ((endsAs_entry carry 0).congr (isComplete_next_initial hnext) Iff.rfl).bind fun e he =>
      have hcarry : carry.IsComplete := (endsAs_entry carry 0).ok_iff.mp ⟨e, he⟩
      (endsAs_decodeFrom hcarry 1 rest).bind fun entries _ => endsAs_ok (e :: entries)
    refine hchain.congr ?_ ?_
    · simp only [Decodes, and_true, List.forall_mem_cons, List.head?_cons, Option.mem_def,
        Option.some.injEq, forall_eq']
      exact ⟨fun ⟨hfirst, hcomplete, hrest⟩ => ⟨⟨hfirst, hrest⟩, hcomplete⟩,
        fun ⟨⟨hfirst, hrest⟩, hcomplete⟩ => ⟨hfirst, hcomplete, hrest⟩⟩
    · rw [firstFaultIsOverlong_cons]
      simp only [false_or, and_false, or_false]

/-! ### A number as a source map -/

/-- **A source map that is one number** with too many digits. -/
theorem firstFaultIsOverlong_of_isDigits {cs : List Char} (hdigits : Text.isDigits cs = true)
    (hlong : Text.digitLimit < cs.length) : FirstFaultIsOverlong (segments (String.ofList cs)) := by
  have hdigit : ∀ c ∈ cs, c.isDigit = true := List.all_eq_true.mp (Bool.and_eq_true_iff.mp hdigits).2
  have hnot (sep : Char) (hsep : sep.isDigit = false) : sep ∉ cs := by
    intro hmem
    rw [hdigit sep hmem] at hsep
    cases hsep
  have htrim : Text.trim cs = cs := Text.trim_eq_self
    (fun c hc => Text.isBlank_of_isDigit (hdigit c (List.mem_of_mem_head? hc)))
    (fun c hc => Text.isBlank_of_isDigit (hdigit c (List.mem_of_getLast? hc)))
  have hfull : cs.isEmpty = false := by
    cases cs with
    | nil => exact absurd hlong (Nat.not_lt_zero _)
    | cons c cs => rfl
  -- there is one segment, it has one field, and the field is the number
  have hsegments : segments (String.ofList cs) = [cs] := by
    rw [segments, String.toList_ofList, htrim, Text.splitOn_of_not_mem (hnot ';' rfl)]
    unfold dropTrailingEmpty
    rw [List.reverse_singleton, List.dropWhile_cons, hfull]
    rfl
  have hfields : Text.splitOn ':' cs = [cs] := Text.splitOn_of_not_mem (hnot ':' rfl)
  have hunsigned : unsigned cs = cs := by
    unfold unsigned
    split
    next rest => exact absurd List.mem_cons_self (hnot '-' rfl)
    next => rfl
  rw [hsegments, firstFaultIsOverlong_cons]
  refine .inl ⟨by rw [hfields, List.length_singleton]; decide, 0, by decide, ⟨by decide, ?_⟩, ?_⟩
  · rw [fieldOf, hfields, IsOverlong]
    show Text.isDigits (unsigned cs) = true ∧ Text.digitLimit < (unsigned cs).length
    rw [hunsigned]
    exact ⟨hdigits, hlong⟩
  · intro j hj
    exact absurd hj (Nat.not_lt_zero j)

end Pinpoint.SourceMap
