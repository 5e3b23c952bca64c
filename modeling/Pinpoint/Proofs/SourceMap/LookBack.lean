import Pinpoint.Proofs.SourceMap.Overlong

/-!
# Source-map entries by looking back

An entry of a decoded source map, told from the segments of its text without any decoding. To find a field of
entry `k`, look back from segment `k` for the last segment that has a text in the field's column
(`IsLastText`). The field is what that text means; and if there is no such segment it is what holds before
anything is written, a regular jump and the modifier depth zero (`LooksBack`, `IsEntry`). What a text means is
told in the same manner: numbers are numerals, and a jump is its letter.

The decoder's side of this is `lastWritten`, the last text that is not empty in a column of the segments read
so far. The induction is on their number: one more segment has a text of its own, or it leaves the last one
where it is (`lastWritten_take_spec`). As a field has one value only (`LooksBack.unique`),
`entries_iff_isEntry` can say exactly which entries a map has.
-/

namespace Pinpoint.SourceMap

/-! ### The last text in a column -/

section LastText

variable {segments : List (List Char)} {c n : Nat}

/-- The text in column `c` of segment `j`; empty if the segment ends before. -/
def textAt (segments : List (List Char)) (c j : Nat) : List Char :=
  fieldOf c (segments.getD j [])

/-- Segment `j` is the last of the first `n` segments that has a text in column `c`. -/
structure IsLastText (segments : List (List Char)) (c n j : Nat) : Prop where
  lt : j < n
  full : textAt segments c j ≠ []
  bare : ∀ i, j < i → i < n → textAt segments c i = []

/-- There is only one last segment. -/
theorem IsLastText.unique {j j' : Nat} (h : IsLastText segments c n j)
    (h' : IsLastText segments c n j') : j = j' := by
  rcases Nat.lt_trichotomy j j' with hlt | heq | hgt
  · exact absurd (h.bare j' hlt h'.lt) h'.full
  · exact heq
  · exact absurd (h'.bare j hgt h.lt) h.full

/-- A segment without a text in the column leaves the last one where it is. -/
theorem IsLastText.succ {j : Nat} (h : IsLastText segments c n j) (hbare : textAt segments c n = []) :
    IsLastText segments c (n + 1) j := by
  refine ⟨Nat.lt_succ_of_lt h.lt, h.full, fun i hlt hle => ?_⟩
  rcases Nat.lt_succ_iff_lt_or_eq.mp hle with hlt' | rfl
  · exact h.bare i hlt hlt'
  · exact hbare

/-- One more segment either has a text of its own, or it changes nothing. -/
theorem lastWritten_take_succ (hn : n < segments.length) :
    lastWritten c (segments.take (n + 1))
      = if (textAt segments c n).isEmpty then lastWritten c (segments.take n)
        else some (textAt segments c n) := by
  rw [List.take_succ_eq_append_getElem hn, lastWritten_append, textAt, List.getD_eq_getElem _ _ hn]

/-- **The text written last** is that of the last segment with one. -/
theorem lastWritten_take_spec (hn : n ≤ segments.length) :
    (∃ j, IsLastText segments c n j ∧
        lastWritten c (segments.take n) = some (textAt segments c j)) ∨
      (∀ j < n, textAt segments c j = []) ∧ lastWritten c (segments.take n) = none := by
  induction n with
  | zero => exact .inr ⟨fun j hj => absurd hj (Nat.not_lt_zero j), rfl⟩
  | succ n ih =>
    rw [lastWritten_take_succ hn]
    by_cases hempty : (textAt segments c n).isEmpty = true
    · have hbare : textAt segments c n = [] := List.isEmpty_iff.mp hempty
      rw [if_pos hempty]
      rcases ih (Nat.le_of_succ_le hn) with ⟨j, hj, hwritten⟩ | ⟨hall, hwritten⟩
      · exact .inl ⟨j, hj.succ hbare, hwritten⟩
      · exact .inr ⟨Nat.forall_lt_succ_right.mpr ⟨hall, hbare⟩, hwritten⟩
    · -- the new segment is now the last one
      rw [if_neg hempty]
      refine .inl ⟨n, ⟨Nat.lt_succ_self n, fun hbare => hempty (List.isEmpty_iff.mpr hbare), ?_⟩, rfl⟩
      intro i hlt hle
      exact absurd hlt (Nat.not_lt.mpr (Nat.le_of_lt_succ hle))

end LastText

/-! ### The value of a field -/

section LooksBack

variable {α : Type} {meaning : List Char → α → Prop} {initial : Option α}
  {segments : List (List Char)} {c n : Nat} {v : α}

/-- **Looking back from the first `n` segments:** `v` is what the last text in column `c` means, or the value
that holds before anything is written there. -/
inductive LooksBack (meaning : List Char → α → Prop) (initial : Option α) (segments : List (List Char))
    (c n : Nat) (v : α) : Prop where
  | text (j : Nat) (last : IsLastText segments c n j) (means : meaning (textAt segments c j) v)
  | initial (bare : ∀ j < n, textAt segments c j = []) (value : initial = some v)

/-- A field has one value, if each of its texts means one thing. -/
theorem LooksBack.unique (hmeans : ∀ cs v w, meaning cs v → meaning cs w → v = w) {w : α}
    (h : LooksBack meaning initial segments c n v) (h' : LooksBack meaning initial segments c n w) :
    v = w := by
  cases h with
  | text j last means =>
    cases h' with
    | text j' last' means' =>
      obtain rfl := last.unique last'
      exact hmeans _ v w means means'
    | initial bare value => exact absurd (bare j last.lt) last.full
  | initial bare value =>
    cases h' with
    | text j last means => exact absurd (bare j last.lt) last.full
    | initial bare' value' => exact Option.some.inj (value.symm.trans value')

/-- What is read from the text written last, or else holds from the beginning, is found by looking back. -/
theorem looksBack_of_read {read? : List Char → Option α} (hn : n ≤ segments.length)
    (hmeans : ∀ cs v, read? cs = some v → meaning cs v)
    (hreads : ∀ j < n, textAt segments c j ≠ [] → (read? (textAt segments c j)).isSome = true)
    (h : ((lastWritten c (segments.take n)).bind read?).or initial = some v) :
    LooksBack meaning initial segments c n v := by
  rcases lastWritten_take_spec (c := c) hn with ⟨j, hlast, hwritten⟩ | ⟨hbare, hwritten⟩
  · -- there is a last text, and as it can be read its value comes before the initial one
    obtain ⟨w, hw⟩ := Option.isSome_iff_exists.mp (hreads j hlast.lt hlast.full)
    rw [hwritten, Option.bind_some, hw, Option.some_or] at h
    obtain rfl := Option.some.inj h
    exact .text j hlast (hmeans _ w hw)
  · -- nothing is written in the column
    rw [hwritten, Option.bind_none, Option.none_or] at h
    exact .initial hbare h

end LooksBack

/-! ### Entries -/

/-- A text is the letter of a jump. -/
def IsLetterOf (cs : List Char) (j : JumpType) : Prop := cs = j.letter.toList

theorem isLetterOf_of_ofLetter? {cs : List Char} {j : JumpType} (h : JumpType.ofLetter? cs = some j) :
    IsLetterOf cs j := by
  unfold JumpType.ofLetter? at h
  split at h <;> cases h <;> rfl

/-- **The entry of segment `k`,** field by field: what is found by looking back from there. -/
structure IsEntry (segments : List (List Char)) (k : Nat) (e : SourceEntry) : Prop where
  start : LooksBack Text.Numeral none segments 0 (k + 1) e.start
  length : LooksBack Text.Numeral none segments 1 (k + 1) e.length
  fileIndex : LooksBack Text.Numeral none segments 2 (k + 1) e.fileIndex
  jump : LooksBack IsLetterOf (some .regular) segments 3 (k + 1) e.jump
  modifierDepth : LooksBack Text.Numeral (some 0) segments 4 (k + 1) e.modifierDepth

theorem IsEntry.unique {segments : List (List Char)} {k : Nat} {e e' : SourceEntry}
    (h : IsEntry segments k e) (h' : IsEntry segments k e') : e = e' := by
  have hnumber (cs : List Char) (v w : Int) (hv : Text.Numeral cs v) (hw : Text.Numeral cs w) : v = w :=
    hv.unique hw
  have hletter (cs : List Char) (v w : JumpType) (hv : IsLetterOf cs v) (hw : IsLetterOf cs w) : v = w := by
    have heq : v.letter.toList = w.letter.toList := hv.symm.trans hw
    have hsome := congrArg JumpType.ofLetter? heq
    rw [JumpType.ofLetter?_letter, JumpType.ofLetter?_letter] at hsome
    exact Option.some.inj hsome
  obtain ⟨start, length, fileIndex, jump, depth⟩ := e
  obtain ⟨start', length', fileIndex', jump', depth'⟩ := e'
  obtain rfl : start = start' := h.start.unique hnumber h'.start
  obtain rfl : length = length' := h.length.unique hnumber h'.length
  obtain rfl : fileIndex = fileIndex' := h.fileIndex.unique hnumber h'.fileIndex
  obtain rfl : jump = jump' := h.jump.unique hletter h'.jump
  obtain rfl : depth = depth' := h.modifierDepth.unique hnumber h'.modifierDepth
  rfl

section Reads

variable {segments : List (List Char)} (hreads : ∀ s ∈ segments, SegmentReads s) {n : Nat}
  (hn : n ≤ segments.length)

include hreads hn

theorem fieldReads_textAt {c j : Nat} (hc : c < 5) (hj : j < n) : FieldReads c (textAt segments c j) := by
  have hlt : j < segments.length := Nat.lt_of_lt_of_le hj hn
  rw [textAt, List.getD_eq_getElem _ _ hlt]
  exact (hreads _ (List.getElem_mem hlt)).2 c hc

/-- A number written last is found by looking back. -/
theorem looksBack_lastNumber {c : Nat} (hc : c < 5) (hnumeric : c ≠ 3) {initial : Option Int} {v : Int}
    (h : (lastNumber c (segments.take n)).or initial = some v) :
    LooksBack Text.Numeral initial segments c n v := by
  refine looksBack_of_read hn (fun cs v hv => ?_) (fun j hj hfull => ?_) h
  · exact Text.Numeral.of_readPlain (plainValue?_eq_some_iff.mp hv)
  · have hfield := fieldReads_textAt hreads hn hc hj
    rw [FieldReads, if_neg hnumeric] at hfield
    exact hfield.resolve_left fun hempty => hfull (List.isEmpty_iff.mp hempty)

/-- The jump written last is found by looking back. -/
theorem looksBack_lastJump :
    LooksBack IsLetterOf (some .regular) segments 3 n (lastJump (segments.take n)) := by
  refine looksBack_of_read hn (fun cs j hj => isLetterOf_of_ofLetter? hj) (fun j hj hfull => ?_) ?_
  · have hfield := fieldReads_textAt hreads hn (by decide : 3 < 5) hj
    rw [FieldReads, if_pos rfl] at hfield
    exact hfield.resolve_left fun hempty => hfull (List.isEmpty_iff.mp hempty)
  · rw [Option.or_some, lastJump]

end Reads

/-- The entry read off the segments is the one found by looking back, if all segments can be read. -/
theorem isEntry_of_carriedAt? {segments : List (List Char)} (hreads : ∀ s ∈ segments, SegmentReads s)
    {k : Nat} {e : SourceEntry} (h : carriedAt? segments k = some e) : IsEntry segments k e := by
  unfold carriedAt? at h
  split at h
  next hk =>
    obtain ⟨start, hstart, h⟩ := Option.bind_eq_some_iff.mp h
    obtain ⟨length, hlength, h⟩ := Option.bind_eq_some_iff.mp h
    obtain ⟨fileIndex, hfile, h⟩ := Option.bind_eq_some_iff.mp h
    obtain rfl := Option.some.inj h
    exact {
      start := looksBack_lastNumber hreads hk (by decide) (by decide) (by rw [hstart, Option.some_or])
      length := looksBack_lastNumber hreads hk (by decide) (by decide) (by rw [hlength, Option.some_or])
      fileIndex := looksBack_lastNumber hreads hk (by decide) (by decide) (by rw [hfile, Option.some_or])
      jump := looksBack_lastJump hreads hk
      modifierDepth := looksBack_lastNumber hreads hk (by decide) (by decide) (by rw [Option.or_some]) }
  next => cases h

/-- **The entries of a decoded map.** Its segments are the pieces of the text between semicolons, without the
empty ones at the end. It has one entry for each, and that is the entry found by looking back. -/
theorem entries_iff_isEntry {text : String} {m : SourceMap} (h : decode text = .ok m) :
    (∃ n, Text.splitOn ';' (Text.trim text.toList) = segments text ++ List.replicate n []) ∧
      (segments text).getLast? ≠ some [] ∧
      m.entries.length = (segments text).length ∧
      ∀ k e, m.entries[k]? = some e ↔ k < (segments text).length ∧ IsEntry (segments text) k e := by
  have hsize : m.entries.length = (segments text).length := size_of_decode h
  have hreads : ∀ s ∈ segments text, SegmentReads s := ((endsAs_decode text).ok_iff.mp ⟨m, h⟩).1
  have hisEntry {k : Nat} {e : SourceEntry} (he : m.entries[k]? = some e) : IsEntry (segments text) k e := by
    refine isEntry_of_carriedAt? hreads ?_
    rw [← entryAt?_of_decode h, entryAt?, if_pos (Int.natCast_nonneg k), Int.toNat_natCast, he]
  refine ⟨exists_append_dropTrailingEmpty _, getLast?_dropTrailingEmpty _, hsize, fun k e => ?_⟩
  refine ⟨fun he => ?_, ?_⟩
  · rw [← hsize]
    exact ⟨(List.getElem?_eq_some_iff.mp he).1, hisEntry he⟩
  · -- there is an entry, and by its own description it can only be this one
    rintro ⟨hk, he⟩
    have hlt : k < m.entries.length := hsize ▸ hk
    have hget : m.entries[k]? = some m.entries[k] := List.getElem?_eq_getElem hlt
    rw [hget, (hisEntry hget).unique he]

/-- The fourth entry has its start from the second segment, its length from the third, its file from its own
and its jump from the first; no segment gives a depth. -/
theorem inherited_entries :
    decode " 1:2:0:i;5;:7;::3;:::o;;" = .ok ⟨[⟨1, 2, 0, .into, 0⟩, ⟨5, 2, 0, .into, 0⟩,
        ⟨5, 7, 0, .into, 0⟩, ⟨5, 7, 3, .into, 0⟩, ⟨5, 7, 3, .out, 0⟩]⟩ ∧
      (segments " 1:2:0:i;5;:7;::3;:::o;;").length = 5 ∧
      IsEntry (segments " 1:2:0:i;5;:7;::3;:::o;;") 3 ⟨5, 7, 3, .into, 0⟩ := by
  have hdecode : decode " 1:2:0:i;5;:7;::3;:::o;;" = .ok ⟨[⟨1, 2, 0, .into, 0⟩, ⟨5, 2, 0, .into, 0⟩,
      ⟨5, 7, 0, .into, 0⟩, ⟨5, 7, 3, .into, 0⟩, ⟨5, 7, 3, .out, 0⟩]⟩ := by cbv
  obtain ⟨-, -, hsize, hentries⟩ := entries_iff_isEntry hdecode
  exact ⟨hdecode, hsize.symm, ((hentries 3 _).mp rfl).2⟩

end Pinpoint.SourceMap
