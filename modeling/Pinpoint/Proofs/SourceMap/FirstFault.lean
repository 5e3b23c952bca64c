import Pinpoint.Proofs.SourceMap.LookBack

/-!
# The first segment at fault

Which texts are not source maps, and which segment is blamed. A segment is misspelt if it has too many fields,
or a field that is not what its column holds (`Misspelt`); and the first segment must give the three fields for
which there is no value to repeat (`AtFault`). Every entry is checked for these three, but the check can only
fail at the first: once an entry is complete, so are all after it (`isComplete_next`).

Reading one segment fails exactly if it is at fault, and then blames it (`readSegment_ends`). In a run over the
segments, those that have been read are not at fault, so the first that is at fault ends it
(`decodeFrom_ends`). A number that is too long is no fault of this kind; `decode_error_iff` is about texts
without one.
-/

namespace Pinpoint.SourceMap

/-! ### Segments at fault -/

/-- The columns that hold numbers. -/
def numericColumns : List Nat := [0, 1, 2, 4]

theorem mem_numericColumns {c : Nat} : c ∈ numericColumns ↔ c < 5 ∧ c ≠ 3 := by
  simp only [numericColumns, List.mem_cons, List.not_mem_nil, or_false]
  omega

/-- No numeric field of the segment has more digits than are read. -/
def HasShortNumbers (segment : List Char) : Prop :=
  ∀ c ∈ numericColumns, ¬ IsOverlong (fieldOf c segment)

instance (cs : List Char) : Decidable (IsOverlong cs) :=
  inferInstanceAs (Decidable (_ ∧ _))

instance (segment : List Char) : Decidable (HasShortNumbers segment) :=
  inferInstanceAs (Decidable (∀ c ∈ numericColumns, ¬ IsOverlong (fieldOf c segment)))

/-- **A misspelt segment** has more than five fields, or a numeric field that is neither empty nor a numeral,
or a jump field that is neither empty nor a letter of a jump. -/
inductive Misspelt (segment : List Char) : Prop where
  | tooManyFields (many : 5 < (Text.splitOn ':' segment).length)
  | notANumber (c : Nat) (numeric : c ∈ numericColumns) (full : fieldOf c segment ≠ [])
      (notNumeral : ¬ ∃ n, Text.Numeral (fieldOf c segment) n)
  | notAJump (full : fieldOf 3 segment ≠ []) (notLetter : ¬ ∃ j, IsLetterOf (fieldOf 3 segment) j)

/-- **Segment `k` is at fault:** it is misspelt, or it is the first one and its start, length or file index is
empty or missing. -/
inductive AtFault (k : Nat) (segment : List Char) : Prop where
  | misspelt (wrong : Misspelt segment)
  | incomplete (first : k = 0) (c : Nat) (required : c < 3) (bare : fieldOf c segment = [])

/-- Segment `k` is the first one at fault. -/
structure IsFirstFault (segments : List (List Char)) (k : Nat) : Prop where
  fault : ∃ segment, segments[k]? = some segment ∧ AtFault k segment
  before : ∀ j < k, ∀ segment, segments[j]? = some segment → ¬ AtFault j segment

theorem fieldReads_number {c : Nat} (hnumeric : c ≠ 3) {cs : List Char} (hshort : ¬ IsOverlong cs) :
    FieldReads c cs ↔ cs = [] ∨ ∃ n, Text.Numeral cs n := by
  rw [FieldReads, if_neg hnumeric, List.isEmpty_iff]
  refine or_congr_right ?_
  constructor
  · intro h
    obtain ⟨n, hn⟩ := Option.isSome_iff_exists.mp h
    exact ⟨n, .of_readPlain (plainValue?_eq_some_iff.mp hn)⟩
  · rintro ⟨n, hn⟩
    have hread := hn.readPlain.resolve_right fun hlong => hshort (readPlain_eq_tooLong_iff.mp hlong)
    rw [plainValue?_eq_some_iff.mpr hread]
    rfl

theorem fieldReads_jump {cs : List Char} : FieldReads 3 cs ↔ cs = [] ∨ ∃ j, IsLetterOf cs j := by
  rw [FieldReads, if_pos rfl, List.isEmpty_iff]
  refine or_congr_right ?_
  constructor
  · intro h
    obtain ⟨j, hj⟩ := Option.isSome_iff_exists.mp h
    exact ⟨j, isLetterOf_of_ofLetter? hj⟩
  · rintro ⟨j, hj⟩
    rw [hj, JumpType.ofLetter?_letter]
    rfl

/-- A segment can be read exactly if it is not misspelt. -/
theorem segmentReads_iff {segment : List Char} (hshort : HasShortNumbers segment) :
    SegmentReads segment ↔ ¬ Misspelt segment := by
  constructor
  · rintro ⟨hfew, hfields⟩ hwrong
    -- each way to be misspelt is denied by the field that it is about
    cases hwrong with
    | tooManyFields many => exact absurd hfew (Nat.not_le.mpr many)
    | notANumber c numeric full notNumeral =>
      obtain ⟨hc, hne⟩ := mem_numericColumns.mp numeric
      exact ((fieldReads_number hne (hshort c numeric)).mp (hfields c hc)).elim full notNumeral
    | notAJump full notLetter =>
      exact (fieldReads_jump.mp (hfields 3 (by decide))).elim full notLetter
  · intro hright
    -- a field that could not be read would make the segment misspelt
    refine ⟨Nat.not_lt.mp fun many => hright (.tooManyFields many), fun c hc => ?_⟩
    by_cases hjump : c = 3
    · subst hjump
      by_contra hfield
      obtain ⟨full, notLetter⟩ := not_or.mp (mt fieldReads_jump.mpr hfield)
      exact hright (.notAJump full notLetter)
    · by_contra hfield
      have hnumeric := mem_numericColumns.mpr ⟨hc, hjump⟩
      obtain ⟨full, notNumeral⟩ := not_or.mp (mt (fieldReads_number hjump (hshort c hnumeric)).mpr hfield)
      exact hright (.notANumber c hnumeric full notNumeral)

/-- Without a number that is too long, none can be the first fault. -/
theorem not_segmentOverlong {segment : List Char} (hshort : HasShortNumbers segment) :
    ¬ SegmentOverlong segment := by
  rintro ⟨-, c, hc, ⟨hnumeric, hlong⟩, -⟩
  exact hshort c (mem_numericColumns.mpr ⟨hc, hnumeric⟩) hlong

/-! ### Which segment is blamed -/

section Blames

variable {α β : Type} {k : Nat}

/-- A reading blames no segment but `k`. -/
def Blames (k : Nat) (x : Except Error α) : Prop :=
  ∀ i fault, x = .error (.badSegment i fault) → i = k

theorem blames_ok (a : α) : Blames k (.ok a) := by
  intro i fault h
  cases h

theorem blames_fail (fault : SegmentFault) : Blames k (fail k fault : Except Error α) := by
  intro i fault' h
  cases h
  rfl

theorem Blames.bind {x : Except Error α} {f : α → Except Error β} (hx : Blames k x)
    (hf : ∀ a, Blames k (f a)) : Blames k (x >>= f) := by
  intro i fault h
  cases hx' : x with
  | error e =>
    rw [hx'] at h
    obtain rfl := Except.error.inj h
    exact hx i fault hx'
  | ok a =>
    rw [hx'] at h
    exact hf a i fault h

theorem Blames.map {x : Except Error α} (hx : Blames k x) (f : α → β) : Blames k (x.map f) := by
  intro i fault h
  cases hx' : x with
  | error e =>
    rw [hx'] at h
    obtain rfl := Except.error.inj h
    exact hx i fault hx'
  | ok a =>
    rw [hx'] at h
    cases h

theorem blames_readNumber (field : SegmentField) (cs : List Char) : Blames k (readNumber k field cs) := by
  unfold readNumber
  split
  · exact blames_ok _
  · intro i fault h
    cases h
  · exact blames_fail _

theorem blames_readJump (cs : List Char) : Blames k (readJump k cs) := by
  unfold readJump
  split
  · exact blames_ok _
  · exact blames_fail _

theorem blames_fieldOr {carried : α} {read : List Char → Except Error α} {cs : List Char}
    (h : Blames k (read cs)) : Blames k (fieldOr carried read cs) := by
  unfold fieldOr
  split
  · exact blames_ok _
  · exact h

theorem blames_next (carry : Carry) (segment : List Char) : Blames k (carry.next k segment) := by
  have hnumber (field : SegmentField) (carried : Option Int) (cs : List Char) :
      Blames k (fieldOr carried (fun cs => (readNumber k field cs).map some) cs) :=
    blames_fieldOr ((blames_readNumber field cs).map some)
  unfold Carry.next
  dsimp only
  split
  · exact blames_fail _
  · exact (hnumber _ _ _).bind fun start => (hnumber _ _ _).bind fun length =>
      (hnumber _ _ _).bind fun fileIndex => (blames_fieldOr (blames_readJump _)).bind fun jump =>
      (blames_fieldOr (blames_readNumber _ _)).bind fun depth => blames_ok _

theorem blames_entry (carry : Carry) : Blames k (carry.entry k) := by
  unfold Carry.entry
  split
  · exact blames_ok _
  · exact blames_fail _

/-- A reading that stops, and not at a number that is too long, blames its segment. -/
theorem Blames.of_endsAs {x : Except Error α} {e : Error} {reads overlong : Prop} (hx : Blames k x)
    (h : EndsAs x reads overlong) (hshort : ¬ overlong) (he : x = .error e) :
    ∃ fault, e = .badSegment k fault := by
  rcases h.error e he with rfl | ⟨i, fault, rfl⟩
  · exact absurd (h.tooLong_iff.mp he) hshort
  · obtain rfl := hx i fault he
    exact ⟨fault, rfl⟩

end Blames

/-! ### Reading one segment, and all of them -/

/-- What has been carried to segment `k`: nothing to the first, and all values to those after it. -/
def CarriedTo (k : Nat) (carry : Carry) : Prop :=
  k = 0 ∧ carry = .initial ∨ 0 < k ∧ carry.IsComplete

/-- **One segment** is read and gives an entry, or it is at fault and is blamed, whatever was to follow. -/
theorem readSegment_ends {k : Nat} {carry : Carry} (hcarry : CarriedTo k carry) {segment : List Char}
    (hshort : HasShortNumbers segment) :
    (¬ AtFault k segment ∧ ∃ carry' e, carry.next k segment = .ok carry' ∧ carry'.entry k = .ok e) ∨
      AtFault k segment ∧ ∃ fault, ∀ f : Carry → SourceEntry → Except Error (List SourceEntry),
        (carry.next k segment >>= fun carry' => carry'.entry k >>= f carry')
          = .error (.badSegment k fault) := by
  have hnext := endsAs_next carry k segment
  cases hn : carry.next k segment with
  | error e =>
    -- a field cannot be read, so the segment is misspelt
    obtain ⟨fault, rfl⟩ := (blames_next carry segment).of_endsAs hnext (not_segmentOverlong hshort) hn
    have hwrong : Misspelt segment := by
      by_contra hright
      obtain ⟨carry', hok⟩ := hnext.ok_iff.mpr ((segmentReads_iff hshort).mpr hright)
      rw [hn] at hok
      cases hok
    exact .inr ⟨.misspelt hwrong, fault, fun f => rfl⟩
  | ok carry' =>
    -- all fields are read; what is left to check is that no value is missing
    have hright : ¬ Misspelt segment := (segmentReads_iff hshort).mp (hnext.ok_iff.mp ⟨carry', hn⟩)
    have hentry := endsAs_entry carry' k
    cases he : carry'.entry k with
    | ok e =>
      have hcomplete : carry'.IsComplete := hentry.ok_iff.mp ⟨e, he⟩
      refine .inl ⟨fun hfault => ?_, carry', e, rfl, he⟩
      cases hfault with
      | misspelt wrong => exact hright wrong
      | incomplete first c required bare =>
        obtain ⟨-, rfl⟩ := hcarry.resolve_right fun hlater => absurd first (Nat.ne_of_gt hlater.1)
        exact (isComplete_next_initial hn).mp hcomplete c required (List.isEmpty_iff.mpr bare)
    | error e =>
      obtain ⟨fault, rfl⟩ := (blames_entry carry').of_endsAs hentry id he
      have hnot : ¬ carry'.IsComplete := fun hcomplete => by
        obtain ⟨e, hok⟩ := hentry.ok_iff.mpr hcomplete
        rw [he] at hok
        cases hok
      refine .inr ⟨?_, fault, fun f => by rw [Except.ok_bind, he]; rfl⟩
      -- only at the first segment can a value be missing
      obtain ⟨rfl, rfl⟩ := hcarry.resolve_right fun hlater => hnot (isComplete_next hlater.2 hn)
      have hincomplete := mt (isComplete_next_initial hn).mpr hnot
      simp only [SegmentComplete, not_forall, not_not] at hincomplete
      obtain ⟨c, required, bare⟩ := hincomplete
      exact .incomplete rfl c required (List.isEmpty_iff.mp bare)

/-- **A run over the segments that are left,** when none of those read so far was at fault, comes to its end, or
to the first segment at fault. -/
theorem decodeFrom_ends {done rest : List (List Char)} {carry : Carry}
    (hdone : ∀ j segment, done[j]? = some segment → ¬ AtFault j segment)
    (hcarry : CarriedTo done.length carry) (hshort : ∀ segment ∈ rest, HasShortNumbers segment) :
    (∃ entries, decodeFrom done.length carry rest = .ok entries) ∧
        (∀ j segment, (done ++ rest)[j]? = some segment → ¬ AtFault j segment) ∨
      ∃ k fault, decodeFrom done.length carry rest = .error (.badSegment k fault) ∧
        IsFirstFault (done ++ rest) k := by
  induction rest generalizing done carry with
  | nil =>
    rw [List.append_nil]
    exact .inl ⟨⟨[], rfl⟩, hdone⟩
  | cons segment rest ih =>
    obtain ⟨hsegment, hrest⟩ := List.forall_mem_cons.mp hshort
    rw [decodeFrom]
    rcases readSegment_ends hcarry hsegment with
      ⟨hright, carry', e, hnext, hentry⟩ | ⟨hfault, fault, herror⟩
    · -- the segment counts as read, and the carry is complete from now on
      have hcarry' : CarriedTo (done ++ [segment]).length carry' := by
        rw [List.length_append, List.length_singleton]
        exact .inr ⟨Nat.succ_pos _, (endsAs_entry carry' _).ok_iff.mp ⟨e, hentry⟩⟩
      have hdone' : ∀ j s, (done ++ [segment])[j]? = some s → ¬ AtFault j s := by
        intro j s hs
        rw [List.getElem?_append] at hs
        split at hs
        next => exact hdone j s hs
        next hge =>
          obtain ⟨hlt, rfl⟩ := List.getElem?_eq_some_iff.mp hs
          rw [List.length_singleton] at hlt
          obtain rfl : j = done.length := by omega
          rwa [List.getElem_singleton]
      have hend := ih hdone' hcarry' hrest
      rw [List.append_assoc, List.singleton_append, List.length_append, List.length_singleton] at hend
      rw [hnext, Except.ok_bind, hentry, Except.ok_bind]
      rcases hend with ⟨⟨entries, hentries⟩, hnone⟩ | ⟨k, fault, herror, hfirst⟩
      · rw [hentries]
        exact .inl ⟨⟨e :: entries, rfl⟩, hnone⟩
      · rw [herror]
        exact .inr ⟨k, fault, rfl, hfirst⟩
    · refine .inr ⟨done.length, fault, herror _, ⟨segment, ?_, hfault⟩, fun j hj s hs => ?_⟩
      · rw [List.getElem?_append_right (Nat.le_refl _), Nat.sub_self, List.getElem?_cons_zero]
      · rw [List.getElem?_append_left hj] at hs
        exact hdone j s hs

/-- **Which texts are source maps.** If no number has too many digits, a text cannot be decoded exactly if some
segment is at fault, and the error then blames the first one that is. There is no other error. -/
theorem decode_error_iff {text : String} (hshort : ∀ segment ∈ segments text, HasShortNumbers segment) :
    ((∃ e, decode text = .error e) ↔
        ∃ k segment, (segments text)[k]? = some segment ∧ AtFault k segment) ∧
      ∀ e, decode text = .error e →
        ∃ k fault, e = .badSegment k fault ∧ IsFirstFault (segments text) k := by
  have hnothing (j : Nat) (segment : List Char) (h : ([] : List (List Char))[j]? = some segment) :
      ¬ AtFault j segment := by
    cases h
  have hends := decodeFrom_ends hnothing (.inl ⟨rfl, rfl⟩) hshort
  rw [List.nil_append, List.length_nil] at hends
  unfold decode
  rcases hends with ⟨⟨entries, hentries⟩, hnone⟩ | ⟨k, fault, herror, hfirst⟩
  · rw [hentries]
    refine ⟨⟨fun ⟨e, he⟩ => ?_, fun ⟨k, segment, hsegment, hfault⟩ => ?_⟩, fun e he => ?_⟩
    · cases he
    · exact absurd hfault (hnone k segment hsegment)
    · cases he
  · rw [herror]
    refine ⟨⟨fun _ => ⟨k, hfirst.fault⟩, fun _ => ⟨_, rfl⟩⟩, fun e he => ?_⟩
    exact ⟨k, fault, (Except.error.inj he).symm, hfirst⟩

/-- The second segment repeats the first. The third has a length that is no numeral, and it is blamed, not the
fourth. -/
theorem separatedDigits_blamed :
    (∀ segment ∈ segments "1:2:0;;4:1_0;x", HasShortNumbers segment) ∧
      decode "1:2:0;;4:1_0;x" = .error (.badSegment 2 (.malformed .length "1_0")) ∧
      (∃ k segment, (segments "1:2:0;;4:1_0;x")[k]? = some segment ∧ AtFault k segment) ∧
      IsFirstFault (segments "1:2:0;;4:1_0;x") 2 := by
  have hshort : ∀ segment ∈ segments "1:2:0;;4:1_0;x", HasShortNumbers segment := by decide
  have hdecode : decode "1:2:0;;4:1_0;x" = .error (.badSegment 2 (.malformed .length "1_0")) := by cbv
  obtain ⟨hfails, hblames⟩ := decode_error_iff hshort
  obtain ⟨k, fault, heq, hfirst⟩ := hblames _ hdecode
  cases heq
  exact ⟨hshort, hdecode, hfails.mp ⟨_, hdecode⟩, hfirst⟩

end Pinpoint.SourceMap
