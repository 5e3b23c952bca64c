import Pinpoint.Text.Integer
import Mathlib

/-!
# Loose numerals

A *loose numeral* is an integer in the loose notation: decimal digits of any script, with a single underscore
between neighbours if need be, after a sign of either kind or none, and with padding around. `LooseNumeral cs n`
says so without reading anything, and tells the number that is meant; it has no more digits than are read.

Reading finds just these (`readLoose?_eq_some_iff`). What it cuts off at the ends is padding and the rest begins
and ends with no padding, since no digit is (`isPadding_of_digitValue?`). The digits themselves are read from
left to right, and what may follow a digit is a run of digits, or an underscore and such a run
(`digitsAfter?_eq_some_iff`).
-/

namespace Pinpoint.Text

/-! ### Runs of digits -/

/-- A run of digits and their values. A single underscore may stand between two digits. -/
inductive DigitRun : List Char → List Nat → Prop where
  | last {c : Char} {d : Nat} (digit : digitValue? c = some d) : DigitRun [c] [d]
  | next {c : Char} {d : Nat} {cs : List Char} {ds : List Nat} (digit : digitValue? c = some d)
      (rest : DigitRun cs ds) : DigitRun (c :: cs) (d :: ds)
  | gap {c : Char} {d : Nat} {cs : List Char} {ds : List Nat} (digit : digitValue? c = some d)
      (rest : DigitRun cs ds) : DigitRun (c :: '_' :: cs) (d :: ds)

/-- What may follow a digit: nothing, or a run of digits, set off by an underscore or not. -/
inductive FollowsDigit : List Char → List Nat → Prop where
  | nothing : FollowsDigit [] []
  | digits {cs : List Char} {ds : List Nat} (run : DigitRun cs ds) : FollowsDigit cs ds
  | gap {cs : List Char} {ds : List Nat} (run : DigitRun cs ds) : FollowsDigit ('_' :: cs) ds

section Digits

variable {c : Char} {d : Nat} {cs : List Char} {ds : List Nat}

theorem ne_underscore_of_digitValue? (h : digitValue? c = some d) : c ≠ '_' := by
  rintro rfl
  cases h

/-- A digit and what follows it are a run. -/
theorem FollowsDigit.cons (h : FollowsDigit cs ds) (hc : digitValue? c = some d) :
    DigitRun (c :: cs) (d :: ds) := by
  cases h with
  | nothing => exact .last hc
  | digits run => exact .next hc run
  | gap run => exact .gap hc run

/-- A run is a digit and what follows it. -/
theorem DigitRun.exists_cons (h : DigitRun cs ds) : ∃ c d cs' ds', cs = c :: cs' ∧ ds = d :: ds' ∧
    digitValue? c = some d ∧ FollowsDigit cs' ds' := by
  cases h with
  | last digit => exact ⟨_, _, _, _, rfl, rfl, digit, .nothing⟩
  | next digit rest => exact ⟨_, _, _, _, rfl, rfl, digit, .digits rest⟩
  | gap digit rest => exact ⟨_, _, _, _, rfl, rfl, digit, .gap rest⟩

/-- After a digit comes the rest. -/
theorem digitsAfter?_cons (h : digitValue? c = some d) (rest : List Char) :
    digitsAfter? (c :: rest) = (digitsAfter? rest).map (d :: ·) := by
  rw [digitsAfter?.eq_def]
  split
  next heq => cases heq
  next heq =>
    -- an underscore is no digit
    obtain ⟨rfl, -⟩ := List.cons.inj heq
    exact absurd rfl (ne_underscore_of_digitValue? h)
  next heq =>
    obtain ⟨rfl, rfl⟩ := List.cons.inj heq
    rw [h]
    cases digitsAfter? rest <;> rfl

/-- An underscore before a digit is skipped. -/
theorem digitsAfter?_underscore (h : digitValue? c = some d) (rest : List Char) :
    digitsAfter? ('_' :: c :: rest) = (digitsAfter? rest).map (d :: ·) := by
  rw [digitsAfter?, h]
  cases digitsAfter? rest <;> rfl

/-- A run is read, after a digit, whether an underscore comes first or not. -/
theorem DigitRun.digitsAfter? (h : DigitRun cs ds) :
    Text.digitsAfter? cs = some ds ∧ Text.digitsAfter? ('_' :: cs) = some ds := by
  induction h with
  | last digit =>
    rw [digitsAfter?_cons digit, digitsAfter?_underscore digit]
    exact ⟨rfl, rfl⟩
  | next digit _ ih =>
    rw [digitsAfter?_cons digit, digitsAfter?_underscore digit, ih.1]
    exact ⟨rfl, rfl⟩
  | gap digit _ ih =>
    rw [digitsAfter?_cons digit, digitsAfter?_underscore digit, ih.2]
    exact ⟨rfl, rfl⟩

/-- **After a digit** just what may follow it is read. -/
theorem digitsAfter?_eq_some_iff : digitsAfter? cs = some ds ↔ FollowsDigit cs ds := by
  constructor
  · intro h
    fun_induction digitsAfter? cs generalizing ds with
    | case1 =>
      obtain rfl := Option.some.inj h
      exact .nothing
    | case2 c rest ih =>
      obtain ⟨d, hd, h⟩ := Option.bind_eq_some_iff.mp h
      obtain ⟨ds', hds', h⟩ := Option.bind_eq_some_iff.mp h
      obtain rfl := Option.some.inj h
      exact .gap ((ih hds').cons hd)
    | case3 c rest _ ih =>
      obtain ⟨d, hd, h⟩ := Option.bind_eq_some_iff.mp h
      obtain ⟨ds', hds', h⟩ := Option.bind_eq_some_iff.mp h
      obtain rfl := Option.some.inj h
      exact .digits ((ih hds').cons hd)
  · intro h
    cases h with
    | nothing => rfl
    | digits run => exact run.digitsAfter?.1
    | gap run => exact run.digitsAfter?.2

/-- Just the runs of digits are read as digits. -/
theorem looseDigits?_eq_some_iff : looseDigits? cs = some ds ↔ DigitRun cs ds := by
  constructor
  · intro h
    cases cs with
    | nil => cases h
    | cons c rest =>
      obtain ⟨d, hd, h⟩ := Option.bind_eq_some_iff.mp h
      obtain ⟨ds', hds', h⟩ := Option.bind_eq_some_iff.mp h
      obtain rfl := Option.some.inj h
      exact (digitsAfter?_eq_some_iff.mp hds').cons hd
  · intro h
    obtain ⟨c, d, cs', ds', rfl, rfl, hd, hrest⟩ := h.exists_cons
    rw [looseDigits?, hd, digitsAfter?_eq_some_iff.mpr hrest]
    rfl

/-- The digits of a run, as far as there are not too many, are read as their number. -/
theorem readLooseDigits?_eq_some_iff {n : Nat} : readLooseDigits? cs = some n ↔
    ∃ ds, DigitRun cs ds ∧ ds.length ≤ digitLimit ∧ ofDigits ds = n := by
  unfold readLooseDigits?
  rw [Option.bind_eq_bind, Option.bind_eq_some_iff]
  refine exists_congr fun ds => ?_
  rw [looseDigits?_eq_some_iff]
  refine and_congr_right fun _ => ?_
  split
  next hlong =>
    constructor
    · intro h
      cases h
    · intro h
      exact absurd h.1 (Nat.not_le.mpr hlong)
  next hshort =>
    rw [Option.some.injEq]
    exact (and_iff_right (Nat.not_lt.mp hshort)).symm

/-- What is made of the number of a run. -/
theorem map_readLooseDigits?_eq_some_iff {f : Int → Int} {n : Int} :
    (do return ((← readLooseDigits? cs : Nat) : Int)).map f = some n ↔
      ∃ ds, DigitRun cs ds ∧ ds.length ≤ digitLimit ∧ f (ofDigits ds) = n := by
  rw [Option.map_eq_some_iff]
  constructor
  · rintro ⟨_, h, rfl⟩
    obtain ⟨k, hk, h⟩ := Option.bind_eq_some_iff.mp h
    obtain rfl := Option.some.inj h
    obtain ⟨ds, hrun, hshort, rfl⟩ := readLooseDigits?_eq_some_iff.mp hk
    exact ⟨ds, hrun, hshort, rfl⟩
  · rintro ⟨ds, hrun, hshort, rfl⟩
    have hread := readLooseDigits?_eq_some_iff.mpr ⟨ds, hrun, hshort, rfl⟩
    refine ⟨ofDigits ds, ?_, rfl⟩
    rw [hread]
    rfl

/-- A run of digits ends with a digit. -/
theorem DigitRun.exists_append (h : DigitRun cs ds) :
    ∃ front c d, cs = front ++ [c] ∧ digitValue? c = some d := by
  induction h with
  | @last c d digit => exact ⟨[], c, d, rfl, digit⟩
  | @next c d cs ds _ _ ih =>
    obtain ⟨front, last, e, rfl, hlast⟩ := ih
    exact ⟨c :: front, last, e, rfl, hlast⟩
  | @gap c d cs ds _ _ ih =>
    obtain ⟨front, last, e, rfl, hlast⟩ := ih
    exact ⟨c :: '_' :: front, last, e, rfl, hlast⟩

/-- A run holds digits, and otherwise only underscores. -/
theorem DigitRun.of_mem (h : DigitRun cs ds) (hc : c ∈ cs) :
    c = '_' ∨ ∃ d, digitValue? c = some d := by
  induction h with
  | last digit =>
    rw [List.mem_singleton.mp hc]
    exact .inr ⟨_, digit⟩
  | next digit _ ih =>
    rcases List.mem_cons.mp hc with rfl | hc
    · exact .inr ⟨_, digit⟩
    · exact ih hc
  | gap digit _ ih =>
    rcases List.mem_cons.mp hc with rfl | hc
    · exact .inr ⟨_, digit⟩
    · rcases List.mem_cons.mp hc with rfl | hc
      · exact .inl rfl
      · exact ih hc

/-- No digit of any script is padding. -/
theorem isPadding_of_digitValue? (h : digitValue? c = some d) : isPadding c = false := by
  -- one look at each script, of which there are some sixty, and each of its ten digits
  have hscripts : ∀ first ∈ zeroDigits, ∀ k < 10, isBlank (Char.ofNat (first + k)) = false := by
    decide +kernel
  obtain ⟨first, hfirst, -⟩ := Option.map_eq_some_iff.mp h
  have hmem : first ∈ zeroDigits := List.mem_of_find?_eq_some hfirst
  have hrange := List.find?_some hfirst
  rw [Bool.and_eq_true, decide_eq_true_iff, decide_eq_true_iff] at hrange
  have hblank := hscripts first hmem (c.toNat - first) (by omega)
  rw [Nat.add_sub_cancel' hrange.1, Char.ofNat_toNat] at hblank
  rw [isPadding, hblank, Bool.false_and]

end Digits

/-! ### Loose numerals and their numbers -/

/-- Digits, as many as are read at most, and a sign of either kind before them or none. -/
inductive SignedDigits : List Char → Int → Prop where
  | bare {cs : List Char} {ds : List Nat} (run : DigitRun cs ds) (short : ds.length ≤ digitLimit) :
      SignedDigits cs (ofDigits ds)
  | plus {cs : List Char} {ds : List Nat} (run : DigitRun cs ds) (short : ds.length ≤ digitLimit) :
      SignedDigits ('+' :: cs) (ofDigits ds)
  | minus {cs : List Char} {ds : List Nat} (run : DigitRun cs ds) (short : ds.length ≤ digitLimit) :
      SignedDigits ('-' :: cs) (-(ofDigits ds))

/-- **A loose numeral and its number:** digits with or without a sign, and padding around them. -/
def LooseNumeral (cs : List Char) (n : Int) : Prop :=
  ∃ front body back, cs = front ++ body ++ back ∧ SignedDigits body n ∧
    (∀ c ∈ front, isPadding c = true) ∧ ∀ c ∈ back, isPadding c = true

namespace SignedDigits

variable {body : List Char} {n : Int}

/-- It begins with no padding. -/
theorem not_isPadding_head (h : SignedDigits body n) : ∀ c ∈ body.head?, isPadding c = false := by
  intro c hc
  cases h with
  | bare run _ =>
    obtain ⟨first, d, cs', ds', rfl, -, hd, -⟩ := run.exists_cons
    obtain rfl := Option.some.inj hc
    exact isPadding_of_digitValue? hd
  | plus _ _ =>
    obtain rfl := Option.some.inj hc
    rfl
  | minus _ _ =>
    obtain rfl := Option.some.inj hc
    rfl

/-- It ends with a digit. -/
theorem exists_append (h : SignedDigits body n) :
    ∃ front c d, body = front ++ [c] ∧ digitValue? c = some d := by
  cases h with
  | bare run _ => exact run.exists_append
  | plus run _ =>
    obtain ⟨front, c, d, rfl, hd⟩ := run.exists_append
    exact ⟨'+' :: front, c, d, rfl, hd⟩
  | minus run _ =>
    obtain ⟨front, c, d, rfl, hd⟩ := run.exists_append
    exact ⟨'-' :: front, c, d, rfl, hd⟩

/-- So there is no padding to be cut off. -/
theorem trimBy_eq (h : SignedDigits body n) : trimBy isPadding body = body := by
  refine trimBy_eq_self h.not_isPadding_head ?_
  obtain ⟨front, last, d, rfl, hd⟩ := h.exists_append
  intro c hc
  rw [List.getLast?_concat] at hc
  obtain rfl := Option.some.inj hc
  exact isPadding_of_digitValue? hd

end SignedDigits

/-- No sign is a digit. -/
theorem DigitRun.ne_sign {cs : List Char} {ds : List Nat} (h : DigitRun cs ds) (rest : List Char) :
    cs ≠ '-' :: rest ∧ cs ≠ '+' :: rest := by
  obtain ⟨c, d, cs', ds', rfl, -, hd, -⟩ := h.exists_cons
  constructor
  · intro heq
    obtain ⟨rfl, -⟩ := List.cons.inj heq
    cases hd
  · intro heq
    obtain ⟨rfl, -⟩ := List.cons.inj heq
    cases hd

/-- Once the padding is cut off, just digits with or without a sign are read. -/
theorem readLoose?_eq_some_iff_signedDigits {cs body : List Char} {n : Int}
    (hbody : trimBy isPadding cs = body) : readLoose? cs = some n ↔ SignedDigits body n := by
  unfold readLoose?
  rw [hbody]
  split
  next rest =>
    rw [map_readLooseDigits?_eq_some_iff]
    constructor
    · rintro ⟨ds, hrun, hshort, rfl⟩
      exact .minus hrun hshort
    · intro h
      cases h with
      | bare run _ => exact absurd rfl (run.ne_sign rest).1
      | minus run short => exact ⟨_, run, short, rfl⟩
  next rest =>
    rw [map_readLooseDigits?_eq_some_iff]
    constructor
    · rintro ⟨ds, hrun, hshort, rfl⟩
      exact .plus hrun hshort
    · intro h
      cases h with
      | bare run _ => exact absurd rfl (run.ne_sign rest).2
      | plus run short => exact ⟨_, run, short, rfl⟩
  next hminus hplus =>
    rw [map_readLooseDigits?_eq_some_iff]
    constructor
    · rintro ⟨ds, hrun, hshort, rfl⟩
      exact .bare hrun hshort
    · intro h
      cases h with
      | bare run short => exact ⟨_, run, short, rfl⟩
      | plus _ _ => exact absurd rfl (hplus _)
      | minus _ _ => exact absurd rfl (hminus _)

/-- **Just the loose numerals are read,** each as its number. -/
theorem readLoose?_eq_some_iff {cs : List Char} {n : Int} :
    readLoose? cs = some n ↔ LooseNumeral cs n := by
  constructor
  · intro h
    obtain ⟨front, back, hcut, hfront, hback⟩ := exists_append_trimBy isPadding cs
    exact ⟨front, trimBy isPadding cs, back, hcut,
      (readLoose?_eq_some_iff_signedDigits rfl).mp h, hfront, hback⟩
  · rintro ⟨front, body, back, rfl, hbody, hfront, hback⟩
    have htrim : trimBy isPadding (front ++ body ++ back) = body := by
      rw [trimBy_append body hfront hback, hbody.trimBy_eq]
    exact (readLoose?_eq_some_iff_signedDigits htrim).mpr hbody

/-- A loose numeral holds digits and underscores, and besides padding and signs only. -/
theorem LooseNumeral.of_mem {cs : List Char} {n : Int} {c : Char} (h : LooseNumeral cs n) (hc : c ∈ cs) :
    isPadding c = true ∨ c = '+' ∨ c = '-' ∨ c = '_' ∨ ∃ d, digitValue? c = some d := by
  obtain ⟨front, body, back, rfl, hbody, hfront, hback⟩ := h
  rcases List.mem_append.mp hc with hc | hc
  · rcases List.mem_append.mp hc with hc | hc
    · exact .inl (hfront c hc)
    · cases hbody with
      | bare run _ => exact .inr (.inr (.inr (run.of_mem hc)))
      | plus run _ =>
        rcases List.mem_cons.mp hc with rfl | hc
        · exact .inr (.inl rfl)
        · exact .inr (.inr (.inr (run.of_mem hc)))
      | minus run _ =>
        rcases List.mem_cons.mp hc with rfl | hc
        · exact .inr (.inr (.inl rfl))
        · exact .inr (.inr (.inr (run.of_mem hc)))
  · exact .inl (hback c hc)

end Pinpoint.Text
