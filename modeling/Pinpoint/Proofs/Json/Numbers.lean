import Pinpoint.Json.Reader
import Pinpoint.Json.Writer
import Pinpoint.Proofs.Double.Decimals
import Pinpoint.Proofs.Text.Numeral

/-!
# Numbers can be read

What follows a number decides where the reader stops, so it is asked to end the number (`EndsNumber`). Then an
integer is read as it was written (`readNumber_decimal`), and so is a number of double precision
(`readNumber_number`): its digits are found again wherever the point stands and whether or not there is an exponent
(`readDigits_layout`), and they were chosen to be read back.
-/

namespace Pinpoint.Json

namespace Reader

variable {rest ds : List Char} {start : List Char} {negative : Bool}

/-- No digit comes next. -/
def NoDigitNext (rest : List Char) : Prop := ∀ c ∈ rest.head?, c.isDigit = false

/-- Nothing comes next that a number could go on with. -/
def EndsNumber (rest : List Char) : Prop :=
  ∀ c ∈ rest.head?, c.isDigit = false ∧ c ≠ '.' ∧ c ≠ 'e' ∧ c ≠ 'E'

theorem EndsNumber.noDigitNext (h : EndsNumber rest) : NoDigitNext rest := fun c hc => (h c hc).1

theorem noDigitNext_cons {c : Char} (h : c.isDigit = false) : NoDigitNext (c :: rest) := by
  intro d hd
  obtain rfl := Option.some.inj hd
  exact h

/-! ### Digits -/

/-- Digits are taken up to what follows them. -/
theorem takeWhile_digits (h : ∀ c ∈ ds, c.isDigit = true) (hrest : NoDigitNext rest) :
    (ds ++ rest).takeWhile Char.isDigit = ds ∧ (ds ++ rest).dropWhile Char.isDigit = rest := by
  have hbehind : rest.takeWhile Char.isDigit = [] ∧ rest.dropWhile Char.isDigit = rest := by
    cases rest with
    | nil => exact ⟨rfl, rfl⟩
    | cons d rest =>
      have hd : d.isDigit = false := hrest d rfl
      rw [List.takeWhile_cons, List.dropWhile_cons, hd]
      exact ⟨rfl, rfl⟩
  rw [List.takeWhile_append_of_pos h, List.dropWhile_append_of_pos h, hbehind.1, hbehind.2, List.append_nil]
  exact ⟨rfl, rfl⟩

/-- **The digits before the point** are a zero on its own, or digits that do not start with one. -/
inductive IsWhole : List Char → Prop where
  | zero : IsWhole ['0']
  | digits {c : Char} {more : List Char} (first : c ≠ '0') (all : ∀ d ∈ c :: more, d.isDigit = true) :
      IsWhole (c :: more)

/-- The digits before the point are read up to what follows them. -/
theorem digits?_of_isWhole (h : IsWhole ds) (hrest : NoDigitNext rest) :
    digits? (ds ++ rest) = some (ds, rest) := by
  cases h with
  | zero => rfl
  | @digits c more hfirst hall =>
    obtain ⟨hc, hmore⟩ := List.forall_mem_cons.mp hall
    obtain ⟨htake, hdrop⟩ := takeWhile_digits hmore hrest
    rw [List.cons_append, digits?.eq_def]
    split
    next heq => exact absurd (List.cons.inj heq).1 hfirst
    next heq =>
      obtain ⟨rfl, rfl⟩ := List.cons.inj heq
      rw [hc, htake, hdrop]
      rfl
    next heq => cases heq

/-- The digits of a number that is not zero do not start with a zero. -/
theorem exists_toDigits_eq_cons {n : Nat} (h : 0 < n) :
    ∃ c more, Nat.toDigits 10 n = c :: more ∧ c ≠ '0' := by
  -- the first digit of a number of several digits is that of the number without the last one
  induction n using Nat.strongRecOn with
  | _ n ih =>
    by_cases hn : n < 10
    · have hdigit : ∀ m < 10, 0 < m → Nat.digitChar m ≠ '0' := by decide
      exact ⟨n.digitChar, [], Nat.toDigits_of_lt_base hn, hdigit n hn h⟩
    · obtain ⟨c, more, hmore, hc⟩ := ih (n / 10) (by omega) (by omega)
      refine ⟨c, more ++ [(n % 10).digitChar], ?_, hc⟩
      rw [Nat.toDigits_of_base_le (by decide) (by omega), hmore]
      rfl

theorem isDigit_of_mem_toDigits {n : Nat} {c : Char} (h : c ∈ Nat.toDigits 10 n) : c.isDigit = true :=
  Nat.isDigit_of_mem_toDigits (by decide) (by decide) h

theorem isWhole_toDigits (n : Nat) : IsWhole (Nat.toDigits 10 n) := by
  rcases Nat.eq_zero_or_pos n with rfl | hpos
  · exact .zero
  · obtain ⟨c, more, hdigits, hc⟩ := exists_toDigits_eq_cons hpos
    have hall : ∀ d ∈ Nat.toDigits 10 n, d.isDigit = true := fun d => isDigit_of_mem_toDigits
    rw [hdigits] at hall ⊢
    exact .digits hc hall

theorem valueOf_eq (ds : List Char) : valueOf ds = Nat.ofDigitChars 10 ds 0 := Text.ofDigits_eq ds

theorem valueOf_toDigits (n : Nat) : valueOf (Nat.toDigits 10 n) = n :=
  (valueOf_eq _).trans Nat.ofDigitChars_ten_toDigits

/-- Zeros before the digits of a number do not count. -/
theorem valueOf_zeros_append (n : Nat) (ds : List Char) :
    valueOf (List.replicate n '0' ++ ds) = valueOf ds := by
  induction n with
  | zero => rfl
  | succ n ih =>
    rw [← ih, List.replicate_succ]
    rfl

/-- A zero behind the digits of a number is a factor of ten. -/
theorem valueOf_append_zeros (ds : List Char) (n : Nat) :
    valueOf (ds ++ List.replicate n '0') = valueOf ds * 10 ^ n := by
  induction n with
  | zero => rw [List.replicate_zero, List.append_nil, Nat.pow_zero, Nat.mul_one]
  | succ n ih =>
    have hlast (cs : List Char) : valueOf (cs ++ ['0']) = valueOf cs * 10 := by
      rw [valueOf, valueOf, List.map_append, Text.ofDigits, List.foldl_append, Nat.mul_comm]
      rfl
    rw [List.replicate_succ', ← List.append_assoc, hlast, ih, Nat.pow_succ, Nat.mul_assoc]

/-! ### Fractions and exponents -/

theorem readFraction_point (h : Text.isDigits ds = true) (hrest : NoDigitNext rest) :
    readFraction ('.' :: (ds ++ rest)) = (ds, rest) := by
  obtain ⟨hne, hall⟩ := Text.isDigits_iff.mp h
  obtain ⟨htake, hdrop⟩ := takeWhile_digits hall hrest
  rw [readFraction, htake, hdrop]
  split
  next => exact absurd rfl hne
  next => rfl

theorem readFraction_of_ne (h : ∀ c ∈ rest.head?, c ≠ '.') : readFraction rest = ([], rest) := by
  unfold readFraction
  split
  next => exact absurd rfl (h '.' rfl)
  next => rfl

theorem readExponent?_of_ne (h : ∀ c ∈ rest.head?, c ≠ 'e' ∧ c ≠ 'E') : readExponent? rest = none := by
  cases rest with
  | nil => rfl
  | cons c rest =>
    obtain ⟨he, hE⟩ := h c rfl
    rw [readExponent?, if_neg]
    rw [Bool.or_eq_true, beq_iff_eq, beq_iff_eq]
    exact not_or.mpr ⟨he, hE⟩

/-- The digits of an exponent. -/
theorem exists_exponentText_eq (e : Int) : ∃ ds, Double.exponentText e = (if e < 0 then '-' else '+') :: ds ∧
    ds ≠ [] ∧ (∀ c ∈ ds, c.isDigit = true) ∧ valueOf ds = e.natAbs := by
  refine ⟨_, rfl, ?_, ?_, ?_⟩
  · split
    · exact List.cons_ne_nil _ _
    · exact Nat.toDigits_ne_nil
  · split
    · exact List.forall_mem_cons.mpr ⟨rfl, fun c => isDigit_of_mem_toDigits⟩
    · exact fun c => isDigit_of_mem_toDigits
  · split
    · exact (valueOf_zeros_append 1 _).trans (valueOf_toDigits _)
    · exact valueOf_toDigits _

/-- **An exponent is read** as it was written. -/
theorem readExponent?_exponentText (e : Int) (hrest : NoDigitNext rest) :
    readExponent? ('e' :: (Double.exponentText e ++ rest)) = some (e, rest) := by
  obtain ⟨ds, htext, hne, hall, hvalue⟩ := exists_exponentText_eq e
  obtain ⟨htake, hdrop⟩ := takeWhile_digits hall hrest
  have hsign : readSign (Double.exponentText e ++ rest) = (decide (e < 0), ds ++ rest) := by
    rw [htext]
    by_cases hneg : e < 0
    · rw [if_pos hneg, decide_eq_true hneg]
      rfl
    · rw [if_neg hneg, decide_eq_false hneg]
      rfl
  have hletter : ('e' == 'e' || 'e' == 'E') = true := rfl
  rw [readExponent?, if_pos hletter, hsign]
  dsimp only
  rw [htake, hdrop]
  split
  next => exact absurd rfl hne
  next =>
    rw [hvalue]
    congr 2
    split
    next hneg =>
      rw [decide_eq_true_eq] at hneg
      omega
    next hpos =>
      rw [decide_eq_true_eq] at hpos
      omega

/-! ### Integers -/

/-- Digits with nothing else behind them are read as an integer. -/
theorem readDigits_integer (h : IsWhole ds) (hrest : EndsNumber rest) :
    readDigits start negative (ds ++ rest) = integer negative ds rest := by
  rw [readDigits, digits?_of_isWhole h hrest.noDigitNext]
  dsimp only
  rw [readFraction_of_ne fun c hc => (hrest c hc).2.1]
  dsimp only
  rw [readExponent?_of_ne fun c hc => (hrest c hc).2.2]
  rfl

/-- No infinity starts with a digit. -/
theorem infinity?_of_isDigit {c : Char} {cs : List Char} (hc : c.isDigit = true) :
    infinity? negative (c :: cs) = none := by
  unfold infinity?
  split
  next heq =>
    obtain ⟨rfl, -⟩ := List.cons.inj heq
    exact absurd hc (by decide)
  next => rfl

/-- The sign that is written for a negative number. -/
def minus (negative : Bool) : List Char := if negative then ['-'] else []

theorem readNumber_of_ne {cs : List Char} (h : ∀ c ∈ cs.head?, c ≠ '-') :
    readNumber cs = readUnsigned cs false cs := by
  unfold readNumber
  split
  next => exact absurd rfl (h '-' rfl)
  next => rfl

/-- What starts with a digit, behind a sign or none, is read as digits. -/
theorem exists_readNumber_eq (negative : Bool) {c : Char} (hc : c.isDigit = true) (cs : List Char) :
    ∃ start, readNumber (minus negative ++ c :: cs) = readDigits start negative (c :: cs) := by
  have hdigits (start : List Char) :
      readUnsigned start negative (c :: cs) = readDigits start negative (c :: cs) := by
    rw [readUnsigned, infinity?_of_isDigit hc]
  cases negative with
  | true => exact ⟨_, hdigits _⟩
  | false =>
    have hsign : ∀ d ∈ (c :: cs).head?, d ≠ '-' := by
      rintro d hd rfl
      obtain rfl := Option.some.inj hd
      exact absurd hc (by decide)
    exact ⟨_, (readNumber_of_ne hsign).trans (hdigits _)⟩

/-- **An integer is read** as it was written. -/
theorem readNumber_decimal {n : Int} (h : Text.tooLong n = false) (hrest : EndsNumber rest) :
    readNumber (Text.decimal n ++ rest) = .ok (.int n, rest) := by
  have hlength := Text.length_toDigits_of_tooLong_eq_false h
  obtain ⟨c, more, hdigits⟩ := List.exists_cons_of_ne_nil (Nat.toDigits_ne_nil (n := n.natAbs) (b := 10))
  have hc : c.isDigit = true := isDigit_of_mem_toDigits (hdigits ▸ List.mem_cons_self)
  have hread (negative : Bool) : readNumber (minus negative ++ (Nat.toDigits 10 n.natAbs ++ rest))
      = .ok (.int (if negative then -(n.natAbs : Int) else n.natAbs), rest) := by
    obtain ⟨start, hstart⟩ := exists_readNumber_eq negative hc (more ++ rest)
    rw [← List.cons_append, ← hdigits, readDigits_integer (isWhole_toDigits _) hrest] at hstart
    rw [hstart, integer, if_neg (Nat.not_lt.mpr hlength), valueOf_toDigits]
  rw [Text.decimal_eq]
  split
  next hpos =>
    have habs : (n.natAbs : Int) = n := Int.natAbs_of_nonneg hpos
    refine (hread false).trans ?_
    rw [if_neg Bool.false_ne_true, habs]
  next hneg =>
    have habs : -(n.natAbs : Int) = n := by omega
    refine (hread true).trans ?_
    rw [if_pos rfl, habs]

/-! ### Numbers of double precision -/

/-- Digits with a point among them are read with the power of ten that the point gives. -/
theorem readDigits_fraction {whole fraction : List Char} (hwhole : IsWhole whole)
    (hfraction : Text.isDigits fraction = true) (hrest : EndsNumber rest) :
    readDigits start negative (whole ++ '.' :: (fraction ++ rest))
      = .ok (decimal negative whole fraction 0, rest) := by
  have hsome : fraction.isEmpty = false := by
    rw [List.isEmpty_eq_false_iff]
    exact (Text.isDigits_iff.mp hfraction).1
  rw [readDigits, digits?_of_isWhole hwhole (noDigitNext_cons rfl)]
  dsimp only
  rw [readFraction_point hfraction hrest.noDigitNext]
  dsimp only
  rw [readExponent?_of_ne fun c hc => (hrest c hc).2.2]
  dsimp only
  rw [hsome, if_neg Bool.false_ne_true]

/-- Digits and an exponent are read with that exponent. -/
theorem readDigits_exponent {whole : List Char} (hwhole : IsWhole whole) (e : Int) (hrest : NoDigitNext rest) :
    readDigits start negative (whole ++ 'e' :: (Double.exponentText e ++ rest))
      = .ok (decimal negative whole [] e, rest) := by
  rw [readDigits, digits?_of_isWhole hwhole (noDigitNext_cons rfl)]
  dsimp only
  rw [readFraction_of_ne (by rintro c hc rfl; cases hc)]
  dsimp only
  rw [readExponent?_exponentText e hrest]

/-- Digits with a point among them and an exponent are read with both. -/
theorem readDigits_fraction_exponent {whole fraction : List Char} (hwhole : IsWhole whole)
    (hfraction : Text.isDigits fraction = true) (e : Int) (hrest : NoDigitNext rest) :
    readDigits start negative (whole ++ '.' :: (fraction ++ 'e' :: (Double.exponentText e ++ rest)))
      = .ok (decimal negative whole fraction e, rest) := by
  rw [readDigits, digits?_of_isWhole hwhole (noDigitNext_cons rfl)]
  dsimp only
  rw [readFraction_point hfraction (noDigitNext_cons rfl)]
  dsimp only
  rw [readExponent?_exponentText e hrest]

/-- Digits before and behind a point are a number, whichever of them stand where. -/
theorem decimal_eq {whole fraction : List Char} {d n : Nat} {e point : Int}
    (hvalue : valueOf (whole ++ fraction) = d * 10 ^ n) (hpoint : e - fraction.length + n = point) :
    decimal negative whole fraction e = .float (Double.ofDecimal negative d point) := by
  have hrank : Double.decimalRank (d * 10 ^ n) (e - fraction.length) = Double.decimalRank d point := by
    rw [Double.decimalRank_mul_pow, hpoint]
  rw [decimal, hvalue, Double.ofDecimal, Double.ofDecimal]
  simp only [hrank]

section Layout

variable {d : Nat} {point : Int}

/-- The digits of a number that is not zero. -/
structure IsDigitsOf (ds : List Char) (d : Nat) : Prop where
  first : ∃ c more, ds = c :: more ∧ c ≠ '0'
  all : ∀ c ∈ ds, c.isDigit = true
  value : valueOf ds = d

theorem isDigitsOf_toDigits (hd : 0 < d) : IsDigitsOf (Nat.toDigits 10 d) d where
  first := exists_toDigits_eq_cons hd
  all _ := isDigit_of_mem_toDigits
  value := valueOf_toDigits d

/-- The first digits, with zeros behind them or not, can stand before a point. -/
theorem IsDigitsOf.isWhole (h : IsDigitsOf ds d) (n zeros : Nat) :
    IsWhole (ds.take (n + 1) ++ List.replicate zeros '0') := by
  obtain ⟨c, more, rfl, hc⟩ := h.first
  refine .digits hc fun x hx => ?_
  have hx : x ∈ (c :: more).take (n + 1) ++ List.replicate zeros '0' := hx
  rcases List.mem_append.mp hx with hx | hx
  · exact h.all x (List.mem_of_mem_take hx)
  · rw [List.eq_of_mem_replicate hx]
    rfl

/-- Digits with zeros before them can stand behind a point. -/
theorem IsDigitsOf.isDigits (h : IsDigitsOf ds d) (n : Nat) :
    Text.isDigits (List.replicate n '0' ++ ds) = true := by
  obtain ⟨c, more, rfl, -⟩ := h.first
  refine Text.isDigits_iff.mpr ⟨List.append_ne_nil_of_right_ne_nil _ (List.cons_ne_nil _ _), fun x hx => ?_⟩
  rcases List.mem_append.mp hx with hx | hx
  · rw [List.eq_of_mem_replicate hx]
    rfl
  · exact h.all x hx

/-- The digits from a place on can stand behind a point, if there are any. -/
theorem IsDigitsOf.isDigits_drop (h : IsDigitsOf ds d) {n : Nat} (hn : n < ds.length) :
    Text.isDigits (ds.drop n) = true := by
  refine Text.isDigits_iff.mpr ⟨fun hnil => ?_, fun x hx => h.all x (List.mem_of_mem_drop hx)⟩
  exact absurd (List.drop_eq_nil_iff.mp hnil) (Nat.not_le.mpr hn)

theorem IsDigitsOf.length_pos (h : IsDigitsOf ds d) : 0 < ds.length := by
  obtain ⟨c, more, rfl, -⟩ := h.first
  exact Nat.succ_pos _

/-- Digits are read with the point before, among or behind them. -/
theorem readDigits_plain (h : IsDigitsOf ds d) (point : Int) (hrest : EndsNumber rest) :
    readDigits start negative (Double.plain ds point ++ rest)
      = .ok (.float (Double.ofDecimal negative d (point - ds.length)), rest) := by
  unfold Double.plain
  split
  next hbefore =>
    have hzeros : valueOf (['0'] ++ (List.replicate (-point).toNat '0' ++ ds)) = d * 10 ^ 0 :=
      (valueOf_zeros_append ((-point).toNat + 1) ds).trans (h.value.trans (Nat.mul_one d).symm)
    refine (readDigits_fraction .zero (h.isDigits (-point).toNat) hrest).trans ?_
    rw [decimal_eq hzeros]
    rw [List.length_append, List.length_replicate]
    omega
  next hbefore =>
    split
    next hamong =>
      obtain ⟨n, hn⟩ : ∃ n, point.toNat = n + 1 := ⟨point.toNat - 1, by omega⟩
      have hall : valueOf (ds.take (n + 1) ++ ds.drop (n + 1)) = d * 10 ^ 0 := by
        rw [List.take_append_drop, h.value, Nat.pow_zero, Nat.mul_one]
      have hwhole := h.isWhole n 0
      rw [List.replicate_zero, List.append_nil] at hwhole
      rw [hn, List.append_assoc, List.cons_append,
        readDigits_fraction hwhole (h.isDigits_drop (by omega)) hrest, decimal_eq hall]
      rw [List.length_drop]
      omega
    next hbehind =>
      have hpos := h.length_pos
      obtain ⟨n, hn⟩ : ∃ n, ds.length = n + 1 := ⟨ds.length - 1, by omega⟩
      have hwhole := h.isWhole n (point.toNat - ds.length)
      rw [← hn, List.take_length] at hwhole
      have hzeros : valueOf ((ds ++ List.replicate (point.toNat - ds.length) '0') ++ ['0'])
          = d * 10 ^ (point.toNat - ds.length + 1) := by
        rw [List.append_assoc, ← List.replicate_succ', valueOf_append_zeros, h.value]
      rw [← List.append_assoc, List.append_assoc, List.cons_append, List.cons_append, List.nil_append]
      have hfraction : Text.isDigits ['0'] = true := rfl
      refine (readDigits_fraction hwhole hfraction hrest).trans ?_
      rw [decimal_eq hzeros]
      rw [List.length_singleton]
      omega

/-- Digits are read with an exponent behind them. -/
theorem readDigits_scientific (h : IsDigitsOf ds d) (point : Int) (hrest : NoDigitNext rest) :
    readDigits start negative (Double.scientific ds point ++ rest)
      = .ok (.float (Double.ofDecimal negative d (point - ds.length)), rest) := by
  have hwhole := h.isWhole 0 0
  rw [List.replicate_zero, List.append_nil] at hwhole
  have hall : valueOf (ds.take 1 ++ ds.drop 1) = d * 10 ^ 0 := by
    rw [List.take_append_drop, h.value, Nat.pow_zero, Nat.mul_one]
  have hpos := h.length_pos
  unfold Double.scientific
  dsimp only
  split
  next hsingle =>
    have hnone : ds.drop 1 = [] := List.drop_eq_nil_iff.mpr hsingle
    rw [hnone] at hall
    rw [List.nil_append, List.append_assoc, List.cons_append, readDigits_exponent hwhole _ hrest, decimal_eq hall]
    rw [List.length_nil]
    omega
  next hseveral =>
    rw [List.append_assoc, List.cons_append, List.cons_append, List.append_assoc, List.cons_append,
      readDigits_fraction_exponent hwhole (h.isDigits_drop (by omega)) _ hrest, decimal_eq hall]
    rw [List.length_drop]
    omega

/-- **Digits are read** with the power of ten with which they were laid out. -/
theorem readDigits_layout (h : IsDigitsOf ds d) (point : Int) (hrest : EndsNumber rest) :
    readDigits start negative (Double.layout ds point ++ rest)
      = .ok (.float (Double.ofDecimal negative d (point - ds.length)), rest) := by
  unfold Double.layout
  split
  next => exact readDigits_plain h point hrest
  next => exact readDigits_scientific h point hrest.noDigitNext

end Layout

/-- **A finite number is read** as it was written. -/
theorem readDigits_rankText {r : Nat} (hfinite : r < Double.topRank) (hrest : EndsNumber rest) :
    readDigits start negative (Double.rankText r ++ rest)
      = .ok (.float (.ranked negative ⟨r, Nat.lt_succ_of_lt hfinite⟩), rest) := by
  have hrank {digits : Nat} {e : Int} (h : Double.decimalRank digits e = r) :
      Double.ofDecimal negative digits e = .ranked negative ⟨r, Nat.lt_succ_of_lt hfinite⟩ := by
    simp only [Double.ofDecimal, h]
  unfold Double.rankText
  split
  next hzero =>
    have hfraction : Text.isDigits ['0'] = true := rfl
    refine (readDigits_fraction .zero hfraction hrest).trans ?_
    rw [decimal, hrank]
    exact (Double.decimalRank_zero _).trans hzero.symm
  next hnonzero =>
    have hpos := Nat.pos_of_ne_zero hnonzero
    have hdigits := isDigitsOf_toDigits (Double.shortest_pos hpos hfinite.le)
    have hpoint (n : Nat) (e : Int) : (n : Int) + e - n = e := by omega
    dsimp only
    rw [readDigits_layout hdigits _ hrest, hpoint, hrank (Double.decimalRank_shortest hfinite.le)]

/-- What is read as digits starts with one. -/
theorem exists_cons_of_readDigits {cs : List Char} {r : Json × List Char}
    (h : readDigits start negative cs = .ok r) : ∃ c more, cs = c :: more ∧ c.isDigit = true := by
  unfold readDigits at h
  split at h
  next => cases h
  next hdigits =>
    unfold digits? at hdigits
    split at hdigits
    next => exact ⟨'0', _, rfl, rfl⟩
    next c more _ =>
      split at hdigits
      next hc => exact ⟨c, more, rfl, hc⟩
      next => cases hdigits
    next => cases hdigits

/-- How a number is written: its sign, and then a name or digits. -/
theorem toList_number (negative : Bool) (rank : Fin (Double.topRank + 1)) :
    (Writer.number (.ranked negative rank)).toList = minus negative ++
      if rank = Fin.last Double.topRank then "Infinity".toList else Double.rankText rank := by
  unfold Writer.number Double.text minus
  rw [String.toList_append]
  congr 1
  · split
    next => rfl
    next => rfl
  · split
    next => rfl
    next => exact String.toList_ofList

/-- What is written for a number starts with a minus sign, with the name of infinity, or with a digit. -/
theorem exists_number_eq_cons (negative : Bool) (rank : Fin (Double.topRank + 1)) :
    ∃ c more, (Writer.number (.ranked negative rank)).toList = c :: more ∧
      (c = '-' ∨ c = 'I' ∨ c.isDigit = true) := by
  rw [toList_number]
  cases negative with
  | true => exact ⟨'-', _, rfl, .inl rfl⟩
  | false =>
    by_cases htop : rank = Fin.last Double.topRank
    · rw [if_pos htop]
      exact ⟨'I', _, rfl, .inr (.inl rfl)⟩
    · have hfinite : rank.val < Double.topRank := Fin.val_lt_last htop
      have hread : readDigits [] false (Double.rankText rank ++ []) = _ := readDigits_rankText hfinite nofun
      obtain ⟨c, more, hcs, hc⟩ := exists_cons_of_readDigits hread
      rw [if_neg htop]
      rw [List.append_nil] at hcs
      exact ⟨c, more, hcs, .inr (.inr hc)⟩

/-- **A number of double precision is read** as it was written. -/
theorem readNumber_number (negative : Bool) (rank : Fin (Double.topRank + 1)) (hrest : EndsNumber rest) :
    readNumber ((Writer.number (.ranked negative rank)).toList ++ rest)
      = .ok (.float (.ranked negative rank), rest) := by
  rw [toList_number, List.append_assoc]
  by_cases htop : rank = Fin.last Double.topRank
  · subst htop
    rw [if_pos rfl]
    cases negative with
    | true => rfl
    | false => rfl
  · have hfinite : rank.val < Double.topRank := Fin.val_lt_last htop
    have hread (start : List Char) : readDigits start negative (Double.rankText rank ++ rest)
        = .ok (.float (.ranked negative rank), rest) := readDigits_rankText hfinite hrest
    obtain ⟨c, more, hcs, hc⟩ := exists_cons_of_readDigits (hread [])
    obtain ⟨start, hstart⟩ := exists_readNumber_eq negative hc more
    rw [if_neg htop, hcs, hstart, ← hcs, hread]

end Reader

end Pinpoint.Json
