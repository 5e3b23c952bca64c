import Pinpoint.Double.Decimal
import Pinpoint.Proofs.Double.Rank

/-!
# Decimals

Decimals are read as the nearest number, also where reading takes a short way (`decimalRank_eq`), so it does not
matter how digits and the power of ten are shared out (`decimalRank_mul_pow`).

The digits that are written for a number are read back as it (`decimalRank_shortest`): at each place they were only
taken because they are, and at the last place of all they are the number itself (`decimalRank_decimals`).
-/

namespace Pinpoint.Double

theorem unitsPerOne_eq : unitsPerOne = 2 ^ unitExponent := Nat.one_shiftLeft _

/-! ### Reading is rounding -/

theorem units_topRank : units topRank = 2 * blockSize * 2 ^ 2045 := by
  have hsum : topRank = blockSize * 2045 + 2 * blockSize := by
    unfold topRank
    omega
  have hpos := blockSize_pos
  rw [hsum, units_add (.inl (by omega)) (Nat.le_refl _)]

theorem units_topRank_le : units topRank ≤ unitsPerOne * 10 ^ 309 := by
  rw [units_topRank]
  decide +kernel

/-- A number with `n + 1` digits is no less than `10 ^ n`. -/
theorem pow_le_of_length_toDigits {d n : Nat} (hd : 0 < d) (h : (Nat.toDigits 10 d).length = n + 1) :
    10 ^ n ≤ d := by
  refine Nat.le_of_not_lt fun hless => ?_
  rcases Nat.eq_zero_or_pos n with rfl | hn
  · omega
  · have hshort := (Nat.length_toDigits_le_iff (by decide) hn).mpr hless
    omega

/-- **Decimals are rounded to the nearest number.** Those that are not looked at for their size come to zero or to
infinity anyway. -/
theorem decimalRank_eq (digits : Nat) (e : Int) : decimalRank digits e
    = min topRank (nearest (unitsPerOne * (digits * 10 ^ e.toNat)) (10 ^ (-e).toNat)) := by
  have hten (k : Nat) : 0 < 10 ^ k := Nat.pow_pos (by decide)
  unfold decimalRank
  dsimp only
  split
  next hsmall =>
    -- less than half a unit, or nothing at all
    rw [nearest_eq_zero, Nat.min_zero]
    rcases hsmall with rfl | hsmall
    · rw [Nat.zero_mul, Nat.mul_zero]
      exact hten _
    · have hhalf : 2 * unitsPerOne ≤ 10 ^ 330 := by decide +kernel
      have hlength : digits < 10 ^ (Nat.toDigits 10 digits).length :=
        (Nat.length_toDigits_le_iff (by decide) Nat.length_toDigits_pos).mp (Nat.le_refl _)
      have hnone : e.toNat = 0 := by omega
      calc 2 * (unitsPerOne * (digits * 10 ^ e.toNat))
          = 2 * unitsPerOne * digits := by rw [hnone, Nat.pow_zero, Nat.mul_one, Nat.mul_assoc]
        _ ≤ 10 ^ 330 * digits := Nat.mul_le_mul_right _ hhalf
        _ < 10 ^ 330 * 10 ^ (Nat.toDigits 10 digits).length := (Nat.mul_lt_mul_left (hten 330)).mpr hlength
        _ = 10 ^ (330 + (Nat.toDigits 10 digits).length) := by rw [← Nat.pow_add]
        _ ≤ 10 ^ (-e).toNat := Nat.pow_le_pow_right (by decide) (by omega)
  next hnonzero =>
    split
    next hlarge =>
      -- the first digit alone is beyond all finite numbers
      refine (Nat.min_eq_left (topRank_le_nearest (hten _) ?_)).symm
      have hpos : 0 < digits := Nat.pos_of_ne_zero fun h => hnonzero (.inl h)
      obtain ⟨n, hn⟩ : ∃ n, (Nat.toDigits 10 digits).length = n + 1 :=
        Nat.exists_eq_add_one.mpr Nat.length_toDigits_pos
      calc units topRank * 10 ^ (-e).toNat
          ≤ unitsPerOne * 10 ^ 309 * 10 ^ (-e).toNat := Nat.mul_le_mul_right _ units_topRank_le
        _ = unitsPerOne * 10 ^ (309 + (-e).toNat) := by rw [Nat.mul_assoc, ← Nat.pow_add]
        _ ≤ unitsPerOne * 10 ^ (n + e.toNat) :=
            Nat.mul_le_mul_left _ (Nat.pow_le_pow_right (by decide) (by omega))
        _ = unitsPerOne * (10 ^ n * 10 ^ e.toNat) := by rw [Nat.pow_add]
        _ ≤ unitsPerOne * (digits * 10 ^ e.toNat) :=
            Nat.mul_le_mul_left _ (Nat.mul_le_mul_right _ (pow_le_of_length_toDigits hpos hn))
    next => simp only [Nat.pow_eq]

theorem decimalRank_zero (e : Int) : decimalRank 0 e = 0 := by
  unfold decimalRank
  exact if_pos (.inl rfl)

/-- A factor of ten counts as much among the digits as in the power of ten. -/
theorem decimalRank_mul_ten (d : Nat) (e : Int) : decimalRank (d * 10) e = decimalRank d (e + 1) := by
  rw [decimalRank_eq, decimalRank_eq]
  rcases lt_or_ge e 0 with he | he
  · -- the factor is cancelled from the quotient
    have hnum : e.toNat = 0 ∧ (e + 1).toNat = 0 := by omega
    have hden : (-e).toNat = (-(e + 1)).toNat + 1 := by omega
    rw [hnum.1, hnum.2, hden, Nat.pow_succ, Nat.pow_zero, Nat.mul_one, Nat.mul_one, ← Nat.mul_assoc,
      nearest_mul_right _ _ (by decide)]
  · have hnum : e.toNat + 1 = (e + 1).toNat := by omega
    have hden : (-e).toNat = 0 ∧ (-(e + 1)).toNat = 0 := by omega
    rw [← hnum, hden.1, hden.2, Nat.pow_succ, Nat.mul_assoc d, Nat.mul_comm 10]

/-- **A power of ten** counts as much among the digits as beside them. -/
theorem decimalRank_mul_pow (d n : Nat) (e : Int) : decimalRank (d * 10 ^ n) e = decimalRank d (e + n) := by
  induction n generalizing e with
  | zero => rw [Nat.pow_zero, Nat.mul_one, Int.natCast_zero, Int.add_zero]
  | succ n ih =>
    rw [Nat.pow_succ, ← Nat.mul_assoc, decimalRank_mul_ten, ih, Int.natCast_succ]
    congr 1
    omega

/-! ### The digits that are written -/

/-- **All digits of a number** are read as it. -/
theorem decimalRank_decimals {r : Nat} (h : r ≤ topRank) : decimalRank (decimals r) (placeExponent 0) = r := by
  have hten (k : Nat) : 2 ^ k * (5 ^ k * units r * 10 ^ 0) = units r * 10 ^ k := by
    rw [Nat.pow_zero, Nat.mul_one, ← Nat.mul_assoc, ← Nat.mul_pow, Nat.mul_comm]
  have hnum : (placeExponent 0).toNat = 0 := by decide
  have hden : (-placeExponent 0).toNat = unitExponent := by decide
  rw [decimalRank_eq, hnum, hden, unitsPerOne_eq, decimals, Nat.pow_eq, hten,
    nearest_units r (Nat.pow_pos (by decide)), Nat.min_eq_right h]

/-- The digits found from a place on downwards are read back. -/
theorem decimalRank_shortestFrom {r : Nat} (h : r ≤ topRank) (place : Nat) :
    decimalRank (shortestFrom r place).1 (placeExponent (shortestFrom r place).2) = r := by
  induction place with
  | zero => exact decimalRank_decimals h
  | succ place ih =>
    rw [shortestFrom]
    cases hdigits : digitsAt? r (place + 1) with
    | some digits =>
      have hread := List.find?_some hdigits
      exact beq_iff_eq.mp hread
    | none => exact ih

/-- **The digits that are written** for a number are read back as it. -/
theorem decimalRank_shortest {r : Nat} (h : r ≤ topRank) :
    decimalRank (shortest r).1 (placeExponent (shortest r).2) = r :=
  decimalRank_shortestFrom h _

/-- Zero is not written for a number that is not zero. -/
theorem shortest_pos {r : Nat} (hpos : 0 < r) (h : r ≤ topRank) : 0 < (shortest r).1 := by
  have hread := decimalRank_shortest h
  rcases Nat.eq_zero_or_pos (shortest r).1 with hzero | hdigits
  · rw [hzero, decimalRank_zero] at hread
    exact absurd hread hpos.ne
  · exact hdigits

end Pinpoint.Double
