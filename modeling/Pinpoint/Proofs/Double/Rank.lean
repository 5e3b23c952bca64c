import Pinpoint.Double.Basic
import Mathlib.Tactic.Ring

/-!
# Ranks and rounding

A rank splits into the block of its gap and what is left of it (`units_add`), and so the numbers grow with their
ranks, each by its gap (`units_succ`). A quotient lies between the number found below it and the next one
(`units_rankBelow_le`, `lt_units_rankBelow_succ`).

Rounding is right: a quotient lies no further up than halfway to the next number, no further down than halfway to
the one before, and on neither of these points unless the rank is even (`isNearest_nearest`). So no number is nearer
to it (`IsNearest.natAbs_sub_le`), and a number is rounded to its own rank (`nearest_units`).
-/

namespace Pinpoint.Double

theorem blockSize_eq : blockSize = 2 ^ 52 := Nat.one_shiftLeft 52

theorem blockSize_pos : 0 < blockSize := by
  rw [blockSize_eq]
  exact Nat.two_pow_pos 52

theorem units_eq (r : Nat) : units r = (r - blockSize * gapExponent r) * 2 ^ gapExponent r := Nat.shiftLeft_eq ..

/-! ### The size of a rank -/

/-- A rank is that of a gap, counted in blocks, and less than two blocks more. -/
theorem units_add {g m : Nat} (hlow : blockSize ≤ m ∨ g = 0) (hhigh : m ≤ 2 * blockSize) :
    units (blockSize * g + m) = m * 2 ^ g := by
  have hpos := blockSize_pos
  have hdiv : (blockSize * g + m) / blockSize = g + m / blockSize := Nat.mul_add_div hpos g m
  rcases Nat.lt_or_eq_of_le hhigh with hlt | rfl
  · -- the gap is that of the block, also where the first block is not full
    have hgap : gapExponent (blockSize * g + m) = g := by
      have hless : m / blockSize < 2 := Nat.div_lt_of_lt_mul (by omega)
      unfold gapExponent
      rw [hdiv]
      rcases hlow with hlow | rfl
      · have hone : 1 ≤ m / blockSize := (Nat.one_le_div_iff hpos).mpr hlow
        omega
      · omega
    rw [units_eq, hgap, Nat.add_sub_cancel_left]
  · -- two full blocks are one block of the next gap
    have hgap : gapExponent (blockSize * g + 2 * blockSize) = g + 1 := by
      unfold gapExponent
      rw [hdiv, Nat.mul_div_cancel _ hpos]
      omega
    have hrest : blockSize * g + 2 * blockSize - blockSize * (g + 1) = blockSize := by
      rw [Nat.mul_succ]
      omega
    rw [units_eq, hgap, hrest, Nat.pow_succ]
    ring

/-- Every rank is such a sum. -/
theorem exists_rank_eq (r : Nat) : ∃ m, r = blockSize * gapExponent r + m ∧
    (blockSize ≤ m ∨ gapExponent r = 0) ∧ m < 2 * blockSize := by
  have hsplit := Nat.div_add_mod r blockSize
  have hmod := Nat.mod_lt r blockSize_pos
  refine ⟨r - blockSize * gapExponent r, ?_, ?_⟩
  all_goals
    unfold gapExponent
    generalize r / blockSize = b at hsplit
    cases b with
    | zero =>
      rw [Nat.mul_zero] at hsplit
      rw [Nat.zero_sub, Nat.mul_zero, Nat.sub_zero]
      omega
    | succ b =>
      rw [Nat.mul_succ] at hsplit
      rw [Nat.add_sub_cancel]
      omega

/-- **The next number** is one gap further up. -/
theorem units_succ (r : Nat) : units (r + 1) = units r + 2 ^ gapExponent r := by
  obtain ⟨m, hr, hlow, hhigh⟩ := exists_rank_eq r
  generalize gapExponent r = g at hr hlow ⊢
  rw [hr, Nat.add_assoc, units_add hlow (by omega), units_add (hlow.imp_left (by omega)) (by omega),
    Nat.succ_mul]

theorem units_lt_succ (r : Nat) : units r < units (r + 1) := by
  rw [units_succ]
  exact Nat.lt_add_of_pos_right (Nat.two_pow_pos _)

theorem strictMono_units : StrictMono units := strictMono_nat_of_lt_succ units_lt_succ

theorem units_zero : units 0 = 0 := Nat.zero_shiftLeft _

/-! ### Rounding down -/

/-- The rank of what is found below is that of a gap and a quotient by the gap. -/
theorem rankBelow_eq (n : Nat) : ∃ g m, rankBelow n = blockSize * g + m ∧
    (blockSize ≤ m ∨ g = 0) ∧ m < 2 * blockSize ∧ m * 2 ^ g ≤ n ∧ n < (m + 1) * 2 ^ g := by
  refine ⟨n.log2 - 52, n / 2 ^ (n.log2 - 52), ?_, ?_, ?_, Nat.div_mul_le_self _ _, ?_⟩
  · rw [rankBelow, Nat.shiftRight_eq_div_pow]
  · by_cases hsmall : n.log2 ≤ 52
    · exact .inr (by omega)
    · -- a number with more than 53 binary digits keeps 53 of them
      have hn : n ≠ 0 := by
        rintro rfl
        exact hsmall (by decide)
      refine .inl ((Nat.le_div_iff_mul_le (Nat.two_pow_pos _)).mpr ?_)
      calc blockSize * 2 ^ (n.log2 - 52) = 2 ^ n.log2 := by
            rw [blockSize_eq, ← Nat.pow_add]
            congr 1
            omega
        _ ≤ n := Nat.log2_self_le hn
  · refine Nat.div_lt_of_lt_mul ?_
    calc n < 2 ^ (n.log2 + 1) := Nat.lt_log2_self
      _ ≤ 2 ^ (n.log2 - 52 + 53) := Nat.pow_le_pow_right (by decide) (by omega)
      _ = 2 ^ (n.log2 - 52) * (2 * blockSize) := by
            rw [Nat.pow_add, blockSize_eq]
            rfl
  · rw [Nat.mul_comm]
    exact Nat.lt_mul_div_succ n (Nat.two_pow_pos _)

theorem units_rankBelow_le (n : Nat) : units (rankBelow n) ≤ n := by
  obtain ⟨g, m, hrank, hlow, hhigh, hle, -⟩ := rankBelow_eq n
  rw [hrank, units_add hlow (by omega)]
  exact hle

theorem lt_units_rankBelow_succ (n : Nat) : n < units (rankBelow n + 1) := by
  obtain ⟨g, m, hrank, hlow, hhigh, -, hlt⟩ := rankBelow_eq n
  rw [hrank, Nat.add_assoc, units_add (hlow.imp_left (by omega)) (by omega)]
  exact hlt

/-! ### Rounding to the nearest -/

/-- **The number of rank `r` is nearest to `p / q`:** up to it, and down to it, the way is at most half of that from
its neighbour, and less than half unless the rank is even. -/
structure IsNearest (p q r : Nat) : Prop where
  above : 2 * p ≤ (units r + units (r + 1)) * q
  below : ∀ r', r = r' + 1 → (units r' + units r) * q ≤ 2 * p
  even : 2 * p = (units r + units (r + 1)) * q ∨ (∃ r', r = r' + 1 ∧ 2 * p = (units r' + units r) * q) →
    r % 2 = 0

/-- **Rounding** gives the nearest number. -/
theorem isNearest_nearest (p : Nat) {q : Nat} (hq : 0 < q) : IsNearest p q (nearest p q) := by
  -- the quotient lies between two neighbours, of which rounding takes one
  have hlow : units (rankBelow (p / q)) * q ≤ p :=
    (Nat.le_div_iff_mul_le hq).mp (units_rankBelow_le (p / q))
  have hhigh : p < units (rankBelow (p / q) + 1) * q :=
    (Nat.div_lt_iff_lt_mul hq).mp (lt_units_rankBelow_succ (p / q))
  unfold nearest
  generalize rankBelow (p / q) = r at hlow hhigh
  have hstep (r : Nat) : units r * q < units (r + 1) * q := Nat.mul_lt_mul_of_pos_right (units_lt_succ r) hq
  have hbefore : ∀ r', r = r' + 1 → (units r' + units r) * q < 2 * p := by
    rintro r' rfl
    have := hstep r'
    rw [Nat.add_mul]
    omega
  have hafter : 2 * p < (units (r + 1) + units (r + 1 + 1)) * q := by
    have := hstep (r + 1)
    rw [Nat.add_mul]
    omega
  have hdown (hle : 2 * p ≤ (units r + units (r + 1)) * q)
      (heven : 2 * p = (units r + units (r + 1)) * q → r % 2 = 0) : IsNearest p q r := by
    refine ⟨hle, fun r' hr' => (hbefore r' hr').le, ?_⟩
    rintro (heq | ⟨r', hr', heq⟩)
    · exact heven heq
    · exact absurd heq (hbefore r' hr').ne'
  have hup (hle : (units r + units (r + 1)) * q ≤ 2 * p)
      (heven : 2 * p = (units r + units (r + 1)) * q → (r + 1) % 2 = 0) : IsNearest p q (r + 1) := by
    refine ⟨hafter.le, ?_, ?_⟩
    · rintro r' hr'
      obtain rfl := Nat.succ.inj hr'
      exact hle
    · rintro (heq | ⟨r', hr', heq⟩)
      · exact absurd heq hafter.ne
      · obtain rfl := Nat.succ.inj hr'
        exact heven heq
  dsimp only
  split
  next hlt => exact hdown hlt.le fun heq => absurd heq hlt.ne
  next hge =>
    split
    next hgt => exact hup hgt.le fun heq => absurd heq hgt.ne'
    next hle =>
      rcases Nat.mod_two_eq_zero_or_one r with heven | hodd
      · rw [heven]
        exact hdown (Nat.not_lt.mp hle) fun _ => heven
      · rw [hodd]
        exact hup (Nat.not_lt.mp hge) fun _ => by omega

/-- No number is nearer than the nearest. -/
theorem IsNearest.natAbs_sub_le {p q r : Nat} (h : IsNearest p q r) (r' : Nat) :
    ((p : Int) - (units r * q : Nat)).natAbs ≤ ((p : Int) - (units r' * q : Nat)).natAbs := by
  have hmono {a b : Nat} (hle : a ≤ b) : units a * q ≤ units b * q :=
    Nat.mul_le_mul_right q (strictMono_units.monotone hle)
  rcases Nat.lt_trichotomy r' r with hlt | rfl | hgt
  · -- what is below is no nearer than the neighbour below
    obtain ⟨r, rfl⟩ := Nat.exists_eq_add_one_of_ne_zero (Nat.ne_of_gt (Nat.zero_lt_of_lt hlt))
    have hbelow := h.below r rfl
    have hneighbour := hmono (Nat.le_of_lt_succ hlt)
    have hstep := hmono (Nat.le_add_right r 1)
    rw [Nat.add_mul] at hbelow
    omega
  · exact Nat.le_refl _
  · have habove := h.above
    have hneighbour := hmono (show r + 1 ≤ r' from hgt)
    have hstep := hmono (Nat.le_add_right r 1)
    rw [Nat.add_mul] at habove
    omega

/-- **A number is rounded to its own rank.** -/
theorem nearest_units (r : Nat) {q : Nat} (hq : 0 < q) : nearest (units r * q) q = r := by
  have hnearest := isNearest_nearest (units r * q) hq
  generalize nearest (units r * q) q = n at hnearest
  have hmono {a b : Nat} (h : a ≤ b) : units a * q ≤ units b * q :=
    Nat.mul_le_mul_right q (strictMono_units.monotone h)
  have hstep (a : Nat) : units a * q < units (a + 1) * q := Nat.mul_lt_mul_of_pos_right (units_lt_succ a) hq
  rcases Nat.lt_trichotomy n r with hlt | heq | hgt
  · -- a rank below: halfway to the next one is not as far as `r`
    have habove := hnearest.above
    have hn := hmono (show n + 1 ≤ r from hlt)
    have hfirst := hstep n
    rw [Nat.add_mul] at habove
    omega
  · exact heq
  · -- a rank above: halfway from the one before is too far
    obtain ⟨n, rfl⟩ := Nat.exists_eq_add_one_of_ne_zero (Nat.ne_of_gt (Nat.zero_lt_of_lt hgt))
    have hbelow := hnearest.below n rfl
    have hn := hmono (show r ≤ n from Nat.le_of_lt_succ hgt)
    have hlast := hstep n
    rw [Nat.add_mul] at hbelow
    omega

/-- What is less than half a unit is rounded to zero. -/
theorem nearest_eq_zero {p q : Nat} (h : 2 * p < q) : nearest p q = 0 := by
  have hnone : p / q = 0 := Nat.div_eq_of_lt (by omega)
  have hbelow : rankBelow 0 = 0 := by decide +kernel
  have hone : units 0 + units (0 + 1) = 1 := by
    rw [units_succ, units_zero]
    rfl
  unfold nearest
  dsimp only
  rw [hnone, hbelow, hone, Nat.one_mul, if_pos h]

/-- What is no less than infinity would be has no lower rank. -/
theorem topRank_le_nearest {p q : Nat} (hq : 0 < q) (h : units topRank * q ≤ p) : topRank ≤ nearest p q := by
  refine Nat.le_of_not_lt fun hfinite => ?_
  have habove := (isNearest_nearest p hq).above
  generalize nearest p q = r at hfinite habove
  have hrank : units r * q < units topRank * q := Nat.mul_lt_mul_of_pos_right (strictMono_units hfinite) hq
  have hnext : units (r + 1) * q ≤ units topRank * q :=
    Nat.mul_le_mul_right q (strictMono_units.monotone hfinite)
  rw [Nat.add_mul] at habove
  omega

/-- Rounding a quotient does not depend on how it is written. -/
theorem nearest_mul_right (p q : Nat) {c : Nat} (hc : 0 < c) : nearest (p * c) (q * c) = nearest p q := by
  have hdouble : 2 * (p * c) = 2 * p * c := by ring
  unfold nearest
  dsimp only
  rw [Nat.mul_div_mul_right p q hc, hdouble, ← Nat.mul_assoc]
  simp only [Nat.mul_lt_mul_right hc]

end Pinpoint.Double
