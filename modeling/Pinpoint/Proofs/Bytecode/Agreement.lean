import Pinpoint.Proofs.Bytecode.Tiling

/-!
# Codes that agree on their opcodes

What comes next in a code depends on the opcode alone, so two codes that have the same opcodes up to some place
have the same instructions up to there, with the same numbers (`TilesFrom.filter_congr`). The operands may
differ, and so may all that lies behind the place, even if an operand reaches beyond it.

`numbering_of_agree` is this for any two codes, and for the ways in which a code is changed most often: its
operands are replaced, it is cut off, or data is put behind it.
-/

namespace Pinpoint.Bytecode

variable {code code' : List UInt8} {n pc : Nat} {xs ys : List Int}

/-- **Two codes agree below a place:** where an instruction of the first starts, both have the same opcode. -/
def AgreeBelow (n : Nat) (code code' : List UInt8) : Prop :=
  ∀ o ∈ instructionStarts code, o < n → code[o.toNat]? = code'[o.toNat]?

/-- **Two codes are numbered alike below a place:** their indices list the same starts there, and give them the
same numbers. -/
def NumberedAlike (n : Nat) (code code' : List UInt8) : Prop :=
  ∃ index other, InstructionIndex.ofHex (hexForm code) = .ok index ∧
    InstructionIndex.ofHex (hexForm code') = .ok other ∧
    index.offsets.filter (· < (n : Int)) = other.offsets.filter (· < (n : Int)) ∧
    ∀ offset < (n : Int), index.instructionAt? offset = other.instructionAt? offset

/-! ### Two tilings in step -/

/-- A tiling from a place on has no offset before it. -/
theorem TilesFrom.filter_eq_nil (h : TilesFrom code pc xs) (hpc : n ≤ pc) :
    xs.filter (· < (n : Int)) = [] := by
  refine List.filter_eq_nil_iff.mpr ?_
  intro o ho
  have := (h.bounds o ho).1
  have hge : ¬ o < (n : Int) := by omega
  simpa using hge

/-- **Two tilings go in step** as long as the opcodes are the same. -/
theorem TilesFrom.filter_congr (hxs : TilesFrom code pc xs) (hys : TilesFrom code' pc ys) (hc : n ≤ code.length)
    (hd : n ≤ code'.length) (hagree : ∀ o ∈ xs, o < n → code[o.toNat]? = code'[o.toNat]?) :
    xs.filter (· < (n : Int)) = ys.filter (· < (n : Int)) := by
  induction hxs generalizing ys with
  | done hreached => rw [hys.filter_eq_nil (by omega), List.filter_nil]
  | @step pc b xs hb hrest ih =>
    by_cases hpc : n ≤ pc
    · rw [(TilesFrom.step hb hrest).filter_eq_nil hpc, hys.filter_eq_nil hpc]
    · -- both have an instruction here, and it has the same opcode and so the same length
      have hsame : code[pc]? = code'[pc]? := hagree pc List.mem_cons_self (by omega)
      cases hys with
      | done hreached => omega
      | @step _ b' ys hb' hrest' =>
        obtain rfl : b = b' := Option.some.inj (hb.symm.trans (hsame.trans hb'))
        have hbehind := ih hrest' fun o ho => hagree o (List.mem_cons_of_mem _ ho)
        rw [List.filter_cons, List.filter_cons, hbehind]

/-- Codes that agree below a place have the same starts there. -/
theorem filter_instructionStarts_congr (hc : n ≤ code.length) (hd : n ≤ code'.length)
    (h : AgreeBelow n code code') :
    (instructionStarts code).filter (· < (n : Int)) = (instructionStarts code').filter (· < (n : Int)) :=
  (tilesFrom_startsFrom code 0).filter_congr (tilesFrom_startsFrom code' 0) hc hd h

/-! ### Numbers -/

/-- The starts below a place are enough to number them. -/
theorem InstructionIndex.instructionAt?_congr {index other : InstructionIndex}
    (hindex : index.offsets.Pairwise (· < ·)) (hother : other.offsets.Pairwise (· < ·))
    (h : index.offsets.filter (· < (n : Int)) = other.offsets.filter (· < (n : Int))) {offset : Int}
    (hoffset : offset < n) : index.instructionAt? offset = other.instructionAt? offset := by
  have hmem (offsets : List Int) : offset ∈ offsets ↔ offset ∈ offsets.filter (· < (n : Int)) := by
    rw [List.mem_filter]
    exact ⟨fun ho => ⟨ho, decide_eq_true hoffset⟩, fun ho => ho.1⟩
  have hcount (offsets : List Int) : offsets.countP (· < offset)
      = (offsets.filter (· < (n : Int))).countP (· < offset) := by
    rw [List.countP_filter]
    refine List.countP_congr ?_
    intro o _
    rw [Bool.and_eq_true, decide_eq_true_iff, decide_eq_true_iff]
    omega
  rw [instructionAt?_eq_rank hindex, instructionAt?_eq_rank hother]
  simp only [hmem index.offsets, hmem other.offsets, hcount index.offsets, hcount other.offsets, h]

/-- Codes with the same starts below a place are numbered alike there. -/
theorem numberedAlike_of_filter
    (h : (instructionStarts code).filter (· < (n : Int)) = (instructionStarts code').filter (· < (n : Int))) :
    NumberedAlike n code code' := by
  refine ⟨⟨instructionStarts code⟩, ⟨instructionStarts code'⟩,
    InstructionIndex.ofHex_of_decodeHex (decodeHex_hexForm code),
    InstructionIndex.ofHex_of_decodeHex (decodeHex_hexForm code'), h, ?_⟩
  intro offset hoffset
  exact InstructionIndex.instructionAt?_congr (tilesFrom_startsFrom code 0).increasing
    (tilesFrom_startsFrom code' 0).increasing h hoffset

/-- Codes that agree below a place are numbered alike there. -/
theorem numberedAlike_of_agreeBelow (hc : n ≤ code.length) (hd : n ≤ code'.length)
    (h : AgreeBelow n code code') : NumberedAlike n code code' :=
  numberedAlike_of_filter (filter_instructionStarts_congr hc hd h)

/-! ### Ways to change a code -/

/-- No start lies behind the end of the code, so none is left out. -/
theorem filter_instructionStarts_eq_self (h : code.length ≤ n) :
    (instructionStarts code).filter (· < (n : Int)) = instructionStarts code := by
  refine List.filter_eq_self.mpr ?_
  intro o ho
  have := ((tilesFrom_startsFrom code 0).bounds o ho).2
  exact decide_eq_true (by omega)

/-- **Codes of one length with the same opcodes** have the same index. -/
theorem ofHex_eq_of_opcodes (hlength : code.length = code'.length)
    (hopcodes : ∀ o ∈ instructionStarts code, code[o.toNat]? = code'[o.toNat]?) :
    InstructionIndex.ofHex (hexForm code) = InstructionIndex.ofHex (hexForm code') := by
  have hbelow := filter_instructionStarts_congr (le_refl code.length) (le_of_eq hlength)
    fun o ho _ => hopcodes o ho
  rw [filter_instructionStarts_eq_self (le_refl code.length),
    filter_instructionStarts_eq_self (le_of_eq hlength.symm)] at hbelow
  rw [InstructionIndex.ofHex_of_decodeHex (decodeHex_hexForm code), hbelow,
    InstructionIndex.ofHex_of_decodeHex (decodeHex_hexForm code')]

/-- A code that is cut off agrees with the whole below the cut. -/
theorem agreeBelow_take (n : Nat) (code : List UInt8) : AgreeBelow n code (code.take n) := by
  intro o ho hlt
  have hpos := ((tilesFrom_startsFrom code 0).bounds o ho).1
  rw [List.getElem?_take_of_lt (by omega)]

/-- A code that data is put behind agrees with what it was. -/
theorem agreeBelow_append (code data : List UInt8) : AgreeBelow code.length code (code ++ data) := by
  intro o ho hlt
  have hpos := ((tilesFrom_startsFrom code 0).bounds o ho).1
  rw [List.getElem?_append_left (by omega)]

/-- **Numbering depends on the opcodes before.** Codes that agree below a place are numbered alike there. So
replacing operands leaves the index as it is, and a code that is cut off, or that data is put behind, keeps the
numbers that it had. -/
theorem numbering_of_agree (code : List UInt8) :
    (∀ code' n, n ≤ code.length → n ≤ code'.length → AgreeBelow n code code' → NumberedAlike n code code') ∧
      (∀ code', code.length = code'.length → (∀ o ∈ instructionStarts code, code[o.toNat]? = code'[o.toNat]?) →
        InstructionIndex.ofHex (hexForm code) = InstructionIndex.ofHex (hexForm code')) ∧
      (∀ n ≤ code.length, NumberedAlike n code (code.take n)) ∧
      ∀ data, NumberedAlike code.length code (code ++ data) := by
  refine ⟨?_, ?_, ?_, ?_⟩
  · intro code' n hc hd h
    exact numberedAlike_of_agreeBelow hc hd h
  · intro code' hlength hopcodes
    exact ofHex_eq_of_opcodes hlength hopcodes
  · intro n hn
    have htake : n ≤ (code.take n).length := by
      rw [List.length_take]
      omega
    exact numberedAlike_of_agreeBelow hn htake (agreeBelow_take n code)
  · intro data
    have hlonger : code.length ≤ (code ++ data).length := by
      rw [List.length_append]
      omega
    exact numberedAlike_of_agreeBelow (le_refl code.length) hlonger (agreeBelow_append code data)

/-- A push with two bytes of data is cut in the middle of them in one code and has other data in the other. -/
theorem cutOperand_numberedAlike :
    AgreeBelow 2 [0x61, 0x60, 0x60, 0x01] [0x61, 0x00] ∧
      NumberedAlike 2 [0x61, 0x60, 0x60, 0x01] [0x61, 0x00] := by
  have hstarts : instructionStarts [0x61, 0x60, 0x60, 0x01] = [0, 3] := by
    decide +kernel
  have hagree : AgreeBelow 2 [0x61, 0x60, 0x60, 0x01] [0x61, 0x00] := by
    unfold AgreeBelow
    rw [hstarts]
    decide
  obtain ⟨hnumbered, -⟩ := numbering_of_agree [0x61, 0x60, 0x60, 0x01]
  exact ⟨hagree, hnumbered [0x61, 0x00] 2 (by decide) (by decide) hagree⟩

end Pinpoint.Bytecode
