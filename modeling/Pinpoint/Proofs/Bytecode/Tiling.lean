import Pinpoint.Proofs.Bytecode.HexForm
import Pinpoint.Proofs.Offsets
import Pinpoint.Proofs.PositionOrder

/-!
# Instructions tile the code

An instruction occupies its opcode and the operands behind it, and the next instruction starts where it ends.
`TilesFrom` says this of a list of offsets, from some place of the code on, and every list of starts that is
made has this form (`tilesFrom_startsFrom`). What there is to know about the starts follows from it by induction
on the tiling: they come in increasing order and within the code, each of them is as far from the one before as
that instruction is long, and the last instruction reaches the end of the code or would go beyond it.

So no byte is left out, and none belongs to two instructions (`TilesFrom.exists_occupies`,
`TilesFrom.occupies_unique`). The place of an offset among the starts is the number of starts before it, which
makes the two look-ups of an index inverse to each other. All of this is `InstructionIndex.Tiles`, and
`tiles_ofHex` is the index of any code.
-/

namespace Pinpoint.Bytecode

variable {code : List UInt8} {pc : Nat} {offsets : List Int}

/-! ### Tilings -/

/-- **Offsets tile a code from a place on:** each is the place that the instruction before it has led to, and
the last instruction leads to the end of the code or beyond it. -/
inductive TilesFrom (code : List UInt8) : Nat → List Int → Prop where
  | done {pc : Nat} (reached : code.length ≤ pc) : TilesFrom code pc []
  | step {pc : Nat} {b : UInt8} {offsets : List Int} (opcode : code[pc]? = some b)
      (rest : TilesFrom code (pc + 1 + operandSize b) offsets) : TilesFrom code pc (pc :: offsets)

/-- The instruction at an offset occupies a byte, as its opcode or as one of its operands. -/
def Occupies (code : List UInt8) (offset place : Int) : Prop :=
  ∃ b, code[offset.toNat]? = some b ∧ offset ≤ place ∧ place ≤ offset + operandSize b

/-- A byte is an operand of the instruction at an offset. -/
def IsOperandOf (code : List UInt8) (offset place : Int) : Prop :=
  ∃ b, code[offset.toNat]? = some b ∧ offset < place ∧ place ≤ offset + operandSize b

/-- An instruction occupies its opcode and its operands. -/
theorem occupies_iff {offset place : Int} :
    Occupies code offset place ↔ (∃ b, code[offset.toNat]? = some b) ∧ place = offset ∨
      IsOperandOf code offset place := by
  constructor
  · rintro ⟨b, hb, hle, hend⟩
    rcases Int.lt_or_eq_of_le hle with hlt | heq
    · exact .inr ⟨b, hb, hlt, hend⟩
    · exact .inl ⟨⟨b, hb⟩, heq.symm⟩
  · rintro (⟨⟨b, hb⟩, rfl⟩ | ⟨b, hb, hlt, hend⟩)
    · exact ⟨b, hb, Int.le_refl place, by omega⟩
    · exact ⟨b, hb, Int.le_of_lt hlt, hend⟩

/-- **The starts of a code tile it.** -/
theorem tilesFrom_startsFrom (code : List UInt8) (pc : Nat) :
    TilesFrom code pc (startsFrom pc (code.drop pc)) := by
  generalize hleft : code.drop pc = left
  fun_induction startsFrom pc left with
  | case1 pc => exact .done (List.drop_eq_nil_iff.mp hleft)
  | case2 pc b rest ih =>
    have hopcode : code[pc]? = some b := by
      rw [← List.head?_drop, hleft, List.head?_cons]
    -- behind the opcode the operands are dropped as well
    have hnext : code.drop (pc + 1 + operandSize b) = rest.drop (operandSize b) := by
      rw [← List.drop_drop, ← List.drop_drop, hleft, List.drop_one, List.tail_cons]
    exact .step hopcode (ih hnext)

/-! ### What tilings are like -/

namespace TilesFrom

/-- The offsets lie in the code, and none of them before the place that they start from. -/
theorem bounds (h : TilesFrom code pc offsets) : ∀ o ∈ offsets, (pc : Int) ≤ o ∧ o < code.length := by
  induction h with
  | done _ =>
    intro o ho
    cases ho
  | @step pc b offsets hb _ ih =>
    intro o ho
    have hpc := (List.getElem?_eq_some_iff.mp hb).1
    rcases List.mem_cons.mp ho with rfl | ho
    · omega
    · have := ih o ho
      omega

/-- The first offset is the place that they start from, if there is any code left. -/
theorem head? (h : TilesFrom code pc offsets) :
    offsets.head? = if pc < code.length then some (pc : Int) else none := by
  cases h with
  | done hreached => rw [if_neg (by omega), List.head?_nil]
  | step hb _ => rw [if_pos (List.getElem?_eq_some_iff.mp hb).1, List.head?_cons]

/-- The offsets come in increasing order. -/
theorem increasing (h : TilesFrom code pc offsets) : offsets.Pairwise (· < ·) := by
  induction h with
  | done _ => exact .nil
  | step _ hrest ih =>
    refine List.pairwise_cons.mpr ⟨?_, ih⟩
    intro later hlater
    have := (hrest.bounds later hlater).1
    omega

/-- Each offset is followed by the end of the instruction there. -/
theorem next (h : TilesFrom code pc offsets) {i : Nat} {o later : Int} (ho : offsets[i]? = some o)
    (hlater : offsets[i + 1]? = some later) :
    ∃ b, code[o.toNat]? = some b ∧ later = o + 1 + operandSize b := by
  induction h generalizing i with
  | done _ => cases ho
  | @step pc b offsets hb hrest ih =>
    rw [List.getElem?_cons_succ] at hlater
    cases i with
    | succ i =>
      rw [List.getElem?_cons_succ] at ho
      exact ih ho hlater
    | zero =>
      -- the second offset is the first one of what follows
      obtain rfl := Option.some.inj ho
      rw [← List.head?_eq_getElem?, hrest.head?, Option.ite_none_right_eq_some] at hlater
      obtain ⟨-, hfirst⟩ := hlater
      have hend := Option.some.inj hfirst
      refine ⟨b, hb, ?_⟩
      omega

/-- The last instruction reaches the end of the code. -/
theorem last (h : TilesFrom code pc offsets) {o : Int} (ho : offsets.getLast? = some o) :
    ∃ b, code[o.toNat]? = some b ∧ code.length ≤ o + 1 + operandSize b := by
  induction h with
  | done _ => cases ho
  | @step pc b offsets hb hrest ih =>
    cases hrest with
    | done hreached =>
      rw [List.getLast?_singleton] at ho
      obtain rfl := Option.some.inj ho
      refine ⟨b, hb, ?_⟩
      omega
    | step hb' hrest' =>
      rw [List.getLast?_cons_cons] at ho
      exact ih ho

/-- **No byte is left out:** every byte from the start on is occupied by an instruction. -/
theorem exists_occupies (h : TilesFrom code pc offsets) {place : Int} (hpc : pc ≤ place)
    (hplace : place < code.length) : ∃ o ∈ offsets, Occupies code o place := by
  induction h with
  | done hreached => omega
  | @step pc b offsets hb _ ih =>
    by_cases hbehind : place ≤ pc + operandSize b
    · exact ⟨pc, List.mem_cons_self, b, hb, hpc, hbehind⟩
    · obtain ⟨o, ho, hoccupies⟩ := ih (by omega)
      exact ⟨o, List.mem_cons_of_mem _ ho, hoccupies⟩

/-- **No byte belongs to two instructions:** each ends before those behind it start. -/
theorem occupies_unique (h : TilesFrom code pc offsets) {o o' place : Int} (ho : o ∈ offsets)
    (ho' : o' ∈ offsets) (hplace : Occupies code o place) (hplace' : Occupies code o' place) :
    o = o' := by
  induction h with
  | done _ => cases ho
  | @step pc b offsets hb hrest ih =>
    have hends {later : Int} (hlater : later ∈ offsets) (hfirst : Occupies code pc place)
        (hsecond : Occupies code later place) : False := by
      obtain ⟨b', hb', -, hend⟩ := hfirst
      obtain ⟨-, -, hstart, -⟩ := hsecond
      obtain rfl := Option.some.inj (hb.symm.trans hb')
      have := (hrest.bounds later hlater).1
      omega
    rcases List.mem_cons.mp ho with rfl | ho
    · rcases List.mem_cons.mp ho' with rfl | ho'
      · rfl
      · exact (hends ho' hplace hplace').elim
    · rcases List.mem_cons.mp ho' with rfl | ho'
      · exact (hends ho hplace' hplace).elim
      · exact ih ho ho'

end TilesFrom

/-! ### The place of an offset -/

/-- In increasing order an offset stands behind as many others as are less than it is. -/
theorem countP_of_getElem? (h : offsets.Pairwise (· < ·)) {k : Nat} {o : Int}
    (ho : offsets[k]? = some o) : offsets.countP (· < o) = k := by
  induction offsets generalizing k with
  | nil => cases ho
  | cons first rest ih =>
    obtain ⟨hfirst, hrest⟩ := List.pairwise_cons.mp h
    cases k with
    | zero =>
      -- nothing is less than the first one
      obtain rfl := Option.some.inj ho
      refine List.countP_eq_zero.mpr ?_
      intro other hother
      rcases List.mem_cons.mp hother with rfl | hother
      · simp
      · have := hfirst other hother
        simpa using Int.le_of_lt this
    | succ k =>
      rw [List.getElem?_cons_succ] at ho
      have hlt := hfirst o (List.mem_of_getElem? ho)
      rw [List.countP_cons_of_pos (by simpa using hlt), ih hrest ho]

namespace InstructionIndex

/-- The look-up in a list in increasing order finds the rank of an offset. -/
theorem lastPlaceFrom?_eq_rank (h : offsets.Pairwise (· < ·)) (offset : Int) (n : Nat) :
    lastPlaceFrom? offset n offsets
      = if offset ∈ offsets then some (n + offsets.countP (· < offset)) else none := by
  induction offsets generalizing n with
  | nil => rfl
  | cons first rest ih =>
    obtain ⟨hfirst, hrest⟩ := List.pairwise_cons.mp h
    rw [lastPlaceFrom?_cons, ih hrest]
    by_cases heq : first = offset
    · subst heq
      -- it stands in front and nowhere else
      have hnot : first ∉ rest := by
        intro hmem
        exact absurd (hfirst first hmem) (Int.lt_irrefl first)
      have hrank : (first :: rest).countP (· < first) = 0 := countP_of_getElem? h rfl
      rw [if_neg hnot, Option.none_or, if_pos rfl, if_pos List.mem_cons_self, hrank, Nat.add_zero]
    · have hmem : offset ∈ first :: rest ↔ offset ∈ rest := by
        rw [List.mem_cons, or_iff_right (Ne.symm heq)]
      simp only [hmem, if_neg heq, Option.or_none]
      split
      next hoffset =>
        have hlt := hfirst offset hoffset
        rw [List.countP_cons_of_pos (by simpa using hlt)]
        congr 1
        omega
      next => rfl

variable {index : InstructionIndex}

/-- **The number of an instruction** is the rank of its start. -/
theorem instructionAt?_eq_rank (h : index.offsets.Pairwise (· < ·)) (offset : Int) :
    index.instructionAt? offset
      = if offset ∈ index.offsets then some (index.offsets.countP (· < offset)) else none := by
  rw [instructionAt?, lastPlaceFrom?_eq_rank h, Nat.zero_add]

/-- The number of an instruction is the place at which its start is listed. -/
theorem instructionAt?_eq_some_iff (h : index.offsets.Pairwise (· < ·)) {offset : Int} {k : Nat} :
    index.instructionAt? offset = some k ↔ index.offsets[k]? = some offset := by
  rw [instructionAt?_eq_rank h, Option.ite_none_right_eq_some]
  constructor
  · rintro ⟨hmem, hrank⟩
    obtain ⟨j, hj⟩ := List.mem_iff_getElem?.mp hmem
    have hplace := countP_of_getElem? h hj
    obtain rfl : j = k := hplace.symm.trans (Option.some.inj hrank)
    exact hj
  · intro hk
    exact ⟨List.mem_of_getElem? hk, congrArg some (countP_of_getElem? h hk)⟩

theorem offsetOf?_natCast (index : InstructionIndex) (k : Nat) :
    index.offsetOf? k = index.offsets[k]? := by
  rw [offsetOf?, if_pos (Int.natCast_nonneg k), Int.toNat_natCast]

/-- Just the numbers from zero up to the number of instructions have an offset. -/
theorem isSome_offsetOf?_iff (index : InstructionIndex) (n : Int) :
    (index.offsetOf? n).isSome ↔ 0 ≤ n ∧ n < index.size := by
  unfold offsetOf? size
  split
  next hn =>
    rw [isSome_getElem?]
    omega
  next hn =>
    refine iff_of_false ?_ ?_
    · simp
    · omega

/-! ### Indices -/

/-- **An index tiles a code.** -/
structure Tiles (index : InstructionIndex) (code : List UInt8) : Prop where
  /-- Code starts with an instruction, and where there is no code there is none. -/
  first : index.offsets.head? = if code = [] then none else some 0
  increasing : index.offsets.Pairwise (· < ·)
  /-- The next instruction starts behind the operands. -/
  next : ∀ (i : Nat) (o later : Int), index.offsets[i]? = some o → index.offsets[i + 1]? = some later →
    ∃ b, code[o.toNat]? = some b ∧ later = o + 1 + operandSize b
  bounds : ∀ o ∈ index.offsets, 0 ≤ o ∧ o < code.length
  /-- The last instruction reaches the end of the code, or it is cut off there. -/
  last : ∀ o : Int, index.offsets.getLast? = some o →
    ∃ b, code[o.toNat]? = some b ∧ code.length ≤ o + 1 + operandSize b
  /-- A byte is an opcode, and then no operand, or it is an operand of exactly one instruction. -/
  parts : ∀ place : Int, 0 ≤ place → place < code.length →
    place ∈ index.offsets ∧ (∀ o ∈ index.offsets, ¬ IsOperandOf code o place) ∨
      place ∉ index.offsets ∧ ∃! o, o ∈ index.offsets ∧ IsOperandOf code o place
  /-- Only opcodes have a number, which is the number of opcodes before them. -/
  rank : ∀ offset, index.instructionAt? offset
    = if offset ∈ index.offsets then some (index.offsets.countP (· < offset)) else none
  /-- The numbers go from zero up to the number of instructions. -/
  numbers : ∀ n : Int, (index.offsetOf? n).isSome ↔ 0 ≤ n ∧ n < index.size
  inverse : ∀ offset (k : Nat), index.instructionAt? offset = some k ↔ index.offsetOf? k = some offset

/-- A byte of a tiled code is an opcode or an operand, and only once. -/
theorem parts_of_tilesFrom (h : TilesFrom code 0 offsets) {place : Int} (hpos : 0 ≤ place)
    (hplace : place < code.length) :
    place ∈ offsets ∧ (∀ o ∈ offsets, ¬ IsOperandOf code o place) ∨
      place ∉ offsets ∧ ∃! o, o ∈ offsets ∧ IsOperandOf code o place := by
  have hoccupies {o : Int} (h : IsOperandOf code o place) : Occupies code o place :=
    occupies_iff.mpr (.inr h)
  by_cases hmem : place ∈ offsets
  · refine .inl ⟨hmem, ?_⟩
    intro o ho hoperand
    -- its own instruction occupies it already
    have hself : ∃ b, code[place.toNat]? = some b :=
      ⟨code[place.toNat], List.getElem?_eq_getElem (by omega)⟩
    have hsame := h.occupies_unique ho hmem (hoccupies hoperand)
      (occupies_iff.mpr (.inl ⟨hself, rfl⟩))
    obtain ⟨b, -, hlt, -⟩ := hoperand
    omega
  · refine .inr ⟨hmem, ?_⟩
    obtain ⟨o, ho, hplaced⟩ := h.exists_occupies hpos hplace
    rcases occupies_iff.mp hplaced with ⟨-, rfl⟩ | hoperand
    · exact absurd ho hmem
    · refine ⟨o, ⟨ho, hoperand⟩, ?_⟩
      rintro o' ⟨ho', hoperand'⟩
      exact h.occupies_unique ho' ho (hoccupies hoperand') hplaced

/-- The starts of a code tile it. -/
theorem tiles_instructionStarts (code : List UInt8) : Tiles ⟨instructionStarts code⟩ code := by
  have htiles : TilesFrom code 0 (instructionStarts code) := tilesFrom_startsFrom code 0
  have hincreasing : (mk (instructionStarts code)).offsets.Pairwise (· < ·) := htiles.increasing
  constructor
  case first =>
    rw [htiles.head?]
    cases code <;> rfl
  case increasing => exact hincreasing
  case next =>
    intro i o later ho hlater
    exact htiles.next ho hlater
  case bounds => exact htiles.bounds
  case last =>
    intro o ho
    exact htiles.last ho
  case parts =>
    intro place hpos hplace
    exact parts_of_tilesFrom htiles hpos hplace
  case rank => exact instructionAt?_eq_rank hincreasing
  case numbers => exact isSome_offsetOf?_iff _
  case inverse =>
    intro offset k
    rw [instructionAt?_eq_some_iff hincreasing, offsetOf?_natCast]

/-- **The index of a code tiles it,** whatever the code. It is made of the hexadecimal form of the code, and of
any other text for these bytes it is the same one. -/
theorem tiles_ofHex (code : List UInt8) :
    ∃ index, ofHex (hexForm code) = .ok index ∧ index.Tiles code ∧
      ∀ text, decodeHex text = .ok code → ofHex text = .ok index := by
  refine ⟨⟨instructionStarts code⟩, ?_, tiles_instructionStarts code, ?_⟩
  · exact ofHex_of_decodeHex (decodeHex_hexForm code)
  · intro text htext
    exact ofHex_of_decodeHex htext

end InstructionIndex

end Pinpoint.Bytecode
