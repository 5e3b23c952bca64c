import Pinpoint.Proofs.Offsets

/-!
# Marking opcodes byte by byte

`opcodeMarks` scans a code from its first byte and marks each byte as an opcode or not: it keeps the
number of operand bytes that are still owed to the last opcode, and a byte is an opcode when none are.
An instruction starts where there is a mark (`isOpcodeAt`), and its number is the number of marks before
it (`opcodesBefore`).

The index of instructions does not visit operands at all: it jumps over them. `instructionAt?_eq` says that
it answers as the scan does.
-/

namespace Pinpoint.Bytecode

/-- Which bytes of a code are opcodes, when the first `owed` of them are operands of an opcode before. -/
def opcodeMarks : Nat → List UInt8 → List Bool
  | _, [] => []
  | 0, b :: rest => true :: opcodeMarks (operandSize b) rest
  | owed + 1, _ :: rest => false :: opcodeMarks owed rest

/-- Whether an opcode stands at an offset of a code. -/
def isOpcodeAt (code : List UInt8) (offset : Int) : Bool :=
  0 ≤ offset && (opcodeMarks 0 code)[offset.toNat]? == some true

/-- The number of opcodes among the first `n` bytes of a code. -/
def opcodesBefore (code : List UInt8) (n : Nat) : Nat :=
  ((opcodeMarks 0 code).take n).count true

/-- **Jumping over operands finds the marks.** Operands that are owed are jumped over first. -/
theorem startsFrom_eq_offsetsFrom (owed pc : Nat) (code : List UInt8) :
    startsFrom (pc + owed) (code.drop owed) = offsetsFrom id pc (opcodeMarks owed code) := by
  fun_induction opcodeMarks owed code generalizing pc with
  | case1 owed => simp [offsetsFrom, startsFrom]
  | case2 b rest ih =>
    -- an opcode: the index jumps over what the scan now owes
    rw [List.drop_zero, Nat.add_zero, startsFrom, ih, offsetsFrom_cons]
    rfl
  | case3 owed b rest ih =>
    -- an operand: one byte less to jump over, from one byte further on
    have hpc : pc + (owed + 1) = pc + 1 + owed := by omega
    rw [List.drop_succ_cons, hpc, ih, offsetsFrom_cons]
    rfl

/-- The instruction starts of a code are the offsets of its marks. -/
theorem instructionStarts_eq (code : List UInt8) :
    instructionStarts code = offsetsFrom id 0 (opcodeMarks 0 code) := by
  rw [instructionStarts, ← startsFrom_eq_offsetsFrom, Nat.zero_add, List.drop_zero]

/-- **The index numbers the marks.** An offset has an instruction exactly if an opcode is marked there,
and its number is the number of opcodes before it. -/
theorem instructionAt?_eq (code : List UInt8) (offset : Int) :
    InstructionIndex.instructionAt? ⟨instructionStarts code⟩ offset
      = if isOpcodeAt code offset then some (opcodesBefore code offset.toNat) else none := by
  have hcount (marks : List Bool) : marks.countP id = marks.count true := by
    rw [List.count]
    exact List.countP_congr fun mark _ => by simp
  rw [InstructionIndex.instructionAt?, instructionStarts_eq, lastPlaceFrom?_offsetsFrom, hcount]
  simp [isOpcodeAt, opcodesBefore]

/-- A push of two bytes is one instruction: the opcode after it, at offset 3, has number 1. -/
example : opcodesBefore [0x61, 0x60, 0x60, 0x01] 3 = 1 := by decide

end Pinpoint.Bytecode
