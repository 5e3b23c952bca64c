import Pinpoint.Bytecode.Hex

/-!
# Instructions and their offsets

The code is a sequence of instructions. An instruction is an opcode, and the opcodes from 60 to 7F
(*push*) are followed by 1 to 32 bytes of data, which are no instructions. `instructionStarts` gives the
offsets of the opcodes; an instruction that the end of the code cuts short still counts.

`InstructionIndex` numbers the starts from zero and answers in both directions.
-/

namespace Pinpoint.Bytecode

/-- The opcode of the push with one byte of data. -/
def push1 : Int := 0x60

/-- The opcode of the push with thirty-two bytes of data. -/
def push32 : Int := 0x7F

/-- The number of data bytes that follow an opcode. -/
def pushOperandSize (opcode : Int) : Nat :=
  if push1 ≤ opcode ∧ opcode ≤ push32 then (opcode - push1 + 1).toNat else 0

/-- The number of data bytes that follow an opcode byte. -/
def operandSize (b : UInt8) : Nat :=
  pushOperandSize b.toNat

/-- The offsets of the instructions of `code`, whose first byte has offset `pc`. -/
def startsFrom (pc : Nat) : List UInt8 → List Int
  | [] => []
  | b :: rest =>
    (pc : Int) :: startsFrom (pc + 1 + operandSize b) (rest.drop (operandSize b))
termination_by code => code.length
decreasing_by
  simp only [List.length_drop, List.length_cons]
  omega

/-- The offsets of the instructions of a code. -/
def instructionStarts (code : List UInt8) : List Int :=
  startsFrom 0 code

/-- The offsets at which instructions start, by instruction number. -/
structure InstructionIndex where
  offsets : List Int
  deriving DecidableEq, Repr

namespace InstructionIndex

/-- The number of instructions. -/
def size (index : InstructionIndex) : Nat := index.offsets.length

/-- The number, from `i` on, of the last place at which `offset` stands in a list. -/
def lastPlaceFrom? (offset : Int) (i : Nat) : List Int → Option Nat
  | [] => none
  | o :: rest => match lastPlaceFrom? offset (i + 1) rest with
    | some n => some n
    | none => if o = offset then some i else none

/-- The instruction that starts at an offset. An offset that is listed twice belongs to the later
instruction. -/
def instructionAt? (index : InstructionIndex) (offset : Int) : Option Nat :=
  lastPlaceFrom? offset 0 index.offsets

/-- The offset of an instruction. -/
def offsetOf? (index : InstructionIndex) (instruction : Int) : Option Int :=
  if 0 ≤ instruction then index.offsets[instruction.toNat]? else none

/-- The starts with their instruction numbers. -/
def entries (index : InstructionIndex) : List (Int × Option Nat) :=
  index.offsets.map fun o => (o, index.instructionAt? o)

/-- The index in a word. -/
def describe (index : InstructionIndex) : String :=
  s!"InstructionIndex({index.size} instructions)"

/-- The index of a bytecode text. -/
def ofHex (text : String) : Except Error InstructionIndex :=
  (decodeHex text).map fun code => ⟨instructionStarts code⟩

end InstructionIndex

end Pinpoint.Bytecode
