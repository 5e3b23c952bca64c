import Pinpoint.Text.Quoted

/-!
# Errors

Everything that can keep an artifact from being analysed. The first five are faults of compiler output and
have a message for the user. `wrongType` is a value whose type does not admit what is done with it, such as
a field of a list; `integerTooLong` is a number with more digits than are read.
-/

namespace Pinpoint

/-- The numeric fields of a source-map segment. -/
inductive SegmentField where
  | start
  | length
  | fileIndex
  | modifierDepth
  deriving DecidableEq, Repr

/-- The name of the field in messages. -/
def SegmentField.name : SegmentField → String
  | .start => "start"
  | .length => "length"
  | .fileIndex => "file index"
  | .modifierDepth => "modifier depth"

/-- What is wrong with a segment of a source map. -/
inductive SegmentFault where
  /-- There are more than five fields. -/
  | tooManyFields (segment : String)
  /-- A numeric field is not an integer. -/
  | malformed (field : SegmentField) (text : String)
  /-- The jump field is none of the three jump letters. -/
  | unknownJump (text : String)
  /-- A field that has no value to repeat is empty. -/
  | incomplete
  deriving DecidableEq, Repr

/-- The fault in words. -/
def SegmentFault.message : SegmentFault → String
  | .tooManyFields segment => s!"too many fields in {Text.quote segment}"
  | .malformed field text => s!"malformed {field.name} field {Text.quote text}"
  | .unknownJump text => s!"unknown jump type {Text.quote text}"
  | .incomplete => "first entry must give start, length and file index"

/-- Why something could not be read or resolved. -/
inductive Error where
  /-- Bytecode with an odd number of digits. -/
  | oddDigits (count : Nat)
  /-- Bytecode with a character that is not a hexadecimal digit. -/
  | notHex
  /-- A segment of a source map that cannot be decoded, and its number. -/
  | badSegment (entry : Nat) (fault : SegmentFault)
  /-- An instruction beyond the end of the source map. -/
  | uncovered (instruction mapLength : Nat)
  /-- A build record without a contract name. -/
  | noContractName
  /-- A value of a type that does not admit what is done with it. -/
  | wrongType
  /-- A number with more digits than are read. -/
  | integerTooLong
  deriving DecidableEq, Repr

namespace Error

/-- The error in words. -/
def message : Error → String
  | .oddDigits count => s!"bytecode has an odd number of hex digits ({count})"
  | .notHex => "bytecode contains non-hex characters"
  | .badSegment entry fault => s!"source map entry {entry}: {fault.message}"
  | .uncovered instruction mapLength =>
    s!"instruction {instruction} has no source map entry (map has {mapLength} entries)"
  | .noContractName => "build record has no contractName"
  | .wrongType => "a value has the wrong type"
  | .integerTooLong => "an integer has too many digits"

/-- The compiler output of one contract is at fault: it is unreadable, or lacks the contract's name. -/
def isUnreadable : Error → Bool
  | .oddDigits _ | .notHex | .badSegment _ _ | .noContractName => true
  | _ => false

/-- The source map of one contract does not cover its bytecode. -/
def isUncovered : Error → Bool
  | .uncovered _ _ => true
  | _ => false

end Error

end Pinpoint
