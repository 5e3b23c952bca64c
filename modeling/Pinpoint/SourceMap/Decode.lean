import Pinpoint.Error
import Pinpoint.SourceMap.Basic
import Pinpoint.Text.Integer
import Pinpoint.Text.Split

/-!
# Reading compressed source maps

A source map is written as segments with a semicolon between them, one for each instruction, and a
segment as up to five fields with colons between them: start, length, file index, jump letter and
modifier depth. A field that is empty, or missing from the end, repeats the value of the segment before;
so a segment is decoded against the values written last (`Carry`). Before anything is written the jump
is a regular one and the depth zero; the other three have no value, and the first segment must give them.

Blanks around the whole text and empty segments at its end do not count. So a map may have fewer segments
than its text has pieces between semicolons: `exists_append_dropTrailingEmpty` and
`getLast?_dropTrailingEmpty` say which are left.
-/

namespace Pinpoint.SourceMap

/-- The value last written for each field. -/
structure Carry where
  start : Option Int
  length : Option Int
  fileIndex : Option Int
  jump : JumpType
  modifierDepth : Int
  deriving DecidableEq, Repr

/-- Nothing has been written yet. -/
def Carry.initial : Carry := ⟨none, none, none, .regular, 0⟩

/-- The error of segment `entry` for a fault. -/
def fail {α : Type} (entry : Nat) (fault : SegmentFault) : Except Error α :=
  .error (.badSegment entry fault)

/-- The value of a numeric field that is not empty. -/
def readNumber (entry : Nat) (field : SegmentField) (cs : List Char) : Except Error Int :=
  match Text.readPlain cs with
  | .value n => .ok n
  | .tooLong => .error .integerTooLong
  | .malformed => fail entry (.malformed field (String.ofList cs))

/-- The value of a jump field that is not empty. -/
def readJump (entry : Nat) (cs : List Char) : Except Error JumpType :=
  match JumpType.ofLetter? cs with
  | some j => .ok j
  | none => fail entry (.unknownJump (String.ofList cs))

/-- The value of a field: what is written, or else the value carried. -/
def fieldOr {α : Type} (carried : α) (read : List Char → Except Error α) (cs : List Char) :
    Except Error α :=
  if cs.isEmpty then .ok carried else read cs

/-- Reads one segment: the values last written, now that it has been read. -/
def Carry.next (carry : Carry) (entry : Nat) (segment : List Char) : Except Error Carry :=
  let fields := Text.splitOn ':' segment
  if 5 < fields.length then fail entry (.tooManyFields (String.ofList segment))
  else do
    let number (i : Nat) (field : SegmentField) (carried : Option Int) :=
      fieldOr carried (fun cs => (readNumber entry field cs).map some) (fields.getD i [])
    let start ← number 0 .start carry.start
    let length ← number 1 .length carry.length
    let fileIndex ← number 2 .fileIndex carry.fileIndex
    let jump ← fieldOr carry.jump (readJump entry) (fields.getD 3 [])
    let modifierDepth ←
      fieldOr carry.modifierDepth (readNumber entry .modifierDepth) (fields.getD 4 [])
    return ⟨start, length, fileIndex, jump, modifierDepth⟩

/-- The entry with the values last written; all of them must have been written. -/
def Carry.entry (carry : Carry) (entry : Nat) : Except Error SourceEntry :=
  match carry.start, carry.length, carry.fileIndex with
  | some start, some length, some fileIndex =>
    .ok ⟨start, length, fileIndex, carry.jump, carry.modifierDepth⟩
  | _, _, _ => fail entry .incomplete

/-- Reads segments, the first of which has number `i`. -/
def decodeFrom (i : Nat) (carry : Carry) : List (List Char) → Except Error (List SourceEntry)
  | [] => .ok []
  | segment :: rest => do
    let carry ← carry.next i segment
    let e ← carry.entry i
    let entries ← decodeFrom (i + 1) carry rest
    return e :: entries

/-- A list without the empty segments at its end. -/
def dropTrailingEmpty (segments : List (List Char)) : List (List Char) :=
  (segments.reverse.dropWhile List.isEmpty).reverse

/-- Only empty segments are dropped, and only at the end. -/
theorem exists_append_dropTrailingEmpty (pieces : List (List Char)) :
    ∃ n, pieces = dropTrailingEmpty pieces ++ List.replicate n [] := by
  have hcut := List.takeWhile_append_dropWhile (p := List.isEmpty) (l := pieces.reverse)
  have hempty : pieces.reverse.takeWhile List.isEmpty
      = List.replicate (pieces.reverse.takeWhile List.isEmpty).length [] :=
    List.eq_replicate_of_mem fun piece hpiece =>
      List.isEmpty_iff.mp (List.all_eq_true.mp List.all_takeWhile piece hpiece)
  refine ⟨(pieces.reverse.takeWhile List.isEmpty).length, ?_⟩
  calc pieces
      = (pieces.reverse.takeWhile List.isEmpty ++ pieces.reverse.dropWhile List.isEmpty).reverse := by
        rw [hcut, List.reverse_reverse]
    _ = dropTrailingEmpty pieces ++ (pieces.reverse.takeWhile List.isEmpty).reverse :=
        List.reverse_append
    _ = _ := by rw [hempty, List.reverse_replicate, List.length_replicate]

/-- What is left does not end with an empty segment. -/
theorem getLast?_dropTrailingEmpty (pieces : List (List Char)) :
    (dropTrailingEmpty pieces).getLast? ≠ some [] := by
  intro h
  rw [dropTrailingEmpty, List.getLast?_reverse] at h
  have hfull := List.head?_dropWhile_not List.isEmpty pieces.reverse
  rw [h] at hfull
  cases hfull

/-- Where no empty segment stands at the end there is nothing to drop. -/
theorem dropTrailingEmpty_eq_self {pieces : List (List Char)} (h : pieces.getLast? ≠ some []) :
    dropTrailingEmpty pieces = pieces := by
  cases hpieces : pieces.reverse with
  | nil =>
    rw [List.reverse_eq_nil_iff.mp hpieces]
    rfl
  | cons last before =>
    have hlast : last.isEmpty = false := by
      rw [← List.head?_reverse, hpieces] at h
      simpa using h
    rw [dropTrailingEmpty, hpieces, List.dropWhile_cons, hlast, if_neg Bool.false_ne_true, ← hpieces,
      List.reverse_reverse]

/-- The segments of a source-map text. -/
def segments (text : String) : List (List Char) :=
  dropTrailingEmpty (Text.splitOn ';' (Text.trim text.toList))

/-- Reads a compressed source map. -/
def decode (text : String) : Except Error SourceMap :=
  (decodeFrom 0 .initial (segments text)).map SourceMap.mk

end Pinpoint.SourceMap
