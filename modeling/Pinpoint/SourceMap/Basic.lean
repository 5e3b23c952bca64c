/-!
# Source maps

A source map gives, for every instruction, the range of source text that it was compiled from, with the
file that holds the range, what the instruction does to the call depth, and the depth of modifiers.
`SourceMap.entryContaining?` goes the other way: from a range to the first of the narrowest entries
around it.
-/

namespace Pinpoint

/-- How an instruction changes the call depth. -/
inductive JumpType where
  | into
  | out
  | regular
  deriving DecidableEq, Repr

/-- The letter of a jump type. -/
def JumpType.letter : JumpType → String
  | .into => "i"
  | .out => "o"
  | .regular => "-"

/-- The jump type with the given letter. -/
def JumpType.ofLetter? : List Char → Option JumpType
  | ['i'] => some .into
  | ['o'] => some .out
  | ['-'] => some .regular
  | _ => none

theorem JumpType.ofLetter?_letter (j : JumpType) : ofLetter? j.letter.toList = some j := by
  cases j <;> decide

/-- The source range of one instruction. -/
structure SourceEntry where
  start : Int
  length : Int
  fileIndex : Int
  jump : JumpType
  modifierDepth : Int
  deriving DecidableEq, Repr

namespace SourceEntry

/-- The offset just after the range. -/
def stop (e : SourceEntry) : Int := e.start + e.length

/-- The range holds all of `[start, start + length)`. -/
def contains (e : SourceEntry) (start length : Int) : Bool :=
  e.start ≤ start && start + length ≤ e.stop

end SourceEntry

/-- The entries of all instructions, by instruction number. -/
structure SourceMap where
  entries : List SourceEntry
  deriving DecidableEq, Repr

namespace SourceMap

/-- The number of entries. -/
def size (m : SourceMap) : Nat := m.entries.length

/-- The entry of an instruction, `none` if the map is too short. -/
def entryAt? (m : SourceMap) (instruction : Int) : Option SourceEntry :=
  if 0 ≤ instruction then m.entries[instruction.toNat]? else none

/-- An instruction number is the place of its entry. -/
theorem entryAt?_natCast (m : SourceMap) (k : Nat) : m.entryAt? k = m.entries[k]? := by
  rw [entryAt?, if_pos (Int.natCast_nonneg k), Int.toNat_natCast]

/-- The better of the narrowest entry so far and a later one: the later one only if it is narrower. -/
def narrower (best : Option (Nat × SourceEntry)) (candidate : Nat × SourceEntry) :
    Option (Nat × SourceEntry) :=
  match best with
  | none => some candidate
  | some b => if candidate.2.length < b.2.length then some candidate else some b

/-- The number of the narrowest entry that holds `[start, start + length)`, the first one if several are
equally narrow. Entries without a place in the source (a negative start) do not take part. -/
def entryContaining? (m : SourceMap) (start length : Int) : Option Nat :=
  let candidates := m.entries.zipIdx.filter fun e => 0 ≤ e.1.start && e.1.contains start length
  ((candidates.map fun e => (e.2, e.1)).foldl narrower none).map (·.1)

/-- The map in a word. -/
def describe (m : SourceMap) : String :=
  s!"SourceMap({m.size} entries)"

end SourceMap

end Pinpoint
