import Pinpoint.Text.Split

/-!
# Paths

A path names a place in a file tree: from the root, if it has an `anchor`, or else from the directory one
works in. Empty components and single dots name the place where they stand and are dropped; a double dot
is kept, since what it leads to is for the tree to say. Two slashes at the start, and only two, are an
anchor of their own.

`Path.toString` writes a path in its shortest form, which is `.` if nothing is left.
-/

namespace Pinpoint

/-- A path. -/
structure Path where
  /-- The slashes at the start; empty for a relative path. -/
  anchor : String
  /-- The components, among which are neither empty ones nor single dots. -/
  parts : List String
  deriving DecidableEq, Repr

namespace Path

/-- The anchor of a text that starts with `n` slashes. -/
def anchorOf (n : Nat) : String :=
  if n = 0 then "" else if n = 2 then "//" else "/"

/-- A component that leads somewhere else. -/
def leads (part : List Char) : Bool :=
  !part.isEmpty && part != ['.']

/-- The path that a text writes. -/
def ofString (s : String) : Path :=
  let cs := s.toList
  { anchor := anchorOf (cs.takeWhile (· = '/')).length
    parts := ((Text.splitOn '/' cs).filter leads).map String.ofList }

/-- The directory one works in. -/
def here : Path := ⟨"", []⟩

/-- The path from the root, and not from the directory one works in. -/
def isAbsolute (p : Path) : Bool :=
  !p.anchor.isEmpty

/-- The path as a text. -/
protected def toString (p : Path) : String :=
  if p.anchor.isEmpty && p.parts.isEmpty then "." else p.anchor ++ "/".intercalate p.parts

instance : ToString Path := ⟨Path.toString⟩

/-- The path without its last component. -/
def parent (p : Path) : Path :=
  { p with parts := p.parts.dropLast }

/-- The place `name` in the directory `p`. -/
def child (p : Path) (name : String) : Path :=
  { p with parts := p.parts ++ [name] }

@[simp] theorem parent_child (p : Path) (name : String) : (p.child name).parent = p := by
  simp [parent, child]

end Path

end Pinpoint
