import Pinpoint.Config
import Pinpoint.Files.Tree

/-!
# The configuration of a directory

A directory has at most one configuration in force: that of the first of `Config.fileNames` which exists
there. Without one the default holds. A configuration that exists and cannot be read is a fault.

How a text is read as a document is for a `Config.Reader` to say, and everything here is done for any reader.
`Yaml.parse` is the one that is used where no other is given; it reads as much of the notation as
configurations are written in. Kinds of values that `Json` does not have are no loss to a reader: every way of
getting from a text to a configuration, or to a fault, is that of some reader (`Config.exists_reader`).
-/

namespace Pinpoint.Config

/-- Why a configuration cannot be read. -/
inductive Fault where
  | unreadable (fault : ReadFault)
  | malformed (fault : Yaml.Fault)
  /-- The document is read, but its values are not of the types they should be. -/
  | content (error : Error)
  deriving DecidableEq, Repr

/-- A way to read a text as a document. -/
abbrev Reader := List Char → Except Yaml.Fault Json

/-- The configuration that a text gives. -/
def ofText (yaml : Reader) (text : List Char) : Except Fault Config := do
  let document ← (yaml text).mapError .malformed
  (ofDocument document).mapError .content

/-- The file with the configuration of a directory. -/
def fileIn? (t : FileTree) (directory : Path) : Option Path :=
  (fileNames.map directory.child).find? t.pathExists

/-- The configuration of a directory. -/
def load (t : FileTree) (directory : Path) (yaml : Reader := Yaml.parse) : Except Fault Config :=
  match fileIn? t directory with
  | none => .ok default
  | some file => do
    let text ← (t.readText file).mapError .unreadable
    ofText yaml text

/-- A directory without a file of the right name has the default configuration. -/
theorem load_of_fileIn?_eq_none {t : FileTree} {directory : Path} (yaml : Reader)
    (h : fileIn? t directory = none) : load t directory yaml = .ok default := by
  simp [load, h]

end Pinpoint.Config
