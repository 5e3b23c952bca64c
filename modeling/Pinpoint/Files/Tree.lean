import Pinpoint.Files.Path
import Pinpoint.Text.Lines
import Pinpoint.Text.Utf8

/-!
# File trees

A `FileTree` says what stands at each `Location`, which is the list of names that leads there from the
root, and in which directory one works. A path is followed name by name, through directories only; a
double dot leads to the directory above, and from the root to the root.

Reading (`readText`) gives the text of a file, or says why there is none. Writing (`write`) gives the tree
afterwards; the directories on the way to a file are made if they are missing. `changes` lists what one
tree has and another has not.
-/

namespace Pinpoint

/-- The names that lead from the root to a place. -/
abbrev Location := List String

/-- What stands at a place. -/
inductive Entry where
  | directory
  | file (content : List UInt8)
  deriving DecidableEq, Repr

/-- Files and directories, and the directory one works in. -/
structure FileTree where
  workingDirectory : Location
  entries : List (Location × Entry)
  deriving DecidableEq, Repr

/-- Why a path leads nowhere. -/
inductive PathFault where
  | missing
  /-- A name on the way is that of a file. -/
  | notDirectory
  deriving DecidableEq, Repr

/-- Why a file has no text. -/
inductive ReadFault where
  | noSuchPlace (fault : PathFault)
  | isDirectory
  | badEncoding (fault : Text.Utf8.Fault)
  deriving DecidableEq, Repr

/-- The fault in words, of the file at a path. -/
def ReadFault.message (p : Path) : ReadFault → String
  | .noSuchPlace .missing => s!"[Errno 2] No such file or directory: {Text.quote p.toString}"
  | .noSuchPlace .notDirectory => s!"[Errno 20] Not a directory: {Text.quote p.toString}"
  | .isDirectory => s!"[Errno 21] Is a directory: {Text.quote p.toString}"
  | .badEncoding fault => fault.message

/-- Why a file cannot be written. -/
inductive WriteFault where
  /-- The path is that of a directory. -/
  | isDirectory
  /-- A file has the path of the directory to write in. -/
  | fileExists
  /-- A file stands on the way to the directory to write in. -/
  | notDirectory
  deriving DecidableEq, Repr

/-- The place to which one name leads from a directory. -/
def Location.step (loc : Location) (name : String) : Location :=
  if name = ".." then loc.dropLast else loc ++ [name]

namespace FileTree

/-- What stands at a place. The root is always there. -/
def entryAt (t : FileTree) (loc : Location) : Option Entry :=
  if loc = [] then some .directory else (t.entries.find? (·.1 = loc)).map (·.2)

/-- The entries with one put at a place, instead of what was there. -/
def putIn (loc : Location) (entry : Entry) : List (Location × Entry) → List (Location × Entry)
  | [] => [(loc, entry)]
  | e :: rest => if e.1 = loc then (loc, entry) :: rest else e :: putIn loc entry rest

/-- The tree with an entry put at a place, instead of what was there. -/
def put (t : FileTree) (loc : Location) (entry : Entry) : FileTree :=
  { t with entries := putIn loc entry t.entries }

/-- Where a path starts. -/
def startOf (t : FileTree) (p : Path) : Location :=
  if p.isAbsolute then [] else t.workingDirectory

/-! ### Reading -/

/-- Follows names from a place. -/
def follow (t : FileTree) (loc : Location) : List String → Except PathFault Entry
  | [] => match t.entryAt loc with
    | some entry => .ok entry
    | none => .error .missing
  | name :: rest => match t.entryAt loc with
    | some .directory => t.follow (Location.step loc name) rest
    | some (.file _) => .error .notDirectory
    | none => .error .missing

/-- What stands at the end of a path. -/
def find (t : FileTree) (p : Path) : Except PathFault Entry :=
  t.follow (t.startOf p) p.parts

/-- Whether a path leads to a file or directory. -/
def pathExists (t : FileTree) (p : Path) : Bool :=
  (t.find p).isOk

/-- The text of the file at a path. -/
def readText (t : FileTree) (p : Path) : Except ReadFault (List Char) :=
  match t.find p with
  | .error fault => .error (.noSuchPlace fault)
  | .ok .directory => .error .isDirectory
  | .ok (.file content) => match Text.Utf8.decode content with
    | .error fault => .error (.badEncoding fault)
    | .ok cs => .ok (Text.unifyLineEnds cs)

/-! ### Writing -/

/-- Follows names from a directory and makes the directories that are missing; `made` tells that some
were already. Gives the tree with the place reached. -/
def makeFrom (t : FileTree) (made : Bool) (loc : Location) :
    List String → Except WriteFault (FileTree × Location)
  | [] => .ok (t, loc)
  | name :: rest =>
    let next := Location.step loc name
    match t.entryAt next with
    | some .directory => t.makeFrom made next rest
    | none => (t.put next .directory).makeFrom true next rest
    | some (.file _) =>
      .error (if made || rest.isEmpty then .fileExists else .notDirectory)

/-- Makes the directory at a path, and those on the way. -/
def makeDirectory (t : FileTree) (p : Path) : Except WriteFault (FileTree × Location) :=
  t.makeFrom false (t.startOf p) p.parts

/-- Writes a file, in a directory that is made if it is missing. -/
def write (t : FileTree) (p : Path) (content : List UInt8) : Except WriteFault FileTree := do
  let (t', directory) ← t.makeDirectory p.parent
  match p.parts.getLast? with
  | none => .error .isDirectory
  | some name =>
    let loc := Location.step directory name
    match t'.entryAt loc with
    | some .directory => .error .isDirectory
    | _ => .ok (t'.put loc (.file content))

/-- Writes a text to a file. -/
def writeText (t : FileTree) (p : Path) (text : String) : Except WriteFault FileTree :=
  t.write p text.toUTF8.toList

/-- The entries of `after` at the places where something else stands in `t`, or nothing. -/
def changes (t after : FileTree) : List (Location × Entry) :=
  after.entries.filter fun e => t.entryAt e.1 ≠ after.entryAt e.1

/-! ### Laws -/

@[simp] theorem entryAt_nil (t : FileTree) : t.entryAt [] = some .directory := rfl

/-- What is put at a place stands there. -/
theorem entryAt_put_self (t : FileTree) {loc : Location} (h : loc ≠ []) (entry : Entry) :
    (t.put loc entry).entryAt loc = some entry := by
  simp only [entryAt, put, if_neg h]
  induction t.entries with
  | nil => simp [putIn]
  | cons e rest ih => by_cases he : e.1 = loc <;> simp_all [putIn]

/-- What is put at a place changes nothing elsewhere. -/
theorem entryAt_put_of_ne (t : FileTree) {loc place : Location} (h : place ≠ loc) (entry : Entry) :
    (t.put loc entry).entryAt place = t.entryAt place := by
  have hne : ¬ loc = place := fun h' => h h'.symm
  simp only [entryAt, put]
  congr 2
  induction t.entries with
  | nil => simp [putIn, hne]
  | cons e rest ih => by_cases he : e.1 = loc <;> simp_all [putIn, List.find?_cons]

/-- Nothing changes from a tree to itself. -/
@[simp] theorem changes_self (t : FileTree) : t.changes t = [] := by
  simp [changes]

end FileTree

end Pinpoint
