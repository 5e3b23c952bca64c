import Pinpoint.Proofs.Files.Replacement
import Pinpoint.Proofs.Trace

/-!
# What writing a file leaves behind

To write a file, the directories on the way are made where nothing stands, and the file is put at the end of the
path. So the place of the path holds what was written, and every other place holds what it held, or it was empty
and is a directory now (`FileTree.HasWritten`).

Making directories follows the names as a path does, which is why it ends at the place that can be told from the
names alone (`makeFrom_spec`). In a directory that is there nothing is made, and only a directory of the same name
can stand in the way (`write_child`); what was written is then found under its name (`find_child_withContent`).
-/

namespace Pinpoint.FileTree

variable {t t' : FileTree}

/-- Every place holds what it held, or it was empty and is a directory now. -/
def Furnished (t t' : FileTree) (place : Location) : Prop :=
  t'.entryAt place = t.entryAt place ∨ t.entryAt place = none ∧ t'.entryAt place = some .directory

/-- **A file has been written** at the end of a path, and nothing but directories besides. -/
structure HasWritten (t t' : FileTree) (path : Path) (content : List UInt8) : Prop where
  written : t'.entryAt (t.placeOf path) = some (.file content)
  elsewhere : ∀ place, place ≠ t.placeOf path → t.Furnished t' place

/-- A directory that is put where nothing stands is all that changes. -/
theorem furnished_put {loc : Location} (h : t.entryAt loc = none) (place : Location) :
    t.Furnished (t.put loc .directory) place := by
  by_cases hplace : place = loc
  · subst hplace
    have hroot : place ≠ [] := by
      rintro rfl
      cases h
    exact .inr ⟨h, entryAt_put_self t hroot .directory⟩
  · exact .inl (entryAt_put_of_ne t hplace .directory)

/-- What is furnished twice is furnished. -/
theorem Furnished.trans {t'' : FileTree} {place : Location} (h : t.Furnished t' place)
    (h' : t'.Furnished t'' place) : t.Furnished t'' place := by
  rcases h with hsame | ⟨hnone, hmade⟩
  · unfold Furnished at h' ⊢
    rw [hsame] at h'
    exact h'
  · -- a directory that was made stays
    rcases h' with hsame | ⟨hnone', -⟩
    · exact .inr ⟨hnone, hsame.trans hmade⟩
    · rw [hmade] at hnone'
      cases hnone'

/-- **Directories are made** up to the place to which the names lead. -/
theorem makeFrom_spec {made : Bool} {loc reached : Location} {names : List String}
    (h : t.makeFrom made loc names = .ok (t', reached)) :
    reached = Location.walk loc names ∧ ∀ place, t.Furnished t' place := by
  induction names generalizing t made loc with
  | nil =>
    obtain ⟨rfl, rfl⟩ := Prod.mk.inj (Except.ok.inj h)
    exact ⟨rfl, fun place => .inl rfl⟩
  | cons name rest ih =>
    unfold makeFrom at h
    dsimp only at h
    split at h
    next => exact ih h
    next hnone =>
      obtain ⟨hreached, hrest⟩ := ih h
      exact ⟨hreached, fun place => (furnished_put hnone place).trans (hrest place)⟩
    next => cases h

/-- The place of a path is reached from its directory by its last name. -/
theorem placeOf_eq_step (t : FileTree) {path : Path} {name : String} (h : path.parts.getLast? = some name) :
    t.placeOf path = Location.step (t.placeOf path.parent) name := by
  obtain ⟨directory, hparts⟩ := List.getLast?_eq_some_iff.mp h
  have hparent : path.parent.parts = directory := by
    show path.parts.dropLast = directory
    rw [hparts, List.dropLast_concat]
  rw [placeOf, placeOf, hparent, hparts, Location.walk_append_singleton]
  rfl

/-- **Writing** leaves the file at the end of the path. -/
theorem hasWritten_of_write {path : Path} {content : List UInt8} (h : t.write path content = .ok t') :
    t.HasWritten t' path content := by
  obtain ⟨⟨furnished, directory⟩, hmade, h⟩ := Except.bind_eq_ok.mp h
  obtain ⟨rfl, hfurnished⟩ := makeFrom_spec hmade
  dsimp only at h
  split at h
  next => cases h
  next name hname =>
    have hstep : Location.step (Location.walk (t.startOf path.parent) path.parent.parts) name
        = t.placeOf path := (t.placeOf_eq_step hname).symm
    rw [hstep] at h
    split at h
    next => cases h
    next hfree =>
      obtain rfl := Except.ok.inj h
      have hroot : t.placeOf path ≠ [] := by
        -- the root is a directory, which no file takes the place of
        intro hroot
        rw [hroot] at hfree
        exact hfree rfl
      refine ⟨entryAt_put_self furnished hroot (.file content), ?_⟩
      intro place hne
      unfold Furnished
      rw [entryAt_put_of_ne furnished hne]
      exact hfurnished place

/-! ### Writing in a directory that is there -/

section Child

variable {loc : Location} {names : List String} {directory : Path} {name : String}

/-- A name is followed from a directory. -/
theorem follow_cons (h : t.entryAt loc = some .directory) (name : String) (rest : List String) :
    t.follow loc (name :: rest) = t.follow (Location.step loc name) rest := by
  rw [follow, h]

/-- A path that ends at a directory starts at one. -/
theorem entryAt_of_follow_directory (h : t.follow loc names = .ok .directory) :
    t.entryAt loc = some .directory := by
  cases names with
  | nil => exact entryAt_of_follow h
  | cons name rest =>
    unfold follow at h
    split at h
    next hloc => exact hloc
    next => cases h
    next => cases h

/-- Behind a directory, a name is followed from there. -/
theorem follow_append_singleton (h : t.follow loc names = .ok .directory) (name : String) :
    t.follow loc (names ++ [name]) = t.follow (Location.walk loc (names ++ [name])) [] := by
  have hloc := entryAt_of_follow_directory h
  induction names generalizing loc with
  | nil => exact follow_cons hloc name []
  | cons first rest ih =>
    rw [follow_cons hloc] at h
    rw [List.cons_append, follow_cons hloc]
    exact ih h (entryAt_of_follow_directory h)

/-- Where there are directories on the way, none is made. -/
theorem makeFrom_of_follow (made : Bool) (h : t.follow loc names = .ok .directory) :
    t.makeFrom made loc names = .ok (t, Location.walk loc names) := by
  induction names generalizing loc with
  | nil => rfl
  | cons first rest ih =>
    rw [follow_cons (entryAt_of_follow_directory h)] at h
    have hnext := entryAt_of_follow_directory h
    rw [makeFrom, hnext]
    exact ih h

/-- A directory stays where another place gets an entry. -/
theorem entryAt_put_directory {place : Location} (hplace : t.entryAt place ≠ some .directory) (entry : Entry)
    (h : t.entryAt loc = some .directory) : (t.put place entry).entryAt loc = some .directory := by
  have hne : loc ≠ place := by
    rintro rfl
    exact hplace h
  rw [entryAt_put_of_ne t hne, h]

/-- The way to a directory stays, too. -/
theorem follow_put_directory {place : Location} (hplace : t.entryAt place ≠ some .directory) (entry : Entry)
    (h : t.follow loc names = .ok .directory) : (t.put place entry).follow loc names = .ok .directory := by
  have hloc := entryAt_of_follow_directory h
  have hsame := entryAt_put_directory hplace entry hloc
  induction names generalizing loc with
  | nil => rw [follow, hsame]
  | cons first rest ih =>
    rw [follow_cons hloc] at h
    rw [follow_cons hsame]
    have hnext := entryAt_of_follow_directory h
    exact ih h hnext (entryAt_put_directory hplace entry hnext)

/-- **A name in a directory** leads to what stands there. -/
theorem find_child (h : t.find directory = .ok .directory) (name : String) :
    t.find (directory.child name) = t.follow (t.placeOf (directory.child name)) [] :=
  follow_append_singleton h name

theorem entryAt_child_of_find (h : t.find directory = .ok .directory)
    (hfree : t.find (directory.child name) ≠ .ok .directory) :
    t.entryAt (t.placeOf (directory.child name)) ≠ some .directory := by
  intro hentry
  rw [find_child h, follow, hentry] at hfree
  exact hfree rfl

/-- **A file is written** in a directory that is there, unless a directory has its name. -/
theorem write_child (h : t.find directory = .ok .directory)
    (hfree : t.find (directory.child name) ≠ .ok .directory) (content : List UInt8) :
    t.write (directory.child name) content = .ok (t.withContent (directory.child name) content) := by
  have hname : (directory.child name).parts.getLast? = some name := List.getLast?_concat
  have hmade : t.makeDirectory (directory.child name).parent = .ok (t, t.placeOf directory) := by
    rw [Path.parent_child]
    exact makeFrom_of_follow false h
  have hstep : Location.step (t.placeOf directory) name = t.placeOf (directory.child name) := by
    rw [placeOf_eq_step t hname, Path.parent_child]
  have hentry := entryAt_child_of_find h hfree
  unfold write
  simp only [hmade, hname, hstep, bind, Except.bind]
  rfl

/-- **What is written is found** under its name. -/
theorem find_child_withContent (h : t.find directory = .ok .directory)
    (hfree : t.find (directory.child name) ≠ .ok .directory) (content : List UInt8) :
    (t.withContent (directory.child name) content).find (directory.child name) = .ok (.file content) := by
  have hentry := entryAt_child_of_find h hfree
  have hroot : t.placeOf (directory.child name) ≠ [] := by
    intro hroot
    rw [hroot] at hentry
    exact hentry rfl
  have hdirectory : (t.withContent (directory.child name) content).find directory = .ok .directory :=
    follow_put_directory hentry (.file content) h
  rw [find_child hdirectory, placeOf_withContent, follow, withContent, entryAt_put_self t hroot]

end Child

end Pinpoint.FileTree
