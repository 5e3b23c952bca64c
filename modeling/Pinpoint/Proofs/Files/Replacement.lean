import Pinpoint.Files.Tree

/-!
# Giving a file another content

Following a path asks of each place on the way whether it is a directory, and looks at what stands at the end
only. Where the path ends can be told from its names alone (`FileTree.placeOf`), so a file that gets another
content (`FileTree.withContent`) is seen by the paths that end at its place and by no others: there is
something at the end of a path as before (`pathExists_withContent`), and a path that ends elsewhere leads to
what it led to (`readText_withContent`).
-/

namespace Pinpoint

/-- The place to which names lead from a place, wherever there are directories on the way. -/
def Location.walk (loc : Location) (names : List String) : Location :=
  names.foldl Location.step loc

theorem Location.walk_append_singleton (loc : Location) (names : List String) (name : String) :
    Location.walk loc (names ++ [name]) = Location.step (Location.walk loc names) name :=
  List.foldl_append ..

/-- No other name leads to the place to which the name of an entry leads. -/
theorem Location.eq_of_step_eq {loc : Location} {name other : String} (hother : other ≠ "..")
    (h : Location.step loc name = Location.step loc other) : name = other := by
  unfold Location.step at h
  rw [if_neg hother] at h
  split at h
  next =>
    -- the directory above has a shorter place than anything in this one
    have hlength := congrArg List.length h
    rw [List.length_dropLast, List.length_append, List.length_singleton] at hlength
    omega
  next =>
    have hlast := List.append_cancel_left h
    exact List.cons.inj hlast |>.1

namespace FileTree

/-- The place at which a path ends. -/
def placeOf (t : FileTree) (p : Path) : Location :=
  Location.walk (t.startOf p) p.parts

/-- The tree with another content of the file at the end of a path. -/
def withContent (t : FileTree) (p : Path) (content : List UInt8) : FileTree :=
  t.put (t.placeOf p) (.file content)

variable {t : FileTree}

/-- What is found by following names stands at the place to which they lead. -/
theorem entryAt_of_follow {loc : Location} {names : List String} {e : Entry}
    (h : t.follow loc names = .ok e) : t.entryAt (Location.walk loc names) = some e := by
  induction names generalizing loc with
  | nil =>
    unfold follow at h
    split at h
    next entry hentry =>
      obtain rfl := Except.ok.inj h
      exact hentry
    next => cases h
  | cons name rest ih =>
    unfold follow at h
    split at h
    next => exact ih h
    next => cases h
    next => cases h

/-- **A file is seen from its own place only:** it is no directory, so a path that meets it on the way is
stopped there, whatever is in it. -/
theorem follow_put {place : Location} {old : List UInt8} (hold : t.entryAt place = some (.file old))
    (new : List UInt8) (loc : Location) (names : List String) :
    (t.put place (.file new)).follow loc names = t.follow loc names ∨
      Location.walk loc names = place ∧ t.follow loc names = .ok (.file old) ∧
        (t.put place (.file new)).follow loc names = .ok (.file new) := by
  have hroot : place ≠ [] := by
    rintro rfl
    cases hold
  induction names generalizing loc with
  | nil =>
    unfold follow
    by_cases hloc : loc = place
    · subst hloc
      rw [hold, entryAt_put_self t hroot]
      exact .inr ⟨rfl, rfl, rfl⟩
    · rw [entryAt_put_of_ne t hloc]
      exact .inl rfl
  | cons name rest ih =>
    unfold follow
    by_cases hloc : loc = place
    · -- the path is stopped by the file, whatever is in it
      subst hloc
      rw [hold, entryAt_put_self t hroot]
      exact .inl rfl
    · rw [entryAt_put_of_ne t hloc]
      split
      · exact ih (Location.step loc name)
      · exact .inl rfl
      · exact .inl rfl

section Content

variable {file : Path} {old : List UInt8}

theorem placeOf_withContent (content : List UInt8) (p : Path) :
    (t.withContent file content).placeOf p = t.placeOf p := rfl

/-- **A path leads somewhere** whatever is in a file. -/
theorem pathExists_withContent (hfile : t.find file = .ok (.file old)) (content : List UInt8)
    (p : Path) : (t.withContent file content).pathExists p = t.pathExists p := by
  have hold := entryAt_of_follow hfile
  rcases follow_put hold content (t.startOf p) p.parts with hsame | ⟨-, hbefore, hafter⟩
  · exact congrArg Except.isOk hsame
  · calc (t.withContent file content).pathExists p
        = (Except.ok (.file content) : Except PathFault Entry).isOk := congrArg Except.isOk hafter
      _ = (Except.ok (.file old) : Except PathFault Entry).isOk := rfl
      _ = t.pathExists p := (congrArg Except.isOk hbefore).symm

/-- **The text at the end of a path** that ends elsewhere is what it was. -/
theorem readText_withContent (hfile : t.find file = .ok (.file old)) (content : List UInt8)
    {p : Path} (hp : t.placeOf p ≠ t.placeOf file) :
    (t.withContent file content).readText p = t.readText p := by
  have hold := entryAt_of_follow hfile
  have hsame : (t.withContent file content).find p = t.find p := by
    rcases follow_put hold content (t.startOf p) p.parts with hsame | ⟨hplace, -⟩
    · exact hsame
    · exact absurd hplace hp
  unfold readText
  rw [hsame]

end Content

/-- A file that can be read is there. -/
theorem find_of_readText {p : Path} {text : List Char} (h : t.readText p = .ok text) :
    ∃ content, t.find p = .ok (.file content) := by
  unfold readText at h
  split at h
  · cases h
  · cases h
  next content hcontent => exact ⟨content, hcontent⟩

/-- In the directory of a file, a name that is not the file's own leads to another place. -/
theorem placeOf_child_parent (t : FileTree) (file : Path) {name : String} (hname : name ≠ "..")
    (hlast : file.parts.getLast? ≠ some name) :
    t.placeOf (file.parent.child name) ≠ t.placeOf file := by
  have hchild : t.placeOf (file.parent.child name)
      = Location.step (Location.walk (t.startOf file) file.parts.dropLast) name :=
    Location.walk_append_singleton ..
  rw [hchild]
  rcases List.eq_nil_or_concat file.parts with hparts | ⟨directory, last, hparts⟩
  · -- a path without names ends where it starts, which is a shorter place
    intro h
    have hlength := congrArg List.length h
    rw [placeOf, hparts, Location.step, if_neg hname] at hlength
    simp [Location.walk] at hlength
  · rw [List.concat_eq_append] at hparts
    intro h
    rw [placeOf, hparts, List.dropLast_concat, Location.walk_append_singleton] at h
    have heq := Location.eq_of_step_eq hname h.symm
    rw [hparts, List.getLast?_concat, heq] at hlast
    exact hlast rfl

end FileTree

end Pinpoint
