import Pinpoint.Finding.Attribution

/-!
# The fields of a location

A location is a list of entries with a semicolon between neighbours, and an entry a list of fields with a colon
between them. What is read of a location stands in the fields of its first entry. Here it is said which fields
these are, without cutting anything: a location starts with three fields (`StartsWithFields`) exactly if these
come first when it is cut (`exists_startsWithFields_iff`), and what stands behind the first semicolon is not looked at
(`locationFields_append_entry`).
-/

namespace Pinpoint

/-! ### The first three fields -/

/-- **A location starts with three fields:** they hold neither separator, and a colon stands between neighbours.
Whatever follows is set off by a colon, as a further field, or by a semicolon, as a further entry. -/
def StartsWithFields (location : String) (first second third : List Char) : Prop :=
  ∃ rest, location.toList = first ++ ':' :: (second ++ ':' :: (third ++ rest)) ∧
    (∀ field ∈ [first, second, third], ':' ∉ field ∧ ';' ∉ field) ∧
    (rest = [] ∨ ∃ more, rest = ':' :: more ∨ rest = ';' :: more)

/-- A field ends where the location does, or at a separator of either kind. -/
theorem splitOn_before_append {field rest : List Char} (hcolon : ':' ∉ field)
    (hrest : rest = [] ∨ ∃ more, rest = ':' :: more ∨ rest = ';' :: more) :
    ∃ fields, Text.splitOn ':' (field ++ Text.before ';' rest) = field :: fields := by
  have hlast : ∃ fields, Text.splitOn ':' (field ++ []) = field :: fields := by
    rw [List.append_nil]
    exact ⟨[], Text.splitOn_of_not_mem hcolon⟩
  rcases hrest with rfl | ⟨more, rfl | rfl⟩
  · exact hlast
  · exact ⟨_, Text.splitOn_append hcolon (Text.before ';' more)⟩
  · exact hlast

/-- A list with elements at its first three places starts with them. -/
theorem exists_eq_cons_of_getElem? {α : Type} {xs : List α} {x y z : α} (hx : xs[0]? = some x)
    (hy : xs[1]? = some y) (hz : xs[2]? = some z) : ∃ rest, xs = x :: y :: z :: rest := by
  match xs with
  | [] | [_] | [_, _] => simp at hz
  | _ :: _ :: _ :: rest =>
    obtain rfl := Option.some.inj hx
    obtain rfl := Option.some.inj hy
    obtain rfl := Option.some.inj hz
    exact ⟨rest, rfl⟩

/-- A field holds neither separator. -/
theorem not_mem_of_mem_locationFields {location : String} {field : List Char}
    (h : field ∈ locationFields location) : ':' ∉ field ∧ ';' ∉ field := by
  refine ⟨Text.not_mem_of_mem_splitOn h, fun hsemicolon => ?_⟩
  -- the fields make up the first entry, which ends before the semicolon
  have hentry : Text.join ':' (locationFields location) = Text.before ';' location.toList :=
    Text.join_splitOn ':' _
  have hin : ';' ∈ Text.join ':' (locationFields location) := Text.mem_join_of_mem h hsemicolon
  exact Text.not_mem_before ';' location.toList (hentry ▸ hin)

/-- The fields that a location starts with are found by cutting it. -/
theorem StartsWithFields.exists_locationFields {location : String} {first second third : List Char}
    (h : StartsWithFields location first second third) :
    ∃ fields, locationFields location = first :: second :: third :: fields := by
  obtain ⟨rest, hlocation, hfields, hrest⟩ := h
  have hfirst : ':' ∉ first ∧ ';' ∉ first := hfields first (by simp)
  have hsecond : ':' ∉ second ∧ ';' ∉ second := hfields second (by simp)
  have hthird : ':' ∉ third ∧ ';' ∉ third := hfields third (by simp)
  have hentry : Text.before ';' location.toList
      = first ++ ':' :: (second ++ ':' :: (third ++ Text.before ';' rest)) := by
    have hcolon (cs : List Char) : Text.before ';' (':' :: cs) = ':' :: Text.before ';' cs := rfl
    rw [hlocation, Text.before_append hfirst.2, hcolon, Text.before_append hsecond.2, hcolon,
      Text.before_append hthird.2]
  obtain ⟨fields, hlast⟩ := splitOn_before_append hthird.1 hrest
  refine ⟨fields, ?_⟩
  rw [locationFields, hentry, Text.splitOn_append hfirst.1, Text.splitOn_append hsecond.1, hlast]

/-- The first three fields that cutting a location gives are those that it starts with. -/
theorem startsWithFields_of_locationFields {location : String} {first second third : List Char}
    {fields : List (List Char)} (hcut : locationFields location = first :: second :: third :: fields) :
    StartsWithFields location first second third := by
  have hseparators : ∀ field ∈ [first, second, third], ':' ∉ field ∧ ';' ∉ field := by
    intro field hfield
    have hmem : field ∈ locationFields location := by
      rw [hcut]
      exact List.mem_append_left fields hfield
    exact not_mem_of_mem_locationFields hmem
  -- the fields are put together again, and a semicolon follows them if anything does
  have hentry : Text.before ';' location.toList = Text.join ':' (first :: second :: third :: fields) := by
    rw [← hcut, locationFields, Text.join_splitOn]
  obtain ⟨tail, htail, hends⟩ := Text.exists_append_before ';' location.toList
  cases fields with
  | nil =>
    refine ⟨tail, ?_, hseparators, ?_⟩
    · rw [htail, hentry]
      simp [Text.join]
    · rcases hends with hnil | ⟨more, hmore⟩
      · exact .inl hnil
      · exact .inr ⟨more, .inr hmore⟩
  | cons fourth fields =>
    refine ⟨':' :: (Text.join ':' (fourth :: fields) ++ tail), ?_, hseparators, .inr ⟨_, .inl rfl⟩⟩
    rw [htail, hentry]
    simp [Text.join]

/-- **The third field** of a location is the one that cutting it gives at the third place. -/
theorem exists_startsWithFields_iff {location : String} {third : List Char} :
    (∃ first second, StartsWithFields location first second third) ↔
      (locationFields location)[2]? = some third := by
  constructor
  · rintro ⟨first, second, h⟩
    obtain ⟨fields, hcut⟩ := h.exists_locationFields
    rw [hcut]
    rfl
  · intro h
    -- where there is a third field there are two before it
    have hlength := (List.getElem?_eq_some_iff.mp h).1
    have hfirst := List.getElem?_eq_getElem (Nat.lt_of_le_of_lt (Nat.zero_le 2) hlength)
    have hsecond := List.getElem?_eq_getElem (Nat.lt_trans (Nat.lt_succ_self 1) hlength)
    obtain ⟨fields, hcut⟩ := exists_eq_cons_of_getElem? hfirst hsecond h
    exact ⟨_, _, startsWithFields_of_locationFields hcut⟩

/-! ### Further entries -/

/-- An entry without a semicolon ends at the first one that follows it. -/
theorem before_append_entry {entry : String} (h : ';' ∉ entry.toList) (rest : String) :
    Text.before ';' (entry ++ ";" ++ rest).toList = Text.before ';' entry.toList := by
  have halone : Text.before ';' entry.toList = entry.toList := by
    rw [← List.append_nil entry.toList, Text.before_append h]
    rfl
  rw [String.toList_append, String.toList_append, List.append_assoc, Text.before_append h, halone]
  -- what follows starts with the semicolon, so nothing of it is taken
  show entry.toList ++ [] = entry.toList
  exact List.append_nil _

/-- **Further entries are not looked at:** the fields of a location are those of its first entry. -/
theorem locationFields_append_entry {entry : String} (h : ';' ∉ entry.toList) (rest : String) :
    locationFields (entry ++ ";" ++ rest) = locationFields entry := by
  rw [locationFields, before_append_entry h rest, locationFields]

end Pinpoint
