import Pinpoint.Double.Basic

/-!
# Values of unknown shape

Build records, scanner results, syntax trees and configurations arrive as JSON, and most of their fields
are carried through unread, whatever they hold. `Json` is that value. A number is an integer of any size or
a number of double precision. The fields of an object keep the order in which they were written, and
`Fields.set` is the policy for a name written twice: the last value counts, at the first place.

A value that stands for *nothing given* is `Json.isBare`: null, false, zero and everything empty.
Where a field may be left out, a bare value counts as left out.
-/

namespace Pinpoint

/-- A JSON value. -/
inductive Json where
  | null
  | bool (b : Bool)
  | int (n : Int)
  | float (x : Double)
  | str (s : String)
  | arr (items : List Json)
  | obj (fields : List (String × Json))
  deriving Repr, Inhabited, BEq

namespace Json

instance : Coe String Json := ⟨.str⟩
instance : Coe Int Json := ⟨.int⟩
instance : Coe Bool Json := ⟨.bool⟩

/-- The fields of an object, in the order in which they were written. -/
abbrev Fields := List (String × Json)

/-- The value of a field. -/
def Fields.get? (fields : Fields) (name : String) : Option Json :=
  (fields.find? (·.1 = name)).map (·.2)

/-- The value of a field, or a default if it is absent. -/
def Fields.getD (fields : Fields) (name : String) (default : Json) : Json :=
  (fields.get? name).getD default

/-- The fields with `name` set to `value`: in place if there is such a field, else at the end. -/
def Fields.set (fields : Fields) (name : String) (value : Json) : Fields :=
  if fields.any (·.1 = name) then
    fields.map fun f => if f.1 = name then (name, value) else f
  else fields ++ [(name, value)]

/-- The fields without `name`. -/
def Fields.erase (fields : Fields) (name : String) : Fields :=
  fields.filter (·.1 ≠ name)

/-- The fields named one after the other, a name given again replacing its value. -/
def Fields.ofPairs (pairs : List (String × Json)) : Fields :=
  pairs.foldl (fun fields p => fields.set p.1 p.2) []

/-- Null, false, zero, or an empty text, list or object: nothing is given. -/
def isBare : Json → Bool
  | .null => true
  | .bool b => !b
  | .int n => n == 0
  | .float x => x.isZero
  | .str s => s.isEmpty
  | .arr items => items.isEmpty
  | .obj fields => fields.isEmpty

/-- The first value, or the second one if the first gives nothing. -/
def orElse (j other : Json) : Json :=
  if j.isBare then other else j

/-- Whether the value is the text `s`. -/
def isText (j : Json) (s : String) : Bool :=
  match j with
  | .str t => t == s
  | _ => false

/-- An object with a field `name`. -/
def hasField (j : Json) (name : String) : Bool :=
  match j with
  | .obj fields => (Fields.get? fields name).isSome
  | _ => false

@[simp] theorem isText_str (s t : String) : (Json.str t).isText s = (t == s) := rfl

theorem isText_iff {j : Json} {s : String} : j.isText s = true ↔ j = .str s := by
  cases j <;> simp [isText]

@[simp] theorem isBare_str (s : String) : (Json.str s).isBare = s.isEmpty := rfl

/-! ### Laws of the fields -/

theorem Fields.get?_cons (f : String × Json) (fields : Fields) (name : String) :
    Fields.get? (f :: fields) name = if f.1 = name then some f.2 else Fields.get? fields name := by
  unfold Fields.get?
  rw [List.find?_cons]
  split <;> simp_all

/-- A field that is erased is gone. -/
theorem Fields.get?_erase_self (fields : Fields) (name : String) :
    Fields.get? (fields.erase name) name = none := by
  simp [Fields.get?, Fields.erase]

/-- A field that is set has its value. -/
theorem Fields.get?_set_self (fields : Fields) (name : String) (value : Json) :
    Fields.get? (fields.set name value) name = some value := by
  induction fields with
  | nil => simp [Fields.set, Fields.get?]
  | cons f rest ih =>
    unfold Fields.set at ih ⊢
    by_cases hf : f.1 = name
    · simp [hf, Fields.get?_cons]
    · have hany : (f :: rest).any (·.1 = name) = rest.any (·.1 = name) := by simp [hf]
      rw [hany]
      split
      next h =>
        rw [List.map_cons, if_neg hf, Fields.get?_cons, if_neg hf]
        simpa [h] using ih
      next h =>
        rw [List.cons_append, Fields.get?_cons, if_neg hf]
        simpa [h] using ih

end Json

end Pinpoint
