import Pinpoint.Error
import Pinpoint.Json.Basic

/-!
# Reading values of unknown shape

What can be asked of a `Json` value, and which values do not admit the question (`Error.wrongType`). Only
objects have fields; texts, lists and objects have elements, which are the characters, the items and the
names of the fields; texts, numbers and the constants can name an entry of a table (`Key`).

A field that is absent and a field that is null are different things: `getD` gives its default only for
the former.
-/

namespace Pinpoint.Json

/-- The value of a field, `none` if it is absent. -/
def get? (j : Json) (name : String) : Except Error (Option Json) :=
  match j with
  | .obj fields => .ok (Fields.get? fields name)
  | _ => .error .wrongType

/-- The value of a field, or the default if it is absent. -/
def getD (j : Json) (name : String) (default : Json) : Except Error Json :=
  (j.get? name).map (·.getD default)

/-- The value of a field, or null if it is absent. -/
def get (j : Json) (name : String) : Except Error Json :=
  j.getD name .null

/-- The text that the value is. -/
def text : Json → Except Error String
  | .str s => .ok s
  | _ => .error .wrongType

/-- The characters of a text, the items of a list, or the names of an object's fields. -/
def elements : Json → Except Error (List Json)
  | .str s => .ok (s.toList.map fun c => .str c.toString)
  | .arr items => .ok items
  | .obj fields => .ok (fields.map fun f => .str f.1)
  | _ => .error .wrongType

/-- Whether `needle` occurs in `cs`. -/
def occursIn (needle cs : List Char) : Bool :=
  match cs with
  | [] => needle.isEmpty
  | c :: rest => needle.isPrefixOf (c :: rest) || occursIn needle rest

/-- Whether `name` is a part of a text, an item of a list, or a field of an object. -/
def mentions (j : Json) (name : String) : Except Error Bool :=
  match j with
  | .str s => .ok (occursIn name.toList s.toList)
  | .arr items => .ok (items.any (·.isText name))
  | .obj fields => .ok (Fields.get? fields name).isSome
  | _ => .error .wrongType

/-- What names an entry of a table. The two truth values are the numbers one and zero, and a number of double
precision that is an integer is the same as that integer. -/
inductive Key where
  | null
  | number (n : Int)
  | fraction (x : Double)
  | text (s : String)
  deriving DecidableEq, Repr

/-- The table key that the value is; lists and objects are none. -/
def key : Json → Except Error Key
  | .null => .ok .null
  | .bool b => .ok (.number (if b then 1 else 0))
  | .int n => .ok (.number n)
  | .float x => .ok ((x.integer?.map .number).getD (.fraction x))
  | .str s => .ok (.text s)
  | _ => .error .wrongType

@[simp] theorem get?_obj (fields : Fields) (name : String) :
    (Json.obj fields).get? name = .ok (Fields.get? fields name) := rfl

@[simp] theorem text_str (s : String) : (Json.str s).text = .ok s := rfl

@[simp] theorem elements_arr (items : List Json) : (Json.arr items).elements = .ok items := rfl

@[simp] theorem key_str (s : String) : (Json.str s).key = .ok (.text s) := rfl

end Pinpoint.Json
