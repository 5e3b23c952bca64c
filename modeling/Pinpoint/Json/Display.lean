import Pinpoint.Double.Decimal
import Pinpoint.Json.Basic
import Pinpoint.Text.Quoted

/-!
# Values in messages

How a message shows a value. `display` shows a text as it is; `shown` shows it quoted, and so do both of
them inside a list or an object. Numbers are decimal, and the three constants are `None`, `True` and
`False`.
-/

namespace Pinpoint.Json

/-- The texts one after the other, with a comma and a space between neighbours. -/
def commaJoin (texts : List String) : String :=
  ", ".intercalate texts

mutual

/-- The value as it is shown inside others, and wherever a text has to stand out. -/
def shown : Json → String
  | .null => "None"
  | .bool true => "True"
  | .bool false => "False"
  | .int n => toString n
  | .float x => x.text "nan" "inf"
  | .str s => Text.quote s
  | .arr items => "[" ++ commaJoin (shownItems items) ++ "]"
  | .obj fields => "\x7b" ++ commaJoin (shownFields fields) ++ "\x7d"

def shownItems : List Json → List String
  | [] => []
  | item :: rest => shown item :: shownItems rest

def shownFields : List (String × Json) → List String
  | [] => []
  | (name, value) :: rest => (Text.quote name ++ ": " ++ shown value) :: shownFields rest

end

/-- The value as part of a message. -/
def display : Json → String
  | .str s => s
  | other => other.shown

@[simp] theorem display_str (s : String) : (Json.str s).display = s := rfl

end Pinpoint.Json
