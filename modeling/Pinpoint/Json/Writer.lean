import Pinpoint.Double.Decimal
import Pinpoint.Json.Basic
import Pinpoint.Text.Integer
import Pinpoint.Text.Quoted

/-!
# Writing JSON

`Json.compact` writes a value on one line, and `Json.pretty` with every item and field on a line of its
own, two spaces further in for each level. Only ASCII characters are written: all others, and the control
characters, are escaped, those beyond U+FFFF as the two halves of a surrogate pair.

An integer with too many digits is not written (`Json.isWritable`).
-/

namespace Pinpoint.Json

namespace Writer

/-- The escape for a number below 2^16. -/
def unitEscape (n : Nat) : List Char :=
  '\\' :: 'u' :: Text.hexDigits 4 n

/-- How a character is written between quotes. -/
def escapeChar (c : Char) : List Char :=
  let n := c.toNat
  if c = '"' then ['\\', '"']
  else if c = '\\' then ['\\', '\\']
  else if c = '\n' then ['\\', 'n']
  else if c = '\r' then ['\\', 'r']
  else if c = '\t' then ['\\', 't']
  else if n = 8 then ['\\', 'b']
  else if n = 12 then ['\\', 'f']
  else if 0x20 ≤ n ∧ n < 0x7F then [c]
  else if n < 0x10000 then unitEscape n
  else unitEscape (0xD800 + (n - 0x10000) / 0x400) ++ unitEscape (0xDC00 + (n - 0x10000) % 0x400)

/-- A text between quotes. -/
def text (s : String) : String :=
  String.ofList ('"' :: s.toList.flatMap escapeChar ++ ['"'])

/-- A number of double precision; what is not finite has a name. -/
def number (x : Double) : String :=
  x.text "NaN" "Infinity"

/-- Two spaces for each level, on a new line. -/
def newline (level : Nat) : String :=
  String.ofList ('\n' :: List.replicate (2 * level) ' ')

/-- The parts between brackets: on lines of their own one level further in, or nothing between the
brackets if there are no parts. -/
def bracketed (level : Nat) (opening closing : String) (parts : List String) : String :=
  if parts.isEmpty then opening ++ closing
  else
    opening ++ newline (level + 1) ++ ("," ++ newline (level + 1)).intercalate parts ++
      newline level ++ closing

end Writer

mutual

/-- The value on one line. -/
def compact : Json → String
  | .null => "null"
  | .bool true => "true"
  | .bool false => "false"
  | .int n => toString n
  | .float x => Writer.number x
  | .str s => Writer.text s
  | .arr items => "[" ++ ",".intercalate (compactItems items) ++ "]"
  | .obj fields => "\x7b" ++ ",".intercalate (compactFields fields) ++ "\x7d"

def compactItems : List Json → List String
  | [] => []
  | item :: rest => compact item :: compactItems rest

def compactFields : List (String × Json) → List String
  | [] => []
  | (name, value) :: rest => (Writer.text name ++ ":" ++ compact value) :: compactFields rest

end

mutual

/-- The value on lines of its own, the first one at a level of indentation. -/
def prettyAt (level : Nat) : Json → String
  | .null => "null"
  | .bool true => "true"
  | .bool false => "false"
  | .int n => toString n
  | .float x => Writer.number x
  | .str s => Writer.text s
  | .arr items => Writer.bracketed level "[" "]" (prettyItems (level + 1) items)
  | .obj fields => Writer.bracketed level "\x7b" "\x7d" (prettyFields (level + 1) fields)

def prettyItems (level : Nat) : List Json → List String
  | [] => []
  | item :: rest => prettyAt level item :: prettyItems level rest

def prettyFields (level : Nat) : List (String × Json) → List String
  | [] => []
  | (name, value) :: rest =>
    (Writer.text name ++ ": " ++ prettyAt level value) :: prettyFields level rest

end

/-- Where there is an item, something is written. -/
theorem prettyItems_ne_nil (level : Nat) (item : Json) (items : List Json) :
    prettyItems level (item :: items) ≠ [] := by
  rw [prettyItems]
  exact List.cons_ne_nil _ _

/-- Where there is a field, something is written. -/
theorem prettyFields_ne_nil (level : Nat) (field : String × Json) (fields : Fields) :
    prettyFields level (field :: fields) ≠ [] := by
  rw [prettyFields]
  exact List.cons_ne_nil _ _

/-- The value with every item and field on a line of its own. -/
def pretty (j : Json) : String :=
  prettyAt 0 j

mutual

/-- No integer in the value has too many digits to be written. -/
def isWritable : Json → Bool
  | .int n => !Text.tooLong n
  | .arr items => allWritable items
  | .obj fields => fieldsWritable fields
  | _ => true

def allWritable : List Json → Bool
  | [] => true
  | item :: rest => isWritable item && allWritable rest

def fieldsWritable : List (String × Json) → Bool
  | [] => true
  | (_, value) :: rest => isWritable value && fieldsWritable rest

end

end Pinpoint.Json
