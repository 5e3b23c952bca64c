import Pinpoint.Json.Display
import Pinpoint.Yaml.Scalar

/-!
# Reading YAML

`Yaml.parse` reads a document of block and flow collections with plain and quoted scalars, and comments.
Anchors, aliases, tags, block scalars, directives, explicit keys and further documents are refused.

Blocks are told by columns. The reader stands at a place in the text (`Cursor`) and always knows the
least column, `indent`, at which something still belongs to the node being read. A collection starts at
the column of its first entry and goes on as long as entries start there; what starts further left ends
it, and what starts further right, or at the same column without being an entry, is a fault. The items of
a list that is a mapping's value may stand at the column of the mapping's keys. A key and the colon
behind it stand on one line, and a value on that line is no block collection.

A scalar may go on over several lines, which are joined: one line break becomes a space, and of several
the first is dropped. Keys are texts as `Json.display` shows them, and a key given twice keeps its first
place and its last value. There is no key that merges.
-/

namespace Pinpoint.Yaml

/-- Why a text is not read. -/
inductive Fault where
  /-- The text is malformed here; lines and columns are counted from zero. -/
  | malformed (line column : Nat)
  /-- A number has no digits or too many, or is that of no character. -/
  | number
  deriving DecidableEq, Repr

/-- A place in the text: what is left, and where it starts. -/
structure Cursor where
  rest : List Char
  line : Nat
  column : Nat

/-- The characters that end a line. -/
def isBreak (c : Char) : Bool :=
  c == '\n' || c.toNat == 0x85 || c.toNat == 0x2028 || c.toNat == 0x2029

/-- What a line end is read as: two of the four kinds are kept. -/
def breakChar (c : Char) : Char :=
  if c.toNat == 0x2028 || c.toNat == 0x2029 then c else '\n'

/-- A space, a tab or a line end. -/
def isGap (c : Char) : Bool :=
  c == ' ' || c == '\t' || isBreak c

/-- At a gap, or at the end of the text. -/
def atGap : List Char → Bool
  | [] => true
  | c :: _ => isGap c

/-- The characters that a text may hold. -/
def isAllowed (c : Char) : Bool :=
  let n := c.toNat
  n == 0x09 || n == 0x0A || n == 0x0D || (0x20 ≤ n && n ≤ 0x7E) || n == 0x85 ||
    (0xA0 ≤ n && n ≤ 0xD7FF) || (0xE000 ≤ n && n ≤ 0xFFFD) || 0x10000 ≤ n

namespace Cursor

/-- Nothing but gaps and comments up to here: skips them from a given place. `comment` tells that the
place is inside a comment. -/
def settleFrom (comment : Bool) (line column : Nat) : List Char → Cursor
  | [] => ⟨[], line, column⟩
  | c :: rest =>
    if isBreak c then settleFrom false (line + 1) 0 rest
    else if comment then settleFrom true line (column + 1) rest
    else if c = ' ' then settleFrom false line (column + 1) rest
    else if c = '#' then settleFrom true line (column + 1) rest
    else ⟨c :: rest, line, column⟩

/-- The next token: skips spaces, line ends and comments. -/
def settle (c : Cursor) : Cursor :=
  settleFrom false c.line c.column c.rest

/-- `n` characters further on the same line. -/
def advance (c : Cursor) (n : Nat) : Cursor :=
  ⟨c.rest.drop n, c.line, c.column + n⟩

/-- The next token behind a node of a block, which must stand on a later line. -/
def settleBelow (c : Cursor) : Except Fault Cursor :=
  let next := c.settle
  if next.rest.isEmpty || c.line < next.line then .ok next
  else .error (.malformed next.line next.column)

/-- Behind the spaces on the same line. -/
def skipSpaces (c : Cursor) : Cursor :=
  c.advance (c.rest.takeWhile (· = ' ')).length

/-- The text is malformed here. -/
def fail {α : Type} (c : Cursor) : Except Fault α :=
  .error (.malformed c.line c.column)

/-- At a character that a gap follows. -/
def atMark (c : Cursor) (mark : Char) : Bool :=
  match c.rest with
  | d :: rest => d == mark && atGap rest
  | [] => false

end Cursor

/-! ### Scalars -/

/-- A character that ends a word of a plain scalar, given what follows it. -/
def endsWord (inFlow : Bool) (c : Char) (rest : List Char) : Bool :=
  isGap c ||
    (c == ':' && (atGap rest || (inFlow && rest.head?.any (",[]\x7b\x7d".toList.contains ·)))) ||
    (inFlow && ",?[]\x7b\x7d".toList.contains c)

/-- The word that a plain scalar starts with, and what is left behind it. -/
def word (inFlow : Bool) : List Char → List Char × List Char
  | [] => ([], [])
  | c :: rest =>
    if endsWord inFlow c rest then ([], c :: rest)
    else
      let r := word inFlow rest
      (c :: r.1, r.2)

/-- Skips line ends, and the characters with property `p` between them, and collects the line ends. -/
def foldBreaks (p : Char → Bool) (line column : Nat) : List Char → List Char × Cursor
  | [] => ([], ⟨[], line, column⟩)
  | c :: rest =>
    if isBreak c then
      let r := foldBreaks p (line + 1) 0 rest
      (breakChar c :: r.1, r.2)
    else if p c then foldBreaks p line (column + 1) rest
    else ([], ⟨c :: rest, line, column⟩)

/-- What line ends in a scalar are read as. -/
def joinLines : List Char → List Char
  | [] => []
  | first :: others =>
    if first ≠ '\n' then first :: others
    else if others.isEmpty then [' '] else others

/-- The gap between two words: how it is read, and the place behind it. Only characters with property
`p` count as blanks. -/
def gap (p : Char → Bool) (c : Cursor) : List Char × Cursor :=
  let blanks := c.rest.takeWhile p
  let after := c.advance blanks.length
  match after.rest with
  | d :: _ =>
    if isBreak d then
      let r := foldBreaks p after.line after.column after.rest
      (joinLines r.1, r.2)
    else (blanks, after)
  | [] => (blanks, after)

/-- Reads the words of a plain scalar at `c`. `done` holds what has been read, up to the place `last`, and
`between` the gap behind it. -/
def plainWords : Nat → Nat → Bool → List Char → List Char → Cursor → Cursor → List Char × Cursor
  | 0, _, _, done, _, last, _ => (done, last)
  | fuel + 1, indent, inFlow, done, between, last, c =>
    match word inFlow c.rest with
    | ([], _) => (done, last)
    | (w, _) =>
      let last := c.advance w.length
      let r := gap (· = ' ') last
      let done := done ++ between ++ w
      if r.1.isEmpty || r.2.rest.head? == some '#' || (!inFlow && r.2.column < indent) then
        (done, last)
      else plainWords fuel indent inFlow done r.1 last r.2

/-- A character at which a plain scalar may start, given what follows it. -/
def startsPlain (inFlow : Bool) (c : Char) (rest : List Char) : Bool :=
  !(isGap c || "-?:,[]\x7b\x7d#&*!|>'\"%@".toList.contains c || c.toNat == 0x60) ||
    (!atGap rest && (c == '-' || (!inFlow && (c == '?' || c == ':'))))

/-- Reads a plain scalar. -/
def plain (indent : Nat) (inFlow : Bool) (c : Cursor) : Except Fault (Json × Cursor) :=
  let r := plainWords (c.rest.length + 1) indent inFlow [] [] c c
  match Scalar.resolve r.1 with
  | .ok value => .ok (value, r.2)
  | .error .reserved => c.fail
  | .error .number => .error .number

/-- The character that a letter after a backslash stands for. -/
def escaped? (c : Char) : Option Char :=
  let letters := "0abt\tnvfre \"\\/N_LP".toList
  let codes := [0, 7, 8, 9, 9, 10, 11, 12, 13, 27, 32, 34, 92, 47, 0x85, 0xA0, 0x2028, 0x2029]
  ((letters.zip codes).find? (·.1 = c)).map fun e => Char.ofNat e.2

/-- The number of hexadecimal digits behind a backslash and a letter. -/
def escapeWidth? : Char → Option Nat
  | 'x' => some 2
  | 'u' => some 4
  | 'U' => some 8
  | _ => none

/-- The number with the given hexadecimal digits; none if they are not digits. -/
def hexNumber? (cs : List Char) : Option Nat :=
  if cs.all fun c => (Text.hexValue? c).isSome then Scalar.inBase 16 cs else none

/-- The character with a number; U+FFFD for half a surrogate pair. -/
def charOf (n : Nat) : Except Fault Char :=
  if 0x10FFFF < n then .error .number
  else if 0xD800 ≤ n ∧ n ≤ 0xDFFF then .ok (Char.ofNat 0xFFFD)
  else .ok (Char.ofNat n)

/-- Reads a scalar up to the closing quote `q`. `done` holds what has been read. -/
def quotedRest : Nat → Char → List Char → Cursor → Except Fault (Json × Cursor)
  | 0, _, _, c => c.fail
  | fuel + 1, q, done, c => match c.rest with
    | [] => c.fail
    | d :: rest =>
      if d = q then
        if q = '\'' ∧ rest.head? = some '\'' then quotedRest fuel q (done ++ ['\'']) (c.advance 2)
        else .ok (.str (String.ofList done), c.advance 1)
      else if isGap d then
        let r := gap (fun e => e = ' ' || e = '\t') c
        quotedRest fuel q (done ++ r.1) r.2
      else if d = '\\' ∧ q = '"' then match rest with
        | [] => c.fail
        | e :: digits =>
          if isBreak e then
            let r := foldBreaks (fun f => f = ' ' || f = '\t') c.line c.column rest
            quotedRest fuel q (done ++ r.1.drop 1) r.2
          else match escaped? e with
            | some f => quotedRest fuel q (done ++ [f]) (c.advance 2)
            | none => match escapeWidth? e with
              | none => c.fail
              | some n =>
                if digits.length < n then c.fail
                else match hexNumber? (digits.take n) with
                  | some code => match charOf code with
                    | .ok f => quotedRest fuel q (done ++ [f]) (c.advance (n + 2))
                    | .error fault => .error fault
                  | none => c.fail
      else quotedRest fuel q (done ++ [d]) (c.advance 1)

/-- Reads a quoted scalar, at its opening quote `q`. -/
def quoted (q : Char) (c : Cursor) : Except Fault (Json × Cursor) :=
  quotedRest (c.rest.length + 1) q [] (c.advance 1)

/-! ### Collections -/

/-- A key of a mapping: lists and mappings are none. -/
def keyText (c : Cursor) : Json → Except Fault String
  | .arr _ | .obj _ => c.fail
  | key => .ok key.display

mutual

/-- Reads a node of a flow collection. The first argument bounds the depth of the recursion. -/
def flowNode : Nat → Cursor → Except Fault (Json × Cursor)
  | 0, c => c.fail
  | fuel + 1, c => match c.rest with
    | '[' :: _ => flowItems fuel [] (c.advance 1).settle
    | '\x7b' :: _ => flowPairs fuel [] (c.advance 1).settle
    | '\'' :: _ => quoted '\'' c
    | '"' :: _ => quoted '"' c
    | d :: rest => if startsPlain true d rest then plain 0 true c else c.fail
    | [] => c.fail

/-- Reads the value behind a colon in a flow collection; nothing before the next part means null. -/
def flowValue : Nat → Cursor → Except Fault (Json × Cursor)
  | 0, c => c.fail
  | fuel + 1, c => match c.rest with
    | ',' :: _ | ']' :: _ | '\x7d' :: _ => .ok (.null, c)
    | _ => flowNode fuel c

/-- Reads the items of a flow list. An item `key: value` is a mapping of its own. -/
def flowItems : Nat → List Json → Cursor → Except Fault (Json × Cursor)
  | 0, _, c => c.fail
  | fuel + 1, done, c => match c.rest with
    | ']' :: _ => .ok (.arr done, c.advance 1)
    | _ => do
      let (node, afterNode) ← flowNode fuel c
      let next := afterNode.settle
      let (item, next) ←
        if next.rest.head? = some ':' ∧ next.line = c.line then do
          let (value, afterValue) ← flowValue fuel (next.advance 1).settle
          pure (Json.obj [(← keyText c node, value)], afterValue.settle)
        else pure (node, next)
      match next.rest with
      | ',' :: _ => flowItems fuel (done ++ [item]) (next.advance 1).settle
      | ']' :: _ => .ok (.arr (done ++ [item]), next.advance 1)
      | _ => next.fail

/-- Reads the pairs of a flow mapping. A key without a value has the value null. -/
def flowPairs : Nat → Json.Fields → Cursor → Except Fault (Json × Cursor)
  | 0, _, c => c.fail
  | fuel + 1, done, c => match c.rest with
    | '\x7d' :: _ => .ok (.obj done, c.advance 1)
    | _ => do
      let (node, afterNode) ← flowNode fuel c
      let key ← keyText c node
      let next := afterNode.settle
      let (value, next) ←
        if next.rest.head? = some ':' ∧ next.line = c.line then do
          let (value, afterValue) ← flowValue fuel (next.advance 1).settle
          pure (value, afterValue.settle)
        else pure (Json.null, next)
      match next.rest with
      | ',' :: _ => flowPairs fuel (done.set key value) (next.advance 1).settle
      | '\x7d' :: _ => .ok (.obj (done.set key value), next.advance 1)
      | _ => next.fail

end

/-- Reads a scalar or a flow collection in a block. -/
def inlineNode (fuel indent : Nat) (c : Cursor) : Except Fault (Json × Cursor) :=
  match c.rest with
  | '[' :: _ | '\x7b' :: _ | '\'' :: _ | '"' :: _ => flowNode fuel c
  | d :: rest => if startsPlain false d rest then plain indent false c else c.fail
  | [] => c.fail

/-- Reads a key with the colon behind it, which must stand on one line. -/
def keyAt (fuel indent : Nat) (c : Cursor) : Except Fault (String × Cursor) := do
  let (node, afterNode) ← inlineNode fuel indent c
  let mark := afterNode.skipSpaces
  if mark.atMark ':' && mark.line == c.line then return (← keyText c node, mark.advance 1)
  else mark.fail

mutual

/-- Reads a node of a block, at its first token. -/
def blockNode : Nat → Nat → Cursor → Except Fault (Json × Cursor)
  | 0, _, c => c.fail
  | fuel + 1, indent, c =>
    if c.atMark '-' then blockItems fuel c.column false [] c
    else do
      let (node, afterNode) ← inlineNode fuel indent c
      let mark := afterNode.skipSpaces
      if mark.atMark ':' && mark.line == c.line then blockPairs fuel c.column [] c
      else return (node, ← afterNode.settleBelow)

/-- Reads the items of a list at a column. A list that `shares` its column with the keys of a mapping
ends at the next key. -/
def blockItems : Nat → Nat → Bool → List Json → Cursor → Except Fault (Json × Cursor)
  | 0, _, _, _, c => c.fail
  | fuel + 1, column, shares, done, c =>
    if c.rest.isEmpty || c.column < column then .ok (.arr done, c)
    else if c.column ≠ column then c.fail
    else if !c.atMark '-' then if shares then .ok (.arr done, c) else c.fail
    else do
      let next := (c.advance 1).settle
      let (item, afterItem) ←
        if !next.rest.isEmpty && column < next.column then blockNode fuel (column + 1) next
        else pure (Json.null, next)
      blockItems fuel column shares (done ++ [item]) afterItem

/-- Reads the pairs of a mapping at a column. -/
def blockPairs : Nat → Nat → Json.Fields → Cursor → Except Fault (Json × Cursor)
  | 0, _, _, c => c.fail
  | fuel + 1, column, done, c =>
    if c.rest.isEmpty || c.column < column then .ok (.obj done, c)
    else if c.column ≠ column || c.atMark '-' then c.fail
    else do
      let (key, afterKey) ← keyAt fuel (column + 1) c
      let (value, afterValue) ← blockValue fuel column c.line afterKey.settle
      blockPairs fuel column (done.set key value) afterValue

/-- Reads the value of a key on line `line` of a mapping at a column; nothing means null. -/
def blockValue : Nat → Nat → Nat → Cursor → Except Fault (Json × Cursor)
  | 0, _, _, c => c.fail
  | fuel + 1, column, line, c =>
    if c.rest.isEmpty then .ok (.null, c)
    else if c.line = line then do
      let (value, afterValue) ← inlineNode fuel (column + 1) c
      return (value, ← afterValue.settleBelow)
    else if column < c.column then blockNode fuel (column + 1) c
    else if c.column = column && c.atMark '-' then blockItems fuel column true [] c
    else .ok (.null, c)

end

/-! ### Documents -/

/-- The rest of a text that starts with one of the two document marks, and which one it is: true for the
mark that starts a document, false for the one that ends it. -/
def mark? : List Char → Option (Bool × List Char)
  | '-' :: '-' :: '-' :: rest => if atGap rest then some (true, rest) else none
  | '.' :: '.' :: '.' :: rest => if atGap rest then some (false, rest) else none
  | _ => none

/-- The text before the first document mark, and the mark with what follows it. `lineStart` tells whether
the text starts a line. -/
def cutAtMark (lineStart : Bool) : List Char → List Char × Option (Bool × List Char)
  | [] => ([], none)
  | c :: rest =>
    match if lineStart then mark? (c :: rest) else none with
    | some mark => ([], some mark)
    | none =>
      let r := cutAtMark (isBreak c) rest
      (c :: r.1, r.2)

/-- Nothing but gaps and comments. -/
def isVoid (cs : List Char) : Bool :=
  (Cursor.settle ⟨cs, 0, 0⟩).rest.isEmpty

/-- The text without the marks that end a document. -/
def dropEndMarks (lineStart : Bool) : List Char → List Char
  | [] => []
  | '.' :: '.' :: '.' :: rest =>
    if lineStart && atGap rest then dropEndMarks false rest
    else '.' :: '.' :: '.' :: dropEndMarks false rest
  | c :: rest => c :: dropEndMarks (isBreak c) rest

/-- Nothing behind a mark that ends a document, but for more such marks. -/
def isEnd (cs : List Char) : Bool :=
  isVoid (dropEndMarks false cs)

/-- Reads the text of a document; nothing means null. Behind a document mark, on its own line, no block
collection may start. -/
def document (marked : Bool) (cs : List Char) : Except Fault Json := do
  let start := Cursor.settle ⟨cs, 0, 0⟩
  if start.rest.isEmpty then return .null
  let fuel := 4 * cs.length + 8
  let (value, afterValue) ←
    if marked && start.line == 0 then inlineNode fuel 0 start else blockNode fuel 0 start
  let last := afterValue.settle
  if last.rest.isEmpty then return value else last.fail

/-- The text without a byte order mark. -/
def dropOrderMark : List Char → List Char
  | '\uFEFF' :: rest => rest
  | cs => cs

/-- Reads a text that holds one document. -/
def parse (text : List Char) : Except Fault Json :=
  if !text.all isAllowed then .error (.malformed 0 0)
  else match cutAtMark true (dropOrderMark text) with
    | (body, none) => document false body
    | (before, some (true, rest)) =>
      if !isVoid before then .error (.malformed 0 0)
      else match cutAtMark false rest with
        | (body, none) => document true body
        | (body, some (false, after)) =>
          if isEnd after then document true body else .error (.malformed 0 0)
        | (_, some (true, _)) => .error (.malformed 0 0)
    | (body, some (false, after)) =>
      if isVoid body || !isEnd after then .error (.malformed 0 0) else document false body

end Pinpoint.Yaml
