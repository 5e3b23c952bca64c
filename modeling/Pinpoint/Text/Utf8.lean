import Pinpoint.Text.Quoted

/-!
# UTF-8

`Utf8.decode` reads bytes as UTF-8 and says, where they are not, which bytes are at fault and why. A
character starts with a byte that fixes how many bytes follow and in which range the first of them must
lie (`Lead`); that range is what rules out overlong forms, surrogates and numbers beyond Unicode. All
later bytes lie between 80 and BF.

The bytes at fault are the start byte alone if nothing can start with it, the bytes accepted so far if
the next one does not fit, and all that is left if the text ends too early.
-/

namespace Pinpoint.Text.Utf8

/-- Why bytes are not UTF-8. -/
inductive Reason where
  | invalidStart
  | invalidContinuation
  | unexpectedEnd
  deriving DecidableEq, Repr

/-- Bytes that are not UTF-8: the position of the first one, its value, and how many there are. -/
structure Fault where
  reason : Reason
  position : Nat
  byte : Nat
  count : Nat
  deriving DecidableEq, Repr

/-- What the first byte of a character promises: `tails` further bytes, the first of them between `low`
and `high`, and the leading bits of the code point. -/
structure Lead where
  tails : Nat
  low : Nat
  high : Nat
  bits : Nat
  deriving DecidableEq, Repr

/-- The promise of a first byte; `none` if no character starts with it. -/
def lead? (b : Nat) : Option Lead :=
  if b < 0x80 then some ⟨0, 0x80, 0xBF, b⟩
  else if b < 0xC2 then none
  else if b < 0xE0 then some ⟨1, 0x80, 0xBF, b - 0xC0⟩
  else if b = 0xE0 then some ⟨2, 0xA0, 0xBF, b - 0xE0⟩
  else if b = 0xED then some ⟨2, 0x80, 0x9F, b - 0xE0⟩
  else if b < 0xF0 then some ⟨2, 0x80, 0xBF, b - 0xE0⟩
  else if b = 0xF0 then some ⟨3, 0x90, 0xBF, b - 0xF0⟩
  else if b < 0xF4 then some ⟨3, 0x80, 0xBF, b - 0xF0⟩
  else if b = 0xF4 then some ⟨3, 0x80, 0x8F, b - 0xF0⟩
  else none

/-- A character of which bytes are still owed: what they must be, the position and value of the first
byte, and how many bytes were taken. -/
structure Pending where
  lead : Lead
  position : Nat
  byte : Nat
  taken : Nat

/-- Reads the bytes from position `i` on. `done` holds the characters read so far, the last one first,
and `pending` the character that is not complete yet. -/
def decodeFrom (i : Nat) (done : List Char) (pending : Option Pending) :
    List UInt8 → Except Fault (List Char)
  | [] => match pending with
    | none => .ok done.reverse
    | some p => .error ⟨.unexpectedEnd, p.position, p.byte, p.taken⟩
  | b :: rest =>
    let n := b.toNat
    match pending with
    | none => match lead? n with
      | none => .error ⟨.invalidStart, i, n, 1⟩
      | some l =>
        if l.tails = 0 then decodeFrom (i + 1) (Char.ofNat l.bits :: done) none rest
        else decodeFrom (i + 1) done (some ⟨l, i, n, 1⟩) rest
    | some p =>
      if n < p.lead.low || p.lead.high < n then
        .error ⟨.invalidContinuation, p.position, p.byte, p.taken⟩
      else
        let bits := p.lead.bits * 64 + (n - 0x80)
        if p.lead.tails = 1 then decodeFrom (i + 1) (Char.ofNat bits :: done) none rest
        else
          let next : Lead := ⟨p.lead.tails - 1, 0x80, 0xBF, bits⟩
          decodeFrom (i + 1) done (some ⟨next, p.position, p.byte, p.taken + 1⟩) rest

/-- Reads bytes as UTF-8. -/
def decode (bytes : List UInt8) : Except Fault (List Char) :=
  decodeFrom 0 [] none bytes

/-- The reason, as a message states it. -/
def Reason.text : Reason → String
  | .invalidStart => "invalid start byte"
  | .invalidContinuation => "invalid continuation byte"
  | .unexpectedEnd => "unexpected end of data"

/-- The message for bytes that are not UTF-8: a single byte is shown, several are located. -/
def Fault.message (f : Fault) : String :=
  let place :=
    if f.count = 1 then
      s!"byte 0x{String.ofList (hexDigits 2 f.byte)} in position {f.position}"
    else s!"bytes in position {f.position}-{f.position + f.count - 1}"
  s!"'utf-8' codec can't decode {place}: {f.reason.text}"

end Pinpoint.Text.Utf8
