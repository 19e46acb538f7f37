import ScopeLint.Text.Quoted

/-!
# Text in bytes

The characters that a sequence of bytes spells in UTF-8. A sequence that spells none has a first fault: a run of
bytes that can be the beginning of no character, with the reason why it ends where it does. Line ends are read in
any of their three spellings.
-/

namespace ScopeLint.Text

/-- Why a run of bytes spells no character. -/
inductive Utf8Reason where
  | start
  | continuation
  | ended
  deriving DecidableEq

/-- The words for a reason. -/
def Utf8Reason.words : Utf8Reason → String
  | start => "invalid start byte"
  | continuation => "invalid continuation byte"
  | ended => "unexpected end of data"

/-- A run of bytes that spells no character: where it starts, its first byte, how many bytes it has, and why. -/
structure Utf8Fault where
  offset : Nat
  byte : Nat
  length : Nat
  reason : Utf8Reason
  deriving DecidableEq

/-- The words for a fault. -/
def Utf8Fault.message (f : Utf8Fault) : String :=
  let run :=
    if f.length = 1 then
      "byte 0x" ++ String.ofList (hexDigits 2 f.byte) ++ " in position " ++ toString f.offset
    else "bytes in position " ++ toString f.offset ++ "-" ++ toString (f.offset + f.length - 1)
  "'utf-8' codec can't decode " ++ run ++ ": " ++ f.reason.words

/-- A character of several bytes of which some were read: where it starts, its first byte, how many bytes were
read, how many are owed, between which bytes the next one has to lie, and the bits read so far. -/
structure Utf8Partial where
  offset : Nat
  byte : Nat
  taken : Nat
  owed : Nat
  low : Nat
  high : Nat
  bits : Nat
  deriving DecidableEq

/-- The fault of a character that does not go on. -/
def Utf8Partial.fault (p : Utf8Partial) (reason : Utf8Reason) : Utf8Fault :=
  ⟨p.offset, p.byte, p.taken, reason⟩

/-- The character that a byte at some offset starts, if a character of several bytes can start with it. The second
byte of some is bounded so that no character has two spellings, none is a surrogate and none lies behind the last
code point. -/
def Utf8Partial.ofByte? (offset byte : Nat) : Option Utf8Partial :=
  if 0xc2 ≤ byte ∧ byte ≤ 0xdf then some ⟨offset, byte, 1, 1, 0x80, 0xbf, byte - 0xc0⟩
  else if 0xe0 ≤ byte ∧ byte ≤ 0xef then
    some ⟨offset, byte, 1, 2, if byte = 0xe0 then 0xa0 else 0x80, if byte = 0xed then 0x9f else 0xbf, byte - 0xe0⟩
  else if 0xf0 ≤ byte ∧ byte ≤ 0xf4 then
    some ⟨offset, byte, 1, 3, if byte = 0xf0 then 0x90 else 0x80, if byte = 0xf4 then 0x8f else 0xbf, byte - 0xf0⟩
  else none

/-- The character with one more byte read. -/
def Utf8Partial.extend (p : Utf8Partial) (byte : Nat) : Utf8Partial :=
  ⟨p.offset, p.byte, p.taken + 1, p.owed - 1, 0x80, 0xbf, p.bits * 64 + (byte - 0x80)⟩

/-- The characters that bytes spell behind those read, which come in reverse; the offset is that of the next
byte. -/
def decodeUtf8From (read : List Char) (offset : Nat) :
    Option Utf8Partial → List UInt8 → Except Utf8Fault (List Char)
  | none, [] => .ok read.reverse
  | some p, [] => .error (p.fault .ended)
  | none, b :: bytes =>
    if b.toNat < 0x80 then decodeUtf8From (Char.ofNat b.toNat :: read) (offset + 1) none bytes
    else
      match Utf8Partial.ofByte? offset b.toNat with
      | some p => decodeUtf8From read (offset + 1) (some p) bytes
      | none => .error ⟨offset, b.toNat, 1, .start⟩
  | some p, b :: bytes =>
    if p.low ≤ b.toNat ∧ b.toNat ≤ p.high then
      let q := p.extend b.toNat
      if q.owed = 0 then decodeUtf8From (Char.ofNat q.bits :: read) (offset + 1) none bytes
      else decodeUtf8From read (offset + 1) (some q) bytes
    else .error (p.fault .continuation)

/-- The characters that bytes spell. -/
def decodeUtf8 (bytes : List UInt8) : Except Utf8Fault (List Char) :=
  decodeUtf8From [] 0 none bytes

/-- Every line end as a line feed: a carriage return is one, and so is one with a line feed behind it. -/
def unifyLineEnds : List Char → List Char
  | [] => []
  | '\r' :: '\n' :: cs => '\n' :: unifyLineEnds cs
  | '\r' :: cs => '\n' :: unifyLineEnds cs
  | c :: cs => c :: unifyLineEnds cs

end ScopeLint.Text
