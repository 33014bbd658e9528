import Recast.Text.Quoted

/-!
Bytes as UTF-8 text.

Decoding goes byte by byte. A lead byte says how many bytes follow it and in which range each must
lie; the ranges exclude the long forms, the surrogates, and everything above the last code point. A
fault names the bytes of the sequence that broke off, without the byte that broke it.
-/

namespace Recast.Text.Utf8

/-- Why bytes are no text. -/
inductive Reason where
  /-- A byte that starts no sequence. -/
  | invalidStart
  /-- A byte that does not continue the sequence before it. -/
  | invalidContinuation
  /-- The bytes end inside a sequence. -/
  | endOfData
deriving DecidableEq, Repr

/-- Where and why decoding stopped: the position of a sequence, its lead byte, and how many bytes
of it were read. -/
structure Fault where
  position : Nat
  lead : Nat
  count : Nat
  reason : Reason
deriving DecidableEq, Repr

namespace Reason

/-- The wording of a reason. -/
def message : Reason → String
  | .invalidStart => "invalid start byte"
  | .invalidContinuation => "invalid continuation byte"
  | .endOfData => "unexpected end of data"

end Reason

namespace Fault

/-- The bytes that a fault is about. -/
def place (fault : Fault) : String :=
  if fault.count ≤ 1 then
    "byte 0x" ++ String.ofList (hexDigits 2 fault.lead) ++ " in position "
      ++ toString fault.position
  else
    "bytes in position " ++ toString fault.position ++ "-"
      ++ toString (fault.position + fault.count - 1)

/-- The wording of a fault. -/
def message (fault : Fault) : String :=
  "'utf-8' codec can't decode " ++ fault.place ++ ": " ++ fault.reason.message

end Fault

/-- The bytes that may follow, from the lowest to the highest. -/
abbrev Range := Nat × Nat

/-- Any continuation byte. -/
def tail : Range := (0x80, 0xbf)

/-- The ranges of the bytes after a lead byte; none if the byte starts no sequence. -/
def following (lead : Nat) : List Range :=
  if lead < 0xc2 then []
  else if lead < 0xe0 then [tail]
  else if lead = 0xe0 then [(0xa0, 0xbf), tail]
  else if lead = 0xed then [(0x80, 0x9f), tail]
  else if lead < 0xf0 then [tail, tail]
  else if lead = 0xf0 then [(0x90, 0xbf), tail, tail]
  else if lead < 0xf4 then [tail, tail, tail]
  else if lead = 0xf4 then [(0x80, 0x8f), tail, tail]
  else []

/-- The bits that a lead byte gives to its code point. -/
def leadBits (lead : Nat) : Nat :=
  if lead < 0xe0 then lead - 0xc0 else if lead < 0xf0 then lead - 0xe0 else lead - 0xf0

/-- What is read of an unfinished sequence. -/
structure Pending where
  position : Nat
  lead : Nat
  count : Nat
  code : Nat

/-- The fault at an unfinished sequence. -/
def Pending.fault (p : Pending) (reason : Reason) : Fault := ⟨p.position, p.lead, p.count, reason⟩

mutual

/-- Decodes bytes that start at a position. -/
def decodeFrom (position : Nat) : List UInt8 → Except Fault (List Char)
  | [] => .ok []
  | byte :: rest =>
    let lead := byte.toNat
    if lead < 0x80 then do
      return Char.ofNat lead :: (← decodeFrom (position + 1) rest)
    else
      match following lead with
      | [] => .error ⟨position, lead, 1, .invalidStart⟩
      | range :: ranges => continueFrom ⟨position, lead, 1, leadBits lead⟩ range ranges rest

/-- Decodes bytes that go on with a sequence, the next in `range` and the others in `ranges`. -/
def continueFrom (p : Pending) (range : Range) (ranges : List Range) :
    List UInt8 → Except Fault (List Char)
  | [] => .error (p.fault .endOfData)
  | byte :: rest =>
    if byte.toNat < range.1 ∨ range.2 < byte.toNat then .error (p.fault .invalidContinuation)
    else
      let p := { p with count := p.count + 1, code := p.code * 64 + (byte.toNat - 0x80) }
      match ranges with
      | range :: ranges => continueFrom p range ranges rest
      | [] => do
        return Char.ofNat p.code :: (← decodeFrom (p.position + p.count) rest)

end

/-- The text that bytes hold. -/
def decode (bytes : List UInt8) : Except Fault String := String.ofList <$> decodeFrom 0 bytes

/-- The bytes of a text. -/
def encode (text : String) : List UInt8 := text.toUTF8.toList

end Recast.Text.Utf8
