/-!
# UTF-8 text

Reads a byte string as UTF-8, or says where and how it stops being well-formed.

* `Utf8.decode` — accepts exactly the well-formed byte strings
* `Utf8.Defect.of` — the longest well-formed beginning, and the length of the longest piece after
  it that begins a character (one octet at least), or that the end of the input cut a character off
-/

namespace Resumption.Utf8

inductive Defect where
  /-- The octets from `start` on begin no character; `length` of them are to be skipped. -/
  | invalid (length start : Nat)
  /-- The input ends inside the character that begins at `start`. -/
  | truncated (start : Nat)
deriving DecidableEq

def Defect.message : Defect → String
  | .invalid length start => s!"invalid utf-8 sequence of {length} bytes from index {start}"
  | .truncated start => s!"incomplete utf-8 byte sequence from index {start}"

/-! ## The shape of a character -/

/-- A range of octets, both ends included. -/
structure Range where
  low : UInt8
  high : UInt8

def Range.contains (r : Range) (octet : UInt8) : Bool :=
  r.low ≤ octet && octet ≤ r.high

def continuation : Range := ⟨0x80, 0xBF⟩

/-- The octets that may follow a leading octet, in order, or `none` if it leads no character.
The second octet's narrower ranges keep out overlong forms, surrogates and numbers above
`0x10FFFF`. -/
def followers (lead : UInt8) : Option (List Range) :=
  if lead < 0x80 then some []
  else if lead < 0xC2 then none
  else if lead < 0xE0 then some [continuation]
  else if lead = 0xE0 then some [⟨0xA0, 0xBF⟩, continuation]
  else if lead = 0xED then some [⟨0x80, 0x9F⟩, continuation]
  else if lead < 0xF0 then some [continuation, continuation]
  else if lead = 0xF0 then some [⟨0x90, 0xBF⟩, continuation, continuation]
  else if lead < 0xF4 then some [continuation, continuation, continuation]
  else if lead = 0xF4 then some [⟨0x80, 0x8F⟩, continuation, continuation]
  else none

/-! ## Looking for the defect -/

/-- Compares the octets from `place` on with the ranges that `start` calls for. -/
def follow (bytes : ByteArray) (start : Nat) : Nat → List Range → Except Defect Unit
  | _, [] => .ok ()
  | place, range :: ranges =>
    match bytes[place]? with
    | none => .error (.truncated start)
    | some octet =>
      if range.contains octet then follow bytes start (place + 1) ranges
      else .error (.invalid (place - start) start)

/-- The first defect at or after `start`, if there is one. -/
def firstDefect (bytes : ByteArray) (start : Nat) : Option Defect :=
  if h : start < bytes.size then
    match followers bytes[start] with
    | none => some (.invalid 1 start)
    | some ranges =>
      match follow bytes start (start + 1) ranges with
      | .error defect => some defect
      | .ok () => firstDefect bytes (start + 1 + ranges.length)
  else none
termination_by bytes.size - start

/-- Of a byte string that is not well-formed. -/
def Defect.of (bytes : ByteArray) : Defect :=
  (firstDefect bytes 0).getD (.truncated bytes.size)

def decode (bytes : ByteArray) : Except Defect String :=
  if h : bytes.IsValidUTF8 then .ok (String.fromUTF8 bytes h) else .error (.of bytes)

end Resumption.Utf8
