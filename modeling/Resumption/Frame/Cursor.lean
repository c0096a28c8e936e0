import Resumption.Frame.Fault
import Resumption.Octets.BigEndian

/-!
# Reading a frame

A cursor is a place in a byte string, with one remembered place to go back to. A reader moves the
cursor, and the cursor it leaves behind counts also where it fails.

* `Reader.take` — the only primitive that moves forward; it checks once and moves after that
* `Reader.length` — three octets taken one by one
* `Reader.peek` — looks ahead and goes back, whether or not it succeeded
* `Reader.within` — reads a part of the frame on its own, the place in the frame unmoved
-/

namespace Resumption

structure Cursor where
  bytes : ByteArray
  /-- The place to read from. -/
  index : Nat
  /-- The place to go back to. -/
  mark : Nat

def Cursor.start (bytes : ByteArray) : Cursor :=
  ⟨bytes, 0, 0⟩

/-- The count of octets left to read. -/
def Cursor.remaining (c : Cursor) : Nat :=
  c.bytes.size - c.index

/-- The octets left to read. -/
def Cursor.rest (c : Cursor) : ByteArray :=
  c.bytes.extract c.index c.bytes.size

abbrev Reader := EStateM DecodeError Cursor

namespace Reader

/-! ## Moving forward -/

def take (count : Nat) : Reader ByteArray := fun c =>
  if count ≤ c.remaining then
    .ok (c.bytes.extract c.index (c.index + count)) { c with index := c.index + count }
  else .error (.incomplete count c.remaining) c

def skip (count : Nat) : Reader Unit := do
  let _ ← take count

/-- A big-endian number of `width` octets. -/
def number (width : Nat) : Reader Nat := do
  let digits ← take width
  return BigEndian.decode digits

def uint8 : Reader UInt8 := do
  return UInt8.ofNat (← number 1)

def uint16 : Reader UInt16 := do
  return UInt16.ofNat (← number 2)

def uint32 : Reader UInt32 := do
  return UInt32.ofNat (← number 4)

def uint64 : Reader UInt64 := do
  return UInt64.ofNat (← number 8)

/-- A 24-bit length. Octets that are there are read even where others are missing. -/
def length : Reader Nat := do
  let high ← number 1
  let middle ← number 1
  let low ← number 1
  return high * 65536 + middle * 256 + low

/-- Everything that is left. -/
def rest : Reader ByteArray := fun c =>
  take c.remaining c

/-! ## Going back -/

def setMark : Reader Unit := fun c =>
  .ok () { c with mark := c.index }

def reset : Reader Unit := fun c =>
  .ok () { c with index := c.mark }

/-- Marks, reads and goes back. -/
def peek {α : Type} (reader : Reader α) : Reader α := fun c =>
  match reader { c with mark := c.index } with
  | .ok value c' => .ok value { c' with index := c'.mark }
  | .error e c' => .error e { c' with index := c'.mark }

/-! ## Parts -/

/-- Reads `part` from its beginning. -/
def within {α : Type} (part : ByteArray) (reader : Reader α) : Reader α := fun c =>
  match reader (.start part) with
  | .ok value _ => .ok value c
  | .error e _ => .error e c

/-- Takes a value that may be missing. -/
def require {α : Type} (e : DecodeError) : Option α → Reader α
  | some value => pure value
  | none => throw e

end Reader

end Resumption
