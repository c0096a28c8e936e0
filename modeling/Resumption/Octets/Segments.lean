import Resumption.Octets.BigEndian

/-!
# Segmented byte strings

A byte string kept as a list of segments, so that a frame can be put together from a header, a
token and a payload without copying them. Reading consumes it from the front, across segment
boundaries.

* `Segments.of` — empty segments are left out
* `Segments.Consumer` — takes something off the front; what is gone before a failure stays gone
* `Segments.chunk`, `Segments.size`, `Segments.advance` — the three operations every consumer is
  built on
* `Segments.copy`, `Segments.number` — consumers that see no boundaries
* `Request.answer` — one operation of a consumer, with its answer and what is left
-/
namespace Resumption

structure Segments where
  parts : List ByteArray

namespace Segments

/-! ## Content -/

def of (parts : List ByteArray) : Segments :=
  ⟨parts.filter fun part => part.size ≠ 0⟩

def empty : Segments := of []

def octetCount : List ByteArray → Nat
  | [] => 0
  | part :: parts => part.size + octetCount parts

def size (s : Segments) : Nat :=
  octetCount s.parts

def isEmpty (s : Segments) : Bool :=
  s.parts.isEmpty

/-- All segments in one. -/
def toBytes (s : Segments) : ByteArray :=
  s.parts.foldl (· ++ ·) ByteArray.empty

/-- The first segment, or nothing. -/
def chunk (s : Segments) : ByteArray :=
  s.parts.headD ByteArray.empty

/-! ## Consuming -/

/-- Drops whole segments while they fit into the count and cuts the one that does not. -/
def dropOctets : Nat → List ByteArray → List ByteArray
  | 0, parts => parts
  | _ + 1, [] => []
  | n + 1, part :: parts =>
    if n + 1 < part.size then part.extract (n + 1) part.size :: parts
    else dropOctets (n + 1 - part.size) parts

def drop (n : Nat) (s : Segments) : Segments :=
  ⟨dropOctets n s.parts⟩

/-- Why an operation could not be carried out. -/
inductive Overrun where
  /-- The count to advance by is larger than what is left. -/
  | pastEnd (count available : Nat)
  /-- A reader asked for more than what is left. -/
  | tooShort
deriving DecidableEq

/-- Only advancing says what was wrong. -/
def Overrun.message? : Overrun → Option String
  | .pastEnd count available =>
    some s!"cannot advance past `remaining`: {count} <= {available}"
  | .tooShort => none

abbrev Consumer := EStateM Overrun Segments

/-- Checks the count against what is left, and drops octets only then. -/
def advance (n : Nat) : Consumer Unit := do
  let s ← get
  unless n ≤ s.size do throw (.pastEnd n s.size)
  modify (drop n)

/-- Collects up to `n` octets, chunk by chunk, behind those already collected. -/
def gather (n : Nat) (collected : ByteArray) : Consumer ByteArray := do
  let s ← get
  let step := min n s.chunk.size
  if step = 0 then return collected
  else
    advance step
    gather (n - step) (collected ++ s.chunk.extract 0 step)
termination_by n

def copy (n : Nat) : Consumer ByteArray := do
  let s ← get
  unless n ≤ s.size do throw .tooShort
  gather n ByteArray.empty

/-- A big-endian number of `width` octets. -/
def number (width : Nat) : Consumer Nat := do
  return BigEndian.decode (← copy width)

/-! ## One operation at a time -/

inductive Request where
  | advance (count : Nat)
  | copy (count : Nat)
  | number (width : Nat)
  | chunk
  | toBytes
  | parts
  | size
  | isEmpty

inductive Answer where
  | done
  | flag (value : Bool)
  | number (value : Nat)
  | bytes (value : ByteArray)
  | list (value : List ByteArray)

def Request.consumer : Request → Consumer Answer
  | .advance count => do
    Segments.advance count
    return .done
  | .copy count => return .bytes (← Segments.copy count)
  | .number width => return .number (← Segments.number width)
  | .chunk => return .bytes (← get).chunk
  | .toBytes => return .bytes (← get).toBytes
  | .parts => return .list (← get).parts
  | .size => return .number (← get).size
  | .isEmpty => return .flag (← get).isEmpty

/-- The answer to a request, and the segments it leaves behind, also where it fails. -/
def Request.answer (s : Segments) (request : Request) : Except Overrun Answer × Segments :=
  match request.consumer s with
  | .ok answer rest => (.ok answer, rest)
  | .error overrun rest => (.error overrun, rest)

end Segments

end Resumption
