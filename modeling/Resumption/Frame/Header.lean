import Resumption.Frame.Cursor

/-!
# Frame headers

Every frame begins with six octets: the stream in four, then the kind in six bits and the flags in
ten. Metadata in the body is announced by one of the flags.

* `Header.masked` — a header whose flags fit their ten bits
* `Header.encode`, `Header.peek` — write a header, look at the one that comes next
-/

namespace Resumption

structure Header where
  stream : UInt32
  kind : Kind
  /-- Bits above the ten flag bits spill into the kind when the header is written. -/
  flags : UInt16
deriving DecidableEq

namespace Header

/-! ## Layout -/

def streamSize : Nat := 4

def kindAndFlagsSize : Nat := 2

/-- Octets of a header. -/
def size : Nat := streamSize + kindAndFlagsSize

/-- Bits below the kind. -/
def kindShift : UInt16 := 10

def flagsMask : UInt16 := 0x3FF

/-- Set on a frame that may be ignored. -/
def ignoreFlag : UInt16 := 0x200

/-- Set on a frame whose body begins with metadata. -/
def metadataFlag : UInt16 := 0x100

/-- The stream of frames about the connection itself. -/
def connectionStream : UInt32 := 0

/-! ## Headers -/

def masked (stream : UInt32) (kind : Kind) (flags : UInt16) : Header :=
  ⟨stream, kind, flags &&& flagsMask⟩

def hasMetadata (h : Header) : Bool :=
  h.flags &&& metadataFlag != 0

theorem hasMetadata_iff (h : Header) : h.hasMetadata = true ↔ h.flags &&& 0x100 ≠ 0 :=
  bne_iff_ne

theorem hasMetadata_eq_false_iff (h : Header) : h.hasMetadata = false ↔ h.flags &&& 0x100 = 0 :=
  bne_eq_false_iff_eq

def kindAndFlags (h : Header) : UInt16 :=
  (h.kind.code.toUInt16 <<< kindShift) ||| h.flags

def encode (h : Header) : ByteArray :=
  BigEndian.encode streamSize h.stream.toNat ++
    BigEndian.encode kindAndFlagsSize h.kindAndFlags.toNat

def read : Reader Header := do
  let stream ← Reader.uint32
  let word ← Reader.uint16
  let code := (word >>> kindShift).toUInt8
  let kind ← Reader.require (.unknownKind code) (Kind.ofCode? code)
  return masked stream kind word

def peek : Reader Header :=
  Reader.peek read

/-- Looks at the header and insists on its kind. -/
def expect (kind : Kind) : Reader Header := do
  let header ← peek
  if header.kind = kind then return header
  else throw (.unexpectedKind kind header.kind)

end Header

end Resumption
