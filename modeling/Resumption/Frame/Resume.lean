import Resumption.Frame.Body

/-!
# RESUME frames

What a client sends on a new connection: the protocol version, the resume token with its 16-bit
length, and two positions.
-/

namespace Resumption

structure Resume where
  token : ByteArray
  /-- The last position received from the server. -/
  implied : UInt64
  /-- The first position that can still be sent again. -/
  position : UInt64
deriving BEq

namespace Resume

def majorVersion : UInt16 := 1

def minorVersion : UInt16 := 0

/-- Octets of a token length. -/
def tokenLengthSize : Nat := 2

/-- Octets of a position. -/
def positionSize : Nat := 8

def encode (frame : Resume) : Except EncodeError Segments :=
  if frame.token.size < 65536 then
    .ok (.of
      [(Header.masked Header.connectionStream .resume 0).encode
          ++ BigEndian.encode 2 majorVersion.toNat
          ++ BigEndian.encode 2 minorVersion.toNat
          ++ BigEndian.encode tokenLengthSize frame.token.size,
        frame.token,
        BigEndian.encode positionSize frame.implied.toNat
          ++ BigEndian.encode positionSize frame.position.toNat])
  else .error (.tokenTooLong frame.token.size)

/-- Any version is accepted, and so is anything behind the last field. -/
def body : Reader Resume := do
  Reader.skip 2
  Reader.skip 2
  let length ← Reader.number tokenLengthSize
  let token ← Reader.take length
  let implied ← Reader.uint64
  let position ← Reader.uint64
  return { token, implied, position }

/-- Looks at the RESUME frame that comes next. -/
def decode : Reader Resume := do
  let _ ← Header.expect .resume
  let part ← Body.data false
  Reader.within part body

end Resume

end Resumption
