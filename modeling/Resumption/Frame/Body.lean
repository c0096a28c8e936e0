import Resumption.Frame.Header
import Resumption.Octets.Segments

/-!
# Frame bodies

Behind the header comes the metadata with its 24-bit length, if the header announces any, and then
the data.

* `Body.appendLength` — writes a length, or nothing if it does not fit
* `Body.encode`, `Body.headed` — a frame with and without a metadata length
* `Body.metadata`, `Body.data` — look at the two parts of the frame that comes next
-/

namespace Resumption.Body

/-- Octets of a metadata length. -/
def lengthSize : Nat := 3

/-- The largest length that can be written. -/
def maxLength : Nat := 0xFFFFFF

/-! ## Writing -/

def appendLength (bytes : ByteArray) (length : Nat) : Except EncodeError ByteArray :=
  if length ≤ maxLength then .ok (bytes ++ BigEndian.encode lengthSize length)
  else .error (.lengthOutOfRange length)

/-- A header and one part of a body as they are. -/
def headed (header part : ByteArray) : Segments :=
  .of [header, part]

def encode (header metadata data : ByteArray) : Except EncodeError Segments := do
  let header ← appendLength header metadata.size
  return .of [header, metadata, data]

/-! ## Reading -/

/-- Empty if the frame has no metadata. -/
def metadata (present : Bool) : Reader ByteArray := Reader.peek do
  Reader.skip Header.size
  if present then
    let length ← Reader.length
    Reader.take length
  else return ByteArray.empty

/-- Everything behind the metadata. -/
def data (present : Bool) : Reader ByteArray := Reader.peek do
  Reader.skip Header.size
  if present then
    let length ← Reader.length
    Reader.skip length
  Reader.rest

end Resumption.Body
