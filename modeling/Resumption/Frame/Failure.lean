import Resumption.Frame.Body
import Resumption.Frame.ErrorCode

/-!
# ERROR frames

What either side sends before it gives up: a code in four octets and a message in UTF-8.
-/

namespace Resumption.Failure

/-- Octets of an error code. -/
def codeSize : Nat := 4

def encode (stream : UInt32) (code : ErrorCode) (message : String) : Segments :=
  Body.headed
    ((Header.masked stream .error 0).encode ++ BigEndian.encode codeSize code.code.toNat)
    message.toUTF8

/-- The body of the ERROR frame that comes next. -/
def body : Reader ByteArray := do
  let _ ← Header.expect .error
  Body.data false

/-- Looks at the code. -/
def code : Reader ErrorCode := do
  let part ← body
  Reader.within part do
    let code ← Reader.uint32
    Reader.require (.unknownErrorCode code) (ErrorCode.ofCode? code)

/-- Looks at the message; the code in front of it may be any. -/
def message : Reader String := do
  let part ← body
  Reader.within part do
    Reader.skip codeSize
    let octets ← Reader.rest
    match Utf8.decode octets with
    | .ok text => return text
    | .error defect => throw (.invalidText defect)

end Resumption.Failure
