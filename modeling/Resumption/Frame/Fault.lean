import Resumption.Frame.Kind
import Resumption.Text.Hex
import Resumption.Text.Utf8

/-!
# What can be wrong with a frame

* `EncodeError` — a part is too long for its length field
* `DecodeError` — the first thing in wire order that does not fit
-/

namespace Resumption

inductive EncodeError where
  /-- The metadata does not fit its 24-bit length. -/
  | lengthOutOfRange (length : Nat)
  /-- The resume token does not fit its 16-bit length. -/
  | tokenTooLong (length : Nat)
deriving DecidableEq

def EncodeError.message : EncodeError → String
  | .lengthOutOfRange length => s!"length {length} is larger than 24 bits"
  | .tokenTooLong length => s!"resume token of {length} bytes is larger than 16 bits"

inductive DecodeError where
  /-- A field of `needed` octets with only `remaining` octets left. -/
  | incomplete (needed remaining : Nat)
  /-- Type bits that name no kind of frame. -/
  | unknownKind (code : UInt8)
  /-- A frame of another kind than the one being decoded. -/
  | unexpectedKind (expected actual : Kind)
  /-- An error code that is not listed. -/
  | unknownErrorCode (code : UInt32)
  /-- A message that is not UTF-8. -/
  | invalidText (defect : Utf8.Defect)
deriving DecidableEq

def DecodeError.message : DecodeError → String
  | .incomplete needed remaining =>
    s!"incomplete frame: needed {needed} bytes, {remaining} remaining"
  | .unknownKind code => "unknown frame type " ++ Hex.padded 2 code.toNat
  | .unexpectedKind expected actual =>
    "unexpected frame type " ++ actual.name ++ ", expected " ++ expected.name
  | .unknownErrorCode code => "unknown error code " ++ Hex.padded 4 code.toNat
  | .invalidText defect => "error message is not valid UTF-8: " ++ defect.message

end Resumption
