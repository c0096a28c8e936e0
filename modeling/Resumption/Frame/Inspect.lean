import Resumption.Frame.Failure
import Resumption.Frame.ResumeOk

/-!
# Inspecting a frame step by step

The operations on a cursor as data, so that a whole sequence of them can be carried out and talked
about.

* `Inspection` — one operation
* `Inspection.answer` — its answer and the cursor afterwards
-/

namespace Resumption

inductive Inspection where
  | setMark
  | reset
  | skip (count : Nat)
  | uint8
  | uint16
  | uint32
  | uint64
  | take (count : Nat)
  | rest
  | length
  | metadata (present : Bool)
  | data (present : Bool)
  | header
  | resume
  | resumeOk
  | errorCode
  | errorMessage

namespace Inspection

inductive Finding where
  | done
  | number (value : Nat)
  | bytes (value : ByteArray)
  | header (value : Header)
  | resume (value : Resume)
  | code (value : ErrorCode)
  | text (value : String)

def reader : Inspection → Reader Finding
  | .setMark => do Reader.setMark; return .done
  | .reset => do Reader.reset; return .done
  | .skip count => do Reader.skip count; return .done
  | .uint8 => do return .number (← Reader.uint8).toNat
  | .uint16 => do return .number (← Reader.uint16).toNat
  | .uint32 => do return .number (← Reader.uint32).toNat
  | .uint64 => do return .number (← Reader.uint64).toNat
  | .take count => do return .bytes (← Reader.take count)
  | .rest => do return .bytes (← Reader.rest)
  | .length => do return .number (← Reader.length)
  | .metadata present => do return .bytes (← Body.metadata present)
  | .data present => do return .bytes (← Body.data present)
  | .header => do return .header (← Header.peek)
  | .resume => do return .resume (← Resume.decode)
  | .resumeOk => do return .number (← ResumeOk.position).toNat
  | .errorCode => do return .code (← Failure.code)
  | .errorMessage => do return .text (← Failure.message)

def answer (c : Cursor) (inspection : Inspection) : Except DecodeError Finding × Cursor :=
  match inspection.reader c with
  | .ok finding c' => (.ok finding, c')
  | .error e c' => (.error e, c')

end Inspection

end Resumption
