import Resumption.Frame.Resume

/-!
# RESUME_OK frames

What a server answers to a RESUME that it accepts: the last position it received from the client.
-/

namespace Resumption.ResumeOk

def encode (position : UInt64) : Segments :=
  Body.headed (Header.masked Header.connectionStream .resumeOk 0).encode
    (BigEndian.encode Resume.positionSize position.toNat)

/-- Looks at the position in the RESUME_OK frame that comes next. -/
def position : Reader UInt64 := do
  let _ ← Header.expect .resumeOk
  let part ← Body.data false
  Reader.within part Reader.uint64

end Resumption.ResumeOk
