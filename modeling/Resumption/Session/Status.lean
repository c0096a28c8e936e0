/-!
# The status of a session
-/

namespace Resumption

inductive Status where
  /-- Frames flow. -/
  | active
  /-- The connection failed and a new one is being looked for. -/
  | recovering
  /-- A new connection is in place. -/
  | reestablished
  /-- RESUME was sent. -/
  | resumeSent
  /-- The peer accepted, and frames flow again. -/
  | resumed
  /-- Recovery took too long or was refused. -/
  | disposed
  /-- The connection was closed while nothing was wrong. -/
  | closed
deriving DecidableEq

namespace Status

def all : List Status :=
  [active, recovering, reestablished, resumeSent, resumed, disposed, closed]

def name : Status → String
  | active => "Active"
  | recovering => "Recovering"
  | reestablished => "Reestablished"
  | resumeSent => "ResumeSent"
  | resumed => "Resumed"
  | disposed => "Disposed"
  | closed => "Closed"

/-- No status follows a terminal one. -/
def isTerminal : Status → Bool
  | disposed | closed => true
  | _ => false

end Status

end Resumption
