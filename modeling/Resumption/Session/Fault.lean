import Resumption.Frame.Fault

/-!
# What can go wrong in a session

* `LinkError` — a connection failed
* `RecoveryError` — one attempt to recover failed; `isRetryable` says whether another may follow
-/

namespace Resumption

inductive LinkError where
  | closed
  | io (reason : String)
deriving DecidableEq

def LinkError.message : LinkError → String
  | .closed => "connection closed"
  | .io reason => "I/O error: " ++ reason

inductive RecoveryError where
  /-- The connection in use, or the one being made, failed. -/
  | connection (cause : LinkError)
  /-- The strategy gave no delay. -/
  | strategy (reason : String)
  | noSupplier
  | missingToken
  /-- The setup channel was closed before RESUME_OK. -/
  | setupClosed
  | encode (cause : EncodeError)
  | decode (cause : DecodeError)
  /-- The positions could not be reconciled. -/
  | rejected (reason : String)
deriving DecidableEq

namespace RecoveryError

def message : RecoveryError → String
  | .connection cause => "connection error: " ++ cause.message
  | .strategy reason => "resume strategy failed: " ++ reason
  | .noSupplier => "no next connection supplier installed"
  | .missingToken => "no resume token bound to the session"
  | .setupClosed => "setup connection closed before RESUME_OK"
  | .encode cause => "failed to encode frame: " ++ cause.message
  | .decode cause => "failed to decode frame: " ++ cause.message
  | .rejected reason => "resumption rejected: " ++ reason

/-- Whether another attempt in the same episode may succeed. -/
def isRetryable : RecoveryError → Bool
  | .missingToken | .encode _ | .rejected _ => false
  | _ => true

/-- The messages of the errors behind this one, outermost first. -/
def sources : RecoveryError → List String
  | .connection cause => [cause.message]
  | .encode cause => [cause.message]
  | .decode (.invalidText defect) => [DecodeError.message (.invalidText defect), defect.message]
  | .decode cause => [cause.message]
  | _ => []

end RecoveryError

end Resumption
