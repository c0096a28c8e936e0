import Resumption.Session.Collaborators
import Resumption.Session.Status
import Resumption.Token.Holdings

/-!
# The journal of a session

Everything that happens to a session is written down with its time and with who did it: the calls
made to collaborators with their answers, and what became of errors, statuses, episodes and the
bound token.
-/

namespace Resumption

inductive Actor where
  /-- The session's own task. -/
  | task
  /-- A caller of the session. -/
  | caller
  /-- The resumable connection. -/
  | link
deriving DecidableEq

/-- How an episode ended. -/
inductive Ending where
  | resumed
  | rejected
  | failed (cause : RecoveryError)
  /-- The deadline came first. -/
  | cut
  /-- The session was dropped. -/
  | dropped
deriving DecidableEq

inductive Event where
  /-- A strategy was made. -/
  | strategyMade
  /-- The strategy was asked. -/
  | consulted (cause : RecoveryError) (snapshot : Snapshot) (token : ByteArray)
  /-- The strategy replied, with a delay or with the reason why it gave none. -/
  | advised (reply : Except String Duration)
  /-- An attempt to reconnect began. -/
  | attempted
  /-- A supplier was asked for a connection. -/
  | dialled (supplier : String)
  /-- The supplier had none. -/
  | refused (cause : LinkError)
  /-- The connection of that number was split into its channels. -/
  | demultiplexed (connection : Nat)
  | reconnected (target : Target)
  /-- The resumable connection was asked for its positions. -/
  | positionsRead (implied position : UInt64)
  /-- A frame was sent; `shares` are the share counts of all tokens meanwhile. -/
  | sent (frame : ByteArray) (failed : Bool) (shares : List Nat)
  /-- A frame was waited for on the setup channel of that connection. -/
  | listened (connection : Nat)
  /-- What came on the setup channel, or `none` where it was closed. -/
  | heard (answer : Option ByteArray)
  /-- The resumable connection was told the peer's position and what the peer has received. -/
  | reconciling (position : Int) (implied : UInt64)
  /-- The resumable connection took the position, or it could not. -/
  | reconciled (error : Option RecoveryError)
  /-- The resumable connection was disposed. -/
  | disposed
  /-- An observer was told a status. -/
  | told (observer : String) (status : Status)
  /-- The session entered a status. -/
  | entered (status : Status)
  /-- An error was put into the stream. -/
  | accepted (error : LinkError)
  /-- An error was taken from the stream and began an episode. -/
  | taken (error : LinkError)
  /-- An error was taken from the stream and dropped. -/
  | discarded (error : LinkError)
  /-- An episode was over. -/
  | ended (how : Ending)
  /-- A caller's resumption came to its end. -/
  | returned (result : Except DecodeError Outcome)
  /-- A caller bound a token. -/
  | bound (token : Token.Id)
  /-- The task was over. -/
  | stopped
  /-- The session was dropped. -/
  | dropped

/-- Whether an event is part of a report. Reports show the calls that have an effect. -/
def Event.isReported : Event → Bool
  | .attempted | .refused _ | .positionsRead _ _ | .heard _ | .reconciled _ | .entered _
  | .accepted _ | .taken _ | .discarded _ | .ended _ | .returned _ | .bound _ | .stopped
  | .dropped => false
  | _ => true

structure Entry where
  time : Nat
  actor : Actor
  event : Event

end Resumption
