import Resumption.Session.Fault

/-!
# What a session works with

The collaborators of a session, each given by the answers it will give. Times are whole
milliseconds.

* `Pending` — an answer that is under way
* `Supplier` — makes connections, one `Dial` after the other
* `Channel` — the setup channel of a connection, on which the peer answers
* `Reconciliation` — how the resumable connection takes a position reported by the peer
-/

namespace Resumption

/-- An answer under way: it is there from some time on, or it never comes. -/
inductive Pending (α : Type) where
  | due (time : Nat) (value : α)
  | never

namespace Pending

variable {α : Type}

def ready? (now : Nat) : Pending α → Option α
  | .due time value => if time ≤ now then some value else none
  | .never => none

def time? : Pending α → Option Nat
  | .due time _ => some time
  | .never => none

end Pending

/-! ## Connections -/

/-- Where frames of the resumable connection go from now on. -/
inductive Target where
  /-- The request channel of the connection of that number. -/
  | request (connection : Nat)
  /-- A connection that a caller brought along. -/
  | labelled (label : String)
deriving DecidableEq

def Target.label : Target → String
  | .request connection => s!"request-{connection}"
  | .labelled label => label

structure SetupFrame where
  delay : Nat
  bytes : ByteArray

/-- What the peer does on a setup channel. -/
structure Peer where
  frames : List SetupFrame
  /-- Whether it keeps the channel open when it has nothing more to say. -/
  staysOpen : Bool

structure Channel where
  /-- The connection it belongs to. -/
  connection : Nat
  peer : Peer

/-- The next frame, or `none` where the channel is closed. -/
def Channel.receive (now : Nat) (c : Channel) : Pending (Option ByteArray) :=
  match c.peer.frames with
  | frame :: _ => .due (now + frame.delay) (some frame.bytes)
  | [] => if c.peer.staysOpen then .never else .due now none

inductive DialOutcome where
  | connected (peer : Peer)
  | failed (cause : LinkError)
  | hung

/-- One attempt to make a connection. -/
structure Dial where
  /-- How many errors the connection in use raises meanwhile. -/
  raises : Nat
  delay : Nat
  outcome : DialOutcome

def Dial.hanging : Dial := ⟨0, 0, .hung⟩

def Dial.answer (now : Nat) (d : Dial) : Pending (Except LinkError Peer) :=
  match d.outcome with
  | .connected peer => .due (now + d.delay) (.ok peer)
  | .failed cause => .due (now + d.delay) (.error cause)
  | .hung => .never

structure Supplier where
  name : String
  /-- When they are used up, further ones hang. -/
  dials : List Dial

/-! ## Reconciling positions -/

structure Reconciliation where
  delay : Nat
  /-- How many errors the new connection raises meanwhile. -/
  raises : Nat
  error : Option RecoveryError
deriving DecidableEq

def Reconciliation.success : Reconciliation := ⟨0, 0, none⟩

/-- A position reported by the peer, being reconciled until `due`. -/
structure Reconciling where
  position : UInt64
  due : Nat
  reply : Reconciliation
deriving DecidableEq

inductive Outcome where
  | resumed
  | rejected
deriving DecidableEq

end Resumption
