import Resumption.Frame.Failure
import Resumption.Frame.ResumeOk
import Resumption.Session.Config
import Resumption.Session.Journal
import Resumption.Session.Observer

/-!
# A session and what surrounds it

The state of a session, of its resumable connection and of the tokens, at one moment of virtual
time, with the elementary changes that everything else is composed of.

* `World` — the state; `Task` and `Stage` say how far the session's own task has come
* `World.accept`, `World.discardErrors` — the error stream
* `World.enter` — a change of status; a terminal one is final
* `World.dispose`, `World.terminate` — the two ways to an end
* `World.beginReconciling`, `World.finishReconciling` — the outcome step of a resumption
-/

namespace Resumption

/-! ## The task -/

/-- What an episode is doing. -/
inductive Stage where
  /-- About to ask the strategy. -/
  | consulting (cause : RecoveryError)
  /-- Waiting for the strategy's reply. -/
  | advised (reply : Pending (Except String Duration))
  /-- Waiting before an attempt. -/
  | backingOff (due : Nat)
  /-- Waiting for a connection. -/
  | dialling (answer : Pending (Except LinkError Peer))
  /-- Holding a RESUME frame that is about to be sent. -/
  | announcing (channel : Channel) (implied position : UInt64)
  /-- Waiting for RESUME_OK. -/
  | listening (answer : Pending (Option ByteArray))
  /-- Waiting for the positions to be reconciled. -/
  | reconciling (work : Reconciling)

/-- Whether a RESUME frame is alive, with a share of its own. -/
def Stage.holdsFrame : Stage → Bool
  | .announcing _ _ _ => true
  | _ => false

/-- When what an episode waits for is there. -/
def Stage.time? : Stage → Option Nat
  | .advised reply => reply.time?
  | .backingOff due => some due
  | .dialling answer => answer.time?
  | .listening answer => answer.time?
  | .reconciling work => some work.due
  | .consulting _ | .announcing _ _ _ => none

structure Episode where
  snapshot : Snapshot
  strategy : Strategy
  deadline : Nat
  stage : Stage

def Episode.token (ep : Episode) : Token.Id :=
  ep.snapshot.token

inductive Task where
  /-- Waiting for an error. -/
  | idle
  | recovering (episode : Episode)
  | ended

def Task.isEnded : Task → Bool
  | .ended => true
  | _ => false

/-! ## The state -/

structure World where
  /-- Milliseconds since the beginning. -/
  now : Nat
  config : Config
  pool : Pool
  /-- The error stream, earliest first. -/
  errors : List LinkError
  errorsClosed : Bool
  /-- What the resumable connection has received. -/
  implied : UInt64
  /-- What the resumable connection can send again from. -/
  position : UInt64
  sendsFail : Bool
  reconciliations : List Reconciliation
  /-- How many errors the next calls of `reconnect` raise. -/
  bursts : List Nat
  /-- Connections made so far. -/
  connections : Nat
  /-- Whether the session has not been dropped. -/
  isOpen : Bool
  status : Status
  disposed : Bool
  supplier : Option Supplier
  /-- The token bound to the session. -/
  bound : Option Token.Id
  observer : Option Observer
  /-- Episodes begun with a token. -/
  episodes : Nat
  task : Task
  /-- Resumptions that callers are waiting for. -/
  calls : List Reconciling
  /-- Whether the status has changed since the subscriber last looked, if there is one. -/
  subscriber : Option Bool
  /-- Shares that callers took from the session and kept. -/
  held : List Token.Id
  /-- Latest first. -/
  journal : List Entry

namespace World

/-- A session that has just been made; each token has one share, held outside. -/
def initial (config : Config) (tokens : List ByteArray) (reconciliations : List Reconciliation)
    (bursts : List Nat) : World where
  now := 0
  config := config
  pool := .ofList tokens
  errors := []
  errorsClosed := false
  implied := 0
  position := 0
  sendsFail := false
  reconciliations := reconciliations
  bursts := bursts
  connections := 0
  isOpen := true
  status := .active
  disposed := false
  supplier := none
  bound := none
  observer := none
  episodes := 0
  task := .idle
  calls := []
  subscriber := none
  held := []
  journal := []

def record (actor : Actor) (event : Event) (w : World) : World :=
  { w with journal := ⟨w.now, actor, event⟩ :: w.journal }

/-- Several events at the same time, in order. -/
def recordAll (actor : Actor) (events : List Event) (w : World) : World :=
  { w with journal := (events.map fun event => ⟨w.now, actor, event⟩).reverse ++ w.journal }

def retain (token : Token.Id) (w : World) : World :=
  { w with pool := w.pool.retain token }

def release (token : Token.Id) (w : World) : World :=
  { w with pool := w.pool.release token }

/-! ## The error stream -/

/-- Whether the stream takes a further error: it is open and somebody reads it. -/
def listens (w : World) : Bool :=
  !w.errorsClosed && !w.task.isEnded

/-- Puts errors into the stream; nothing happens if it takes none. -/
def accept (errors : List LinkError) (w : World) : World :=
  if w.listens then
    { w with errors := w.errors ++ errors }.recordAll .link (errors.map .accepted)
  else w

/-- The connection fails `count` times. -/
def raise (count : Nat) (w : World) : World :=
  w.accept (List.replicate count .closed)

def discardErrors (w : World) : World :=
  { w with errors := [] }.recordAll .task (w.errors.map .discarded)

/-! ## Status -/

/-- Tells an observer the current status. -/
def tell (actor : Actor) (observer : Observer) (w : World) : World :=
  w.recordAll actor ((observer.told w.status).map fun name => .told name w.status)

def enter (actor : Actor) (status : Status) (w : World) : World :=
  if w.status.isTerminal ∨ w.status = status then w
  else
    let w := { w with status, subscriber := w.subscriber.map fun _ => true }
    let w := w.record actor (.entered status)
    match w.observer with
    | none => w
    | some observer =>
      { w.tell actor observer with observer := some (observer.successor status) }

/-- Only the first call has an effect. -/
def dispose (actor : Actor) (w : World) : World :=
  if w.disposed then w
  else ({ w with disposed := true }.record actor .disposed).enter actor .disposed

/-- Gives back the bound token. -/
def unbind (w : World) : World :=
  match w.bound with
  | none => w
  | some token => { w.release token with bound := none }

/-- The task's last act. -/
def terminate (w : World) : World :=
  let w := w.unbind
  let w := if w.disposed then w else w.enter .task .closed
  { w.record .task .stopped with task := .ended }

/-! ## Calls of the resumable connection -/

/-- A send takes no time, and whether it failed is of no consequence. -/
def send (actor : Actor) (frame : ByteArray) (w : World) : World :=
  w.record actor (.sent frame w.sendsFail w.pool.counts)

def reconnect (actor : Actor) (target : Target) (w : World) : World :=
  let w := w.record actor (.reconnected target)
  { w with bursts := w.bursts.tail }.raise (w.bursts.headD 0)

/-- Stands for the peer's own position, which RESUME_OK does not carry. -/
def unknownPosition : Int := -1

def beginReconciling (actor : Actor) (position : UInt64) (w : World) : Reconciling × World :=
  let reply := w.reconciliations.headD .success
  let w := { w with reconciliations := w.reconciliations.tail }
  (⟨position, w.now + reply.delay, reply⟩,
    w.record actor (.reconciling unknownPosition position))

/-- The ERROR frame that tells the peer its position could not be reconciled. -/
def rejection (position : UInt64) : ByteArray :=
  (Failure.encode Header.connectionStream .connectionError
    s!"resumption_server_pos=[{position}]").toBytes

def finishReconciling (actor : Actor) (work : Reconciling) (w : World) : Outcome × World :=
  let w := (w.raise work.reply.raises).record actor (.reconciled work.reply.error)
  match work.reply.error with
  | none => (.resumed, w.enter actor .resumed)
  | some _ => (.rejected, (w.send actor (rejection work.position)).dispose actor)

end World

end Resumption
