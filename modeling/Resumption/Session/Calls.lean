import Resumption.Session.Recovery

/-!
# What callers do with a session

The public operations of a session, and what can happen to its resumable connection from outside.

* `World.bind`, `World.setSupplier`, `World.observe` — what is installed last is in use
* `World.beginResume`, `World.finishResume` — a resumption carried out for a caller
* `World.drop` — cancels the task wherever it stands and gives back every share
-/

namespace Resumption.World

/-! ## The resumable connection -/

def closeErrors (w : World) : World :=
  { w with errorsClosed := true }

def setPositions (implied position : UInt64) (w : World) : World :=
  { w with implied, position }

def setSendsFail (sendsFail : Bool) (w : World) : World :=
  { w with sendsFail }

def addReconciliation (reconciliation : Reconciliation) (w : World) : World :=
  { w with reconciliations := w.reconciliations ++ [reconciliation] }

/-! ## The session -/

/-- Takes a share of the token; the one bound before is given back. -/
def bind (token : Token.Id) (w : World) : World :=
  { (w.retain token).unbind with bound := some token }.record .caller (.bound token)

def setSupplier (supplier : Supplier) (w : World) : World :=
  { w with supplier := some supplier }

/-- The observer is told the current status before it takes its place. -/
def observe (observer : Observer) (w : World) : World :=
  { w.tell .caller observer with observer := some observer }

/-- Keeps a share of the bound token, if there is one. -/
def hold (w : World) : World :=
  match w.bound with
  | none => w
  | some token => { w.retain token with held := token :: w.held }

def releaseHeld (w : World) : World :=
  { w with pool := w.held.foldl Pool.release w.pool, held := [] }

def subscribe (w : World) : World :=
  { w with subscriber := some false }

/-- Looking makes a change an old one. -/
def poll (w : World) : World :=
  { w with subscriber := w.subscriber.map fun _ => false }

/-- Takes a RESUME_OK frame from a caller. A frame that does not decode is refused, and nothing
else happens. -/
def beginResume (frame : Cursor) (w : World) : Except DecodeError World :=
  match ResumeOk.position frame with
  | .error cause _ => .error cause
  | .ok position _ =>
    let (work, w) := w.beginReconciling .caller position
    .ok { w with calls := w.calls ++ [work] }

/-- Ends the resumption of the given number among those under way. -/
def finishResume (number : Nat) (w : World) : Option (Outcome × World) :=
  match w.calls[number]? with
  | none => none
  | some work =>
    if work.due ≤ w.now then
      let (outcome, w) :=
        { w with calls := w.calls.eraseIdx number }.finishReconciling .caller work
      some (outcome, w.record .caller (.returned (.ok outcome)))
    else none

/-- Only a session on which no call is under way can be dropped. -/
def drop (w : World) : World :=
  let w :=
    match w.task with
    | .recovering ep => (w.abandon ep).record .caller (.ended .dropped)
    | _ => w
  { w.unbind with isOpen := false, task := .ended, supplier := none, observer := none }.record
    .caller .dropped

end Resumption.World
