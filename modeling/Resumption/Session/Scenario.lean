import Resumption.Session.Run

/-!
# Scenarios

A session carried through a list of steps in virtual time, with a report after each step: its
result, what was written into the journal, the status and the share counts. The task moves only in
the steps that let time pass.

* `Scenario.Step` — one step
* `Scenario.perform` — its result and the state afterwards
* `Scenario.play` — all steps, with their reports
-/

namespace Resumption.Scenario

inductive Step where
  /-- Lets time pass; everything due by its end is done. -/
  | wait (millis : Nat)
  | bind (token : Token.Id)
  | setSupplier (supplier : Supplier)
  | fail (error : LinkError)
  | closeErrors
  | setPositions (implied position : UInt64)
  | readPositions
  | setSendsFail (sendsFail : Bool)
  | addReconciliation (reconciliation : Reconciliation)
  /-- The first `skip` octets are skipped, if there are so many. -/
  | resume (frame : ByteArray) (skip : Nat)
  | reconnect (label : String)
  | token
  | hold
  | releaseHeld
  | observe (observer : Observer)
  | subscribe
  | poll
  | drop

inductive Result where
  | nothing
  /-- The session is gone. -/
  | dropped
  /-- The error was put into the stream. -/
  | sent
  /-- The error stream has ended. -/
  | streamClosed
  /-- Nobody reads the error stream any more. -/
  | noReader
  | positions (implied position : UInt64)
  | outcome (outcome : Outcome)
  | failed (error : RecoveryError)
  | token (bytes : Option ByteArray)
  | flag (value : Bool)
  /-- Whether the status has changed, or `none` where it can change no more because the session is
  gone. -/
  | polled (changed : Option Bool) (status : Status)

/-! ## Steps -/

def settled (fuel time : Nat) (w : World) : Option (Result × World) :=
  (w.settle time fuel).map fun w => (.nothing, w)

/-- A resumption for a caller, who waits until it is finished. The task goes on meanwhile; what
both do at the same moment, the caller does first. -/
def resume (fuel : Nat) (frame : Cursor) (w : World) : Option (Result × World) :=
  match w.beginResume frame with
  | .error cause => some (.failed (.decode cause), w)
  | .ok w => do
    let work ← w.calls.getLast?
    let w ← if work.due ≤ w.now then some w else w.settle (work.due - 1) fuel
    let (outcome, w) ← { w with now := max w.now work.due }.finishResume (w.calls.length - 1)
    return (.outcome outcome, w)

def start (bytes : ByteArray) (skip : Nat) : Cursor :=
  if skip ≤ bytes.size then ⟨bytes, skip, 0⟩ else .start bytes

/-- What the stream says to one more error. -/
def failure (w : World) : Result :=
  if w.errorsClosed then .streamClosed
  else if w.task.isEnded then .noReader
  else .sent

/-- `none` where `fuel` steps of the task are not enough. -/
def perform (fuel : Nat) (w : World) : Step → Option (Result × World)
  | .wait millis => settled fuel (w.now + millis) w
  | .fail error => some (failure w, w.accept [error])
  | .closeErrors => some (.nothing, w.closeErrors)
  | .setPositions implied position => some (.nothing, w.setPositions implied position)
  | .setSendsFail sendsFail => some (.nothing, w.setSendsFail sendsFail)
  | .addReconciliation reconciliation => some (.nothing, w.addReconciliation reconciliation)
  | .releaseHeld => some (.nothing, w.releaseHeld)
  | .poll =>
    match w.subscriber with
    | none => some (.nothing, w)
    | some changed =>
      some (.polled (if w.isOpen then some changed else none) w.status, w.poll)
  | .drop => settled fuel w.now (if w.isOpen then w.drop else w)
  | .bind token => whileOpen <| some (.nothing, w.bind token)
  | .setSupplier supplier => whileOpen <| some (.nothing, w.setSupplier supplier)
  | .readPositions => whileOpen <| some (.positions w.implied w.position, w)
  | .resume frame skip => whileOpen <| resume fuel (start frame skip) w
  | .reconnect label => whileOpen <| some (.nothing, w.reconnect .caller (.labelled label))
  | .token => whileOpen <| some (.token (w.bound.map w.pool.bytes), w)
  | .hold => whileOpen <| some (.flag w.bound.isSome, w.hold)
  | .observe observer => whileOpen <| some (.nothing, w.observe observer)
  | .subscribe => whileOpen <| some (.nothing, w.subscribe)
where
  whileOpen (next : Option (Result × World)) : Option (Result × World) :=
    if w.isOpen then next else some (.dropped, w)

/-! ## Reports -/

structure Report where
  time : Nat
  result : Result
  /-- The calls made since the step before, earliest first. -/
  log : List Entry
  /-- `none` once the session is gone. -/
  status : Option Status
  shares : List Nat

def report (before after : World) (result : Result) : Report where
  time := after.now
  result := result
  log :=
    ((after.journal.take (after.journal.length - before.journal.length)).filter
      fun entry => entry.event.isReported).reverse
  status := if after.isOpen then some after.status else none
  shares := after.pool.counts

def play (fuel : Nat) (w : World) : List Step → Option (List Report)
  | [] => some []
  | step :: steps => do
    let (result, next) ← perform fuel w step
    return report w next result :: (← play fuel next steps)

end Resumption.Scenario
