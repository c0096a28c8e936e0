import Resumption.Session.Calls

/-!
# Runs of a session

Everything that can happen to a session, one action at a time, and sequences of that.

* `Action` — a step of the task, time passing, or something done from outside
* `World.act` — what an action does, or `none` where it is not possible
* `World.run` — a sequence of actions
* `Reachable` — the states that some run of a new session leads to
* `World.settle` — the run in which nothing but the task and the clock moves
-/

namespace Resumption

inductive Action where
  /-- The task does one step. -/
  | work
  /-- Time passes while nobody has anything to do. -/
  | elapse (millis : Nat)
  | fail (error : LinkError)
  | closeErrors
  | setPositions (implied position : UInt64)
  | setSendsFail (sendsFail : Bool)
  | addReconciliation (reconciliation : Reconciliation)
  | bind (token : Token.Id)
  | setSupplier (supplier : Supplier)
  | reconnect (label : String)
  | beginResume (frame : Cursor)
  | finishResume (number : Nat)
  | observe (observer : Observer)
  | hold
  | releaseHeld
  | subscribe
  | poll
  | drop

namespace World

/-- Whether a time can be reached without passing over a moment at which something is due. -/
def mayReach (time : Nat) (w : World) : Bool :=
  w.step.isNone && (w.wakeTime?.all fun wake => time ≤ wake) &&
    w.calls.all fun work => time ≤ work.due

/-- An operation of the session itself needs the session. -/
def whileOpen (w : World) (next : World) : Option World :=
  if w.isOpen then some next else none

def act (w : World) : Action → Option World
  | .work => w.step
  | .elapse millis =>
    if w.mayReach (w.now + millis) then some { w with now := w.now + millis } else none
  | .fail error => some (w.accept [error])
  | .closeErrors => some w.closeErrors
  | .setPositions implied position => some (w.setPositions implied position)
  | .setSendsFail sendsFail => some (w.setSendsFail sendsFail)
  | .addReconciliation reconciliation => some (w.addReconciliation reconciliation)
  | .bind token => if token < w.pool.next then w.whileOpen (w.bind token) else none
  | .setSupplier supplier => w.whileOpen (w.setSupplier supplier)
  | .reconnect label => w.whileOpen (w.reconnect .caller (.labelled label))
  | .beginResume frame =>
    match w.beginResume frame with
    | .ok next => w.whileOpen next
    | .error cause => w.whileOpen (w.record .caller (.returned (.error cause)))
  | .finishResume number => (w.finishResume number).map Prod.snd
  | .observe observer => w.whileOpen (w.observe observer)
  | .hold => w.whileOpen w.hold
  | .releaseHeld => some w.releaseHeld
  | .subscribe => w.whileOpen w.subscribe
  | .poll => some w.poll
  | .drop => if w.calls.isEmpty then w.whileOpen w.drop else none

def run (w : World) : List Action → Option World
  | [] => some w
  | action :: actions => (w.act action).bind fun next => next.run actions

/-- Lets the task and the clock move until `time`; everything due by then is done. `none` where
`fuel` steps are not enough. -/
def settle (time : Nat) : Nat → World → Option World
  | 0, _ => none
  | fuel + 1, w =>
    match w.step with
    | some next => next.settle time fuel
    | none =>
      match w.wakeTime? with
      | some wake =>
        if wake ≤ time then { w with now := wake }.settle time fuel
        else some { w with now := time }
      | none => some { w with now := time }

end World

/-- A state that a new session can come to. -/
def Reachable (w : World) : Prop :=
  ∃ config tokens reconciliations bursts actions,
    (World.initial config tokens reconciliations bursts).run actions = some w

end Resumption
