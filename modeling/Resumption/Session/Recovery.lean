import Resumption.Session.World

/-!
# The session's own task

The task takes an error from the stream, works through one recovery episode, and goes back to the
stream if the session was resumed. Everything it does between two points where it may have to wait
is one step.

An attempt asks the supplier for a connection, drops the errors of the transports it replaces,
reconnects, sends RESUME and waits for RESUME_OK. It is tried again after any error but those that
no further attempt can mend.

* `World.proceed` — what an episode does next, unless it has to wait
* `World.step` — the same for the whole task; an episode that has to wait at its deadline is cut
* `World.wakeTime?` — when a task that has to wait goes on
-/

namespace Resumption

def Advice.answer (now : Nat) (a : Advice) : Pending (Except String Duration) :=
  match a.reply with
  | .wait delay => .due (now + a.takes) (.ok delay)
  | .refuse reason => .due (now + a.takes) (.error reason)
  | .silence => .never

namespace World

/-! ## Episodes -/

def atStage (ep : Episode) (stage : Stage) (w : World) : World :=
  { w with task := .recovering { ep with stage } }

/-- Begins an episode, which without a token is over at once. -/
def begin (error : LinkError) (w : World) : World :=
  let w := w.record .task (.taken error)
  let w := w.enter .task .recovering
  match w.bound with
  | none =>
    let w := w.record .task (.ended (.failed .missingToken))
    (w.dispose .task).terminate
  | some token =>
    let episode : Episode :=
      { snapshot := ⟨w.config.duration, token⟩
        strategy := w.config.strategy w.episodes
        deadline := w.now + w.config.duration.ceilMillis
        stage := .consulting (.connection error) }
    let w := (w.retain token).record .task .strategyMade
    { w with episodes := w.episodes + 1, task := .recovering episode }

/-- Gives back the shares an episode holds. -/
def abandon (ep : Episode) (w : World) : World :=
  let w := if ep.stage.holdsFrame then w.release ep.token else w
  w.release ep.token

/-- Ends an episode, and with it the connection and the task. -/
def giveUp (ep : Episode) (how : Ending) (w : World) : World :=
  let w := (w.abandon ep).record .task (.ended how)
  (w.dispose .task).terminate

def retry (ep : Episode) (cause : RecoveryError) (w : World) : World :=
  if cause.isRetryable then (w.enter .task .recovering).atStage ep (.consulting cause)
  else w.giveUp ep (.failed cause)

/-! ## Stages -/

def consult (ep : Episode) (cause : RecoveryError) (w : World) : World :=
  let (advice, strategy) := ep.strategy.consult
  let w := w.record .task (.consulted cause ep.snapshot (w.pool.bytes ep.token))
  w.atStage { ep with strategy } (.advised (advice.answer w.now))

/-- A strategy that gives no delay does not keep the attempt from being made. -/
def backOff (ep : Episode) (reply : Except String Duration) (w : World) : World :=
  let delay :=
    match reply with
    | .ok delay => delay
    | .error _ => .zero
  (w.record .task (.advised reply)).atStage ep (.backingOff (w.now + delay.ceilMillis))

def dial (ep : Episode) (w : World) : World :=
  let w := w.record .task .attempted
  match w.supplier with
  | none => w.retry ep .noSupplier
  | some supplier =>
    let dial := supplier.dials.headD .hanging
    let w := { w with supplier := some { supplier with dials := supplier.dials.tail } }
    let w := (w.record .task (.dialled supplier.name)).raise dial.raises
    w.atStage ep (.dialling (dial.answer w.now))

/-- No connection was to be had. -/
def refuse (ep : Episode) (cause : LinkError) (w : World) : World :=
  (w.record .task (.refused cause)).retry ep (.connection cause)

/-- Puts a new connection in place. Errors queued so far belong to transports that it replaces;
those raised from here on are its own. -/
def install (ep : Episode) (peer : Peer) (w : World) : World :=
  let connection := w.connections + 1
  let w := { w with connections := connection }.record .task (.demultiplexed connection)
  let w := w.discardErrors.reconnect .task (.request connection)
  let w := w.enter .task .reestablished
  let w := w.record .task (.positionsRead w.implied w.position)
  (w.retain ep.token).atStage ep (.announcing ⟨connection, peer⟩ w.implied w.position)

/-- Sends RESUME with the positions read right after the connection was put in place. -/
def announce (ep : Episode) (channel : Channel) (implied position : UInt64) (w : World) : World :=
  let frame : Resume := { token := w.pool.bytes ep.token, implied, position }
  match frame.encode with
  | .error cause => w.giveUp ep (.failed (.encode cause))
  | .ok frame =>
    let w := (w.send .task frame.toBytes).release ep.token
    let w := (w.enter .task .resumeSent).record .task (.listened channel.connection)
    w.atStage ep (.listening (channel.receive w.now))

def hear (ep : Episode) (answer : Option ByteArray) (w : World) : World :=
  let w := w.record .task (.heard answer)
  match answer with
  | none => w.retry ep .setupClosed
  | some frame =>
    match ResumeOk.position (.start frame) with
    | .error cause _ => w.retry ep (.decode cause)
    | .ok position _ =>
      let (work, w) := w.beginReconciling .task position
      w.atStage ep (.reconciling work)

def conclude (ep : Episode) (work : Reconciling) (w : World) : World :=
  match w.finishReconciling .task work with
  | (.resumed, w) => { (w.abandon ep).record .task (.ended .resumed) with task := .idle }
  | (.rejected, w) => w.giveUp ep .rejected

/-! ## Steps -/

/-- `none` where the episode has to wait. -/
def proceed (ep : Episode) (w : World) : Option World :=
  match ep.stage with
  | .consulting cause => some (w.consult ep cause)
  | .advised reply => (reply.ready? w.now).map fun reply => w.backOff ep reply
  | .backingOff due => if due ≤ w.now then some (w.dial ep) else none
  | .dialling answer =>
    (answer.ready? w.now).map fun
      | .ok peer => w.install ep peer
      | .error cause => w.refuse ep cause
  | .announcing channel implied position => some (w.announce ep channel implied position)
  | .listening answer => (answer.ready? w.now).map fun answer => w.hear ep answer
  | .reconciling work => if work.due ≤ w.now then some (w.conclude ep work) else none

/-- `none` where the task has nothing to do now. -/
def step (w : World) : Option World :=
  match w.task with
  | .ended => none
  | .idle =>
    match w.errors with
    | error :: errors => some ({ w with errors }.begin error)
    | [] => if w.errorsClosed then some w.terminate else none
  | .recovering ep =>
    match w.proceed ep with
    | some next => some next
    | none => if ep.deadline ≤ w.now then some (w.giveUp ep .cut) else none

/-! ## Waiting -/

/-- An idle task waits for an error and not for a time. -/
def wakeTime? (w : World) : Option Nat :=
  match w.task with
  | .recovering ep => some ((ep.stage.time?.getD ep.deadline).min ep.deadline)
  | _ => none

end World

end Resumption
