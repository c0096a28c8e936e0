import Resumption.Proofs.Change

/-!
# What nobody looks at makes no difference

Whatever is done with a session is composed of elementary changes, and what is done is decided by a
part of the session that is the same for all: its core. Only a task that waits for an error looks at
the error stream besides, and only the beginning of an attempt looks at the supplier. So a view of
sessions that shows the core, and that shows the same after every elementary change of what looked
the same before, shows the same after everything that can happen.

* `Core`, `Touch` — what decisions are based on, and the elementary changes
* `World.Coherent` — a view that elementary changes respect
* `World.Coherent.proceed`, `World.Coherent.step` — so does the task
* `World.Coherent.act` — and so does every action
* `World.run_view` — hence runs from sessions that look the same look the same
-/

namespace Resumption

-- ---------------------------------------------------------------------------
-- Elementary changes
-- ---------------------------------------------------------------------------

/-- The part of a session by which the task and its callers decide what to do. -/
structure Core where
  now : Nat
  config : Config
  pool : Pool
  implied : UInt64
  position : UInt64
  reconciliations : List Reconciliation
  bursts : List Nat
  connections : Nat
  isOpen : Bool
  bound : Option Token.Id
  episodes : Nat
  task : Task
  calls : List Reconciling
  held : List Token.Id

/-- An elementary change. -/
inductive Touch where
  /-- A change of the core. -/
  | settle (core : Core)
  | record (actor : Actor) (event : Event)
  | enter (actor : Actor) (status : Status)
  | dispose (actor : Actor)
  | terminate
  | send (actor : Actor) (frame : ByteArray)
  | accept (errors : List LinkError)
  | discardErrors
  /-- These errors are left in the stream. -/
  | leave (errors : List LinkError)
  | closeErrors
  | setSendsFail (sendsFail : Bool)
  | supply (supplier : Option Supplier)
  | observe (observer : Observer)
  /-- Nobody observes any longer. -/
  | unobserve
  | subscribe
  | poll

namespace World

def core (w : World) : Core where
  now := w.now
  config := w.config
  pool := w.pool
  implied := w.implied
  position := w.position
  reconciliations := w.reconciliations
  bursts := w.bursts
  connections := w.connections
  isOpen := w.isOpen
  bound := w.bound
  episodes := w.episodes
  task := w.task
  calls := w.calls
  held := w.held

/-- The session with another core. -/
def settleCore (core : Core) (w : World) : World :=
  { w with
    now := core.now
    config := core.config
    pool := core.pool
    implied := core.implied
    position := core.position
    reconciliations := core.reconciliations
    bursts := core.bursts
    connections := core.connections
    isOpen := core.isOpen
    bound := core.bound
    episodes := core.episodes
    task := core.task
    calls := core.calls
    held := core.held }

def touch (w : World) : Touch → World
  | .settle core => w.settleCore core
  | .record actor event => w.record actor event
  | .enter actor status => w.enter actor status
  | .dispose actor => w.dispose actor
  | .terminate => w.terminate
  | .send actor frame => w.send actor frame
  | .accept errors => w.accept errors
  | .discardErrors => w.discardErrors
  | .leave errors => { w with errors }
  | .closeErrors => w.closeErrors
  | .setSendsFail sendsFail => w.setSendsFail sendsFail
  | .supply supplier => { w with supplier }
  | .observe observer => w.observe observer
  | .unobserve => { w with observer := none }
  | .subscribe => w.subscribe
  | .poll => w.poll

/-- What shows after an elementary change depends only on what showed before, and the core always
shows. -/
structure Coherent (view : World → World) : Prop where
  core : ∀ w : World, (view w).core = w.core
  touch : ∀ (change : Touch) (w : World), view ((view w).touch change) = view (w.touch change)

/-- All that the task looks at shows. -/
structure Complete (view : World → World) : Prop extends Coherent view where
  errors : ∀ w : World, (view w).errors = w.errors
  errorsClosed : ∀ w : World, (view w).errorsClosed = w.errorsClosed
  supplier : ∀ w : World, (view w).supplier = w.supplier

end World

/-- An attempt is to begin by now. -/
def Stage.Begins (now : Nat) (stage : Stage) : Prop :=
  ∃ due, stage = .backingOff due ∧ due ≤ now

/-- The episode begins an attempt in the next step. -/
def World.Begins (w : World) (ep : Episode) : Prop :=
  w.task = .recovering ep ∧ ep.stage.Begins w.now

theorem World.step_of_begins {w : World} {ep : Episode} (hBegins : w.Begins ep) :
    w.step = some (w.dial ep) := by
  obtain ⟨hTask, due, hStage, hDue⟩ := hBegins
  refine step_of_proceed hTask ?_
  rw [proceed, hStage]
  exact if_pos hDue

namespace World.Coherent

variable {view : World → World} {w v : World}

-- ---------------------------------------------------------------------------
-- Sessions that look the same
-- ---------------------------------------------------------------------------

section

variable (hView : Coherent view) (hSame : view w = view v)

include hView hSame

theorem core_eq : w.core = v.core := by
  rw [← hView.core w, hSame, hView.core v]

theorem touched (change : Touch) : view (w.touch change) = view (v.touch change) := by
  rw [← hView.touch change w, hSame, hView.touch change v]

/-- A change of the core that depends on the core. -/
theorem settled (change : Core → Core) :
    view (w.settleCore (change w.core)) = view (v.settleCore (change v.core)) := by
  rw [hView.core_eq hSame]
  exact hView.touched hSame (.settle (change v.core))

/-- What is written down may depend on the core. -/
theorem recorded (actor : Actor) (event : Core → Event) :
    view (w.record actor (event w.core)) = view (v.record actor (event v.core)) := by
  rw [hView.core_eq hSame]
  exact hView.touched hSame (.record actor (event v.core))

theorem atStage (ep : Episode) (stage : Core → Stage) :
    view (w.atStage ep (stage w.core)) = view (v.atStage ep (stage v.core)) :=
  hView.settled hSame fun core => { core with task := .recovering { ep with stage := stage core } }

theorem released (token : Token.Id) : view (w.release token) = view (v.release token) :=
  hView.settled hSame fun core => { core with pool := core.pool.release token }

theorem retained (token : Token.Id) : view (w.retain token) = view (v.retain token) :=
  hView.settled hSame fun core => { core with pool := core.pool.retain token }

theorem unbound : view w.unbind = view v.unbind := by
  have hBound : w.bound = v.bound := congrArg Core.bound (hView.core_eq hSame)
  unfold World.unbind
  rw [hBound]
  cases v.bound with
  | none => exact hSame
  | some token =>
    exact hView.settled (hView.released hSame token) fun core => { core with bound := none }

theorem reconnect (actor : Actor) (target : Core → Target) :
    view (w.reconnect actor (target w.core)) = view (v.reconnect actor (target v.core)) := by
  have hBursts : w.bursts = v.bursts := congrArg Core.bursts (hView.core_eq hSame)
  have hRecord := hView.recorded hSame actor fun core => .reconnected (target core)
  have hTail := hView.settled hRecord fun core => { core with bursts := core.bursts.tail }
  unfold World.reconnect
  show view (World.accept (List.replicate (w.bursts.headD 0) .closed) _) =
    view (World.accept (List.replicate (v.bursts.headD 0) .closed) _)
  rw [hBursts]
  exact hView.touched hTail (.accept _)

-- ---------------------------------------------------------------------------
-- Reconciling
-- ---------------------------------------------------------------------------

theorem beginReconciling (actor : Actor) (position : UInt64) :
    ∃ work w' v', w.beginReconciling actor position = (work, w') ∧
      v.beginReconciling actor position = (work, v') ∧ view w' = view v' := by
  have hCore := hView.core_eq hSame
  have hNow : w.now = v.now := congrArg Core.now hCore
  have hReplies : w.reconciliations = v.reconciliations := congrArg Core.reconciliations hCore
  have hTail := hView.settled hSame fun core =>
    { core with reconciliations := core.reconciliations.tail }
  have hRecord := hView.recorded hTail actor fun _ => .reconciling unknownPosition position
  have hWork : (w.beginReconciling actor position).1 = (v.beginReconciling actor position).1 := by
    unfold World.beginReconciling
    rw [hNow, hReplies]
  refine ⟨(v.beginReconciling actor position).1, _, _, ?_, rfl, hRecord⟩
  rw [← hWork]
  rfl

theorem finishReconciling (actor : Actor) (work : Reconciling) :
    ∃ outcome w' v', w.finishReconciling actor work = (outcome, w') ∧
      v.finishReconciling actor work = (outcome, v') ∧ view w' = view v' := by
  have hRaise := hView.touched hSame (.accept (List.replicate work.reply.raises .closed))
  unfold World.finishReconciling
  dsimp only
  cases work.reply.error with
  | none =>
    have hRecord := hView.recorded hRaise actor fun _ => .reconciled none
    exact ⟨_, _, _, rfl, rfl, hView.touched hRecord (.enter actor .resumed)⟩
  | some error =>
    have hRecord := hView.recorded hRaise actor fun _ => .reconciled (some error)
    have hSend := hView.touched hRecord (.send actor (rejection work.position))
    exact ⟨_, _, _, rfl, rfl, hView.touched hSend (.dispose actor)⟩

-- ---------------------------------------------------------------------------
-- The task's functions
-- ---------------------------------------------------------------------------

theorem abandon (ep : Episode) : view (w.abandon ep) = view (v.abandon ep) := by
  unfold World.abandon
  cases ep.stage.holdsFrame with
  | true => exact hView.released (hView.released hSame ep.token) ep.token
  | false => exact hView.released hSame ep.token

theorem giveUp (ep : Episode) (how : Ending) : view (w.giveUp ep how) = view (v.giveUp ep how) := by
  have hRecord := hView.recorded (hView.abandon hSame ep) .task fun _ => .ended how
  exact hView.touched (hView.touched hRecord (.dispose .task)) .terminate

theorem retry (ep : Episode) (cause : RecoveryError) :
    view (w.retry ep cause) = view (v.retry ep cause) := by
  unfold World.retry
  split
  · have hEnter := hView.touched hSame (.enter .task .recovering)
    exact hView.atStage hEnter ep fun _ => .consulting cause
  · exact hView.giveUp hSame ep (.failed cause)

theorem begin (error : LinkError) : view (w.begin error) = view (v.begin error) := by
  have hRecord := hView.recorded hSame .task fun _ => .taken error
  have hWelcome := hView.touched hRecord (.enter .task .recovering)
  unfold World.begin
  dsimp only [World.touch] at hWelcome ⊢
  -- both sessions as they are when the task looks at the token
  generalize (w.record .task (.taken error)).enter .task .recovering = w' at hWelcome ⊢
  generalize (v.record .task (.taken error)).enter .task .recovering = v' at hWelcome ⊢
  have hBound : w'.bound = v'.bound := congrArg Core.bound (hView.core_eq hWelcome)
  rw [hBound]
  cases v'.bound with
  | none =>
    have hEnded := hView.recorded hWelcome .task fun _ => .ended (.failed .missingToken)
    exact hView.touched (hView.touched hEnded (.dispose .task)) .terminate
  | some token =>
    have hMade := hView.recorded (hView.retained hWelcome token) .task fun _ => .strategyMade
    exact hView.settled hMade fun core =>
      { core with
        episodes := core.episodes + 1
        task := .recovering
          { snapshot := ⟨core.config.duration, token⟩
            strategy := core.config.strategy core.episodes
            deadline := core.now + core.config.duration.ceilMillis
            stage := .consulting (.connection error) } }

theorem consult (ep : Episode) (cause : RecoveryError) :
    view (w.consult ep cause) = view (v.consult ep cause) := by
  have hRecord := hView.recorded hSame .task fun core =>
    .consulted cause ep.snapshot (core.pool.bytes ep.token)
  exact hView.atStage hRecord { ep with strategy := ep.strategy.consult.2 } fun core =>
    .advised (ep.strategy.consult.1.answer core.now)

theorem backOff (ep : Episode) (reply : Except String Duration) :
    view (w.backOff ep reply) = view (v.backOff ep reply) := by
  have hRecord := hView.recorded hSame .task fun _ => .advised reply
  exact hView.atStage hRecord ep fun core => .backingOff (core.now + (pause reply).ceilMillis)

/-- An attempt begins with a look at the supplier. -/
theorem dial (hSupplier : w.supplier = v.supplier) (ep : Episode) :
    view (w.dial ep) = view (v.dial ep) := by
  have hAttempt := hView.recorded hSame .task fun _ => .attempted
  have hInPlace : (w.record .task .attempted).supplier = (v.record .task .attempted).supplier :=
    hSupplier
  unfold World.dial
  dsimp only
  -- both sessions as they are when the task looks at the supplier
  generalize w.record .task .attempted = w' at hAttempt hInPlace ⊢
  generalize v.record .task .attempted = v' at hAttempt hInPlace ⊢
  rw [hInPlace]
  cases v'.supplier with
  | none => exact hView.retry hAttempt ep .noSupplier
  | some supplier =>
    have hAsked := hView.touched hAttempt
      (.supply (some { supplier with dials := supplier.dials.tail }))
    have hDialled := hView.recorded hAsked .task fun _ => .dialled supplier.name
    have hRaised := hView.touched hDialled
      (.accept (List.replicate (supplier.dials.headD .hanging).raises .closed))
    exact hView.atStage hRaised ep fun core =>
      .dialling ((supplier.dials.headD .hanging).answer core.now)

theorem connect : view w.connect = view v.connect := by
  have hCounted := hView.settled hSame fun core =>
    { core with connections := core.connections + 1 }
  have hMade := hView.recorded hCounted .task fun core => .demultiplexed core.connections
  have hDrained := hView.touched hMade .discardErrors
  have hRenewed := hView.reconnect hDrained .task fun core => .request core.connections
  exact hView.touched hRenewed (.enter .task .reestablished)

theorem install (ep : Episode) (peer : Peer) :
    view (w.install ep peer) = view (v.install ep peer) := by
  have hCore := hView.core_eq hSame
  have hImplied : w.implied = v.implied := congrArg Core.implied hCore
  have hPosition : w.position = v.position := congrArg Core.position hCore
  have hConnections : w.connections = v.connections := congrArg Core.connections hCore
  rw [install_eq, install_eq, hImplied, hPosition, hConnections]
  have hRecord := hView.recorded (hView.connect hSame) .task fun _ =>
    .positionsRead v.implied v.position
  exact hView.atStage (hView.retained hRecord ep.token) ep fun _ =>
    .announcing ⟨v.connections + 1, peer⟩ v.implied v.position

theorem announce (ep : Episode) (channel : Channel) (implied position : UInt64) :
    view (w.announce ep channel implied position) =
      view (v.announce ep channel implied position) := by
  have hPool : w.pool = v.pool := congrArg Core.pool (hView.core_eq hSame)
  unfold World.announce
  rw [hPool]
  dsimp only
  split
  · exact hView.giveUp hSame ep _
  · next frame _ =>
    have hSend := hView.touched hSame (.send .task frame.toBytes)
    have hEnter := hView.touched (hView.released hSend ep.token) (.enter .task .resumeSent)
    have hListen := hView.recorded hEnter .task fun _ => .listened channel.connection
    exact hView.atStage hListen ep fun core => .listening (channel.receive core.now)

theorem hear (ep : Episode) (answer : Option ByteArray) :
    view (w.hear ep answer) = view (v.hear ep answer) := by
  have hRecord := hView.recorded hSame .task fun _ => .heard answer
  unfold World.hear
  dsimp only
  split
  · exact hView.retry hRecord ep .setupClosed
  · split
    · exact hView.retry hRecord ep _
    · next position _ _ =>
      obtain ⟨work, w', v', hW, hV, hNext⟩ := hView.beginReconciling hRecord .task position
      rw [hW, hV]
      exact hView.atStage hNext ep fun _ => .reconciling work

theorem conclude (ep : Episode) (work : Reconciling) :
    view (w.conclude ep work) = view (v.conclude ep work) := by
  obtain ⟨outcome, w', v', hW, hV, hNext⟩ := hView.finishReconciling hSame .task work
  unfold World.conclude
  rw [hW, hV]
  cases outcome with
  | resumed =>
    have hEnded := hView.recorded (hView.abandon hNext ep) .task fun _ => .ended .resumed
    exact hView.settled hEnded fun core => { core with task := .idle }
  | rejected => exact hView.giveUp hNext ep .rejected

-- ---------------------------------------------------------------------------
-- One step of the task
-- ---------------------------------------------------------------------------

omit hView hSame in
theorem map_view {α : Type} {next next' : α → World} (hNext : ∀ x, view (next x) = view (next' x))
    (result : Option α) : (result.map next).map view = (result.map next').map view := by
  rw [Option.map_map, Option.map_map]
  exact congrArg (result.map ·) (funext hNext)

/-- An episode goes on in the same way. -/
theorem proceed (ep : Episode) (hSupplier : ep.stage.Begins w.now → w.supplier = v.supplier) :
    (w.proceed ep).map view = (v.proceed ep).map view := by
  have hNow : w.now = v.now := congrArg Core.now (hView.core_eq hSame)
  unfold World.proceed
  rw [← hNow]
  cases hStage : ep.stage with
  | consulting cause => exact congrArg some (hView.consult hSame ep cause)
  | advised reply => exact map_view (hView.backOff hSame ep) _
  | backingOff due =>
    dsimp only
    split
    case isTrue hDue =>
      exact congrArg some (hView.dial hSame (hSupplier ⟨due, hStage, hDue⟩) ep)
    case isFalse => rfl
  | dialling answer =>
    refine map_view (fun reply => ?_) _
    cases reply with
    | ok peer => exact hView.install hSame ep peer
    | error cause =>
      have hRecord := hView.recorded hSame .task fun _ => .refused cause
      exact hView.retry hRecord ep (.connection cause)
  | announcing channel implied position =>
    exact congrArg some (hView.announce hSame ep channel implied position)
  | listening answer => exact map_view (hView.hear hSame ep) _
  | reconciling work =>
    dsimp only
    split
    · exact congrArg some (hView.conclude hSame ep work)
    · rfl

/-- The task does the same step. -/
theorem step
    (hStream : w.task = .idle → w.errors = v.errors ∧ w.errorsClosed = v.errorsClosed)
    (hSupplier : ∀ ep, w.Begins ep → w.supplier = v.supplier) :
    w.step.map view = v.step.map view := by
  have hCore := hView.core_eq hSame
  have hTask : w.task = v.task := congrArg Core.task hCore
  have hNow : w.now = v.now := congrArg Core.now hCore
  cases hWhere : w.task with
  | ended =>
    rw [step_ended hWhere, step_ended (hTask ▸ hWhere)]
  | idle =>
    obtain ⟨hErrors, hClosed⟩ := hStream hWhere
    rw [step_idle hWhere, step_idle (hTask ▸ hWhere), ← hErrors]
    cases w.errors with
    | nil =>
      dsimp only
      rw [← hClosed]
      split
      · exact congrArg some (hView.touched hSame .terminate)
      · rfl
    | cons error errors =>
      exact congrArg some (hView.begin (hView.touched hSame (.leave errors)) error)
  | recovering ep =>
    have hProceed := hView.proceed hSame ep fun hStage => hSupplier ep ⟨hWhere, hStage⟩
    rw [step_recovering hWhere, step_recovering (hTask ▸ hWhere), ← hNow]
    cases hNext : w.proceed ep with
    | some next =>
      rw [hNext] at hProceed
      obtain ⟨next', hNext', hEqual⟩ := Option.map_eq_some_iff.mp hProceed.symm
      rw [hNext']
      exact congrArg some hEqual.symm
    | none =>
      -- both have to wait, and the deadline is the same
      rw [hNext] at hProceed
      rw [Option.map_eq_none_iff.mp hProceed.symm]
      dsimp only
      split
      · exact congrArg some (hView.giveUp hSame ep .cut)
      · rfl

theorem isNone_step
    (hStream : w.task = .idle → w.errors = v.errors ∧ w.errorsClosed = v.errorsClosed) :
    w.step.isNone = v.step.isNone := by
  by_cases hBegins : ∃ ep, w.Begins ep
  case pos =>
    obtain ⟨ep, hBegins⟩ := hBegins
    have hCore := hView.core_eq hSame
    have hTask : w.task = v.task := congrArg Core.task hCore
    have hNow : w.now = v.now := congrArg Core.now hCore
    have hAlso : v.Begins ep := ⟨hTask ▸ hBegins.1, hNow ▸ hBegins.2⟩
    rw [step_of_begins hBegins, step_of_begins hAlso]
    rfl
  case neg =>
    have hStep := hView.step hSame hStream fun ep hEp => absurd ⟨ep, hEp⟩ hBegins
    rw [← Option.isNone_map (f := view), hStep, Option.isNone_map]

-- ---------------------------------------------------------------------------
-- One action
-- ---------------------------------------------------------------------------

theorem mayReach
    (hStream : w.task = .idle → w.errors = v.errors ∧ w.errorsClosed = v.errorsClosed)
    (time : Nat) : w.mayReach time = v.mayReach time := by
  have hCore := hView.core_eq hSame
  have hTask : w.task = v.task := congrArg Core.task hCore
  have hCalls : w.calls = v.calls := congrArg Core.calls hCore
  unfold World.mayReach wakeTime?
  rw [hView.isNone_step hSame hStream, hTask, hCalls]

theorem whileOpen {next next' : World} (hNext : view next = view next') :
    (w.whileOpen next).map view = (v.whileOpen next').map view := by
  have hOpen : w.isOpen = v.isOpen := congrArg Core.isOpen (hView.core_eq hSame)
  unfold World.whileOpen
  rw [hOpen]
  split
  · exact congrArg some hNext
  · rfl

theorem bind (token : Token.Id) : view (w.bind token) = view (v.bind token) := by
  have hUnbound := hView.unbound (hView.retained hSame token)
  have hBound := hView.settled hUnbound fun core => { core with bound := some token }
  exact hView.recorded hBound .caller fun _ => .bound token

theorem hold : view w.hold = view v.hold := by
  have hBound : w.bound = v.bound := congrArg Core.bound (hView.core_eq hSame)
  unfold World.hold
  rw [hBound]
  cases v.bound with
  | none => exact hSame
  | some token =>
    exact hView.settled (hView.retained hSame token) fun core =>
      { core with held := token :: core.held }

theorem beginResume (frame : Cursor) :
    (w.act (.beginResume frame)).map view = (v.act (.beginResume frame)).map view := by
  unfold World.act World.beginResume
  dsimp only
  cases ResumeOk.position frame with
  | error cause cursor =>
    exact hView.whileOpen hSame (hView.recorded hSame .caller fun _ => .returned (.error cause))
  | ok position cursor =>
    obtain ⟨work, w', v', hW, hV, hNext⟩ := hView.beginReconciling hSame .caller position
    dsimp only
    rw [hW, hV]
    exact hView.whileOpen hSame
      (hView.settled hNext fun core => { core with calls := core.calls ++ [work] })

theorem finishResume (number : Nat) :
    (w.act (.finishResume number)).map view = (v.act (.finishResume number)).map view := by
  have hCore := hView.core_eq hSame
  have hNow : w.now = v.now := congrArg Core.now hCore
  have hCalls : w.calls = v.calls := congrArg Core.calls hCore
  have hWork : w.calls[number]? = v.calls[number]? := congrArg (·[number]?) hCalls
  unfold World.act World.finishResume
  dsimp only
  rw [hWork]
  cases v.calls[number]? with
  | none => rfl
  | some work =>
    by_cases hDue : work.due ≤ w.now
    case neg =>
      dsimp only
      rw [if_neg hDue, if_neg (hNow ▸ hDue)]
    case pos =>
      dsimp only
      rw [if_pos hDue, if_pos (hNow ▸ hDue)]
      have hFewer := hView.settled hSame fun core =>
        { core with calls := core.calls.eraseIdx number }
      obtain ⟨outcome, w', v', hW, hV, hNext⟩ := hView.finishReconciling hFewer .caller work
      have hRecord := hView.recorded hNext .caller fun _ => .returned (.ok outcome)
      let returned (r : Outcome × World) : World := r.2.record .caller (.returned (.ok r.1))
      have hLeft := congrArg (fun r => view (returned r)) hW
      have hRight := congrArg (fun r => view (returned r)) hV
      exact congrArg some (hLeft.trans (hRecord.trans hRight.symm))

/-- What a session that is dropped does in the end, whatever its task was at. -/
theorem leave :
    view ({ w.unbind with
        isOpen := false
        task := .ended
        supplier := none
        observer := none }.record .caller .dropped) =
      view ({ v.unbind with
        isOpen := false
        task := .ended
        supplier := none
        observer := none }.record .caller .dropped) := by
  have hClosed := hView.settled (hView.unbound hSame) fun core =>
    { core with isOpen := false, task := .ended }
  have hBare := hView.touched (hView.touched hClosed (.supply none)) .unobserve
  exact hView.recorded hBare .caller fun _ => .dropped

theorem drop : view w.drop = view v.drop := by
  have hTask : w.task = v.task := congrArg Core.task (hView.core_eq hSame)
  unfold World.drop
  rw [hTask]
  cases v.task with
  | recovering ep =>
    have hAbandoned := hView.abandon hSame ep
    exact hView.leave (hView.recorded hAbandoned .caller fun _ => .ended .dropped)
  | idle | ended => exact hView.leave hSame

/-- Every action has the same effect. -/
theorem act {action : Action}
    (hStream : w.task = .idle → w.errors = v.errors ∧ w.errorsClosed = v.errorsClosed)
    (hSupplier : action = .work → ∀ ep, w.Begins ep → w.supplier = v.supplier) :
    (w.act action).map view = (v.act action).map view := by
  have hCore := hView.core_eq hSame
  cases action with
  | work => exact hView.step hSame hStream (hSupplier rfl)
  | elapse millis =>
    have hNow : w.now = v.now := congrArg Core.now hCore
    unfold World.act
    dsimp only
    rw [hView.mayReach hSame hStream, hNow]
    split
    · exact congrArg some (hView.settled hSame fun core => { core with now := v.now + millis })
    · rfl
  | fail error => exact congrArg some (hView.touched hSame (.accept [error]))
  | closeErrors => exact congrArg some (hView.touched hSame .closeErrors)
  | setPositions implied position =>
    exact congrArg some (hView.settled hSame fun core => { core with implied, position })
  | setSendsFail sendsFail =>
    exact congrArg some (hView.touched hSame (.setSendsFail sendsFail))
  | addReconciliation reconciliation =>
    exact congrArg some (hView.settled hSame fun core =>
      { core with reconciliations := core.reconciliations ++ [reconciliation] })
  | bind token =>
    have hPool : w.pool = v.pool := congrArg Core.pool hCore
    unfold World.act
    dsimp only
    rw [hPool]
    split
    · exact hView.whileOpen hSame (hView.bind hSame token)
    · rfl
  | setSupplier supplier =>
    exact hView.whileOpen hSame (hView.touched hSame (.supply (some supplier)))
  | reconnect label =>
    exact hView.whileOpen hSame (hView.reconnect hSame .caller fun _ => .labelled label)
  | beginResume frame => exact hView.beginResume hSame frame
  | finishResume number => exact hView.finishResume hSame number
  | observe observer => exact hView.whileOpen hSame (hView.touched hSame (.observe observer))
  | hold => exact hView.whileOpen hSame (hView.hold hSame)
  | releaseHeld =>
    exact congrArg some (hView.settled hSame fun core =>
      { core with pool := core.held.foldl Pool.release core.pool, held := [] })
  | subscribe => exact hView.whileOpen hSame (hView.touched hSame .subscribe)
  | poll => exact congrArg some (hView.touched hSame .poll)
  | drop =>
    have hCalls : w.calls = v.calls := congrArg Core.calls hCore
    unfold World.act
    dsimp only
    rw [hCalls]
    split
    · exact hView.whileOpen hSame (hView.drop hSame)
    · rfl

end

end World.Coherent

-- ---------------------------------------------------------------------------
-- Runs
-- ---------------------------------------------------------------------------

namespace World

variable {view : World → World} {w v : World}

/-- Runs from sessions that look the same look the same, and both are possible or none is, as long
as the run stays where actions have the same effect. -/
theorem run_view {Along : World → List Action → Prop}
    (hAct : ∀ {w v : World} {action actions}, view w = view v → Along w (action :: actions) →
      (w.act action).map view = (v.act action).map view)
    (hAlong : ∀ {w next : World} {action actions}, Along w (action :: actions) →
      w.act action = some next → Along next actions)
    {actions : List Action} (hSame : view w = view v) (hStart : Along w actions) :
    (w.run actions).map view = (v.run actions).map view := by
  induction actions generalizing w v with
  | nil => exact congrArg some hSame
  | cons action actions ih =>
    have hEqual := hAct hSame hStart
    rw [run, run]
    -- the action is possible in both sessions or in none
    cases hNext : w.act action with
    | none =>
      rw [hNext] at hEqual
      rw [Option.map_eq_none_iff.mp hEqual.symm]
    | some next =>
      rw [hNext] at hEqual
      obtain ⟨next', hNext', hView⟩ := Option.map_eq_some_iff.mp hEqual.symm
      rw [hNext']
      exact ih hView.symm (hAlong hStart hNext)

namespace Complete

variable (hView : Complete view) (hSame : view w = view v)

include hView hSame

theorem act (action : Action) : (w.act action).map view = (v.act action).map view := by
  have hErrors : w.errors = v.errors := by rw [← hView.errors w, hSame, hView.errors v]
  have hClosed : w.errorsClosed = v.errorsClosed := by
    rw [← hView.errorsClosed w, hSame, hView.errorsClosed v]
  have hSupplier : w.supplier = v.supplier := by rw [← hView.supplier w, hSame, hView.supplier v]
  exact hView.toCoherent.act hSame (fun _ => ⟨hErrors, hClosed⟩) fun _ _ _ => hSupplier

theorem run (actions : List Action) : (w.run actions).map view = (v.run actions).map view := by
  have hAnywhere : (fun (_ : World) (_ : List Action) => True) w actions := trivial
  exact run_view (fun hSame _ => hView.act hSame _) (fun _ _ => trivial) hSame hAnywhere

end Complete

end World

end Resumption
