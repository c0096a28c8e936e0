import Resumption.Proofs.Elementary

/-!
# What can happen to a session

A case for everything that one action can do, with what it writes into the journal and the state it
leads to, spelled out in elementary changes. Invariants are proved over these cases and never open
the task's functions again.

* `World.step_idle`, `World.step_recovering` — the task's next step, by what the task is at
* `Stride` — what one step of the task does; `stride_of_step` finds the case
* `Change` — what one action does; `change_of_act` finds the case
* `deeds_change` — the journal grows by what the case says, notices apart
* `bytes_change`, `config_change` — the bytes of a token and the configuration stay
* `Reachable.induct` — what a new session satisfies and every change keeps holds always
-/

namespace Resumption

namespace World

-- ---------------------------------------------------------------------------
-- One step of the task
-- ---------------------------------------------------------------------------

theorem step_ended {w : World} (hTask : w.task = .ended) : w.step = none := by
  cases w
  cases hTask
  rfl

theorem step_idle {w : World} (hTask : w.task = .idle) :
    w.step =
      match w.errors with
      | error :: errors => some ({ w with errors }.begin error)
      | [] => if w.errorsClosed then some w.terminate else none := by
  cases w
  cases hTask
  rfl

theorem step_recovering {w : World} {ep : Episode} (hTask : w.task = .recovering ep) :
    w.step =
      match w.proceed ep with
      | some next => some next
      | none => if ep.deadline ≤ w.now then some (w.giveUp ep .cut) else none := by
  cases w
  cases hTask
  rfl

/-- An episode that can go on does so, whatever the time is. -/
theorem step_of_proceed {w next : World} {ep : Episode} (hTask : w.task = .recovering ep)
    (hNext : w.proceed ep = some next) : w.step = some next := by
  rw [step_recovering hTask, hNext]

/-- The state in which an episode has ended for good: its shares are given back, the connection is
disposed and the task is over. -/
@[simp] theorem giveUp_eq (ep : Episode) (how : Ending) (w : World) :
    w.giveUp ep how = (((w.abandon ep).record .task (.ended how)).dispose .task).terminate :=
  rfl

@[simp] theorem abandon_eq (ep : Episode) (w : World) :
    w.abandon ep =
      { w with
        pool :=
          if ep.stage.holdsFrame then (w.pool.release ep.token).release ep.token
          else w.pool.release ep.token } := by
  rw [abandon]
  cases ep.stage.holdsFrame <;> rfl

theorem retry_eq {cause : RecoveryError} (hRetryable : cause.isRetryable) (ep : Episode)
    (w : World) :
    w.retry ep cause = (w.enter .task .recovering).atStage ep (.consulting cause) := by
  rw [retry, if_pos hRetryable]

/-- What the task does with an error that it takes from the stream. -/
def welcome (error : LinkError) (w : World) : World :=
  (w.record .task (.taken error)).enter .task .recovering

/-- What the task knows of a new connection before it announces itself on it. -/
def connect (w : World) : World :=
  let connection := w.connections + 1
  let w := { w with connections := connection }.record .task (.demultiplexed connection)
  (w.discardErrors.reconnect .task (.request connection)).enter .task .reestablished

theorem install_eq (ep : Episode) (peer : Peer) (w : World) :
    w.install ep peer =
      ((w.connect.record .task (.positionsRead w.implied w.position)).retain ep.token).atStage ep
        (.announcing ⟨w.connections + 1, peer⟩ w.implied w.position) := by
  have hImplied : w.connect.implied = w.implied := by simp [connect]
  have hPosition : w.connect.position = w.position := by simp [connect]
  rw [← hImplied, ← hPosition]
  rfl

/-- How long an episode waits before its next attempt. -/
def pause : Except String Duration → Duration
  | .ok delay => delay
  | .error _ => .zero

/-- An entry in the task's name. -/
def own (event : Event) (w : World) : Entry :=
  ⟨w.now, .task, event⟩

/-- An entry in a caller's name. -/
def guest (event : Event) (w : World) : Entry :=
  ⟨w.now, .caller, event⟩

/-- The entries of errors that are put into the stream, if it takes them. -/
def arrived (errors : List LinkError) (w : World) : List Entry :=
  ((w.taking errors).map fun e => ⟨w.now, .link, .accepted e⟩).reverse

/-- The entries of `count` errors that the connection raises. -/
def raised (count : Nat) (w : World) : List Entry :=
  w.arrived (List.replicate count .closed)

/-- The entries of the errors that a reconnect drops. -/
def drained (w : World) : List Entry :=
  (w.errors.map fun e => w.own (.discarded e)).reverse

@[simp] theorem forall_mem_arrived {errors : List LinkError} {w : World} {P : Entry → Prop} :
    (∀ e ∈ w.arrived errors, P e) ↔
      ∀ error ∈ w.taking errors, P ⟨w.now, .link, .accepted error⟩ := by
  simp only [arrived, List.mem_reverse, List.forall_mem_map]

@[simp] theorem forall_mem_drained {w : World} {P : Entry → Prop} :
    (∀ e ∈ w.drained, P e) ↔ ∀ error ∈ w.errors, P (w.own (.discarded error)) := by
  simp only [drained, List.mem_reverse, List.forall_mem_map]

/-- The entry of a disposal, which has an effect only once. -/
def disposal (actor : Actor) (w : World) : List Entry :=
  if w.disposed then [] else [⟨w.now, actor, .disposed⟩]

@[simp] theorem forall_mem_disposal {actor : Actor} {w : World} {P : Entry → Prop} :
    (∀ e ∈ w.disposal actor, P e) ↔ w.disposed = false → P ⟨w.now, actor, .disposed⟩ := by
  cases hDisposed : w.disposed <;> simp [disposal, hDisposed]

/-- What one step of the task can do, with what it writes down, latest first. -/
inductive Stride (w : World) : List Entry → World → Prop
  /-- The stream has ended and there is nothing left in it. -/
  | stop (hTask : w.task = .idle) (hErrors : w.errors = []) (hClosed : w.errorsClosed) :
      Stride w [w.own .stopped] w.terminate
  /-- An episode without a token is over at once. -/
  | beginBare {error errors} (hTask : w.task = .idle) (hErrors : w.errors = error :: errors)
      (hBound : w.bound = none) :
      Stride w
        (w.own .stopped ::
          (w.disposal .task ++ [w.own (.ended (.failed .missingToken)), w.own (.taken error)]))
        (((({ w with errors }.welcome error).record .task
          (.ended (.failed .missingToken))).dispose .task).terminate)
  | begin {error errors token} (hTask : w.task = .idle) (hErrors : w.errors = error :: errors)
      (hBound : w.bound = some token) :
      Stride w [w.own .strategyMade, w.own (.taken error)]
        { (({ w with errors }.welcome error).retain token).record .task .strategyMade with
          episodes := w.episodes + 1
          task := .recovering
            { snapshot := ⟨w.config.duration, token⟩
              strategy := w.config.strategy w.episodes
              deadline := w.now + w.config.duration.ceilMillis
              stage := .consulting (.connection error) } }
  | consult {ep cause} (hTask : w.task = .recovering ep) (hStage : ep.stage = .consulting cause) :
      Stride w [w.own (.consulted cause ep.snapshot (w.pool.bytes ep.token))]
        ((w.record .task (.consulted cause ep.snapshot (w.pool.bytes ep.token))).atStage
          { ep with strategy := ep.strategy.consult.2 }
          (.advised (ep.strategy.consult.1.answer w.now)))
  | backOff {ep reply answer} (hTask : w.task = .recovering ep) (hStage : ep.stage = .advised reply)
      (hReady : reply.ready? w.now = some answer) :
      Stride w [w.own (.advised answer)]
        ((w.record .task (.advised answer)).atStage ep
          (.backingOff (w.now + (pause answer).ceilMillis)))
  /-- An attempt without a supplier fails. -/
  | dialNobody {ep due} (hTask : w.task = .recovering ep) (hStage : ep.stage = .backingOff due)
      (hDue : due ≤ w.now) (hSupplier : w.supplier = none) :
      Stride w [w.own .attempted]
        (((w.record .task .attempted).enter .task .recovering).atStage ep
          (.consulting .noSupplier))
  | dial {ep due supplier} (hTask : w.task = .recovering ep) (hStage : ep.stage = .backingOff due)
      (hDue : due ≤ w.now) (hSupplier : w.supplier = some supplier) :
      Stride w
        (w.raised (supplier.dials.headD .hanging).raises ++
          [w.own (.dialled supplier.name), w.own .attempted])
        (({ w.record .task .attempted with
            supplier := some { supplier with dials := supplier.dials.tail } }.record .task
          (.dialled supplier.name)).raise (supplier.dials.headD .hanging).raises |>.atStage ep
          (.dialling ((supplier.dials.headD .hanging).answer w.now)))
  /-- The supplier had no connection. -/
  | refuse {ep answer cause} (hTask : w.task = .recovering ep)
      (hStage : ep.stage = .dialling answer) (hReady : answer.ready? w.now = some (.error cause)) :
      Stride w [w.own (.refused cause)]
        (((w.record .task (.refused cause)).enter .task .recovering).atStage ep
          (.consulting (.connection cause)))
  | install {ep answer peer} (hTask : w.task = .recovering ep)
      (hStage : ep.stage = .dialling answer) (hReady : answer.ready? w.now = some (.ok peer)) :
      Stride w
        (w.own (.positionsRead w.implied w.position) ::
          (w.raised (w.bursts.headD 0) ++
            w.own (.reconnected (.request (w.connections + 1))) ::
              (w.drained ++ [w.own (.demultiplexed (w.connections + 1))])))
        (((w.connect.record .task (.positionsRead w.implied w.position)).retain ep.token).atStage ep
          (.announcing ⟨w.connections + 1, peer⟩ w.implied w.position))
  /-- The token does not fit into a RESUME frame. -/
  | announceNothing {ep channel implied position cause} (hTask : w.task = .recovering ep)
      (hStage : ep.stage = .announcing channel implied position)
      (hEncode : ({ token := w.pool.bytes ep.token, implied, position } : Resume).encode =
        .error cause) :
      Stride w
        (w.own .stopped :: (w.disposal .task ++ [w.own (.ended (.failed (.encode cause)))]))
        (w.giveUp ep (.failed (.encode cause)))
  | announce {ep channel implied position frame} (hTask : w.task = .recovering ep)
      (hStage : ep.stage = .announcing channel implied position)
      (hEncode : ({ token := w.pool.bytes ep.token, implied, position } : Resume).encode =
        .ok frame) :
      Stride w
        [w.own (.listened channel.connection),
          w.own (.sent frame.toBytes w.sendsFail w.pool.counts)]
        (((((w.send .task frame.toBytes).release ep.token).enter .task .resumeSent).record .task
          (.listened channel.connection)).atStage ep (.listening (channel.receive w.now)))
  /-- The setup channel was closed. -/
  | hearNothing {ep answer} (hTask : w.task = .recovering ep)
      (hStage : ep.stage = .listening answer)
      (hReady : answer.ready? w.now = some none) :
      Stride w [w.own (.heard none)]
        (((w.record .task (.heard none)).enter .task .recovering).atStage ep
          (.consulting .setupClosed))
  /-- What came on the setup channel is no RESUME_OK. -/
  | hearNoise {ep answer frame cause cursor} (hTask : w.task = .recovering ep)
      (hStage : ep.stage = .listening answer) (hReady : answer.ready? w.now = some (some frame))
      (hDecode : ResumeOk.position (.start frame) = .error cause cursor) :
      Stride w [w.own (.heard (some frame))]
        (((w.record .task (.heard (some frame))).enter .task .recovering).atStage ep
          (.consulting (.decode cause)))
  | hear {ep answer frame position cursor} (hTask : w.task = .recovering ep)
      (hStage : ep.stage = .listening answer) (hReady : answer.ready? w.now = some (some frame))
      (hDecode : ResumeOk.position (.start frame) = .ok position cursor) :
      Stride w
        [w.own (.reconciling unknownPosition position), w.own (.heard (some frame))]
        ((({ w.record .task (.heard (some frame)) with
            reconciliations := w.reconciliations.tail }.record .task
          (.reconciling unknownPosition position)).atStage ep
          (.reconciling ⟨position, w.now + (w.reconciliations.headD .success).delay,
            w.reconciliations.headD .success⟩)))
  | resume {ep work} (hTask : w.task = .recovering ep) (hStage : ep.stage = .reconciling work)
      (hDue : work.due ≤ w.now) (hReply : work.reply.error = none) :
      Stride w
        (w.own (.ended .resumed) :: w.own (.reconciled none) :: w.raised work.reply.raises)
        { ((((w.raise work.reply.raises).record .task (.reconciled none)).enter .task
            .resumed).abandon ep).record .task (.ended .resumed) with task := .idle }
  | reject {ep work error} (hTask : w.task = .recovering ep)
      (hStage : ep.stage = .reconciling work) (hDue : work.due ≤ w.now)
      (hReply : work.reply.error = some error) :
      Stride w
        (w.own .stopped :: w.own (.ended .rejected) ::
          (w.disposal .task ++
            w.own (.sent (rejection work.position) w.sendsFail w.pool.counts) ::
              w.own (.reconciled (some error)) :: w.raised work.reply.raises))
        (((((w.raise work.reply.raises).record .task (.reconciled (some error))).send .task
          (rejection work.position)).dispose .task).giveUp ep .rejected)
  /-- The episode has to wait when its time is over. -/
  | cut {ep} (hTask : w.task = .recovering ep) (hWait : w.proceed ep = none)
      (hDeadline : ep.deadline ≤ w.now) :
      Stride w (w.own .stopped :: (w.disposal .task ++ [w.own (.ended .cut)])) (w.giveUp ep .cut)

theorem stride_of_begin {w : World} {error : LinkError} {errors : List LinkError}
    (hTask : w.task = .idle) (hErrors : w.errors = error :: errors) :
    ∃ written, Stride w written ({ w with errors }.begin error) := by
  rw [World.begin]
  dsimp only
  split
  case h_1 hBound => exact ⟨_, .beginBare hTask hErrors (by simpa using hBound)⟩
  case h_2 token hBound =>
    have hStride := Stride.begin hTask hErrors (show w.bound = some token by simpa using hBound)
    exact ⟨_, by simpa [welcome] using hStride⟩

theorem stride_of_dial {w : World} {ep : Episode} {due : Nat} (hTask : w.task = .recovering ep)
    (hStage : ep.stage = .backingOff due) (hDue : due ≤ w.now) :
    ∃ written, Stride w written (w.dial ep) := by
  rw [World.dial]
  dsimp only
  split
  case h_1 hSupplier =>
    rw [retry_eq rfl]
    exact ⟨_, .dialNobody hTask hStage hDue hSupplier⟩
  case h_2 supplier hSupplier =>
    have hNow : ∀ (n : Nat) (v : World), (v.raise n).now = v.now := by simp
    rw [hNow]
    exact ⟨_, .dial hTask hStage hDue hSupplier⟩

theorem stride_of_announce {w : World} {ep : Episode} {channel : Channel}
    {implied position : UInt64} (hTask : w.task = .recovering ep)
    (hStage : ep.stage = .announcing channel implied position) :
    ∃ written, Stride w written (w.announce ep channel implied position) := by
  rw [World.announce]
  dsimp only
  split
  case h_1 cause hEncode => exact ⟨_, .announceNothing hTask hStage hEncode⟩
  case h_2 frame hEncode =>
    -- the peer's answer is due from the time of sending, which a change of status leaves alone
    have hNow : ∀ v : World, (v.enter .task .resumeSent).now = v.now := by simp
    have hStride := Stride.announce hTask hStage hEncode
    rw [← show _ = w.now from hNow ((w.send .task frame.toBytes).release ep.token)] at hStride
    exact ⟨_, hStride⟩

theorem stride_of_hear {w : World} {ep : Episode} {pending : Pending (Option ByteArray)}
    {answer : Option ByteArray} (hTask : w.task = .recovering ep)
    (hStage : ep.stage = .listening pending) (hReady : pending.ready? w.now = some answer) :
    ∃ written, Stride w written (w.hear ep answer) := by
  unfold World.hear
  split
  case h_1 =>
    rw [retry_eq rfl]
    exact ⟨_, .hearNothing hTask hStage hReady⟩
  case h_2 frame =>
    split
    case h_1 cause cursor hDecode =>
      rw [retry_eq rfl]
      exact ⟨_, .hearNoise hTask hStage hReady hDecode⟩
    case h_2 position cursor hDecode => exact ⟨_, .hear hTask hStage hReady hDecode⟩

theorem stride_of_conclude {w : World} {ep : Episode} {work : Reconciling}
    (hTask : w.task = .recovering ep) (hStage : ep.stage = .reconciling work)
    (hDue : work.due ≤ w.now) :
    ∃ written, Stride w written (w.conclude ep work) := by
  rw [World.conclude, finishReconciling]
  dsimp only
  cases hReply : work.reply.error with
  | none => exact ⟨_, .resume hTask hStage hDue hReply⟩
  | some error => exact ⟨_, .reject hTask hStage hDue hReply⟩

/-- Every step of the task is one of the strides. -/
theorem stride_of_step {w w' : World} (hStep : w.step = some w') :
    ∃ written, Stride w written w' := by
  unfold step at hStep
  split at hStep
  case h_1 => cases hStep
  case h_2 hTask =>
    split at hStep
    case h_1 error errors hErrors =>
      cases hStep
      exact stride_of_begin hTask hErrors
    case h_2 hErrors =>
      split at hStep
      case isTrue hClosed =>
        cases hStep
        exact ⟨_, .stop hTask hErrors hClosed⟩
      case isFalse => cases hStep
  case h_3 ep hTask =>
    split at hStep
    case h_1 next hProceed =>
      cases hStep
      unfold proceed at hProceed
      split at hProceed
      case h_1 cause hStage =>
        cases hProceed
        exact ⟨_, .consult hTask hStage⟩
      case h_2 reply hStage =>
        obtain ⟨answer, hReady, rfl⟩ := Option.map_eq_some_iff.mp hProceed
        exact ⟨_, .backOff hTask hStage hReady⟩
      case h_3 due hStage =>
        split at hProceed
        case isTrue hDue =>
          cases hProceed
          exact stride_of_dial hTask hStage hDue
        case isFalse => cases hProceed
      case h_4 answer hStage =>
        obtain ⟨reply, hReady, rfl⟩ := Option.map_eq_some_iff.mp hProceed
        cases reply with
        | ok peer =>
          dsimp only
          rw [install_eq]
          exact ⟨_, .install hTask hStage hReady⟩
        | error cause => exact ⟨_, .refuse hTask hStage hReady⟩
      case h_5 channel implied position hStage =>
        cases hProceed
        exact stride_of_announce hTask hStage
      case h_6 answer hStage =>
        obtain ⟨reply, hReady, rfl⟩ := Option.map_eq_some_iff.mp hProceed
        exact stride_of_hear hTask hStage hReady
      case h_7 work hStage =>
        split at hProceed
        case isTrue hDue =>
          cases hProceed
          exact stride_of_conclude hTask hStage hDue
        case isFalse => cases hProceed
    case h_2 hWait =>
      -- an episode that has to wait is cut at its deadline
      split at hStep
      case isTrue hDeadline =>
        cases hStep
        exact ⟨_, .cut hTask hWait hDeadline⟩
      case isFalse => cases hStep

-- ---------------------------------------------------------------------------
-- One action
-- ---------------------------------------------------------------------------

/-- Nothing has changed but the clock, what collaborators will answer and who watches. -/
structure Same (w w' : World) : Prop where
  config : w'.config = w.config
  pool : w'.pool = w.pool
  errors : w'.errors = w.errors
  isOpen : w'.isOpen = w.isOpen
  status : w'.status = w.status
  disposed : w'.disposed = w.disposed
  bound : w'.bound = w.bound
  task : w'.task = w.task
  held : w'.held = w.held
  deeds : deeds w'.journal = deeds w.journal

/-- What one action can do, with what it writes down, latest first. -/
inductive Change (w : World) : Action → List Entry → World → Prop
  | work {written next} (hStride : Stride w written next) : Change w .work written next
  /-- Everything that does not concern the task, its token or the error stream. -/
  | quiet {action next} (hAction : action ≠ .work) (hSame : Same w next) : Change w action [] next
  | fail (error : LinkError) :
      Change w (.fail error) (w.arrived [error]) (w.accept [error])
  | bind {token} (hMinted : token < w.pool.next) (hOpen : w.isOpen) :
      Change w (.bind token) [w.guest (.bound token)] (w.bind token)
  | reconnect (label : String) :
      Change w (.reconnect label)
        (w.raised (w.bursts.headD 0) ++ [w.guest (.reconnected (.labelled label))])
        (w.reconnect .caller (.labelled label))
  | beginResume {frame position cursor} (hDecode : ResumeOk.position frame = .ok position cursor) :
      Change w (.beginResume frame) [w.guest (.reconciling unknownPosition position)]
        { { w with reconciliations := w.reconciliations.tail }.record .caller
            (.reconciling unknownPosition position) with
          calls := w.calls ++ [⟨position, w.now + (w.reconciliations.headD .success).delay,
            w.reconciliations.headD .success⟩] }
  | refuseResume {frame cause cursor} (hDecode : ResumeOk.position frame = .error cause cursor) :
      Change w (.beginResume frame) [w.guest (.returned (.error cause))]
        (w.record .caller (.returned (.error cause)))
  | resume {number work} (hWork : w.calls[number]? = some work) (hReply : work.reply.error = none) :
      Change w (.finishResume number)
        (w.guest (.returned (.ok .resumed)) :: w.guest (.reconciled none) ::
          w.raised work.reply.raises)
        (((({ w with calls := w.calls.eraseIdx number }.raise work.reply.raises).record .caller
          (.reconciled none)).enter .caller .resumed).record .caller (.returned (.ok .resumed)))
  | reject {number work error} (hWork : w.calls[number]? = some work)
      (hReply : work.reply.error = some error) :
      Change w (.finishResume number)
        (w.guest (.returned (.ok .rejected)) ::
          (w.disposal .caller ++
            w.guest (.sent (rejection work.position) w.sendsFail w.pool.counts) ::
              w.guest (.reconciled (some error)) :: w.raised work.reply.raises))
        ((((({ w with calls := w.calls.eraseIdx number }.raise work.reply.raises).record .caller
          (.reconciled (some error))).send .caller (rejection work.position)).dispose
            .caller).record .caller (.returned (.ok .rejected)))
  | hold {token} (hBound : w.bound = some token) :
      Change w .hold [] { w.retain token with held := token :: w.held }
  | releaseHeld : Change w .releaseHeld [] w.releaseHeld
  | drop (hTask : ∀ ep, w.task ≠ .recovering ep) :
      Change w .drop [w.guest .dropped]
        ({ w.unbind with
          isOpen := false
          task := .ended
          supplier := none
          observer := none }.record .caller .dropped)
  | dropRecovering {ep} (hTask : w.task = .recovering ep) :
      Change w .drop [w.guest .dropped, w.guest (.ended .dropped)]
        ({ ((w.abandon ep).record .caller (.ended .dropped)).unbind with
          isOpen := false
          task := .ended
          supplier := none
          observer := none }.record .caller .dropped)

theorem of_whileOpen {w next w' : World} (h : w.whileOpen next = some w') :
    w.isOpen ∧ next = w' := by
  rw [whileOpen] at h
  split at h
  case isTrue hOpen => exact ⟨hOpen, by simpa using h⟩
  case isFalse => cases h

theorem change_of_beginResume {w w' : World} {frame : Cursor}
    (hAct : w.act (.beginResume frame) = some w') :
    ∃ written, Change w (.beginResume frame) written w' := by
  unfold act World.beginResume at hAct
  cases hDecode : ResumeOk.position frame with
  | error cause cursor =>
    simp only [hDecode] at hAct
    obtain ⟨-, rfl⟩ := of_whileOpen hAct
    exact ⟨_, .refuseResume hDecode⟩
  | ok position cursor =>
    simp only [hDecode] at hAct
    obtain ⟨-, rfl⟩ := of_whileOpen hAct
    exact ⟨_, .beginResume hDecode⟩

theorem change_of_finishResume {w w' : World} {number : Nat}
    (hAct : w.act (.finishResume number) = some w') :
    ∃ written, Change w (.finishResume number) written w' := by
  unfold act World.finishResume at hAct
  cases hWork : w.calls[number]? with
  | none => simp [hWork] at hAct
  | some work =>
    simp only [hWork] at hAct
    split at hAct
    case isFalse => cases hAct
    case isTrue hDue =>
      cases hReply : work.reply.error with
      | none =>
        simp only [finishReconciling, hReply, Option.map_some, Option.some.injEq] at hAct
        subst hAct
        exact ⟨_, .resume hWork hReply⟩
      | some error =>
        simp only [finishReconciling, hReply, Option.map_some, Option.some.injEq] at hAct
        subst hAct
        exact ⟨_, .reject hWork hReply⟩

theorem change_of_drop {w w' : World} (hAct : w.act .drop = some w') :
    ∃ written, Change w .drop written w' := by
  simp only [act] at hAct
  split at hAct
  case isFalse => cases hAct
  case isTrue =>
    obtain ⟨-, rfl⟩ := of_whileOpen hAct
    rw [World.drop]
    cases hTask : w.task with
    | recovering ep => exact ⟨_, .dropRecovering hTask⟩
    | idle => exact ⟨_, .drop (by simp [hTask])⟩
    | ended => exact ⟨_, .drop (by simp [hTask])⟩

/-- Every action does one of the changes. -/
theorem change_of_act {w w' : World} {action : Action} (hAct : w.act action = some w') :
    ∃ written, Change w action written w' := by
  have hQuiet : ∀ {next : World}, Same w next → some next = some w' → action ≠ .work →
      ∃ written, Change w action written w' := by
    intro next hSame hNext hWork
    cases hNext
    exact ⟨_, .quiet hWork hSame⟩
  cases action with
  | work =>
    obtain ⟨written, hStride⟩ := stride_of_step hAct
    exact ⟨written, .work hStride⟩
  | elapse millis =>
    simp only [act] at hAct
    split at hAct
    case isTrue => exact hQuiet (by constructor <;> rfl) hAct nofun
    case isFalse => cases hAct
  | fail error =>
    cases hAct
    exact ⟨_, .fail error⟩
  | closeErrors => exact hQuiet (by constructor <;> rfl) hAct nofun
  | setPositions implied position => exact hQuiet (by constructor <;> rfl) hAct nofun
  | setSendsFail sendsFail => exact hQuiet (by constructor <;> rfl) hAct nofun
  | addReconciliation reconciliation => exact hQuiet (by constructor <;> rfl) hAct nofun
  | bind token =>
    simp only [act] at hAct
    split at hAct
    case isTrue hMinted =>
      obtain ⟨hOpen, rfl⟩ := of_whileOpen hAct
      exact ⟨_, .bind hMinted hOpen⟩
    case isFalse => cases hAct
  | setSupplier supplier =>
    obtain ⟨-, rfl⟩ := of_whileOpen hAct
    exact hQuiet (by constructor <;> rfl) rfl nofun
  | reconnect label =>
    obtain ⟨-, rfl⟩ := of_whileOpen hAct
    exact ⟨_, .reconnect label⟩
  | beginResume frame => exact change_of_beginResume hAct
  | finishResume number => exact change_of_finishResume hAct
  | observe observer =>
    obtain ⟨-, rfl⟩ := of_whileOpen hAct
    refine hQuiet ?_ rfl nofun
    constructor <;> first | rfl | exact deeds_tell ..
  | hold =>
    obtain ⟨-, hNext⟩ := of_whileOpen hAct
    unfold World.hold at hNext
    split at hNext
    case h_1 => exact hQuiet (by constructor <;> rfl) (congrArg some hNext) nofun
    case h_2 token hBound =>
      subst hNext
      exact ⟨_, .hold hBound⟩
  | releaseHeld =>
    cases hAct
    exact ⟨_, .releaseHeld⟩
  | subscribe =>
    obtain ⟨-, rfl⟩ := of_whileOpen hAct
    exact hQuiet (by constructor <;> rfl) rfl nofun
  | poll => exact hQuiet (by constructor <;> rfl) hAct nofun
  | drop => exact change_of_drop hAct

-- ---------------------------------------------------------------------------
-- What is written down
-- ---------------------------------------------------------------------------

section

attribute [local simp] own guest arrived raised drained disposal taking listens Event.isNotice

theorem deeds_stride {w w' : World} {written : List Entry} (hStride : Stride w written w') :
    deeds w'.journal = written ++ deeds w.journal := by
  cases hStride with
  | stop => simp
  | beginBare => by_cases hDisposed : w.disposed <;> simp [welcome, hDisposed]
  | begin => simp [welcome]
  | consult => simp
  | backOff => simp
  | dialNobody => simp
  | dial => simp
  | refuse => simp
  | install => simp [connect, Function.comp_def]
  | announceNothing => by_cases hDisposed : w.disposed <;> simp [hDisposed]
  | announce => simp
  | hearNothing => simp
  | hearNoise => simp
  | hear => simp
  | resume => simp
  | reject => by_cases hDisposed : w.disposed <;> simp [hDisposed]
  | cut => by_cases hDisposed : w.disposed <;> simp [hDisposed]

/-- The journal grows by what the action writes down, notices apart. -/
theorem deeds_change {w w' : World} {action : Action} {written : List Entry}
    (hChange : Change w action written w') :
    deeds w'.journal = written ++ deeds w.journal := by
  cases hChange with
  | work hStride => exact deeds_stride hStride
  | quiet _ hSame => exact hSame.deeds
  | fail error => simp
  | bind => simp [World.bind]
  | reconnect label => simp
  | beginResume => simp
  | refuseResume => simp
  | resume => simp
  | reject => by_cases hDisposed : w.disposed <;> simp [hDisposed]
  | hold => simp
  | releaseHeld => rfl
  | drop => simp
  | dropRecovering => simp

end

end World

-- ---------------------------------------------------------------------------
-- What never changes
-- ---------------------------------------------------------------------------

@[simp] theorem Pool.bytes_retain (p : Pool) (id : Token.Id) : (p.retain id).bytes = p.bytes := by
  funext other
  rw [bytes, bytes, retain, List.getElem?_modify]
  by_cases hSame : id = other <;> simp [hSame, Function.comp_def]

@[simp] theorem Pool.bytes_release (p : Pool) (id : Token.Id) : (p.release id).bytes = p.bytes := by
  funext other
  rw [bytes, bytes, release, List.getElem?_modify]
  by_cases hSame : id = other <;> simp [hSame, Function.comp_def]

@[simp] theorem Pool.bytes_foldl_release (p : Pool) (ids : List Token.Id) :
    (ids.foldl release p).bytes = p.bytes := by
  induction ids generalizing p with
  | nil => rfl
  | cons id ids ih => rw [List.foldl_cons, ih, bytes_release]

namespace World

theorem bytes_unbind (w : World) : w.unbind.pool.bytes = w.pool.bytes := by
  rw [unbind_eq]
  cases w.bound <;> simp

theorem bytes_terminate (w : World) : w.terminate.pool.bytes = w.pool.bytes := by
  rw [(terminate_frame w).2.2.1, bytes_unbind]

theorem bytes_abandon (ep : Episode) (w : World) : (w.abandon ep).pool.bytes = w.pool.bytes := by
  rw [abandon_eq]
  cases ep.stage.holdsFrame <;> simp

theorem bytes_giveUp (ep : Episode) (how : Ending) (w : World) :
    (w.giveUp ep how).pool.bytes = w.pool.bytes := by
  rw [giveUp_eq, bytes_terminate]
  simp only [dispose_frame, record]
  exact bytes_abandon ep w

theorem bytes_stride {w w' : World} {written : List Entry} (hStride : Stride w written w') :
    w'.pool.bytes = w.pool.bytes := by
  cases hStride with
  | stop => exact bytes_terminate w
  | beginBare => exact (bytes_terminate _).trans (by simp [welcome])
  | announceNothing | cut => exact bytes_giveUp _ _ w
  | reject => exact (bytes_giveUp _ _ _).trans (by simp)
  | @resume ep =>
    have hAbandon := bytes_abandon ep w
    simpa using hAbandon
  | _ => simp [welcome, connect]

theorem config_stride {w w' : World} {written : List Entry} (hStride : Stride w written w') :
    w'.config = w.config := by
  cases hStride <;> simp [welcome, connect]

theorem bytes_change {w w' : World} {action : Action} {written : List Entry}
    (hChange : Change w action written w') : w'.pool.bytes = w.pool.bytes := by
  cases hChange with
  | work hStride => exact bytes_stride hStride
  | quiet _ hSame => rw [hSame.pool]
  | bind => cases hBound : w.bound <;> simp [World.bind, hBound]
  | releaseHeld => simp [releaseHeld]
  | drop => exact bytes_unbind w
  | dropRecovering =>
    exact (bytes_unbind _).trans (bytes_abandon _ w)
  | _ => simp

theorem config_change {w w' : World} {action : Action} {written : List Entry}
    (hChange : Change w action written w') : w'.config = w.config := by
  cases hChange with
  | work hStride => exact config_stride hStride
  | quiet _ hSame => exact hSame.config
  | bind => simp [World.bind]
  | releaseHeld => rfl
  | _ => simp

-- ---------------------------------------------------------------------------
-- Runs
-- ---------------------------------------------------------------------------

theorem run_append (w : World) (actions more : List Action) :
    w.run (actions ++ more) = (w.run actions).bind fun next => next.run more := by
  induction actions generalizing w with
  | nil => rfl
  | cons action actions ih =>
    rw [List.cons_append, run, run, Option.bind_assoc]
    congr 1
    funext next
    exact ih next

/-- What every action keeps, every run keeps. -/
theorem run_induct {P : World → Prop}
    (hAct : ∀ {w w' : World} {action : Action} {written : List Entry},
      w.act action = some w' → P w → Change w action written w' → P w')
    {w w' : World} {actions : List Action} (hRun : w.run actions = some w') (hP : P w) : P w' := by
  induction actions generalizing w with
  | nil =>
    cases hRun
    exact hP
  | cons action actions ih =>
    obtain ⟨next, hNext, hRest⟩ := Option.bind_eq_some_iff.mp hRun
    obtain ⟨written, hChange⟩ := change_of_act hNext
    exact ih hRest (hAct hNext hP hChange)

theorem config_run {w w' : World} {actions : List Action} (hRun : w.run actions = some w') :
    w'.config = w.config :=
  run_induct (P := fun v => v.config = w.config)
    (fun _ hConfig hChange => (config_change hChange).trans hConfig) hRun rfl

/-- What every action keeps and all it writes down while that holds. -/
theorem run_grows {P : World → Prop} {Q : Entry → Prop}
    (hAct : ∀ {w w' : World} {action : Action} {written : List Entry},
      P w → Change w action written w' → P w' ∧ ∀ e ∈ written, Q e)
    {w w' : World} {actions : List Action} (hRun : w.run actions = some w') (hP : P w) :
    P w' ∧ ∃ written, deeds w'.journal = written ++ deeds w.journal ∧ ∀ e ∈ written, Q e := by
  refine run_induct (P := fun v => P v ∧ ∃ written, deeds v.journal = written ++ deeds w.journal ∧
    ∀ e ∈ written, Q e) ?_ hRun ⟨hP, [], rfl, by simp⟩
  rintro v v' action written - ⟨hP, before, hBefore, hQ⟩ hChange
  obtain ⟨hP', hQ'⟩ := hAct hP hChange
  refine ⟨hP', written ++ before, ?_, ?_⟩
  · rw [deeds_change hChange, hBefore, List.append_assoc]
  · intro e he
    rcases List.mem_append.mp he with he | he
    · exact hQ' e he
    · exact hQ e he

end World

theorem Reachable.run {w w' : World} {actions : List Action} (hReach : Reachable w)
    (hRun : w.run actions = some w') : Reachable w' := by
  obtain ⟨config, tokens, reconciliations, bursts, before, hBefore⟩ := hReach
  refine ⟨config, tokens, reconciliations, bursts, before ++ actions, ?_⟩
  rw [World.run_append, hBefore]
  exact hRun

theorem Reachable.act {w w' : World} {action : Action} (hReach : Reachable w)
    (hAct : w.act action = some w') : Reachable w' := by
  have hRun : w.run [action] = some w' := by
    rw [World.run, hAct]
    rfl
  exact hReach.run hRun

/-- What a new session satisfies and every action keeps holds always. -/
theorem Reachable.induct_act {P : World → Prop}
    (hInitial : ∀ config tokens reconciliations bursts,
      P (World.initial config tokens reconciliations bursts))
    (hAct : ∀ {w w' : World} {action : Action}, Reachable w → P w → w.act action = some w' → P w')
    {w : World} (hReach : Reachable w) : P w := by
  obtain ⟨config, tokens, reconciliations, bursts, actions, hRun⟩ := hReach
  have hStart : Reachable (World.initial config tokens reconciliations bursts) :=
    ⟨config, tokens, reconciliations, bursts, [], rfl⟩
  -- a run keeps both, so that what an action keeps may rest on the state being reachable
  have hBoth : Reachable w ∧ P w := by
    refine World.run_induct (P := fun v => Reachable v ∧ P v) ?_ hRun
      ⟨hStart, hInitial config tokens reconciliations bursts⟩
    rintro v v' action written hNext ⟨hReach, hP⟩ -
    exact ⟨hReach.act hNext, hAct hReach hP hNext⟩
  exact hBoth.2

/-- The same for what a change keeps. -/
theorem Reachable.induct {P : World → Prop}
    (hInitial : ∀ config tokens reconciliations bursts,
      P (World.initial config tokens reconciliations bursts))
    (hAct : ∀ {w w' : World} {action : Action} {written : List Entry},
      Reachable w → P w → World.Change w action written w' → P w')
    {w : World} (hReach : Reachable w) : P w := by
  refine hReach.induct_act hInitial ?_
  intro w w' action hReach hP hNext
  obtain ⟨written, hChange⟩ := World.change_of_act hNext
  exact hAct hReach hP hChange

-- ---------------------------------------------------------------------------
-- A session to try things on
-- ---------------------------------------------------------------------------

/-- A session with one token, 30 seconds for an episode and a strategy that never waits. -/
def World.fresh (token : ByteArray) : World :=
  .initial ⟨.ofSeconds 30, fun _ => .scripted [] ⟨0, .wait .zero⟩⟩ [token] [] []

def World.sample : World :=
  .fresh ⟨#[1]⟩

/-- A RESUME_OK frame with position 7. -/
def World.sampleOk : ByteArray :=
  ⟨#[0, 0, 0, 0, 0x38, 0, 0, 0, 0, 0, 0, 0, 0, 7]⟩

theorem reachable_fresh {token : ByteArray} {w : World} {actions : List Action}
    (hRun : (World.fresh token).run actions = some w) : Reachable w :=
  ⟨_, _, _, _, actions, hRun⟩

theorem reachable_sample {w : World} {actions : List Action}
    (hRun : World.sample.run actions = some w) : Reachable w :=
  reachable_fresh hRun

end Resumption
