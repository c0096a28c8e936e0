import Resumption.Proofs.Holders

/-!
# The status and the task

As long as no caller hands a RESUME_OK frame to the session, its status follows what the task does:
it changes only along a small table, it is active or resumed exactly while the task waits for an
error, and each kind of call is made in a status of its own. The journal is read with its notices
here, since those tell the changes of the status.

* `Status.next` — the table
* `standing` — the status that the journal tells
* `Fitting` — what an entry says about the status before it
* `Undisturbed` — states reached without a RESUME_OK from a caller
* `World.Tuned` — the stage of the episode and the status go together
* `staged_of_undisturbed` — what holds of every such run
-/

namespace Resumption

-- ---------------------------------------------------------------------------
-- What the journal tells
-- ---------------------------------------------------------------------------

/-- The statuses that may come right after one. -/
def Status.next : Status → List Status
  | .active | .resumed => [.recovering, .closed]
  | .recovering => [.reestablished, .disposed]
  | .reestablished => [.resumeSent, .disposed]
  | .resumeSent => [.resumed, .recovering, .disposed]
  | .disposed | .closed => []

def Event.entered? : Event → Option Status
  | .entered status => some status
  | _ => none

/-- The status that the journal tells. -/
def standing (journal : List Entry) : Status :=
  (journal.findSome? fun e => e.event.entered?).getD .active

/-- The only status in which a call may be made, if there is one. A caller may reconnect at any
time. -/
def Entry.place (e : Entry) : Option Status :=
  match e.event with
  | .strategyMade | .consulted .. | .dialled _ => some .recovering
  | .reconnected _ => if e.actor = .task then some .recovering else none
  | .sent frame _ _ => if isResume frame then some .reestablished else none
  | .reconciling .. => some .resumeSent
  | _ => none

/-- What an entry says about the status before it. -/
structure Fitting (e : Entry) (past : List Entry) : Prop where
  /-- A change of the status is one of the table. -/
  entered : ∀ status, e.event = .entered status → status ∈ (standing past).next
  /-- A call is made in its status. -/
  place : ∀ status, e.place = some status → standing past = status

@[simp] theorem standing_cons (e : Entry) (journal : List Entry) :
    standing (e :: journal) = e.event.entered?.getD (standing journal) := by
  unfold standing
  rw [List.findSome?_cons]
  cases e.event.entered? <;> rfl

/-- Whether an entry says nothing about the status. -/
def Entry.isNeutral (e : Entry) : Bool :=
  e.event.entered?.isNone && e.place.isNone

/-- The journal tells this status, and all that it tells is fitting. -/
structure Tells (journal : List Entry) (status : Status) : Prop where
  standing : standing journal = status
  fitting : Always Fitting journal

theorem Tells.cons {journal : List Entry} {status : Status} {e : Entry}
    (hTells : Tells journal status) (hEntered : e.event.entered? = none)
    (hPlace : ∀ other, e.place = some other → status = other) : Tells (e :: journal) status := by
  constructor
  · rw [standing_cons, hEntered]
    exact hTells.standing
  · refine always_cons ⟨?_, ?_⟩ hTells.fitting
    · intro other hEvent
      rw [hEvent] at hEntered
      cases hEntered
    · intro other hOther
      rw [hTells.standing]
      exact hPlace other hOther

/-- What says nothing about the status changes nothing. -/
theorem Tells.append {journal later : List Entry} {status : Status} (hTells : Tells journal status)
    (hNeutral : ∀ e ∈ later, e.isNeutral) : Tells (later ++ journal) status := by
  induction later with
  | nil => exact hTells
  | cons e later ih =>
    have hHead := hNeutral e List.mem_cons_self
    rw [Entry.isNeutral, Bool.and_eq_true, Option.isNone_iff_eq_none, Option.isNone_iff_eq_none]
      at hHead
    refine (ih fun e' he' => hNeutral e' (List.mem_cons_of_mem e he')).cons hHead.1 ?_
    intro other hOther
    rw [hHead.2] at hOther
    cases hOther

theorem Tells.enter {journal : List Entry} {status : Status} (hTells : Tells journal status)
    (time : Nat) (actor : Actor) {other : Status} (hNext : other ∈ status.next) :
    Tells (⟨time, actor, .entered other⟩ :: journal) other := by
  constructor
  · rw [standing_cons]
    rfl
  · refine always_cons ⟨?_, ?_⟩ hTells.fitting
    · intro entered hEvent
      cases hEvent
      rw [hTells.standing]
      exact hNext
    · intro placed hPlace
      cases hPlace

theorem Status.isTerminal_of_next {status other : Status} (hNext : other ∈ status.next) :
    status.isTerminal = false ∧ status ≠ other := by
  cases status <;> cases other <;> simp_all [Status.next]

namespace World

-- ---------------------------------------------------------------------------
-- Elementary changes
-- ---------------------------------------------------------------------------

/-- The journal tells the status. -/
def Candid (w : World) : Prop :=
  Tells w.journal w.status

theorem isNeutral_tell (actor : Actor) (observer : Observer) (w : World) :
    ∃ notes, (w.tell actor observer).journal = notes ++ w.journal ∧ ∀ e ∈ notes, e.isNeutral := by
  refine ⟨_, rfl, ?_⟩
  intro e hMem
  obtain ⟨event, hEvent, rfl⟩ := List.mem_map.mp (List.mem_reverse.mp hMem)
  obtain ⟨name, -, rfl⟩ := List.mem_map.mp hEvent
  rfl

theorem Candid.record {w : World} (hCandid : w.Candid) (actor : Actor) (event : Event)
    (hEntered : event.entered? = none)
    (hPlace : ∀ other, (⟨w.now, actor, event⟩ : Entry).place = some other → w.status = other) :
    (w.record actor event).Candid :=
  Tells.cons hCandid hEntered hPlace

theorem Candid.note {w : World} (hCandid : w.Candid) (actor : Actor) (event : Event)
    (hNeutral : (⟨w.now, actor, event⟩ : Entry).isNeutral) : (w.record actor event).Candid := by
  have hNotes : ∀ e ∈ [(⟨w.now, actor, event⟩ : Entry)], e.isNeutral := by
    simpa using hNeutral
  exact Tells.append hCandid hNotes

theorem Candid.enter {w : World} (hCandid : w.Candid) (actor : Actor) (status : Status)
    (hNext : status ∈ w.status.next) : (w.enter actor status).Candid := by
  obtain ⟨hTerminal, hChanged⟩ := Status.isTerminal_of_next hNext
  have hEntered := Tells.enter hCandid w.now actor hNext
  rw [World.enter, if_neg (by simp [hTerminal, hChanged])]
  dsimp only
  split
  case h_1 => exact hEntered
  case h_2 observer _ =>
    -- the observer is told afterwards
    obtain ⟨notes, hNotes, hNeutral⟩ := isNeutral_tell actor observer
      ({ w with status, subscriber := w.subscriber.map fun _ => true }.record actor
        (.entered status))
    have hTold := hEntered.append hNeutral
    unfold Candid
    rw [hNotes]
    exact hTold

theorem enter_same {w : World} {status : Status} (actor : Actor) (hSame : w.status = status) :
    w.enter actor status = w := by
  rw [World.enter, if_pos (.inr hSame)]

theorem Candid.accept {w : World} (hCandid : w.Candid) (errors : List LinkError) :
    (w.accept errors).Candid := by
  rw [accept_eq]
  refine Tells.append hCandid ?_
  intro e hMem
  obtain ⟨error, -, rfl⟩ := List.mem_map.mp (List.mem_reverse.mp hMem)
  rfl

theorem Candid.discardErrors {w : World} (hCandid : w.Candid) : w.discardErrors.Candid := by
  refine Tells.append hCandid ?_
  intro e hMem
  obtain ⟨event, hEvent, rfl⟩ := List.mem_map.mp (List.mem_reverse.mp hMem)
  obtain ⟨error, -, rfl⟩ := List.mem_map.mp hEvent
  rfl

/-- The task reconnects while it recovers, and a caller at any time. -/
theorem Candid.reconnect {w : World} (hCandid : w.Candid) (actor : Actor) (target : Target)
    (hPlace : actor = .task → w.status = .recovering) : (w.reconnect actor target).Candid := by
  have hRecord : (w.record actor (.reconnected target)).Candid := by
    refine hCandid.record actor _ rfl ?_
    intro other hOther
    cases actor <;> simp_all [Entry.place]
  exact Candid.accept (w := { w.record actor (.reconnected target) with bursts := w.bursts.tail })
    hRecord _

theorem Candid.dispose {w : World} (hCandid : w.Candid) (actor : Actor)
    (hDisposed : w.disposed = false) (hNext : .disposed ∈ w.status.next) :
    (w.dispose actor).Candid := by
  have hRecord : ({ w with disposed := true }.record actor .disposed).Candid :=
    Candid.note (w := { w with disposed := true }) hCandid actor _ rfl
  rw [World.dispose, hDisposed, if_neg Bool.false_ne_true]
  exact hRecord.enter actor _ hNext

theorem Candid.terminate {w : World} (hCandid : w.Candid)
    (hNext : w.disposed = false → .closed ∈ w.status.next) : w.terminate.Candid := by
  have hUnbound : w.unbind.Candid := by
    rw [unbind_eq]
    exact hCandid
  have hStatus : w.unbind.status = w.status ∧ w.unbind.disposed = w.disposed := by
    rw [unbind_eq]
    exact ⟨rfl, rfl⟩
  -- a disposed connection is left as it is
  show ((if w.unbind.disposed then w.unbind else w.unbind.enter .task .closed).record .task
    .stopped).Candid
  refine Candid.note ?_ .task _ rfl
  split
  case isTrue => exact hUnbound
  case isFalse hDisposed =>
    rw [hStatus.2, Bool.not_eq_true] at hDisposed
    refine hUnbound.enter .task _ ?_
    rw [hStatus.1]
    exact hNext hDisposed

/-- The end of a task that disposes the connection. -/
theorem Candid.close {w : World} (hCandid : w.Candid)
    (hNext : w.disposed = false → .disposed ∈ w.status.next) :
    (w.dispose .task).terminate.Candid := by
  have hDispose : (w.dispose .task).Candid := by
    by_cases hDisposed : w.disposed
    · rw [World.dispose, if_pos hDisposed]
      exact hCandid
    · rw [Bool.not_eq_true] at hDisposed
      exact hCandid.dispose .task hDisposed (hNext hDisposed)
  refine hDispose.terminate ?_
  intro hDisposed
  rw [(dispose_frame .task w).1] at hDisposed
  cases hDisposed

theorem Candid.abandon {w : World} (hCandid : w.Candid) (ep : Episode) : (w.abandon ep).Candid := by
  rw [abandon_eq]
  exact hCandid

theorem Candid.giveUp {w : World} (hCandid : w.Candid) (ep : Episode) (how : Ending)
    (hNext : w.disposed = false → .disposed ∈ w.status.next) : (w.giveUp ep how).Candid := by
  rw [giveUp_eq]
  refine ((hCandid.abandon ep).note .task _ rfl).close ?_
  simpa using hNext

theorem isTerminal_close {w : World} (hTerminal : w.disposed → w.status.isTerminal) :
    (w.dispose .task).terminate.status.isTerminal := by
  rw [status_terminate, if_pos (.inl (dispose_frame .task w).1), status_dispose]
  split
  case isTrue hOver =>
    rcases hOver with hDisposed | hStatus
    · exact hTerminal hDisposed
    · exact hStatus
  case isFalse => rfl

theorem isTerminal_giveUp {w : World} (ep : Episode) (how : Ending)
    (hTerminal : w.disposed → w.status.isTerminal) : (w.giveUp ep how).status.isTerminal := by
  rw [giveUp_eq]
  refine isTerminal_close ?_
  simpa using hTerminal

end World

-- ---------------------------------------------------------------------------
-- Stages and statuses
-- ---------------------------------------------------------------------------

/-- The status that goes with a stage. -/
def Stage.status : Stage → Status
  | .consulting _ | .advised _ | .backingOff _ | .dialling _ => .recovering
  | .announcing .. => .reestablished
  | .listening _ | .reconciling _ => .resumeSent

/-- An episode can end at any stage. -/
theorem Stage.disposed_mem_next (stage : Stage) : .disposed ∈ stage.status.next := by
  cases stage <;> simp [Stage.status, Status.next]

/-- Whether a caller hands a RESUME_OK frame to the session. -/
def Action.handsOver : Action → Bool
  | .beginResume frame =>
    match ResumeOk.position frame with
    | .ok .. => true
    | .error .. => false
  | _ => false

/-- A state that a session can come to without a RESUME_OK frame from a caller. -/
def Undisturbed (w : World) : Prop :=
  ∃ config tokens reconciliations bursts actions,
    (∀ action ∈ actions, action.handsOver = false) ∧
      (World.initial config tokens reconciliations bursts).run actions = some w

theorem Undisturbed.reachable {w : World} (hCalm : Undisturbed w) : Reachable w := by
  obtain ⟨config, tokens, reconciliations, bursts, actions, -, hRun⟩ := hCalm
  exact ⟨config, tokens, reconciliations, bursts, actions, hRun⟩

namespace World

/-- The journal tells the status, and the status goes with what the task does. -/
structure Tuned (w : World) : Prop where
  candid : w.Candid
  calls : w.calls = []
  idle : w.task = .idle →
    w.isOpen ∧ w.disposed = false ∧ (w.status = .active ∨ w.status = .resumed)
  recovering : ∀ ep, w.task = .recovering ep →
    w.isOpen ∧ w.disposed = false ∧ w.status = ep.stage.status
  ended : w.task = .ended → w.isOpen → w.status.isTerminal

/-- An episode that goes on. -/
theorem Tuned.goOn {w w' : World} {ep : Episode} (hTuned : w.Tuned) (hCandid : w'.Candid)
    (hTask' : w'.task = .recovering ep) (hStatus : w'.status = ep.stage.status)
    (hOpen : w'.isOpen) (hDisposed : w'.disposed = false) (hCalls : w'.calls = w.calls) :
    w'.Tuned := by
  refine ⟨hCandid, hCalls.trans hTuned.calls, ?_, ?_, ?_⟩
  · intro hIdle
    rw [hTask'] at hIdle
    cases hIdle
  · intro other hOther
    rw [hTask'] at hOther
    cases hOther
    exact ⟨hOpen, hDisposed, hStatus⟩
  · intro hEnded
    rw [hTask'] at hEnded
    cases hEnded

/-- A task that comes to its end. -/
theorem Tuned.finish {w w' : World} (hTuned : w.Tuned) (hCandid : w'.Candid)
    (hTask' : w'.task = .ended) (hStatus : w'.status.isTerminal) (hCalls : w'.calls = w.calls) :
    w'.Tuned := by
  refine ⟨hCandid, hCalls.trans hTuned.calls, ?_, ?_, fun _ _ => hStatus⟩
  · intro hIdle
    rw [hTask'] at hIdle
    cases hIdle
  · intro ep hRecovering
    rw [hTask'] at hRecovering
    cases hRecovering

theorem Tuned.at {w : World} {ep : Episode} {stage : Stage} (hTuned : w.Tuned)
    (hTask : w.task = .recovering ep) (hStage : ep.stage = stage) :
    w.isOpen ∧ w.disposed = false ∧ w.status = stage.status := by
  rw [← hStage]
  exact hTuned.recovering ep hTask

section

attribute [local simp] Stage.status Status.next Entry.place

/-- Another attempt. -/
theorem Tuned.again {w v : World} (hTuned : w.Tuned) (hCandid : v.Candid) (ep : Episode)
    (cause : RecoveryError) (hStatus : v.status = .recovering ∨ v.status = .resumeSent)
    (hOpen : v.isOpen) (hDisposed : v.disposed = false) (hCalls : v.calls = w.calls) :
    ((v.enter .task .recovering).atStage ep (.consulting cause)).Tuned := by
  refine hTuned.goOn ?_ rfl ?_ (by simpa using hOpen) (by simpa using hDisposed)
    (by simpa using hCalls)
  · rcases hStatus with hStatus | hStatus
    · rw [enter_same .task hStatus]
      exact hCandid
    · exact hCandid.enter .task _ (by simp [hStatus])
  · rcases hStatus with hStatus | hStatus <;> simp [hStatus]

theorem Tuned.give {w v : World} (hTuned : w.Tuned) (hCandid : v.Candid) (ep : Episode)
    (how : Ending) (hNext : v.disposed = false → .disposed ∈ v.status.next)
    (hTerminal : v.disposed → v.status.isTerminal) (hCalls : v.calls = w.calls) :
    (v.giveUp ep how).Tuned :=
  hTuned.finish (hCandid.giveUp ep how hNext) (by simp) (isTerminal_giveUp ep how hTerminal)
    (by simpa using hCalls)

/-- A new connection is put in place while the session recovers. -/
theorem Candid.connect {w : World} (hCandid : w.Candid) (hStatus : w.status = .recovering) :
    w.connect.Candid := by
  have hDemux : ({ w with connections := w.connections + 1 }.record .task
      (.demultiplexed (w.connections + 1))).Candid :=
    Candid.note (w := { w with connections := w.connections + 1 }) hCandid .task _ rfl
  have hReconnect := hDemux.discardErrors.reconnect .task
    (.request (w.connections + 1)) (fun _ => hStatus)
  exact hReconnect.enter .task _ (by simp [hStatus])

theorem status_connect {w : World} (hStatus : w.status = .recovering) :
    w.connect.status = .reestablished := by
  simp [World.connect, hStatus]

theorem Tuned.welcome {w : World} (hTuned : w.Tuned) (error : LinkError)
    (errors : List LinkError) (hTask : w.task = .idle) :
    ({ w with errors }.welcome error).Candid ∧
      ({ w with errors }.welcome error).status = .recovering := by
  obtain ⟨-, -, hStatus⟩ := hTuned.idle hTask
  have hTaken : ({ w with errors }.record .task (.taken error)).Candid :=
    Candid.note (w := { w with errors }) hTuned.candid .task _ rfl
  refine ⟨hTaken.enter .task _ ?_, ?_⟩
  · rcases hStatus with hStatus | hStatus <;> simp [hStatus]
  · rcases hStatus with hStatus | hStatus <;> simp [World.welcome, hStatus]

/-- The task keeps to its statuses. -/
theorem tuned_stride {w w' : World} {written : List Entry} (hTuned : w.Tuned)
    (hStride : Stride w written w') : w'.Tuned := by
  have hCandid := hTuned.candid
  cases hStride with
  | stop hTask =>
    obtain ⟨-, hDisposed, hStatus⟩ := hTuned.idle hTask
    refine hTuned.finish (hCandid.terminate ?_) (by simp) ?_ (by simp)
    · rcases hStatus with hStatus | hStatus <;> simp [hStatus]
    · rw [status_terminate, hDisposed]
      rcases hStatus with hStatus | hStatus <;> simp [hStatus]
  | @beginBare error errors hTask =>
    obtain ⟨-, hDisposed, -⟩ := hTuned.idle hTask
    obtain ⟨hStart, hStatus⟩ := hTuned.welcome error errors hTask
    have hKept : ({ w with errors }.welcome error).disposed = false := by
      simpa [welcome] using hDisposed
    refine hTuned.finish (Candid.close (hStart.note .task _ rfl) ?_) (by simp)
      (isTerminal_close ?_) (by simp [welcome])
    · simp [hStatus]
    · simp [hKept]
  | @begin error errors token hTask =>
    obtain ⟨hOpen, hDisposed, -⟩ := hTuned.idle hTask
    obtain ⟨hStart, hStatus⟩ := hTuned.welcome error errors hTask
    have hMade : ((({ w with errors }.welcome error).retain token).record .task
        .strategyMade).Candid :=
      Candid.record (w := ({ w with errors }.welcome error).retain token) hStart .task _ rfl
        (by simp [hStatus])
    exact hTuned.goOn hMade rfl (by simpa using hStatus) (by simpa [welcome] using hOpen)
      (by simpa [welcome] using hDisposed) (by simp [welcome])
  | consult hTask hStage =>
    obtain ⟨hOpen, hDisposed, hStatus⟩ := hTuned.at hTask hStage
    refine hTuned.goOn (hCandid.record .task _ rfl ?_) rfl hStatus hOpen hDisposed rfl
    simp [hStatus]
  | backOff hTask hStage =>
    obtain ⟨hOpen, hDisposed, hStatus⟩ := hTuned.at hTask hStage
    exact hTuned.goOn (hCandid.note .task _ rfl) rfl hStatus hOpen hDisposed rfl
  | dialNobody hTask hStage | refuse hTask hStage =>
    obtain ⟨hOpen, hDisposed, hStatus⟩ := hTuned.at hTask hStage
    exact hTuned.again (hCandid.note .task _ rfl) _ _ (.inl hStatus) hOpen hDisposed rfl
  | hearNothing hTask hStage | hearNoise hTask hStage =>
    obtain ⟨hOpen, hDisposed, hStatus⟩ := hTuned.at hTask hStage
    exact hTuned.again (hCandid.note .task _ rfl) _ _ (.inr hStatus) hOpen hDisposed rfl
  | @dial ep due supplier hTask hStage =>
    obtain ⟨hOpen, hDisposed, hStatus⟩ := hTuned.at hTask hStage
    have hAttempted := hCandid.note .task .attempted rfl
    have hDialled := Candid.record
      (w := { w.record .task .attempted with
        supplier := some { supplier with dials := supplier.dials.tail } }) hAttempted .task
      (.dialled supplier.name) rfl (by simp [hStatus])
    have hRaised := hDialled.accept
      (List.replicate (supplier.dials.headD .hanging).raises .closed)
    refine hTuned.goOn hRaised rfl ?_ ?_ ?_ ?_
    · simpa using hStatus
    · simpa using hOpen
    · simpa using hDisposed
    · simp
  | @install ep answer peer hTask hStage =>
    obtain ⟨hOpen, hDisposed, hStatus⟩ := hTuned.at hTask hStage
    have hRead := (hCandid.connect hStatus).note .task (.positionsRead w.implied w.position) rfl
    refine hTuned.goOn hRead rfl ?_ ?_ ?_ ?_
    · simpa using status_connect hStatus
    · simpa [connect] using hOpen
    · simpa [connect] using hDisposed
    · simp [connect]
  | announceNothing hTask hStage =>
    obtain ⟨-, hDisposed, hStatus⟩ := hTuned.at hTask hStage
    exact hTuned.give hCandid _ _ (by simp [hStatus]) (by simp [hDisposed]) rfl
  | @announce ep channel implied position frame hTask hStage =>
    obtain ⟨hOpen, hDisposed, hStatus⟩ := hTuned.at hTask hStage
    have hSent : (w.send .task frame.toBytes).Candid :=
      hCandid.record .task _ rfl fun other hOther => by
        simp_all
    have hEntered := Candid.enter (w := (w.send .task frame.toBytes).release ep.token) hSent .task
      .resumeSent (by simp [hStatus])
    refine hTuned.goOn (hEntered.note .task (.listened channel.connection) rfl) rfl ?_ ?_ ?_ ?_
    · simp [hStatus]
    · simpa using hOpen
    · simpa using hDisposed
    · simp
  | @hear ep answer frame position cursor hTask hStage =>
    obtain ⟨hOpen, hDisposed, hStatus⟩ := hTuned.at hTask hStage
    have hHeard := hCandid.note .task (.heard (some frame)) rfl
    have hReconciling := Candid.record
      (w := { w.record .task (.heard (some frame)) with
        reconciliations := w.reconciliations.tail }) hHeard .task
      (.reconciling unknownPosition position) rfl (by simp [hStatus])
    exact hTuned.goOn hReconciling rfl hStatus hOpen hDisposed rfl
  | @resume ep work hTask hStage =>
    obtain ⟨hOpen, hDisposed, hStatus⟩ := hTuned.at hTask hStage
    have hReconciled := (hCandid.accept (List.replicate work.reply.raises .closed)).note .task
      (.reconciled none) rfl
    have hResumed := hReconciled.enter .task .resumed (by simp [hStatus])
    have hEnded := (hResumed.abandon ep).note .task (.ended .resumed) rfl
    refine ⟨hEnded, ?_, ?_, ?_, ?_⟩
    · simpa using hTuned.calls
    · intro _
      exact ⟨by simpa using hOpen, by simpa using hDisposed, .inr (by simp [hStatus])⟩
    · intro other hOther
      cases hOther
    · intro hOver
      cases hOver
  | @reject ep work error hTask hStage =>
    obtain ⟨-, hDisposed, hStatus⟩ := hTuned.at hTask hStage
    have hReconciled := (hCandid.accept (List.replicate work.reply.raises .closed)).note .task
      (.reconciled (some error)) rfl
    have hSent : ((((w.raise work.reply.raises).record .task (.reconciled (some error))).send .task
        (rejection work.position))).Candid :=
      hReconciled.record .task _ rfl (by simp)
    have hDispose := hSent.dispose .task (by simpa using hDisposed) (by simp [hStatus])
    refine hTuned.give hDispose ep .rejected (by simp) ?_ (by simp)
    simp [status_dispose, hDisposed, hStatus]
  | @cut ep hTask =>
    obtain ⟨-, hDisposed, hStatus⟩ := hTuned.recovering ep hTask
    refine hTuned.give hCandid ep .cut ?_ (by simp [hDisposed]) rfl
    rw [hStatus]
    exact fun _ => ep.stage.disposed_mem_next

end

-- ---------------------------------------------------------------------------
-- What others do
-- ---------------------------------------------------------------------------

/-- Nothing has changed but what has no bearing on the status. -/
structure Aside (w w' : World) : Prop where
  notes : ∃ notes, w'.journal = notes ++ w.journal ∧ ∀ e ∈ notes, e.isNeutral
  status : w'.status = w.status
  task : w'.task = w.task
  isOpen : w'.isOpen = w.isOpen
  disposed : w'.disposed = w.disposed
  calls : w'.calls = w.calls

theorem Aside.of_journal {w w' : World} (hJournal : w'.journal = w.journal)
    (hStatus : w'.status = w.status) (hTask : w'.task = w.task) (hOpen : w'.isOpen = w.isOpen)
    (hDisposed : w'.disposed = w.disposed) (hCalls : w'.calls = w.calls) : Aside w w' :=
  ⟨⟨[], hJournal, by simp⟩, hStatus, hTask, hOpen, hDisposed, hCalls⟩

theorem aside_accept (errors : List LinkError) (w : World) : Aside w (w.accept errors) := by
  rw [accept_eq]
  refine ⟨⟨_, rfl, ?_⟩, rfl, rfl, rfl, rfl, rfl⟩
  intro e hMem
  obtain ⟨error, -, rfl⟩ := List.mem_map.mp (List.mem_reverse.mp hMem)
  rfl

theorem aside_record (event : Event) (w : World)
    (hNeutral : (⟨w.now, .caller, event⟩ : Entry).isNeutral) :
    Aside w (w.record .caller event) :=
  ⟨⟨[⟨w.now, .caller, event⟩], rfl, by simpa using hNeutral⟩, rfl, rfl, rfl, rfl, rfl⟩

theorem Aside.trans {w v u : World} (hFirst : Aside w v) (hSecond : Aside v u) : Aside w u := by
  obtain ⟨first, hEarlier, hNeutral⟩ := hFirst.notes
  obtain ⟨second, hLater, hNeutral'⟩ := hSecond.notes
  refine ⟨⟨second ++ first, ?_, ?_⟩, hSecond.status.trans hFirst.status,
    hSecond.task.trans hFirst.task, hSecond.isOpen.trans hFirst.isOpen,
    hSecond.disposed.trans hFirst.disposed, hSecond.calls.trans hFirst.calls⟩
  · rw [hLater, hEarlier, List.append_assoc]
  · intro e hMem
    rcases List.mem_append.mp hMem with hMem | hMem
    · exact hNeutral' e hMem
    · exact hNeutral e hMem

theorem Tuned.aside {w w' : World} (hTuned : w.Tuned) (hAside : Aside w w') : w'.Tuned := by
  obtain ⟨notes, hNotes, hNeutral⟩ := hAside.notes
  constructor
  · unfold Candid
    rw [hNotes, hAside.status]
    exact hTuned.candid.append hNeutral
  · exact hAside.calls.trans hTuned.calls
  · rw [hAside.task, hAside.isOpen, hAside.disposed, hAside.status]
    exact hTuned.idle
  · rw [hAside.task, hAside.isOpen, hAside.disposed, hAside.status]
    exact hTuned.recovering
  · rw [hAside.task, hAside.isOpen, hAside.status]
    exact hTuned.ended

/-- What is neither the task's doing nor a RESUME_OK from a caller has no bearing on the status. -/
theorem aside_act {w w' : World} {action : Action} (hCalls : w.calls = [])
    (hWork : action ≠ .work) (hDrop : action ≠ .drop) (hCalm : action.handsOver = false)
    (hAct : w.act action = some w') : Aside w w' := by
  cases action with
  | work => exact absurd rfl hWork
  | drop => exact absurd rfl hDrop
  | elapse millis =>
    simp only [act] at hAct
    split at hAct
    case isTrue =>
      cases hAct
      exact .of_journal rfl rfl rfl rfl rfl rfl
    case isFalse => cases hAct
  | fail error =>
    cases hAct
    exact aside_accept [error] w
  | bind token =>
    simp only [act] at hAct
    split at hAct
    case isTrue =>
      obtain ⟨-, rfl⟩ := of_whileOpen hAct
      refine .trans (v := { (w.retain token).unbind with bound := some token }) ?_
        (aside_record (.bound token) _ rfl)
      rw [unbind_eq]
      exact .of_journal rfl rfl rfl rfl rfl rfl
    case isFalse => cases hAct
  | reconnect label =>
    obtain ⟨-, rfl⟩ := of_whileOpen hAct
    have hRecord : Aside w { w.record .caller (.reconnected (.labelled label)) with
        bursts := w.bursts.tail } :=
      (aside_record (.reconnected (.labelled label)) w rfl).trans
        (.of_journal rfl rfl rfl rfl rfl rfl)
    exact hRecord.trans (aside_accept _ _)
  | beginResume frame =>
    unfold act World.beginResume at hAct
    cases hDecode : ResumeOk.position frame with
    | error cause cursor =>
      simp only [hDecode] at hAct
      obtain ⟨-, rfl⟩ := of_whileOpen hAct
      exact aside_record _ w rfl
    | ok position cursor => simp [Action.handsOver, hDecode] at hCalm
  | finishResume number => simp [act, World.finishResume, hCalls] at hAct
  | observe observer =>
    obtain ⟨-, rfl⟩ := of_whileOpen hAct
    exact ⟨isNeutral_tell .caller observer w, rfl, rfl, rfl, rfl, rfl⟩
  | hold =>
    obtain ⟨-, rfl⟩ := of_whileOpen hAct
    cases hBound : w.bound <;> simp only [World.hold, hBound] <;>
      exact .of_journal rfl rfl rfl rfl rfl rfl
  | setSupplier supplier | subscribe =>
    obtain ⟨-, rfl⟩ := of_whileOpen hAct
    exact .of_journal rfl rfl rfl rfl rfl rfl
  | closeErrors | setPositions implied position | setSendsFail sendsFail
  | addReconciliation reconciliation | releaseHeld | poll =>
    cases hAct
    exact .of_journal rfl rfl rfl rfl rfl rfl

theorem candid_drop {w : World} (hCandid : w.Candid) : w.drop.Candid := by
  have hLeave : ∀ v : World, v.Candid →
      ({ v.unbind with
        isOpen := false
        task := .ended
        supplier := none
        observer := none }.record .caller .dropped).Candid := by
    intro v hCandid
    have hUnbound : v.unbind.Candid := by
      rw [unbind_eq]
      exact hCandid
    exact Candid.note (w := { v.unbind with
      isOpen := false
      task := .ended
      supplier := none
      observer := none }) hUnbound .caller _ rfl
  unfold World.drop
  split
  case h_1 ep hTask => exact hLeave _ ((hCandid.abandon ep).note .caller (.ended .dropped) rfl)
  case h_2 => exact hLeave w hCandid

theorem tuned_drop {w w' : World} (hTuned : w.Tuned) (hAct : w.act .drop = some w') :
    w'.Tuned := by
  have hGone := gone_of_drop hAct
  have hCandid : w'.Candid := by
    simp only [act] at hAct
    split at hAct
    case isFalse => cases hAct
    case isTrue =>
      obtain ⟨-, rfl⟩ := of_whileOpen hAct
      exact candid_drop hTuned.candid
  refine ⟨hCandid, hGone.calls, ?_, ?_, ?_⟩
  · intro hIdle
    rw [hGone.ended] at hIdle
    cases hIdle
  · intro ep hRecovering
    rw [hGone.ended] at hRecovering
    cases hRecovering
  · intro _ hOpen
    rw [hGone.closed] at hOpen
    cases hOpen

theorem tuned_act {w w' : World} {action : Action} (hTuned : w.Tuned)
    (hCalm : action.handsOver = false) (hAct : w.act action = some w') : w'.Tuned := by
  by_cases hWork : action = .work
  · subst hWork
    obtain ⟨written, hStride⟩ := stride_of_step hAct
    exact tuned_stride hTuned hStride
  · by_cases hDrop : action = .drop
    · subst hDrop
      exact tuned_drop hTuned hAct
    · exact hTuned.aside (aside_act hTuned.calls hWork hDrop hCalm hAct)

theorem tuned_run {w w' : World} {actions : List Action} (hTuned : w.Tuned)
    (hCalm : ∀ action ∈ actions, action.handsOver = false) (hRun : w.run actions = some w') :
    w'.Tuned := by
  induction actions generalizing w with
  | nil =>
    cases hRun
    exact hTuned
  | cons action actions ih =>
    obtain ⟨next, hNext, hRest⟩ := Option.bind_eq_some_iff.mp hRun
    exact ih (tuned_act hTuned (hCalm action List.mem_cons_self) hNext)
      (fun a ha => hCalm a (List.mem_cons_of_mem action ha)) hRest

end World

theorem Undisturbed.tuned {w : World} (hCalm : Undisturbed w) : w.Tuned := by
  obtain ⟨config, tokens, reconciliations, bursts, actions, hActions, hRun⟩ := hCalm
  refine World.tuned_run ⟨⟨rfl, always_nil⟩, rfl, ?_, ?_, ?_⟩ hActions hRun
  · exact fun _ => ⟨rfl, rfl, .inl rfl⟩
  · intro ep hTask
    cases hTask
  · intro hEnded
    cases hEnded

-- ---------------------------------------------------------------------------
-- Every undisturbed run
-- ---------------------------------------------------------------------------

/-- The status of a session follows what its task does. The latest entry comes first. -/
structure World.Staged (w : World) : Prop where
  /-- Every change of the status is one of the table. -/
  changes : ∀ later e earlier status, w.journal = later ++ e :: earlier →
    e.event = .entered status → status ∈ (standing earlier).next
  /-- Every call that has a place is made in it. -/
  places : ∀ later e earlier status, w.journal = later ++ e :: earlier →
    e.place = some status → standing earlier = status
  /-- There is no change that the journal leaves out. -/
  standing : standing w.journal = w.status
  /-- The status is active or resumed exactly while the task waits for an error. -/
  idle : w.isOpen ∧ (w.status = .active ∨ w.status = .resumed) ↔ w.task = .idle
  /-- In an episode the status goes with the stage. -/
  recovering : ∀ ep, w.task = .recovering ep → w.status = ep.stage.status

theorem Stage.status_ne (stage : Stage) : stage.status ≠ .active ∧ stage.status ≠ .resumed := by
  cases stage <;> simp [Stage.status]

/-- In every run in which no caller hands over a RESUME_OK frame, the status follows what the task
does. -/
theorem staged_of_undisturbed {w : World} (hCalm : Undisturbed w) : w.Staged := by
  have hTuned := hCalm.tuned
  constructor
  · intro later e earlier status hSplit hEvent
    exact (hTuned.candid.fitting later e earlier hSplit).entered status hEvent
  · intro later e earlier status hSplit hPlace
    exact (hTuned.candid.fitting later e earlier hSplit).place status hPlace
  · exact hTuned.candid.standing
  · constructor
    · rintro ⟨hOpen, hStatus⟩
      cases hTask : w.task with
      | idle => rfl
      | recovering ep =>
        obtain ⟨hActive, hResumed⟩ := ep.stage.status_ne
        rw [(hTuned.recovering ep hTask).2.2] at hStatus
        rcases hStatus with hStatus | hStatus
        · exact absurd hStatus hActive
        · exact absurd hStatus hResumed
      | ended =>
        have hTerminal := hTuned.ended hTask hOpen
        rcases hStatus with hStatus | hStatus <;> simp [hStatus] at hTerminal
    · intro hTask
      obtain ⟨hOpen, -, hStatus⟩ := hTuned.idle hTask
      exact ⟨hOpen, hStatus⟩
  · intro ep hTask
    exact (hTuned.recovering ep hTask).2.2

theorem undisturbed_sample {w : World} {actions : List Action}
    (hActions : actions.all (fun action => !action.handsOver) = true)
    (hRun : World.sample.run actions = some w) : Undisturbed w := by
  refine ⟨_, _, _, _, actions, ?_, hRun⟩
  simpa using hActions

theorem staged_of_undisturbed_resuming :
    ∃ w, World.sample.run World.resuming = some w ∧ Undisturbed w ∧ w.status = .resumed ∧
      w.Staged := by
  have hStatus : (World.sample.run World.resuming).map World.status = some .resumed := by
    decide +kernel
  obtain ⟨w, hRun, hResumed⟩ := Option.map_eq_some_iff.mp hStatus
  have hCalm := undisturbed_sample (by decide +kernel) hRun
  exact ⟨w, hRun, hCalm, hResumed, staged_of_undisturbed hCalm⟩

/-- A caller's reconnect reaches the connection whatever the status is. -/
theorem not_reconnect_while_recovering :
    ¬ ∀ w, Undisturbed w → ∀ later e earlier, w.journal = later ++ e :: earlier →
      e.event.isReconnect → standing earlier = .recovering := by
  intro h
  have hRun : World.sample.run [.reconnect "x"] =
      some (World.sample.reconnect .caller (.labelled "x")) :=
    rfl
  have hCalm := undisturbed_sample (by decide) hRun
  have hPlace := h _ hCalm [] ⟨0, .caller, .reconnected (.labelled "x")⟩ [] rfl rfl
  cases hPlace

end Resumption
