import Mathlib.Logic.Relation
import Resumption.Proofs.Closing
import Resumption.Proofs.Statuses

/-!
# Ends are final

The task and the callers of a session can all ask for the connection to be disposed, at the deadline
of an episode, after an error that no further attempt can mend, or when a resumption is rejected.
However their requests are interleaved, the connection is disposed at most once, nobody sees the
session disposed before its connection is, and a terminal status is left no more. The journal is
read with its notices here.

* `Face` — the status, whether the connection is disposed, and the journal
* `Face.Move` — the changes of a face that everything else is composed of
* `trail_act` — an action is nothing but moves
* `Honest` — what an entry says about those before it; `recorded_move` keeps it
* `conclusive_of_reachable` — the ends of every run are final
-/

namespace Resumption

-- ---------------------------------------------------------------------------
-- Faces
-- ---------------------------------------------------------------------------

/-- How a session stands, and how it came to that. -/
structure Face where
  status : Status
  disposed : Bool
  /-- Latest first. -/
  journal : List Entry

def World.face (w : World) : Face :=
  ⟨w.status, w.disposed, w.journal⟩

/-- Whether an event says nothing about the status and is no disposal. -/
def Event.isAside (event : Event) : Bool :=
  !event.isNotice && !event.isDisposal

/-- The changes of a face that everything else is composed of. -/
inductive Face.Move (f : Face) : Face → Prop
  | note {e : Entry} (hAside : e.event.isAside) : Move f { f with journal := e :: f.journal }
  /-- An observer is told the status that there is. -/
  | tell (time : Nat) (actor : Actor) (observer : String) :
      Move f { f with journal := ⟨time, actor, .told observer f.status⟩ :: f.journal }
  /-- A terminal status is left no more, and the connection is disposed before the session is. -/
  | enter (time : Nat) (actor : Actor) {status : Status} (hOpen : f.status.isTerminal = false)
      (hSpent : status = .disposed → f.disposed) :
      Move f { f with status, journal := ⟨time, actor, .entered status⟩ :: f.journal }
  | dispose (time : Nat) (actor : Actor) (hFresh : f.disposed = false) :
      Move f { f with disposed := true, journal := ⟨time, actor, .disposed⟩ :: f.journal }

/-- The face of the session comes from that one by moves. -/
def Trail (f : Face) (w : World) : Prop :=
  Relation.ReflTransGen Face.Move f w.face

theorem Face.trail_append {f : Face} {notes : List Entry}
    (hNotes : ∀ e ∈ notes, e.event.isAside ∨ ∃ observer, e.event = .told observer f.status) :
    Relation.ReflTransGen Face.Move f { f with journal := notes ++ f.journal } := by
  induction notes with
  | nil => exact .refl
  | cons e notes ih =>
    refine (ih fun e' he' => hNotes e' (List.mem_cons_of_mem e he')).tail ?_
    rcases hNotes e List.mem_cons_self with hAside | ⟨observer, hTold⟩
    · exact .note hAside
    · obtain ⟨time, actor, event⟩ := e
      cases hTold
      exact .tell time actor observer

namespace Trail

variable {f : Face} {w : World}

theorem refl (w : World) : Trail w.face w :=
  Relation.ReflTransGen.refl

theorem note (hTrail : Trail f w) (actor : Actor) (event : Event) (hAside : event.isAside) :
    Trail f (w.record actor event) :=
  hTrail.tail (.note (e := ⟨w.now, actor, event⟩) hAside)

theorem retain (hTrail : Trail f w) (token : Token.Id) : Trail f (w.retain token) :=
  hTrail

theorem atStage (hTrail : Trail f w) (ep : Episode) (stage : Stage) :
    Trail f (w.atStage ep stage) :=
  hTrail

theorem tell (hTrail : Trail f w) (actor : Actor) (observer : Observer) :
    Trail f (w.tell actor observer) := by
  refine hTrail.trans (Face.trail_append ?_)
  intro e hMem
  obtain ⟨event, hEvent, rfl⟩ := List.mem_map.mp (List.mem_reverse.mp hMem)
  obtain ⟨name, -, rfl⟩ := List.mem_map.mp hEvent
  exact .inr ⟨name, rfl⟩

theorem enter (hTrail : Trail f w) (actor : Actor) (status : Status)
    (hSpent : status = .disposed → w.disposed) : Trail f (w.enter actor status) := by
  rw [World.enter]
  split
  case isTrue => exact hTrail
  case isFalse hNew =>
    have hOpen : w.status.isTerminal = false := by
      rw [← Bool.not_eq_true]
      exact fun hTerminal => hNew (.inl hTerminal)
    have hEntered : Trail f ({ w with status, subscriber := w.subscriber.map fun _ => true }.record
        actor (.entered status)) :=
      hTrail.tail (.enter w.now actor hOpen hSpent)
    dsimp only
    split
    case h_1 => exact hEntered
    case h_2 observer _ =>
      -- the observer is told the status that has just been entered
      have hTold := hEntered.tell actor observer
      exact hTold

theorem dispose (hTrail : Trail f w) (actor : Actor) : Trail f (w.dispose actor) := by
  rw [World.dispose]
  split
  case isTrue => exact hTrail
  case isFalse hFresh =>
    rw [Bool.not_eq_true] at hFresh
    have hDisposed : Trail f ({ w with disposed := true }.record actor .disposed) :=
      hTrail.tail (.dispose w.now actor hFresh)
    exact hDisposed.enter actor .disposed fun _ => rfl

theorem unbind (hTrail : Trail f w) : Trail f w.unbind := by
  rw [World.unbind_eq]
  exact hTrail

theorem terminate (hTrail : Trail f w) : Trail f w.terminate := by
  have hClosed : Trail f
      (if w.unbind.disposed then w.unbind else w.unbind.enter .task .closed) := by
    split
    · exact hTrail.unbind
    · exact hTrail.unbind.enter .task .closed nofun
  exact hClosed.note .task .stopped rfl

theorem accept (hTrail : Trail f w) (errors : List LinkError) : Trail f (w.accept errors) := by
  rw [World.accept_eq]
  refine hTrail.trans (Face.trail_append ?_)
  intro e hMem
  obtain ⟨error, -, rfl⟩ := List.mem_map.mp (List.mem_reverse.mp hMem)
  exact .inl rfl

theorem raise (hTrail : Trail f w) (count : Nat) : Trail f (w.raise count) :=
  hTrail.accept _

theorem discardErrors (hTrail : Trail f w) : Trail f w.discardErrors := by
  refine hTrail.trans (Face.trail_append ?_)
  intro e hMem
  obtain ⟨event, hEvent, rfl⟩ := List.mem_map.mp (List.mem_reverse.mp hMem)
  obtain ⟨error, -, rfl⟩ := List.mem_map.mp hEvent
  exact .inl rfl

theorem reconnect (hTrail : Trail f w) (actor : Actor) (target : Target) :
    Trail f (w.reconnect actor target) := by
  have hRecord := hTrail.note actor (.reconnected target) rfl
  exact Trail.raise (w := { w.record actor (.reconnected target) with bursts := w.bursts.tail })
    hRecord _

theorem abandon (hTrail : Trail f w) (ep : Episode) : Trail f (w.abandon ep) := by
  rw [World.abandon_eq]
  exact hTrail

theorem giveUp (hTrail : Trail f w) (ep : Episode) (how : Ending) : Trail f (w.giveUp ep how) := by
  rw [World.giveUp_eq]
  exact (((hTrail.abandon ep).note .task (.ended how) rfl).dispose .task).terminate

/-- Another attempt. -/
theorem again (hTrail : Trail f w) (ep : Episode) (cause : RecoveryError) :
    Trail f ((w.enter .task .recovering).atStage ep (.consulting cause)) :=
  (hTrail.enter .task .recovering nofun).atStage ep _

end Trail

-- ---------------------------------------------------------------------------
-- Actions are moves
-- ---------------------------------------------------------------------------

namespace World

theorem trail_welcome (w : World) (error : LinkError) (errors : List LinkError) :
    Trail w.face ({ w with errors }.welcome error) := by
  have hTaken : Trail w.face ({ w with errors }.record .task (.taken error)) :=
    Trail.note (w := { w with errors }) (.refl w) .task _ rfl
  exact hTaken.enter .task .recovering nofun

theorem trail_connect (w : World) : Trail w.face w.connect := by
  have hDemux : Trail w.face ({ w with connections := w.connections + 1 }.record .task
      (.demultiplexed (w.connections + 1))) :=
    Trail.note (w := { w with connections := w.connections + 1 }) (.refl w) .task _ rfl
  exact (hDemux.discardErrors.reconnect .task _).enter .task .reestablished nofun

theorem trail_stride {w w' : World} {written : List Entry} (hStride : Stride w written w') :
    Trail w.face w' := by
  have hRefl := Trail.refl w
  cases hStride with
  | stop => exact hRefl.terminate
  | @beginBare error errors =>
    exact (((trail_welcome w error errors).note .task (.ended (.failed .missingToken)) rfl).dispose
      .task).terminate
  | @begin error errors token =>
    have hRetained := (trail_welcome w error errors).retain token
    have hMade := hRetained.note .task .strategyMade rfl
    exact hMade
  | @consult ep cause => exact hRefl.note .task (.consulted cause ep.snapshot _) rfl
  | @backOff ep reply answer => exact hRefl.note .task (.advised answer) rfl
  | dialNobody => exact (hRefl.note .task .attempted rfl).again _ _
  | @refuse ep answer cause => exact (hRefl.note .task (.refused cause) rfl).again _ _
  | hearNothing => exact (hRefl.note .task (.heard none) rfl).again _ _
  | @hearNoise ep answer frame => exact (hRefl.note .task (.heard (some frame)) rfl).again _ _
  | @dial ep due supplier =>
    have hDialled := Trail.note
      (w := { w.record .task .attempted with
        supplier := some { supplier with dials := supplier.dials.tail } })
      (hRefl.note .task .attempted rfl) .task (.dialled supplier.name) rfl
    exact hDialled.raise (supplier.dials.headD .hanging).raises
  | @install ep =>
    have hRead := (trail_connect w).note .task (.positionsRead w.implied w.position) rfl
    exact (hRead.retain ep.token).atStage ep _
  | announceNothing | cut => exact hRefl.giveUp _ _
  | @announce ep channel implied position frame =>
    have hSent := hRefl.note .task (.sent frame.toBytes w.sendsFail w.pool.counts) rfl
    have hEntered := Trail.enter (w := (w.send .task frame.toBytes).release ep.token) hSent .task
      .resumeSent nofun
    exact hEntered.note .task (.listened channel.connection) rfl
  | @hear ep answer frame position cursor =>
    exact Trail.note (f := w.face) (w := { w.record .task (.heard (some frame)) with
      reconciliations := w.reconciliations.tail }) (hRefl.note .task (.heard (some frame)) rfl)
      .task (.reconciling unknownPosition position) rfl
  | @resume ep work =>
    have hResumed := ((hRefl.raise work.reply.raises).note .task (.reconciled none) rfl).enter .task
      .resumed nofun
    exact (hResumed.abandon ep).note .task (.ended .resumed) rfl
  | @reject ep work error =>
    have hSent := ((hRefl.raise work.reply.raises).note .task (.reconciled (some error)) rfl).note
      .task (.sent (rejection work.position) (w.raise work.reply.raises).sendsFail
        (w.raise work.reply.raises).pool.counts) rfl
    exact (hSent.dispose .task).giveUp ep .rejected

theorem trail_beginResume {w w' : World} {frame : Cursor}
    (hAct : w.act (.beginResume frame) = some w') : Trail w.face w' := by
  unfold act World.beginResume at hAct
  cases hDecode : ResumeOk.position frame with
  | error cause cursor =>
    simp only [hDecode] at hAct
    obtain ⟨-, rfl⟩ := of_whileOpen hAct
    exact (Trail.refl w).note .caller (.returned (.error cause)) rfl
  | ok position cursor =>
    simp only [hDecode] at hAct
    obtain ⟨-, rfl⟩ := of_whileOpen hAct
    exact Trail.note (f := w.face) (w := { w with reconciliations := w.reconciliations.tail })
      (.refl w) .caller (.reconciling unknownPosition position) rfl

theorem trail_finishReconciling {f : Face} {w : World} (hTrail : Trail f w) (actor : Actor)
    (work : Reconciling) : Trail f (w.finishReconciling actor work).2 := by
  have hReconciled := (hTrail.raise work.reply.raises).note actor (.reconciled work.reply.error) rfl
  unfold finishReconciling
  dsimp only
  split
  case h_1 => exact hReconciled.enter actor .resumed nofun
  case h_2 => exact (hReconciled.note actor (.sent _ _ _) rfl).dispose actor

theorem trail_finishResume {w w' : World} {number : Nat}
    (hAct : w.act (.finishResume number) = some w') : Trail w.face w' := by
  simp only [act] at hAct
  obtain ⟨⟨outcome, next⟩, hFinish, rfl⟩ := Option.map_eq_some_iff.mp hAct
  unfold World.finishResume at hFinish
  split at hFinish
  case h_1 => cases hFinish
  case h_2 work hWork =>
    split at hFinish
    case isTrue =>
      cases hFinish
      have hCalled : Trail w.face { w with calls := w.calls.eraseIdx number } := .refl w
      exact (trail_finishReconciling hCalled .caller work).note .caller (.returned _) rfl
    case isFalse => cases hFinish

theorem trail_drop (w : World) : Trail w.face w.drop := by
  have hLeave : ∀ v : World, Trail w.face v →
      Trail w.face ({ v.unbind with
        isOpen := false
        task := .ended
        supplier := none
        observer := none }.record .caller .dropped) := by
    intro v hTrail
    have hUnbound := hTrail.unbind
    exact hUnbound.note .caller .dropped rfl
  unfold World.drop
  split
  case h_1 ep hTask =>
    exact hLeave _ (((Trail.refl w).abandon ep).note .caller (.ended .dropped) rfl)
  case h_2 => exact hLeave w (.refl w)

/-- An action is nothing but moves. -/
theorem trail_act {w w' : World} {action : Action} (hAct : w.act action = some w') :
    Trail w.face w' := by
  have hRefl := Trail.refl w
  cases action with
  | work =>
    obtain ⟨written, hStride⟩ := stride_of_step hAct
    exact trail_stride hStride
  | elapse millis =>
    obtain ⟨-, rfl⟩ := elapse_eq hAct
    exact hRefl
  | fail error =>
    cases hAct
    exact hRefl.accept [error]
  | bind token =>
    simp only [act] at hAct
    split at hAct
    case isTrue =>
      obtain ⟨-, rfl⟩ := of_whileOpen hAct
      have hBound : Trail w.face (w.retain token).unbind := Trail.unbind (w := w.retain token) hRefl
      exact hBound.note .caller (.bound token) rfl
    case isFalse => cases hAct
  | reconnect label =>
    obtain ⟨-, rfl⟩ := of_whileOpen hAct
    exact hRefl.reconnect .caller (.labelled label)
  | beginResume frame => exact trail_beginResume hAct
  | finishResume number => exact trail_finishResume hAct
  | observe observer =>
    obtain ⟨-, rfl⟩ := of_whileOpen hAct
    exact hRefl.tell .caller observer
  | hold =>
    obtain ⟨-, rfl⟩ := of_whileOpen hAct
    cases hBound : w.bound <;> simp only [World.hold, hBound] <;> exact hRefl
  | drop =>
    simp only [act] at hAct
    split at hAct
    case isTrue =>
      obtain ⟨-, rfl⟩ := of_whileOpen hAct
      exact trail_drop w
    case isFalse => cases hAct
  | setSupplier supplier | subscribe =>
    obtain ⟨-, rfl⟩ := of_whileOpen hAct
    exact hRefl
  | closeErrors | setPositions implied position | setSendsFail sendsFail
  | addReconciliation reconciliation | releaseHeld | poll =>
    cases hAct
    exact hRefl

end World

-- ---------------------------------------------------------------------------
-- What the journal says
-- ---------------------------------------------------------------------------

/-- What an entry says about those before it. -/
structure Honest (e : Entry) (past : List Entry) : Prop where
  /-- A terminal status is left no more. -/
  entered : ∀ status, e.event = .entered status → (standing past).isTerminal = false
  /-- The session is disposed after its connection. -/
  spent : e.event = .entered .disposed → disposals past ≠ 0
  /-- Observers are told the status that there is. -/
  told : ∀ observer status, e.event = .told observer status → standing past = status
  /-- A connection is disposed that was not disposed before. -/
  fresh : e.event.isDisposal → disposals past = 0

theorem disposals_cons (e : Entry) (journal : List Entry) :
    disposals (e :: journal) = disposals journal + e.event.isDisposal.toNat := by
  unfold disposals
  rw [List.countP_cons]
  cases e.event.isDisposal <;> rfl

theorem Event.entered?_eq_some {event : Event} {status : Status} :
    event.entered? = some status ↔ event = .entered status := by
  cases event <;> simp [Event.entered?]

theorem honest_aside {e : Entry} (hAside : e.event.isAside) (past : List Entry) :
    Honest e past ∧ e.event.entered? = none ∧ e.event.isDisposal = false := by
  have hPlain : e.event.isNotice = false ∧ e.event.isDisposal = false := by
    simpa [Event.isAside] using hAside
  obtain ⟨hNotice, hDisposal⟩ := hPlain
  have hEntered : ∀ status, e.event ≠ .entered status := by
    intro status hEvent
    rw [hEvent] at hNotice
    cases hNotice
  refine ⟨⟨?_, ?_, ?_, ?_⟩, ?_, hDisposal⟩
  · intro status hEvent
    exact absurd hEvent (hEntered status)
  · intro hEvent
    exact absurd hEvent (hEntered .disposed)
  · intro observer status hEvent
    rw [hEvent] at hNotice
    cases hNotice
  · intro hDisposes
    rw [hDisposal] at hDisposes
    cases hDisposes
  · rw [Option.eq_none_iff_forall_ne_some]
    intro status hSome
    exact hEntered status (Event.entered?_eq_some.mp hSome)

/-- The session is never disposed before its connection. -/
theorem disposals_of_standing {journal : List Entry} (hHonest : Always Honest journal)
    (hStanding : standing journal = .disposed) : disposals journal ≠ 0 := by
  induction journal with
  | nil => cases hStanding
  | cons e journal ih =>
    have hHead := hHonest [] e journal rfl
    have hWhole : Always Honest ([e] ++ journal) := hHonest
    have hTail := ih hWhole.tail
    rw [disposals_cons]
    rw [standing_cons] at hStanding
    cases hEntered : e.event.entered? with
    | none =>
      rw [hEntered] at hStanding
      have hBefore := hTail hStanding
      omega
    | some status =>
      rw [hEntered] at hStanding
      obtain rfl : status = .disposed := hStanding
      have hBefore := hHead.spent (Event.entered?_eq_some.mp hEntered)
      omega

/-- The journal of a face says how things are, and how they came to be. -/
structure Face.Recorded (f : Face) : Prop where
  standing : standing f.journal = f.status
  disposals : disposals f.journal = f.disposed.toNat
  always : Always Honest f.journal

theorem recorded_move {f f' : Face} (hRecorded : f.Recorded) (hMove : f.Move f') :
    f'.Recorded := by
  obtain ⟨hStanding, hDisposals, hAlways⟩ := hRecorded
  cases hMove with
  | @note e hAside =>
    obtain ⟨hEntry, hEntered, hDisposal⟩ := honest_aside hAside f.journal
    refine ⟨?_, ?_, always_cons hEntry hAlways⟩
    · rw [standing_cons, hEntered]
      exact hStanding
    · rw [disposals_cons, hDisposal]
      exact hDisposals
  | tell time actor observer =>
    refine ⟨hStanding, hDisposals, always_cons ⟨nofun, nofun, ?_, nofun⟩ hAlways⟩
    intro other status hTold
    cases hTold
    exact hStanding
  | @enter time actor status hOpen hSpent =>
    refine ⟨rfl, hDisposals, always_cons ⟨?_, ?_, nofun, nofun⟩ hAlways⟩
    · intro other _
      rw [hStanding]
      exact hOpen
    · intro hEntered
      cases hEntered
      rw [hDisposals, hSpent rfl]
      exact Nat.one_ne_zero
  | dispose time actor hFresh =>
    rw [hFresh] at hDisposals
    refine ⟨hStanding, ?_, always_cons ⟨nofun, nofun, nofun, fun _ => hDisposals⟩ hAlways⟩
    rw [disposals_cons, hDisposals]
    rfl

theorem recorded_moves {f f' : Face} (hRecorded : f.Recorded)
    (hMoves : Relation.ReflTransGen Face.Move f f') : f'.Recorded := by
  induction hMoves with
  | refl => exact hRecorded
  | tail _ hMove ih => exact recorded_move ih hMove

theorem Reachable.recorded {w : World} (hReach : Reachable w) : w.face.Recorded := by
  refine hReach.induct_act (P := fun w => w.face.Recorded) ?_ ?_
  · intro config tokens reconciliations bursts
    exact ⟨rfl, rfl, always_nil⟩
  · intro w w' action _ hRecorded hAct
    exact recorded_moves hRecorded (World.trail_act hAct)

-- ---------------------------------------------------------------------------
-- Every run
-- ---------------------------------------------------------------------------

/-- The status in which a session is over stays. -/
theorem World.status_run {w w' : World} {actions : List Action} (hTerminal : w.status.isTerminal)
    (hRun : w.run actions = some w') : w'.status = w.status := by
  refine World.run_induct (P := fun v => v.status = w.status) ?_ hRun rfl
  intro v v' action written _ hSame hChange
  rw [← hSame] at hTerminal ⊢
  exact World.terminal_change hTerminal hChange

/-- The ends of a run are final. The journal has its latest entry first. -/
structure World.Conclusive (w : World) : Prop where
  /-- The connection is disposed at most once. -/
  once : disposals w.journal ≤ 1
  /-- The session knows whether it was. -/
  known : w.disposed ↔ ∃ e ∈ w.journal, e.event.isDisposal
  /-- A session that is disposed has a connection that was disposed. -/
  now : w.status = .disposed → ∃ e ∈ w.journal, e.event.isDisposal
  /-- Nobody was told of the one before the other. -/
  told : ∀ later e earlier observer, w.journal = later ++ e :: earlier →
    e.event = .entered .disposed ∨ e.event = .told observer .disposed →
      ∃ d ∈ earlier, d.event.isDisposal
  /-- No status was entered after a terminal one. -/
  past : ∀ later e earlier, w.journal = later ++ e :: earlier →
    (standing earlier).isTerminal → e.event.entered? = none
  /-- Nor will there be one. -/
  stays : w.status.isTerminal → ∀ actions w', w.run actions = some w' → w'.status = w.status
  /-- The journal leaves no change of the status out. -/
  standing : standing w.journal = w.status

theorem exists_disposal {journal : List Entry} (hSome : disposals journal ≠ 0) :
    ∃ e ∈ journal, e.event.isDisposal := by
  rw [Ne, disposals_eq_zero] at hSome
  simpa using hSome

/-- Whoever asks for it and in whatever order, the ends of a session are final. -/
theorem conclusive_of_reachable {w : World} (hReach : Reachable w) : w.Conclusive := by
  obtain ⟨hStanding, hDisposals, hAlways⟩ := hReach.recorded
  change standing w.journal = w.status at hStanding
  change disposals w.journal = w.disposed.toNat at hDisposals
  constructor
  · rw [hDisposals]
    exact Bool.toNat_le w.disposed
  · constructor
    · intro hDisposed
      rw [hDisposed] at hDisposals
      exact exists_disposal (hDisposals ▸ Nat.one_ne_zero)
    · rintro ⟨e, hMem, hDisposal⟩
      cases hDisposed : w.disposed with
      | true => rfl
      | false =>
        rw [hDisposed] at hDisposals
        rw [disposals_eq_zero.mp hDisposals e hMem] at hDisposal
        cases hDisposal
  · intro hStatus
    exact exists_disposal (disposals_of_standing hAlways (hStanding.trans hStatus))
  · intro later e earlier observer hSplit hEvent
    have hEntry := hAlways later e earlier hSplit
    rcases hEvent with hEntered | hTold
    · exact exists_disposal (hEntry.spent hEntered)
    · have hEarlier : Always Honest earlier := by
        have hWhole : Always Honest ((later ++ [e]) ++ earlier) := by
          rw [List.append_assoc]
          exact hSplit ▸ hAlways
        exact hWhole.tail
      exact exists_disposal (disposals_of_standing hEarlier (hEntry.told _ _ hTold))
  · intro later e earlier hSplit hTerminal
    have hEntry := hAlways later e earlier hSplit
    rw [Option.eq_none_iff_forall_ne_some]
    intro status hSome
    rw [hEntry.entered status (Event.entered?_eq_some.mp hSome)] at hTerminal
    cases hTerminal
  · intro hTerminal actions w' hRun
    exact World.status_run hTerminal hRun
  · exact hStanding

/-- A caller's resumption is rejected while an episode waits for a connection, and the deadline of
the episode comes afterwards. -/
def World.contested : List Action :=
  World.refusing ++ [.setSupplier ⟨"A", []⟩, .fail .closed, .work, .work, .work, .work,
    .finishResume 0, .elapse 30000, .work]

theorem conclusive_of_reachable_contested :
    ∃ w, World.sample.run World.contested = some w ∧ w.status = .disposed ∧ w.task.isEnded ∧
      w.Conclusive := by
  have hFacts : (World.sample.run World.contested).map (fun w => (w.status, w.task.isEnded)) =
      some (.disposed, true) := by
    decide +kernel
  obtain ⟨w, hRun, hFacts⟩ := Option.map_eq_some_iff.mp hFacts
  obtain ⟨hStatus, hTask⟩ := Prod.mk.inj hFacts
  exact ⟨w, hRun, hStatus, hTask, conclusive_of_reachable (reachable_sample hRun)⟩

end Resumption
