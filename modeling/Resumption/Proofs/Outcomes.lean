import Resumption.Proofs.Closing

/-!
# The outcome of a resumption and the status after it

A resumption is carried out for the task or for a caller, and its outcome is what the resumable
connection made of the position. Meanwhile others may have disposed the connection or closed the
session. The outcome says what the status is right afterwards, save that a terminal status stays
as it is; and a frame that cannot be read has no effect.

* `Agrees` — the outcome goes with the status right after it
* `agrees_finishReconciling` — the outcome step, whoever takes it
* `agreed_of_reachable` — every resumption in every state that a session can come to
-/

namespace Resumption

/-- What the resumable connection makes of the position. -/
def Reconciling.outcome (work : Reconciling) : Outcome :=
  if work.reply.error.isNone then .resumed else .rejected

/-- The outcome of a resumption goes with the status right after it. -/
structure Agrees (w : World) (outcome : Outcome) (w' : World) : Prop where
  resumed : outcome = .resumed → w.status.isTerminal = false → w'.status = .resumed
  rejected : outcome = .rejected → w'.disposed ∧ (w.status ≠ .closed → w'.status = .disposed)
  /-- A session that is over stays so. -/
  terminal : w.status.isTerminal → w'.status = w.status

namespace World

-- ---------------------------------------------------------------------------
-- The outcome step
-- ---------------------------------------------------------------------------

theorem finishReconciling_outcome (actor : Actor) (work : Reconciling) (w : World) :
    (w.finishReconciling actor work).1 = work.outcome := by
  unfold finishReconciling Reconciling.outcome
  cases work.reply.error <;> rfl

theorem finishReconciling_resumed {work : Reconciling} (hReply : work.reply.error = none)
    (actor : Actor) (w : World) :
    (w.finishReconciling actor work).2.status =
      if w.status.isTerminal then w.status else .resumed := by
  simp [finishReconciling, hReply]

theorem finishReconciling_rejected {work : Reconciling} {error : RecoveryError}
    (hReply : work.reply.error = some error) (actor : Actor) (w : World) :
    (w.finishReconciling actor work).2.disposed = true ∧
      (w.finishReconciling actor work).2.status =
        if w.disposed ∨ w.status.isTerminal then w.status else .disposed := by
  simp [finishReconciling, hReply, status_dispose]

/-- Whoever takes the outcome step, the outcome goes with the status. -/
theorem agrees_finishReconciling {w : World} (hSealed : w.Sealed) (actor : Actor)
    (work : Reconciling) :
    Agrees w work.outcome (w.finishReconciling actor work).2 := by
  unfold Reconciling.outcome
  cases hReply : work.reply.error with
  | none =>
    have hStatus := finishReconciling_resumed hReply actor w
    refine ⟨fun _ hOpen => ?_, nofun, fun hTerminal => ?_⟩
    · rw [hStatus, hOpen]
      rfl
    · rw [hStatus, if_pos hTerminal]
  | some error =>
    obtain ⟨hDisposed, hStatus⟩ := finishReconciling_rejected hReply actor w
    refine ⟨nofun, fun _ => ⟨hDisposed, fun hClosed => ?_⟩, fun hTerminal => ?_⟩
    · rw [hStatus]
      split
      case isFalse => rfl
      case isTrue hOver =>
        -- somebody else disposed before
        have hTerminal : w.status.isTerminal := hOver.elim hSealed.disposed id
        rcases status_of_isTerminal hTerminal with hStatus | hStatus
        · exact hStatus
        · exact absurd hStatus hClosed
    · rw [hStatus, if_pos (.inr hTerminal)]

-- ---------------------------------------------------------------------------
-- A caller's resumption
-- ---------------------------------------------------------------------------

/-- A caller's resumption that is due comes to its end. -/
theorem finishResume_eq {w : World} {number : Nat} {work : Reconciling}
    (hWork : w.calls[number]? = some work) (hDue : work.due ≤ w.now) :
    w.finishResume number = some (work.outcome,
      (({ w with calls := w.calls.eraseIdx number }.finishReconciling .caller work).2.record .caller
        (.returned (.ok work.outcome)))) := by
  unfold finishResume
  rw [hWork]
  dsimp only
  rw [if_pos hDue, finishReconciling_outcome]

theorem of_finishResume {w w' : World} {number : Nat} {outcome : Outcome}
    (hFinish : w.finishResume number = some (outcome, w')) :
    ∃ work, w.calls[number]? = some work ∧ work.due ≤ w.now := by
  unfold finishResume at hFinish
  split at hFinish
  case h_1 => cases hFinish
  case h_2 work hWork =>
    split at hFinish
    case isTrue hDue => exact ⟨work, hWork, hDue⟩
    case isFalse => cases hFinish

theorem agrees_finishResume {w w' : World} {number : Nat} {outcome : Outcome}
    (hSealed : w.Sealed) (hFinish : w.finishResume number = some (outcome, w')) :
    Agrees w outcome w' := by
  obtain ⟨work, hWork, hDue⟩ := of_finishResume hFinish
  rw [finishResume_eq hWork hDue] at hFinish
  cases hFinish
  have hCalled : ({ w with calls := w.calls.eraseIdx number } : World).Sealed :=
    ⟨hSealed.disposed, hSealed.ended⟩
  obtain ⟨hResumed, hRejected, hTerminal⟩ := agrees_finishReconciling hCalled .caller work
  exact ⟨hResumed, hRejected, hTerminal⟩

-- ---------------------------------------------------------------------------
-- The task's own resumption
-- ---------------------------------------------------------------------------

theorem conclude_frame (ep : Episode) (work : Reconciling) (w : World) :
    (w.conclude ep work).status = (w.finishReconciling .task work).2.status ∧
      (w.conclude ep work).disposed = (w.finishReconciling .task work).2.disposed := by
  unfold conclude
  cases hReply : work.reply.error with
  | none => simp [finishReconciling, hReply]
  | some error => simp [finishReconciling, hReply, status_dispose, status_terminate]

theorem agrees_conclude {w : World} (hSealed : w.Sealed) (ep : Episode) (work : Reconciling) :
    Agrees w work.outcome (w.conclude ep work) := by
  obtain ⟨hStatus, hDisposed⟩ := conclude_frame ep work w
  obtain ⟨hResumed, hRejected, hTerminal⟩ := agrees_finishReconciling hSealed .task work
  rw [← hStatus] at hResumed hRejected hTerminal
  rw [← hDisposed] at hRejected
  exact ⟨hResumed, hRejected, hTerminal⟩

theorem step_of_reconciling {w : World} {ep : Episode} {work : Reconciling}
    (hTask : w.task = .recovering ep) (hStage : ep.stage = .reconciling work)
    (hDue : work.due ≤ w.now) : w.step = some (w.conclude ep work) := by
  refine step_of_proceed hTask ?_
  rw [proceed, hStage]
  exact if_pos hDue

end World

-- ---------------------------------------------------------------------------
-- Every resumption
-- ---------------------------------------------------------------------------

/-- The resumptions that are under way in a session, or may begin. -/
structure World.Agreed (w : World) : Prop where
  /-- A caller's resumption comes to its end whatever happened since it began, and its outcome is
  what the connection replied. -/
  finished : ∀ number work, w.calls[number]? = some work → work.due ≤ w.now →
    ∃ w', w.finishResume number = some (work.outcome, w')
  /-- The outcome goes with the status. -/
  called : ∀ number outcome w', w.finishResume number = some (outcome, w') → Agrees w outcome w'
  /-- The same for the resumption that is part of an episode. -/
  own : ∀ ep work, w.task = .recovering ep → ep.stage = .reconciling work → work.due ≤ w.now →
    ∃ w', w.step = some w' ∧ Agrees w work.outcome w'
  /-- While a resumption is under way it has not changed the status. -/
  begun : ∀ frame w', w.beginResume frame = .ok w' → w'.status = w.status
  /-- A frame that cannot be read is returned with an error, and that is all. -/
  refused : ∀ frame cause w', w.beginResume frame = .error cause →
    w.act (.beginResume frame) = some w' →
      w' = { w with journal := ⟨w.now, .caller, .returned (.error cause)⟩ :: w.journal }

/-- In every state that a session can come to, a resumption and the status agree. -/
theorem agreed_of_reachable {w : World} (hReach : Reachable w) : w.Agreed := by
  have hSealed := hReach.sealed
  constructor
  · intro number work hWork hDue
    exact ⟨_, World.finishResume_eq hWork hDue⟩
  · intro number outcome w' hFinish
    exact World.agrees_finishResume hSealed hFinish
  · intro ep work hTask hStage hDue
    exact ⟨_, World.step_of_reconciling hTask hStage hDue, World.agrees_conclude hSealed ep work⟩
  · intro frame w' hBegin
    unfold World.beginResume at hBegin
    split at hBegin
    case h_1 => cases hBegin
    case h_2 =>
      cases hBegin
      rfl
  · intro frame cause w' hBegin hAct
    unfold World.act at hAct
    simp only [hBegin] at hAct
    obtain ⟨-, rfl⟩ := World.of_whileOpen hAct
    rfl

/-- The session is closed while a caller waits for a resumption. -/
def World.overtaken : List Action :=
  [.addReconciliation ⟨5, 0, none⟩, .beginResume (.start World.sampleOk), .closeErrors, .work,
    .elapse 5]

theorem agreed_of_reachable_overtaken :
    ∃ w, World.sample.run World.overtaken = some w ∧ w.status = .closed ∧ w.calls.length = 1 ∧
      w.Agreed := by
  have hFacts : (World.sample.run World.overtaken).map (fun w => (w.status, w.calls.length)) =
      some (.closed, 1) := by
    decide +kernel
  obtain ⟨w, hRun, hFacts⟩ := Option.map_eq_some_iff.mp hFacts
  obtain ⟨hStatus, hCalls⟩ := Prod.mk.inj hFacts
  exact ⟨w, hRun, hStatus, hCalls, agreed_of_reachable (reachable_sample hRun)⟩

/-- A session that was closed stays closed, whatever the outcome of a resumption is. -/
theorem not_agreed :
    (¬ ∀ w, Reachable w → ∀ number w', w.finishResume number = some (.resumed, w') →
      w'.status = .resumed) ∧
    (¬ ∀ w, Reachable w → ∀ number w', w.finishResume number = some (.rejected, w') →
      w'.status = .disposed) := by
  have hClosed : ∀ actions outcome, ((World.sample.run actions).bind
      fun w => (w.finishResume 0).map fun r => (r.1, r.2.status)) = some (outcome, .closed) →
      ∃ w w', Reachable w ∧ w.finishResume 0 = some (outcome, w') ∧ w'.status = .closed := by
    intro actions outcome hFacts
    obtain ⟨w, hRun, hFacts⟩ := Option.bind_eq_some_iff.mp hFacts
    obtain ⟨⟨other, w'⟩, hFinish, hFacts⟩ := Option.map_eq_some_iff.mp hFacts
    obtain ⟨rfl, hStatus⟩ := Prod.mk.inj hFacts
    exact ⟨w, w', reachable_sample hRun, hFinish, hStatus⟩
  constructor
  · intro h
    obtain ⟨w, w', hReach, hFinish, hStatus⟩ :=
      hClosed World.overtaken .resumed (by decide +kernel)
    rw [h w hReach 0 w' hFinish] at hStatus
    cases hStatus
  · intro h
    obtain ⟨w, w', hReach, hFinish, hStatus⟩ :=
      hClosed (World.refusing ++ [.closeErrors, .work]) .rejected (by decide +kernel)
    rw [h w hReach 0 w' hFinish] at hStatus
    cases hStatus

end Resumption
