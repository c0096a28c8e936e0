import Resumption.Proofs.Chapters
import Resumption.Proofs.Closing

/-!
# A resumption behind the back of the task

A caller can hand RESUME_OK to a session while the task is in the middle of an episode. Positions
are reconciled then and the session is resumed, but the task does not hear of it: it goes on with
its attempts, puts another connection in place or comes to its deadline. This module says exactly
which of its calls leave the session resumed.

* `World.isOccasion` — what may end the calm of a resumed session
* `Gentle` — calls that leave a resumed session as it is
* `resumed_change` — what one action does to a resumed session
* `keepsResumed_iff` — the session stays resumed exactly where the calls of the task are gentle
-/

namespace Resumption

-- ---------------------------------------------------------------------------
-- Calls that change nothing
-- ---------------------------------------------------------------------------

/-- Whether a call leaves a resumed session as it is: the task asks for a delay, asks a supplier, or
hears from the peer that it may resume. -/
def Event.isGentle : Event → Bool
  | .consulted .. | .advised _ | .attempted | .dialled _ => true
  | .reconciling .. | .reconciled none => true
  | .heard (some frame) =>
    match ResumeOk.position (.start frame) with
    | .ok .. => true
    | .error .. => false
  | _ => false

def Event.isAttempt : Event → Bool
  | .attempted => true
  | _ => false

def Event.isDial : Event → Bool
  | .dialled _ => true
  | _ => false

def attempts (calls : List Event) : Nat :=
  calls.countP Event.isAttempt

def dials (calls : List Event) : Nat :=
  calls.countP Event.isDial

/-- Calls of the task that leave a resumed session as it is. -/
structure Gentle (calls : List Event) : Prop where
  each : ∀ event ∈ calls, event.isGentle
  /-- No attempt was without a supplier. -/
  supplied : dials calls = attempts calls

theorem gentle_iff {calls : List Event} :
    Gentle calls ↔ (∀ event ∈ calls, event.isGentle) ∧ dials calls = attempts calls :=
  ⟨fun ⟨hEach, hSupplied⟩ => ⟨hEach, hSupplied⟩, fun ⟨hEach, hSupplied⟩ => ⟨hEach, hSupplied⟩⟩

theorem dials_append (earlier later : List Event) :
    dials (earlier ++ later) = dials earlier + dials later :=
  List.countP_append

theorem attempts_append (earlier later : List Event) :
    attempts (earlier ++ later) = attempts earlier + attempts later :=
  List.countP_append

theorem gentle_nil : Gentle [] :=
  gentle_iff.mpr (by simp [dials, attempts])

/-- An attempt is made before a supplier is asked, so what one part lacks another cannot make up
for. -/
theorem gentle_append {earlier later : List Event} (hEarlier : dials earlier ≤ attempts earlier)
    (hLater : dials later ≤ attempts later) :
    Gentle (earlier ++ later) ↔ Gentle earlier ∧ Gentle later := by
  constructor
  · rintro ⟨hEach, hSupplied⟩
    rw [dials_append, attempts_append] at hSupplied
    refine ⟨⟨fun event hMem => ?_, by omega⟩, ⟨fun event hMem => ?_, by omega⟩⟩
    · exact hEach event (List.mem_append_left later hMem)
    · exact hEach event (List.mem_append_right earlier hMem)
  · rintro ⟨hFirst, hSecond⟩
    refine ⟨fun event hMem => ?_, ?_⟩
    · rcases List.mem_append.mp hMem with hMem | hMem
      · exact hFirst.each event hMem
      · exact hSecond.each event hMem
    · rw [dials_append, attempts_append, hFirst.supplied, hSecond.supplied]

namespace World

/-- What may end the calm of a resumed session: its task takes an error from the stream or finds
the end of it, or a caller's resumption is rejected. -/
def isOccasion (w : World) : Action → Bool
  | .work =>
    match w.task with
    | .idle => true
    | _ => false
  | .finishResume number => w.calls[number]?.any fun work => work.reply.error.isSome
  | _ => false

/-- Nothing in this course of events may end the calm. -/
def uneventful : World → List Action → Bool
  | _, [] => true
  | w, action :: actions =>
    !w.isOccasion action && (w.act action).all fun next => next.uneventful actions

theorem uneventful_cons {w next : World} {action : Action} {actions : List Action}
    (hNext : w.act action = some next) :
    w.uneventful (action :: actions) ↔ w.isOccasion action = false ∧ next.uneventful actions := by
  rw [uneventful, hNext, Option.all_some, Bool.and_eq_true, Bool.not_eq_true']

/-- The session is resumed all along. -/
def KeepsResumed (w : World) (actions : List Action) : Prop :=
  ∀ before after v, actions = before ++ after → w.run before = some v → v.status = .resumed

theorem keepsResumed_nil {w : World} : w.KeepsResumed [] ↔ w.status = .resumed := by
  constructor
  · intro hKeeps
    exact hKeeps [] [] w rfl rfl
  · intro hStatus before after v hSplit hRun
    obtain ⟨rfl, -⟩ := List.append_eq_nil_iff.mp hSplit.symm
    cases hRun
    exact hStatus

theorem keepsResumed_cons {w next : World} {action : Action} {actions : List Action}
    (hNext : w.act action = some next) :
    w.KeepsResumed (action :: actions) ↔ w.status = .resumed ∧ next.KeepsResumed actions := by
  constructor
  · intro hKeeps
    refine ⟨hKeeps [] _ w rfl rfl, fun before after v hSplit hRun => ?_⟩
    refine hKeeps (action :: before) after v (by rw [hSplit, List.cons_append]) ?_
    rw [run, hNext]
    exact hRun
  · rintro ⟨hStatus, hKeeps⟩ before after v hSplit hRun
    cases before with
    | nil =>
      cases hRun
      exact hStatus
    | cons first before =>
      obtain ⟨rfl, hRest⟩ := List.cons_eq_cons.mp hSplit
      rw [run, hNext] at hRun
      exact hKeeps before after v hRest hRun

-- ---------------------------------------------------------------------------
-- One action
-- ---------------------------------------------------------------------------

section

attribute [local simp] own guest raised ownCalls_arrived ownCalls_drained disposal Entry.isOwnCall
  Event.isCall Event.isAttempt Event.isDial Event.isGentle dials attempts gentle_iff
  status_dispose status_terminate List.countP_cons

theorem dials_stride {w w' : World} {written : List Entry} (hStride : Stride w written w') :
    dials (ownCalls written) ≤ attempts (ownCalls written) := by
  cases hStride with
  | beginBare | announceNothing | reject | cut =>
    by_cases hDisposed : w.disposed <;> simp [hDisposed]
  | _ => simp

/-- A supplier is asked in the course of an attempt. -/
theorem dials_change {w w' : World} {action : Action} {written : List Entry}
    (hChange : Change w action written w') :
    dials (ownCalls written) ≤ attempts (ownCalls written) := by
  cases hChange with
  | work hStride => exact dials_stride hStride
  | reject => by_cases hDisposed : w.disposed <;> simp [hDisposed]
  | _ => simp

/-- What one step of an episode does to a resumed session. -/
theorem resumed_stride {w w' : World} {written : List Entry} (hDisposed : w.disposed = false)
    (hStatus : w.status = .resumed) (hTask : w.task ≠ .idle) (hStride : Stride w written w') :
    w'.status = .resumed ↔ Gentle (ownCalls written) := by
  cases hStride with
  | stop hIdle | beginBare hIdle | begin hIdle => exact absurd hIdle hTask
  | consult | backOff | dial => simp [hStatus]
  | hear _ _ _ hDecode => simp [hStatus, hDecode]
  | resume => simp [hStatus]
  | hearNoise _ _ _ hDecode => simp [hStatus, hDecode]
  | dialNobody | refuse | announce | hearNothing => simp [hStatus]
  | install => simp [connect, hStatus]
  | announceNothing | reject | cut => simp [hStatus, hDisposed]

/-- What one action does to a resumed session, unless it is an occasion to go on. -/
theorem resumed_change {w w' : World} {action : Action} {written : List Entry}
    (hDisposed : w.disposed = false) (hStatus : w.status = .resumed)
    (hCalm : w.isOccasion action = false) (hChange : Change w action written w') :
    w'.status = .resumed ↔ Gentle (ownCalls written) := by
  cases hChange with
  | work hStride =>
    have hTask : w.task ≠ .idle := by
      intro hIdle
      simp [isOccasion, hIdle] at hCalm
    exact resumed_stride hDisposed hStatus hTask hStride
  | quiet _ hSame => simp [hSame.status, hStatus]
  | reject hWork hReply => simp [isOccasion, hWork, hReply] at hCalm
  | bind => simp [World.bind, hStatus]
  | releaseHeld => simp [releaseHeld, hStatus]
  | _ => simp [hStatus]

end

-- ---------------------------------------------------------------------------
-- A course of events
-- ---------------------------------------------------------------------------

theorem ownCalls_change {w w' : World} {action : Action} {written : List Entry}
    (hChange : Change w action written w') :
    ownCalls w'.journal = ownCalls w.journal ++ ownCalls written := by
  rw [← ownCalls_deeds, deeds_change hChange, ownCalls_append, ownCalls_deeds]

theorem dials_run {w w' : World} {actions : List Action} (hRun : w.run actions = some w') :
    ∃ calls, ownCalls w'.journal = ownCalls w.journal ++ calls ∧ dials calls ≤ attempts calls := by
  refine run_induct (P := fun v => ∃ calls, ownCalls v.journal = ownCalls w.journal ++ calls ∧
    dials calls ≤ attempts calls) ?_ hRun ⟨[], by simp, Nat.le_refl _⟩
  rintro v v' action written - ⟨calls, hCalls, hDials⟩ hChange
  refine ⟨calls ++ ownCalls written, ?_, ?_⟩
  · rw [ownCalls_change hChange, hCalls, List.append_assoc]
  · rw [dials_append, attempts_append]
    exact Nat.add_le_add hDials (dials_change hChange)

/-- A resumed session stays resumed as long as the calls of its task are gentle. -/
theorem keepsResumed_run {w w' : World} {actions : List Action} (hReach : Reachable w)
    (hStatus : w.status = .resumed) (hRun : w.run actions = some w')
    (hCalm : w.uneventful actions) :
    ∃ calls, ownCalls w'.journal = ownCalls w.journal ++ calls ∧
      (w.KeepsResumed actions ↔ Gentle calls) := by
  induction actions generalizing w with
  | nil =>
    cases hRun
    refine ⟨[], by simp, ?_⟩
    rw [keepsResumed_nil]
    exact iff_of_true hStatus gentle_nil
  | cons action actions ih =>
    obtain ⟨next, hNext, hRest⟩ := Option.bind_eq_some_iff.mp hRun
    obtain ⟨written, hChange⟩ := change_of_act hNext
    obtain ⟨hNow, hLater⟩ := (uneventful_cons hNext).mp hCalm
    have hDisposed : w.disposed = false := by
      rw [← Bool.not_eq_true]
      intro hDisposed
      have hTerminal := hReach.sealed.disposed hDisposed
      rw [hStatus] at hTerminal
      cases hTerminal
    have hStep := resumed_change hDisposed hStatus hNow hChange
    have hFirst := dials_change hChange
    rw [keepsResumed_cons hNext]
    by_cases hKept : next.status = .resumed
    · obtain ⟨calls, hCalls, hIff⟩ := ih (hReach.act hNext) hKept hRest hLater
      obtain ⟨calls', hCalls', hDials⟩ := dials_run hRest
      obtain rfl : calls = calls' := List.append_cancel_left (hCalls.symm.trans hCalls')
      refine ⟨ownCalls written ++ calls, ?_, ?_⟩
      · rw [hCalls, ownCalls_change hChange, List.append_assoc]
      · rw [gentle_append hFirst hDials, ← hStep, ← hIff]
        exact ⟨fun ⟨_, hKeeps⟩ => ⟨hKept, hKeeps⟩, fun ⟨_, hKeeps⟩ => ⟨hStatus, hKeeps⟩⟩
    · -- the session is resumed no more, whatever comes afterwards
      obtain ⟨calls, hCalls, hDials⟩ := dials_run hRest
      refine ⟨ownCalls written ++ calls, ?_, ?_⟩
      · rw [hCalls, ownCalls_change hChange, List.append_assoc]
      · rw [gentle_append hFirst hDials, ← hStep]
        refine iff_of_false ?_ fun ⟨hSame, _⟩ => hKept hSame
        rintro ⟨-, hKeeps⟩
        exact hKept (hKeeps [] actions next rfl rfl)

/-- Where no episode is under way, nothing but an occasion begins one. -/
theorem not_recovering_act {w w' : World} {action : Action}
    (hTask : ∀ ep, w.task ≠ .recovering ep) (hCalm : w.isOccasion action = false)
    (hAct : w.act action = some w') : action ≠ .work ∧ ∀ ep, w'.task ≠ .recovering ep := by
  rcases act_cases hAct with ⟨rfl, written, hStride⟩ | ⟨millis, rfl, -, rfl⟩ | ⟨hWork, hBystander⟩
  · cases hCase : w.task with
    | idle => simp [isOccasion, hCase] at hCalm
    | recovering ep => exact absurd hCase (hTask ep)
    | ended => exact absurd hStride (not_stride_of_ended (by rw [hCase]; rfl))
  · exact ⟨nofun, hTask⟩
  · exact ⟨hWork, fun ep hEp => hTask ep (hBystander.recovering hEp)⟩

theorem ownCalls_run {w w' : World} {actions : List Action}
    (hTask : ∀ ep, w.task ≠ .recovering ep) (hRun : w.run actions = some w')
    (hCalm : w.uneventful actions) : ownCalls w'.journal = ownCalls w.journal := by
  induction actions generalizing w with
  | nil =>
    cases hRun
    rfl
  | cons action actions ih =>
    obtain ⟨next, hNext, hRest⟩ := Option.bind_eq_some_iff.mp hRun
    obtain ⟨written, hChange⟩ := change_of_act hNext
    obtain ⟨hNow, hLater⟩ := (uneventful_cons hNext).mp hCalm
    obtain ⟨hWork, hTask'⟩ := not_recovering_act hTask hNow hNext
    have hNone : ownCalls written = [] := by
      rw [ownCalls_eq_nil]
      intro e hMem
      simp [Entry.isOwnCall, actor_change hWork hChange e hMem]
    rw [ih hTask' hRest hLater, ownCalls_change hChange, hNone, List.append_nil]

-- ---------------------------------------------------------------------------
-- After a caller's resumption
-- ---------------------------------------------------------------------------

/-- After a caller's resumption the session stays resumed exactly where the calls that the task goes
on to make are gentle, as they are where no episode is under way. -/
theorem keepsResumed_iff {w₀ w w' : World} {number : Nat} {actions : List Action}
    (hReach : Reachable w₀) (hFinish : w₀.finishResume number = some (.resumed, w))
    (hStatus : w.status = .resumed) (hRun : w.run actions = some w')
    (hCalm : w.uneventful actions) :
    ∃ calls, ownCalls w'.journal = ownCalls w.journal ++ calls ∧
      (w.KeepsResumed actions ↔ Gentle calls) ∧
      ((∀ ep, w.task ≠ .recovering ep) → w.KeepsResumed actions) := by
  have hAct : w₀.act (.finishResume number) = some w := by
    simp only [act, hFinish, Option.map_some]
  obtain ⟨calls, hCalls, hIff⟩ := keepsResumed_run (hReach.act hAct) hStatus hRun hCalm
  refine ⟨calls, hCalls, hIff, fun hTask => hIff.mpr ?_⟩
  have hNone : calls = [] := by
    have hSame := ownCalls_run hTask hRun hCalm
    rw [hCalls] at hSame
    exact List.append_right_eq_self.mp hSame
  rw [hNone]
  exact gentle_nil

/-- A caller hands over RESUME_OK while an episode waits for a connection. -/
def overruling : List Action :=
  [.bind 0, .setSupplier ⟨"A", []⟩, .fail .closed, .work, .work, .work, .work,
    .beginResume (.start sampleOk)]

/-- The deadline of the episode comes afterwards. -/
def lapsing : List Action :=
  [.elapse 30000, .work]

theorem resumed_overruling :
    ∃ w₀ w w', Reachable w₀ ∧ w₀.finishResume 0 = some (.resumed, w) ∧ w.status = .resumed ∧
      w.run lapsing = some w' ∧ w.uneventful lapsing ∧ w'.status = .disposed := by
  have hFacts : ((sample.run overruling).bind fun w₀ => (w₀.finishResume 0).bind fun r =>
      (r.2.run lapsing).map fun w' =>
        (r.1, r.2.status, r.2.uneventful lapsing, w'.status)) =
      some (.resumed, .resumed, true, .disposed) := by
    decide +kernel
  obtain ⟨w₀, hRun₀, hFacts⟩ := Option.bind_eq_some_iff.mp hFacts
  obtain ⟨⟨outcome, w⟩, hFinish, hFacts⟩ := Option.bind_eq_some_iff.mp hFacts
  obtain ⟨w', hRun, hFacts⟩ := Option.map_eq_some_iff.mp hFacts
  simp only [Prod.mk.injEq] at hFacts
  obtain ⟨rfl, hStatus, hCalm, hAfter⟩ := hFacts
  exact ⟨w₀, w, w', reachable_sample hRun₀, hFinish, hStatus, hRun, hCalm, hAfter⟩

theorem keepsResumed_iff_overruling :
    ∃ w₀ w w' calls, Reachable w₀ ∧ w₀.finishResume 0 = some (.resumed, w) ∧
      w.status = .resumed ∧ w.run lapsing = some w' ∧ w.uneventful lapsing ∧
      ownCalls w'.journal = ownCalls w.journal ++ calls ∧
      (w.KeepsResumed lapsing ↔ Gentle calls) := by
  obtain ⟨w₀, w, w', hReach, hFinish, hStatus, hRun, hCalm, -⟩ := resumed_overruling
  obtain ⟨calls, hCalls, hIff, -⟩ := keepsResumed_iff hReach hFinish hStatus hRun hCalm
  exact ⟨w₀, w, w', calls, hReach, hFinish, hStatus, hRun, hCalm, hCalls, hIff⟩

/-- The task disposes the connection of a session that was resumed in between. -/
theorem not_keepsResumed :
    ¬ ∀ w₀ w w' number actions, Reachable w₀ → w₀.finishResume number = some (.resumed, w) →
      w.status = .resumed → w.run actions = some w' → w.uneventful actions →
        w'.status = .resumed := by
  intro h
  obtain ⟨w₀, w, w', hReach, hFinish, hStatus, hRun, hCalm, hAfter⟩ := resumed_overruling
  have hKept := h w₀ w w' 0 lapsing hReach hFinish hStatus hRun hCalm
  rw [hAfter] at hKept
  cases hKept

end World

end Resumption
