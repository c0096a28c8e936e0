import Resumption.Proofs.Deafness
import Resumption.Proofs.Patience

/-!
# After the stream is closed

Nothing comes into a stream that is closed, so every error still in it can at most begin one more
episode, and each episode has its deadline. Hence the task of a session whose stream is closed is
over after the time of one episode for each error left and one more for the episode under way, and
the session is at its end. What waits in the stream is served first, and the episode under way
takes the course that it would have taken anyway.

* `Sealed` — where the task is over, the status is terminal
* `Closing` — by when the task of a session whose stream is closed is over
* `Spending` — how much such a task can still do
* `Winding` — what the end of the stream leads to
* `winding_of_reachable` — every session whose stream is closed winds up
-/

namespace Resumption

namespace World

-- ---------------------------------------------------------------------------
-- A stream that is closed
-- ---------------------------------------------------------------------------

section

attribute [local simp] taking listens

/-- Nothing comes into a stream that is closed, and what is in it comes out. -/
theorem closed_stride {w w' : World} {written : List Entry} (hClosed : w.errorsClosed)
    (hStride : Stride w written w') :
    w'.errorsClosed ∧ w'.errors.length ≤ w.errors.length := by
  cases hStride with
  | beginBare hTask hErrors | begin hTask hErrors => simp [welcome, hClosed, hErrors]
  | _ => simp [connect, hClosed]

/-- A task that takes an error from the stream and is not over begins an episode. -/
theorem idle_stride {w w' : World} {written : List Entry} (hTask : w.task = .idle)
    (hTask' : w'.task ≠ .ended) (hStride : Stride w written w') :
    ∃ error token, w.errors = error :: w'.errors ∧ w'.episodes = w.episodes + 1 ∧
      w'.task = .recovering
        { snapshot := ⟨w.config.duration, token⟩
          strategy := w.config.strategy w.episodes
          deadline := w.now + w.span
          stage := .consulting (.connection error) } := by
  cases hStride with
  | stop | beginBare => simp at hTask'
  | @begin error errors token hIdle hErrors =>
    refine ⟨error, token, ?_, rfl, rfl⟩
    simpa [welcome] using hErrors
  | consult hSame | backOff hSame | dialNobody hSame | dial hSame | refuse hSame | install hSame
  | announceNothing hSame | announce hSame | hearNothing hSame | hearNoise hSame | hear hSame
  | resume hSame | reject hSame | cut hSame =>
    rw [hTask] at hSame
    cases hSame

end

theorem closed_act {w w' : World} {action : Action} (hClosed : w.errorsClosed)
    (hAct : w.act action = some w') : w'.errorsClosed := by
  rcases act_cases hAct with ⟨rfl, written, hStride⟩ | ⟨millis, rfl, -, rfl⟩ | ⟨-, hBystander⟩
  · exact (closed_stride hClosed hStride).1
  · exact hClosed
  · exact (hBystander.deaf hClosed).1

/-- A task that waits for an error never waits at a stream that is closed. -/
theorem step_of_idle {w : World} (hTask : w.task = .idle) (hClosed : w.errorsClosed) :
    w.step ≠ none := by
  rw [step_idle hTask]
  cases hErrors : w.errors with
  | nil => simp [hClosed]
  | cons error errors => simp

theorem span_act {w w' : World} {action : Action} (hAct : w.act action = some w') :
    w'.span = w.span := by
  obtain ⟨written, hChange⟩ := change_of_act hAct
  exact span_change hChange

-- ---------------------------------------------------------------------------
-- By when the task is over
-- ---------------------------------------------------------------------------

/-- The stream is closed, and there is time for an episode for every error in it. -/
structure Closing (time : Nat) (w : World) : Prop where
  closed : w.errorsClosed
  idle : w.task = .idle → w.now + w.errors.length * w.span ≤ time
  recovering : ∀ ep, w.task = .recovering ep → ep.deadline + w.errors.length * w.span ≤ time

theorem closing_stride {w w' : World} {written : List Entry} {time : Nat} (hReach : Reachable w)
    (hClosing : w.Closing time) (hStride : Stride w written w') : w'.Closing time := by
  obtain ⟨hClosed, hErrors⟩ := closed_stride hClosing.closed hStride
  have hNow := now_stride hStride
  have hSpan := span_change (.work hStride)
  have hRoom : w'.errors.length * w.span ≤ w.errors.length * w.span :=
    Nat.mul_le_mul_right w.span hErrors
  cases hTask : w.task with
  | ended => exact absurd hStride (not_stride_of_ended (by rw [hTask]; rfl))
  | recovering ep =>
    have hDeadline := hClosing.recovering ep hTask
    obtain ⟨start, -, -, -, hTo⟩ := hReach.timed.current ep hTask
    refine ⟨hClosed, ?_, ?_⟩
    · intro _
      rw [hNow, hSpan]
      omega
    · intro ep' hTask'
      rw [(deadline_stride hTask hTask' hStride).1, hSpan]
      omega
  | idle =>
    have hTime := hClosing.idle hTask
    by_cases hEnded : w'.task = .ended
    · refine ⟨hClosed, fun hIdle => ?_, fun ep hEp => ?_⟩
      · rw [hEnded] at hIdle
        cases hIdle
      · rw [hEnded] at hEp
        cases hEp
    · -- the error that is taken pays for the episode that begins
      obtain ⟨error, token, hTaken, -, hTask'⟩ := idle_stride hTask hEnded hStride
      refine ⟨hClosed, fun hIdle => ?_, fun ep hEp => ?_⟩
      · rw [hTask'] at hIdle
        cases hIdle
      · rw [hTask'] at hEp
        cases hEp
        rw [hTaken, List.length_cons, Nat.succ_mul] at hTime
        show w.now + w.span + w'.errors.length * w'.span ≤ time
        rw [hSpan]
        omega

theorem closing_act {w w' : World} {action : Action} {time : Nat} (hReach : Reachable w)
    (hClosing : w.Closing time) (hAct : w.act action = some w') : w'.Closing time := by
  have hSpan := span_act hAct
  rcases act_cases hAct with ⟨rfl, written, hStride⟩ | ⟨millis, rfl, hMay, rfl⟩ | ⟨-, hBystander⟩
  · exact closing_stride hReach hClosing hStride
  · refine ⟨hClosing.closed, fun hIdle => ?_, hClosing.recovering⟩
    -- a task that waits for an error does not let time pass
    have hStep : w.step = none := by
      unfold mayReach at hMay
      simp only [Bool.and_eq_true, Option.isNone_iff_eq_none] at hMay
      exact hMay.1.1
    exact absurd hStep (step_of_idle hIdle hClosing.closed)
  · obtain ⟨hClosed, hErrors⟩ := hBystander.deaf hClosing.closed
    refine ⟨hClosed, ?_, ?_⟩
    · intro hIdle
      rw [hBystander.now, hErrors, hSpan]
      exact hClosing.idle (hBystander.idle hIdle)
    · intro ep hEp
      rw [hErrors, hSpan]
      exact hClosing.recovering ep (hBystander.recovering hEp)

theorem closing_run {w w' : World} {actions : List Action} {time : Nat} (hReach : Reachable w)
    (hClosing : w.Closing time) (hRun : w.run actions = some w') : w'.Closing time := by
  induction actions generalizing w with
  | nil =>
    cases hRun
    exact hClosing
  | cons action actions ih =>
    obtain ⟨next, hNext, hRest⟩ := Option.bind_eq_some_iff.mp hRun
    exact ih (hReach.act hNext) (closing_act hReach hClosing hNext) hRest

theorem closing_of_closeErrors {w : World} (hReach : Reachable w) :
    w.closeErrors.Closing (w.now + (w.errors.length + 1) * w.span) := by
  refine ⟨rfl, ?_, ?_⟩
  · intro _
    show w.now + w.errors.length * w.span ≤ _
    rw [Nat.succ_mul]
    omega
  · intro ep hTask
    obtain ⟨start, -, hDeadline, hFrom, -⟩ := hReach.timed.current ep hTask
    show ep.deadline + w.errors.length * w.span ≤ _
    rw [Nat.succ_mul]
    omega

/-- When all that is due by then is done, the task is over. -/
theorem Closing.ended {w : World} {time : Nat} (hReach : Reachable w) (hClosing : w.Closing time)
    (hDone : w.DoneBy time) : w.task = .ended := by
  cases hTask : w.task with
  | ended => rfl
  | idle =>
    have hTime := hClosing.idle hTask
    rcases hDone with hPast | ⟨-, hStep⟩
    · omega
    · exact absurd hStep (step_of_idle hTask hClosing.closed)
  | recovering ep =>
    have hTime := hClosing.recovering ep hTask
    obtain ⟨start, -, -, -, hTo⟩ := hReach.timed.current ep hTask
    refine absurd ?_ (hReach.timed.not_doneBy hTask)
    rcases hDone with hPast | ⟨hNow, hStep⟩
    · omega
    · exact .inr ⟨by omega, hStep⟩

-- ---------------------------------------------------------------------------
-- How much the task can still do
-- ---------------------------------------------------------------------------

/-- What `count` episodes from that number on can do, if the strategy of each is patient from its
question in `fuse` on. -/
def reserve (fuse : Nat → Nat) (span number : Nat) : Nat → Nat
  | 0 => 0
  | count + 1 => 8 * (fuse number + span + 1) + 2 + reserve fuse span (number + 1) count

theorem reserve_mono (fuse : Nat → Nat) (span number : Nat) {count more : Nat}
    (hCount : count ≤ more) : reserve fuse span number count ≤ reserve fuse span number more := by
  induction more generalizing number count with
  | zero =>
    obtain rfl := Nat.le_zero.mp hCount
    exact Nat.le_refl _
  | succ more ih =>
    cases count with
    | zero => exact Nat.zero_le _
    | succ count =>
      have hRest := ih (number + 1) (Nat.le_of_succ_le_succ hCount)
      unfold reserve
      omega

/-- The stream is closed, and the task can do at most that many steps more. -/
structure Spending (fuse : Nat → Nat) (most : Nat) (w : World) : Prop where
  closed : w.errorsClosed
  patient : ∀ number, (w.config.strategy number).PatientFrom (fuse number)
  idle : w.task = .idle → reserve fuse w.span w.episodes w.errors.length + 1 ≤ most
  recovering : ∀ ep, w.task = .recovering ep → ∃ n, ep.strategy.PatientFrom n ∧
    ep.potential n w.now + reserve fuse w.span w.episodes w.errors.length + 1 ≤ most

theorem spending_stride {w w' : World} {written : List Entry} {fuse : Nat → Nat} {most : Nat}
    (hReach : Reachable w) (hSpending : w.Spending fuse most) (hStride : Stride w written w') :
    w'.Spending fuse (most - 1) ∧ 0 < most := by
  obtain ⟨hClosed, hErrors⟩ := closed_stride hSpending.closed hStride
  have hConfig := config_stride hStride
  have hNow := now_stride hStride
  have hSpan := span_change (.work hStride)
  have hPatient : ∀ number, (w'.config.strategy number).PatientFrom (fuse number) := by
    rw [hConfig]
    exact hSpending.patient
  cases hTask : w.task with
  | ended => exact absurd hStride (not_stride_of_ended (by rw [hTask]; rfl))
  | recovering ep =>
    obtain ⟨n, hFrom, hMost⟩ := hSpending.recovering ep hTask
    obtain ⟨start, -, -, -, hTo⟩ := hReach.timed.current ep hTask
    have hEpisodes := episodes_of_recovering hTask hStride
    have hLess := reserve_mono fuse w.span w.episodes hErrors
    have hSome := ep.potential_pos n w.now
    refine ⟨⟨hClosed, hPatient, ?_, ?_⟩, by omega⟩
    · intro _
      rw [hSpan, hEpisodes]
      omega
    · intro ep' hTask'
      obtain ⟨n', hFrom', hUsed⟩ := potential_stride hTask hTask' hTo hFrom hStride
      refine ⟨n', hFrom', ?_⟩
      rw [hSpan, hEpisodes]
      omega
  | idle =>
    have hMost := hSpending.idle hTask
    by_cases hEnded : w'.task = .ended
    · refine ⟨⟨hClosed, hPatient, fun hIdle => ?_, fun ep hEp => ?_⟩, by omega⟩
      · rw [hEnded] at hIdle
        cases hIdle
      · rw [hEnded] at hEp
        cases hEp
    · obtain ⟨error, token, hTaken, hEpisodes, hTask'⟩ := idle_stride hTask hEnded hStride
      refine ⟨⟨hClosed, hPatient, fun hIdle => ?_, fun ep hEp => ?_⟩, by omega⟩
      · rw [hTask'] at hIdle
        cases hIdle
      · rw [hTask'] at hEp
        cases hEp
        refine ⟨fuse w.episodes, hSpending.patient w.episodes, ?_⟩
        rw [hTaken, List.length_cons, reserve] at hMost
        rw [hNow, hSpan, hEpisodes]
        show 8 * (fuse w.episodes + (w.now + w.span + 1 - w.now)) + 1 +
          reserve fuse w.span (w.episodes + 1) w'.errors.length + 1 ≤ most - 1
        omega

theorem spending_act {w w' : World} {action : Action} {fuse : Nat → Nat} {most : Nat}
    (hReach : Reachable w) (hSpending : w.Spending fuse most) (hAct : w.act action = some w') :
    ∃ most', w'.Spending fuse most' ∧ most' + [action].countP Action.isWork ≤ most := by
  have hSpan := span_act hAct
  rcases act_cases hAct with ⟨rfl, written, hStride⟩ | ⟨millis, rfl, -, rfl⟩ | ⟨hWork, hBystander⟩
  · obtain ⟨hNext, hSome⟩ := spending_stride hReach hSpending hStride
    refine ⟨most - 1, hNext, ?_⟩
    show most - 1 + 1 ≤ most
    omega
  · refine ⟨most, ⟨hSpending.closed, hSpending.patient, hSpending.idle, ?_⟩, Nat.le_refl most⟩
    intro ep hTask
    obtain ⟨n, hFrom, hMost⟩ := hSpending.recovering ep hTask
    have hMono := ep.potential_mono n (Nat.le_add_right w.now millis)
    refine ⟨n, hFrom, ?_⟩
    show ep.potential n (w.now + millis) + reserve fuse w.span w.episodes w.errors.length + 1 ≤ most
    omega
  · obtain ⟨written, hChange⟩ := change_of_act hAct
    obtain ⟨hClosed, hErrors⟩ := hBystander.deaf hSpending.closed
    refine ⟨most, ⟨hClosed, ?_, ?_, ?_⟩, ?_⟩
    · rw [config_change hChange]
      exact hSpending.patient
    · intro hIdle
      rw [hSpan, hBystander.episodes, hErrors]
      exact hSpending.idle (hBystander.idle hIdle)
    · intro ep hEp
      rw [hSpan, hBystander.episodes, hErrors, hBystander.now]
      exact hSpending.recovering ep (hBystander.recovering hEp)
    · rw [countP_isWork hWork]
      exact Nat.le_refl most

/-- Whatever happens after the stream was closed, the task does only so many steps more. -/
theorem works_le_of_spending {w w' : World} {actions : List Action} {fuse : Nat → Nat} {most : Nat}
    (hReach : Reachable w) (hSpending : w.Spending fuse most) (hRun : w.run actions = some w') :
    actions.countP Action.isWork ≤ most := by
  induction actions generalizing w most with
  | nil => exact Nat.zero_le most
  | cons action actions ih =>
    obtain ⟨next, hNext, hRest⟩ := Option.bind_eq_some_iff.mp hRun
    obtain ⟨most', hLeft, hUsed⟩ := spending_act hReach hSpending hNext
    have hRestUsed := ih (hReach.act hNext) hLeft hRest
    show ([action] ++ actions).countP Action.isWork ≤ most
    rw [List.countP_append]
    omega

theorem exists_spending {w : World} (hReach : Reachable w) (hClosed : w.errorsClosed)
    (hPatient : ∀ number, (w.config.strategy number).Patient) :
    ∃ fuse most, w.Spending fuse most := by
  obtain ⟨fuse, hFuse⟩ := Classical.axiomOfChoice hPatient
  cases hTask : w.task with
  | idle => exact ⟨fuse, _, hClosed, hFuse, fun _ => Nat.le_refl _, by simp [hTask]⟩
  | ended => exact ⟨fuse, 0, hClosed, hFuse, by simp [hTask], by simp [hTask]⟩
  | recovering ep =>
    obtain ⟨n, hFrom⟩ := hReach.patient hPatient hTask
    refine ⟨fuse, ep.potential n w.now + reserve fuse w.span w.episodes w.errors.length + 1,
      hClosed, hFuse, by simp [hTask], ?_⟩
    intro ep' hTask'
    rw [hTask] at hTask'
    cases hTask'
    exact ⟨n, hFrom, Nat.le_refl _⟩

/-- The stream is closed, and a time comes nearer. -/
structure Passing (fuse : Nat → Nat) (time most : Nat) (w : World) : Prop where
  reachable : Reachable w
  now : w.now ≤ time
  left : ∃ steps, w.Spending fuse steps ∧ steps + (time - w.now) + w.calls.length ≤ most

theorem Passing.move {w : World} {fuse : Nat → Nat} {time most : Nat}
    (hPassing : w.Passing fuse time most) (hNot : ¬ w.DoneBy time) :
    ∃ action w' most', action.isInternal ∧ w.act action = some w' ∧
      w'.Passing fuse time most' ∧ most' < most := by
  have hReach := hPassing.reachable
  have hTo := hPassing.now
  obtain ⟨steps, hSpending, hMost⟩ := hPassing.left
  cases hStep : w.step with
  | some w' =>
    obtain ⟨written, hStride⟩ := stride_of_step hStep
    obtain ⟨hNext, hSome⟩ := spending_stride hReach hSpending hStride
    have hAct : w.act .work = some w' := hStep
    have hNow := now_stride hStride
    refine ⟨.work, w', most - 1, rfl, hAct, ⟨hReach.act hAct, ?_, steps - 1, hNext, ?_⟩, by omega⟩
    · omega
    · rw [hNow, calls_stride hStride]
      omega
  | none =>
    have hBefore : w.now < time := by
      refine Nat.lt_of_le_of_ne hTo fun hNow => hNot (.inr ⟨hNow.symm, hStep⟩)
    rcases exists_move hReach.timed hStep with ⟨number, w', hAct, hCalls⟩ | hAct
    · obtain ⟨steps', hNext, hUsed⟩ := spending_act hReach hSpending hAct
      have hNow := (bystander_finishResume hAct).now
      refine ⟨.finishResume number, w', most - 1, rfl, hAct,
        ⟨hReach.act hAct, ?_, steps', hNext, ?_⟩, by omega⟩
      · omega
      · rw [hNow]
        omega
    · obtain ⟨steps', hNext, hUsed⟩ := spending_act hReach hSpending hAct
      refine ⟨.elapse 1, _, most - 1, rfl, hAct,
        ⟨hReach.act hAct, hBefore, steps', hNext, ?_⟩, by omega⟩
      show steps' + (time - (w.now + 1)) + w.calls.length ≤ most - 1
      omega

/-- Everything that is due up to a time comes to be done. -/
theorem exists_done {w : World} {time : Nat} (hReach : Reachable w) (hClosed : w.errorsClosed)
    (hPatient : ∀ number, (w.config.strategy number).Patient) (hTime : w.now ≤ time) :
    ∃ actions w', (∀ action ∈ actions, action.isInternal) ∧ w.run actions = some w' ∧
      w'.now = time ∧ w'.DoneBy time := by
  obtain ⟨fuse, steps, hSpending⟩ := exists_spending hReach hClosed hPatient
  have hStart : w.Passing fuse time (steps + (time - w.now) + w.calls.length) :=
    ⟨hReach, hTime, steps, hSpending, Nat.le_refl _⟩
  obtain ⟨actions, w', hActions, hRun, ⟨most, hEnd⟩, hDone⟩ :=
    exists_run (fun m v => v.Passing fuse time m) (fun v => v.DoneBy time) Passing.move hStart
  refine ⟨actions, w', hActions, hRun, ?_, hDone⟩
  have hTo := hEnd.now
  rcases hDone with hPast | ⟨hNow, -⟩
  · omega
  · exact hNow.symm

-- ---------------------------------------------------------------------------
-- The status at the end
-- ---------------------------------------------------------------------------

section

attribute [local simp] welcome connect status_terminate status_dispose

/-- No status follows a terminal one. -/
theorem terminal_change {w w' : World} {action : Action} {written : List Entry}
    (hTerminal : w.status.isTerminal) (hChange : Change w action written w') :
    w'.status = w.status := by
  cases hChange with
  | work hStride => cases hStride <;> simp [hTerminal]
  | quiet _ hSame => exact hSame.status
  | bind => simp [World.bind]
  | releaseHeld => rfl
  | _ => simp [hTerminal]

/-- The status is terminal where the connection is disposed, and where the task is over. -/
structure Sealed (w : World) : Prop where
  disposed : w.disposed → w.status.isTerminal
  ended : w.task = .ended → w.isOpen → w.status.isTerminal

theorem sealed_stride {w w' : World} {written : List Entry} (hDisposed : w.disposed = false)
    (hStride : Stride w written w') : w'.Sealed := by
  by_cases hTerminal : w.status.isTerminal <;>
    cases hStride <;> constructor <;> simp [hDisposed, hTerminal]

theorem sealed_change {w w' : World} {action : Action} {written : List Entry}
    (hSealed : w.Sealed) (hChange : Change w action written w') : w'.Sealed := by
  by_cases hBefore : w.status.isTerminal
  · have hSame := terminal_change hBefore hChange
    rw [← hSame] at hBefore
    exact ⟨fun _ => hBefore, fun _ _ => hBefore⟩
  · have hDisposed : w.disposed = false := by
      rw [← Bool.not_eq_true]
      exact fun hDisposed => hBefore (hSealed.disposed hDisposed)
    have hEnded : w.task = .ended → w.isOpen = false := by
      intro hEnded
      rw [← Bool.not_eq_true]
      exact fun hOpen => hBefore (hSealed.ended hEnded hOpen)
    cases hChange with
    | work hStride => exact sealed_stride hDisposed hStride
    | quiet _ hSame =>
      constructor
      · simp [hSame.disposed, hDisposed]
      · rw [hSame.task, hSame.isOpen]
        intro hOver
        simp [hEnded hOver]
    | bind | releaseHeld | reject =>
      constructor <;> simp +contextual [World.bind, releaseHeld, hDisposed, hEnded, hBefore]
    | _ => constructor <;> simp +contextual [hDisposed, hEnded]

/-- Only the task closes the session, when nothing is left in a stream that has ended and the
connection has not been disposed. -/
theorem change_of_closed {w w' : World} {action : Action} {written : List Entry}
    (hBefore : w.status ≠ .closed) (hNow : w'.status = .closed)
    (hChange : Change w action written w') :
    action = .work ∧ w.task = .idle ∧ w.errors = [] ∧ w.errorsClosed ∧ w.disposed = false := by
  by_cases hTerminal : w.status.isTerminal
  · rw [terminal_change hTerminal hChange] at hNow
    exact absurd hNow hBefore
  · cases hChange with
    | work hStride =>
      cases hStride with
      | stop hTask hErrors hClosed =>
        refine ⟨rfl, hTask, hErrors, hClosed, ?_⟩
        by_cases hDisposed : w.disposed <;> simp [hDisposed, hBefore] at hNow ⊢
      | _ => by_cases hDisposed : w.disposed <;> simp [hTerminal, hBefore, hDisposed] at hNow
    | quiet _ hSame => exact absurd (hSame.status.symm.trans hNow) hBefore
    | reject => by_cases hDisposed : w.disposed <;> simp [hTerminal, hBefore, hDisposed] at hNow
    | bind | releaseHeld => exact absurd (by simpa [World.bind, releaseHeld] using hNow) hBefore
    | _ => simp [hTerminal, hBefore] at hNow

end

end World

theorem Reachable.sealed {w : World} (hReach : Reachable w) : w.Sealed := by
  refine hReach.induct ?_ fun _ hSealed hChange => World.sealed_change hSealed hChange
  intro config tokens reconciliations bursts
  refine ⟨fun hDisposed => ?_, fun hEnded => ?_⟩
  · cases hDisposed
  · cases hEnded

-- ---------------------------------------------------------------------------
-- What becomes of the errors in the stream
-- ---------------------------------------------------------------------------

namespace World

section

attribute [local simp] own guest raised taking listens Event.accepted? Event.unbinds

theorem accepted_of_closed {w w' : World} {action : Action} {written : List Entry}
    (hClosed : w.errorsClosed) (hChange : Change w action written w') : accepted written = [] := by
  cases hChange with
  | work hStride =>
    cases hStride with
    | beginBare | announceNothing | reject | cut =>
      by_cases hDisposed : w.disposed <;> simp [disposal, hDisposed, hClosed]
    | _ => simp [hClosed]
  | reject => by_cases hDisposed : w.disposed <;> simp [disposal, hDisposed, hClosed]
  | _ => simp [hClosed]

/-- The end of the task is written down. -/
theorem unbinds_change {w w' : World} {action : Action} {written : List Entry}
    (hChange : Change w action written w') (hEnded : w'.task = .ended) :
    w.task = .ended ∨ ∃ e ∈ written, e.event.unbinds := by
  cases hChange with
  | work hStride =>
    cases hStride with
    | stop | beginBare | announceNothing | reject | cut => exact .inr (by simp)
    | _ => cases hEnded
  | quiet _ hSame => exact .inl (hSame.task.symm.trans hEnded)
  | drop | dropRecovering => exact .inr (by simp)
  | _ => exact .inl (by simpa [World.bind, releaseHeld] using hEnded)

end

/-- What leaves the stream while nothing comes into it. -/
theorem delivered_change {w w' : World} {action : Action} {written : List Entry}
    (hReach : Reachable w) (hClosed : w.errorsClosed) (hChange : Change w action written w') :
    settled w'.journal = settled w.journal ++ settled written ∧
      w.errors = (settled written).map Prod.fst ++ w'.errors := by
  have hFifo := fifo_change hReach.traced.fifo hChange
  have hSettled : settled w'.journal = settled w.journal ++ settled written := by
    rw [← settled_deeds, deeds_change hChange, settled_append, settled_deeds]
  refine ⟨hSettled, ?_⟩
  rw [accepted_append, accepted_of_closed hClosed hChange, List.append_nil, hReach.traced.fifo,
    settled_append, List.map_append, List.append_assoc] at hFifo
  exact List.append_cancel_left hFifo

/-- The errors in a stream that is closed leave it in their order, or stay. -/
theorem delivered_run {w w' : World} {actions : List Action} (hReach : Reachable w)
    (hClosed : w.errorsClosed) (hRun : w.run actions = some w') :
    ∃ gone, settled w'.journal = settled w.journal ++ gone ∧
      w.errors = gone.map Prod.fst ++ w'.errors := by
  induction actions generalizing w with
  | nil =>
    cases hRun
    exact ⟨[], by simp, by simp⟩
  | cons action actions ih =>
    obtain ⟨next, hNext, hRest⟩ := Option.bind_eq_some_iff.mp hRun
    obtain ⟨written, hChange⟩ := change_of_act hNext
    obtain ⟨hSettled, hErrors⟩ := delivered_change hReach hClosed hChange
    obtain ⟨gone, hSettled', hErrors'⟩ := ih (hReach.act hNext) (closed_act hClosed hNext) hRest
    refine ⟨settled written ++ gone, ?_, ?_⟩
    · rw [hSettled', hSettled, List.append_assoc]
    · rw [hErrors, hErrors', List.map_append, List.append_assoc]

end World

-- ---------------------------------------------------------------------------
-- Shares at the end
-- ---------------------------------------------------------------------------

theorem Reachable.unbinds {w : World} (hReach : Reachable w) (hEnded : w.task = .ended) :
    ∃ e ∈ deeds w.journal, e.event.unbinds := by
  refine hReach.induct (P := fun w => w.task = .ended → ∃ e ∈ deeds w.journal, e.event.unbinds)
    ?_ ?_ hEnded
  · intro config tokens reconciliations bursts hEnded
    cases hEnded
  · intro w w' action written _ ih hChange hEnded
    rw [World.deeds_change hChange]
    rcases World.unbinds_change hChange hEnded with hBefore | ⟨e, hMem, hUnbinds⟩
    · obtain ⟨e, hMem, hUnbinds⟩ := ih hBefore
      exact ⟨e, List.mem_append_right written hMem, hUnbinds⟩
    · exact ⟨e, List.mem_append_left _ hMem, hUnbinds⟩

/-- A session whose task is over holds nothing but what was bound since it last gave back what it
held. -/
theorem shares_of_ended {w : World} (hReach : Reachable w) (hEnded : w.task = .ended) :
    ∃ later s earlier, w.journal = later ++ s :: earlier ∧ s.event.unbinds ∧
      (∀ e ∈ later, e.event.unbinds = false) ∧
      ((∀ e ∈ later, e.event.bound? = none) →
        ∀ token, w.pool.shares token = w.outside token) := by
  obtain ⟨e, hMem, hUnbinds⟩ := hReach.unbinds hEnded
  have hSome : (w.journal.find? fun e => e.event.unbinds).isSome :=
    List.find?_isSome.mpr ⟨e, (mem_deeds.mp hMem).1, hUnbinds⟩
  obtain ⟨s, hFind⟩ := Option.isSome_iff_exists.mp hSome
  obtain ⟨hLatest, later, earlier, hSplit, hOthers⟩ := List.find?_eq_some_iff_append.mp hFind
  have hSince : ∀ e ∈ later, e.event.unbinds = false := fun e he => by simpa using hOthers e he
  refine ⟨later, s, earlier, hSplit, hLatest, hSince, fun hLater token => ?_⟩
  have hNone : ∀ ep, w.task ≠ .recovering ep := by
    intro ep hEp
    rw [hEnded] at hEp
    cases hEp
  rw [World.shares_of_not_recovering hReach hNone, hSplit,
    binding_append _ fun e he => ⟨hSince e he, hLater e he⟩, binding_cons, if_pos hLatest]
  rfl

-- ---------------------------------------------------------------------------
-- Every session whose stream is closed
-- ---------------------------------------------------------------------------

/-- What happens if the stream is closed now. Journals have their latest entry first. -/
structure World.Winding (w : World) : Prop where
  /-- When the time of one episode more than there are errors in the stream has passed, the task is
  over, a session that was not dropped is in a terminal status, and it holds no share if no token
  was bound since the latest end, be it that of the task or that of a session dropped after it. -/
  ended : ∀ actions w', w.closeErrors.run actions = some w' →
    w'.DoneBy (w.now + (w.errors.length + 1) * w.span) →
      w'.task = .ended ∧ (w'.isOpen → w'.status = .disposed ∨ w'.status = .closed) ∧
      ∃ later s earlier, w'.journal = later ++ s :: earlier ∧ s.event.unbinds ∧
        (∀ e ∈ later, e.event.unbinds = false) ∧
        ((∀ e ∈ later, e.event.bound? = none) →
          ∀ token, w'.pool.shares token = w'.outside token)
  /-- There is only so much left to be done. -/
  bounded : ∃ most, ∀ actions w', w.closeErrors.run actions = some w' →
    actions.countP Action.isWork ≤ most
  /-- That time can pass, with nobody else doing anything. -/
  passes : ∃ actions w', (∀ action ∈ actions, action.isInternal) ∧
    w.closeErrors.run actions = some w' ∧
      w'.now = w.now + (w.errors.length + 1) * w.span ∧
      w'.DoneBy (w.now + (w.errors.length + 1) * w.span)
  /-- The episode under way takes the course that it would have taken with the stream open. -/
  course : ∀ actions, During w actions →
    (w.closeErrors.run actions).map hush = (w.run actions).map hush
  /-- The errors in the stream are served in their order: each has begun an episode, or was dropped,
  or still waits. -/
  delivered : ∀ actions w', w.closeErrors.run actions = some w' →
    ∃ gone, settled w'.journal = settled w.journal ++ gone ∧
      w.errors = gone.map Prod.fst ++ w'.errors
  /-- An error that waits is what a task without an episode turns to before any time passes. -/
  served : ∀ actions w' error more, w.closeErrors.run actions = some w' → w'.task = .idle →
    w'.errors = error :: more → w'.step = some ({ w' with errors := more }.begin error) ∧
      ∀ millis, w'.act (.elapse millis) = none
  /-- The session is closed only when all of them are gone, and nobody has disposed. -/
  closed : ∀ actions v action w', w.closeErrors.run actions = some v → v.act action = some w' →
    v.status ≠ .closed → w'.status = .closed →
      v.task = .idle ∧ (∃ gone, settled v.journal = settled w.journal ++ gone ∧
        gone.map Prod.fst = w.errors) ∧ ∀ e ∈ v.journal, e.event.isDisposal = false

namespace World

theorem not_disposal_of_disposed {w : World} (hReach : Reachable w)
    (hDisposed : w.disposed = false) :
    ∀ e ∈ w.journal, e.event.isDisposal = false := by
  have hCount := hReach.disposals_eq
  rw [hDisposed] at hCount
  intro e hMem
  cases hNotice : e.event.isNotice with
  | true => exact (Event.plain_of_isNotice hNotice).2.2
  | false => exact disposals_eq_zero.mp hCount e (mem_deeds.mpr ⟨hMem, hNotice⟩)

theorem status_of_isTerminal {status : Status} (hTerminal : status.isTerminal) :
    status = .disposed ∨ status = .closed := by
  cases status <;> simp_all

end World

/-- An error comes while the task waits before the first attempt of an episode. -/
def World.piling : List Action :=
  [.bind 0, .fail .closed, .work, .work, .work, .fail .closed]

end Resumption
