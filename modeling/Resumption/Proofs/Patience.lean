import Resumption.Proofs.Deadlines

/-!
# Why an episode comes to its end

A strategy that answers zero or fails again and again could keep an episode busy for ever without
any time passing. A patient strategy does so only finitely often, and then every attempt takes time
off what is left of the episode. So the task can do only so much in one episode, and if nobody but
the task, the clock and the callers' resumptions move, the episode ends.

* `Strategy.Patient` — a zero delay or a failure is answered only finitely often
* `Episode.potential` — how much an episode can still do
* `potential_stride` — every step of an episode uses up some of it
* `exists_move` — where the task has to wait, time can pass or a resumption can end
* `Timely` — what holds of the time of every episode
* `timely_of_reachable` — every run is timely
-/

namespace Resumption

-- ---------------------------------------------------------------------------
-- Patience
-- ---------------------------------------------------------------------------

/-- Whether the next attempt follows at once: the delay is zero, or the strategy failed. -/
def Reply.isHasty : Reply → Bool
  | .wait delay => delay.ceilMillis = 0
  | .refuse _ => true
  | .silence => false

namespace Strategy

/-- The strategy neither answers zero nor fails from question `n` on. -/
def PatientFrom (n : Nat) (s : Strategy) : Prop :=
  ∀ m, n ≤ m → (s.advice m).reply.isHasty = false

/-- The strategy answers zero or fails only finitely often. -/
def Patient (s : Strategy) : Prop :=
  ∃ n, s.PatientFrom n

theorem PatientFrom.consult {n : Nat} {s : Strategy} (hPatient : s.PatientFrom n) :
    s.consult.2.PatientFrom (n - 1) := by
  intro m hFrom
  -- question `m` of what comes next is question `m + 1` of this one
  exact hPatient (m + 1) (by omega)

theorem PatientFrom.head {s : Strategy} (hPatient : s.PatientFrom 0) :
    s.consult.1.reply.isHasty = false :=
  hPatient 0 (Nat.le_refl 0)

end Strategy

-- ---------------------------------------------------------------------------
-- How much is left of an episode
-- ---------------------------------------------------------------------------

/-- The earliest time at which the next attempt can be made, if it can be made at all. -/
def Stage.earliest (now : Nat) : Stage → Option Nat
  | .advised (.due time reply) => some (max now time + (World.pause reply).ceilMillis)
  | .advised .never => none
  | .backingOff due => some (max now due)
  | _ => some now

/-- How many steps are left of an attempt. -/
def Stage.rank : Stage → Nat
  | .consulting _ => 1
  | .reconciling _ => 2
  | .listening _ => 3
  | .announcing .. => 4
  | .dialling _ => 5
  | .backingOff _ => 6
  | .advised _ => 7

/-- The milliseconds that are left for attempts. -/
def Episode.room (now : Nat) (ep : Episode) : Nat :=
  match ep.stage.earliest now with
  | some time => ep.deadline + 1 - time
  | none => 0

/-- How many steps an episode can still do, if its strategy is patient from question `n` on. -/
def Episode.potential (n now : Nat) (ep : Episode) : Nat :=
  8 * (n + ep.room now) + ep.stage.rank

theorem Episode.potential_pos (n now : Nat) (ep : Episode) : 0 < ep.potential n now := by
  unfold potential
  cases ep.stage <;> simp only [Stage.rank] <;> omega

/-- Time that passes leaves no more room. -/
theorem Episode.potential_mono (n : Nat) {now later : Nat} (hLater : now ≤ later) (ep : Episode) :
    ep.potential n later ≤ ep.potential n now := by
  have hRoom : ep.room later ≤ ep.room now := by
    unfold room
    cases hStage : ep.stage with
    | advised reply =>
      cases reply with
      | due time value =>
        simp only [Stage.earliest]
        omega
      | never => exact Nat.le_refl _
    | _ =>
      simp only [Stage.earliest]
      omega
  unfold potential
  omega

/-- An attempt follows the question at once only where the strategy is hasty. -/
theorem earliest_answer {now time : Nat} {a : Advice}
    (hEarliest : (Stage.advised (a.answer now)).earliest now = some time) :
    now ≤ time ∧ (a.reply.isHasty = false → now < time) := by
  unfold Advice.answer at hEarliest
  cases hReply : a.reply with
  | wait delay =>
    simp only [hReply, Stage.earliest, World.pause, Option.some.injEq] at hEarliest
    refine ⟨by omega, fun hPatient => ?_⟩
    have hDelay : delay.ceilMillis ≠ 0 := by
      simpa [Reply.isHasty] using hPatient
    omega
  | refuse reason =>
    simp only [hReply, Stage.earliest, Option.some.injEq] at hEarliest
    exact ⟨by omega, fun hPatient => by cases hPatient⟩
  | silence => simp [hReply, Stage.earliest] at hEarliest

/-- The episode after the strategy was asked. -/
def Episode.asked (now : Nat) (ep : Episode) : Episode :=
  { ep with
    strategy := ep.strategy.consult.2
    stage := .advised (ep.strategy.consult.1.answer now) }

/-- A question that is answered patiently takes time, and of the others one less is left. -/
theorem Episode.room_asked {n now : Nat} {ep : Episode} {cause : RecoveryError}
    (hStage : ep.stage = .consulting cause) (hNow : now ≤ ep.deadline)
    (hPatient : ep.strategy.PatientFrom n) :
    n - 1 + (ep.asked now).room now + 1 ≤ n + ep.room now := by
  have hBefore : ep.room now = ep.deadline + 1 - now := by
    unfold room
    rw [hStage]
    rfl
  have hAfter : (ep.asked now).room now ≤ ep.deadline + 1 - now ∧
      (n = 0 → (ep.asked now).room now ≤ ep.deadline - now) := by
    unfold room
    split
    case h_1 time hEarliest =>
      obtain ⟨hFrom, hLater⟩ := earliest_answer hEarliest
      show ep.deadline + 1 - time ≤ _ ∧ (n = 0 → ep.deadline + 1 - time ≤ _)
      refine ⟨by omega, ?_⟩
      rintro rfl
      have := hLater hPatient.head
      omega
    case h_2 => omega
  rw [hBefore]
  cases n with
  | zero =>
    have := hAfter.2 rfl
    omega
  | succ n =>
    have := hAfter.1
    omega

/-- A later stage of the same attempt. -/
theorem Episode.potential_lt {n now : Nat} {ep ep' : Episode}
    (hDeadline : ep'.deadline = ep.deadline)
    (hEarliest : ep'.stage.earliest now = ep.stage.earliest now)
    (hRank : ep'.stage.rank < ep.stage.rank) : ep'.potential n now < ep.potential n now := by
  unfold potential room
  rw [hDeadline, hEarliest]
  omega

theorem Pending.eq_of_ready {α : Type} {p : Pending α} {now : Nat} {value : α}
    (hReady : p.ready? now = some value) : ∃ time, p = .due time value ∧ time ≤ now := by
  cases p with
  | never => cases hReady
  | due time value' =>
    rw [ready?] at hReady
    split at hReady
    case isTrue hDue =>
      cases hReady
      exact ⟨time, rfl, hDue⟩
    case isFalse => cases hReady

namespace World

-- ---------------------------------------------------------------------------
-- Steps of an episode
-- ---------------------------------------------------------------------------

/-- A step to the next stage uses up some of what an episode can do. -/
theorem potential_stride {w w' : World} {written : List Entry} {ep ep' : Episode} {n : Nat}
    (hTask : w.task = .recovering ep) (hTask' : w'.task = .recovering ep')
    (hNow : w.now ≤ ep.deadline) (hPatient : ep.strategy.PatientFrom n)
    (hStride : Stride w written w') :
    ∃ n', ep'.strategy.PatientFrom n' ∧ ep'.potential n' w'.now < ep.potential n w.now := by
  have hTime := now_stride hStride
  rw [hTime]
  cases hStride with
  | stop hIdle | beginBare hIdle | begin hIdle =>
    rw [hTask] at hIdle
    cases hIdle
  | announceNothing | resume | reject | cut => simp at hTask'
  | consult hSame hStage =>
    rw [hTask] at hSame
    cases hSame
    cases hTask'
    refine ⟨n - 1, hPatient.consult, ?_⟩
    have hRoom := Episode.room_asked hStage hNow hPatient
    have hRank : ep.stage.rank = 1 := by
      rw [hStage]
      rfl
    show 8 * (n - 1 + (ep.asked w.now).room w.now) + 7 < 8 * (n + ep.room w.now) + ep.stage.rank
    omega
  | @backOff ep reply answer hSame hStage hReady =>
    rw [hTask] at hSame
    cases hSame
    cases hTask'
    obtain ⟨time, rfl, hDue⟩ := Pending.eq_of_ready hReady
    refine ⟨n, hPatient, Episode.potential_lt rfl ?_ ?_⟩
    · rw [hStage]
      show some (max w.now (w.now + _)) = some (max w.now time + _)
      congr 1
      omega
    · simp [hStage, Stage.rank]
  | @dialNobody ep due hSame hStage hDue | @dial ep due supplier hSame hStage hDue =>
    rw [hTask] at hSame
    cases hSame
    cases hTask'
    refine ⟨n, hPatient, Episode.potential_lt rfl ?_ ?_⟩
    · rw [hStage]
      show some w.now = some (max w.now due)
      rw [Nat.max_eq_left hDue]
    · simp [hStage, Stage.rank]
  | refuse hSame hStage | install hSame hStage | announce hSame hStage | hearNothing hSame hStage
  | hearNoise hSame hStage | hear hSame hStage =>
    rw [hTask] at hSame
    cases hSame
    cases hTask'
    refine ⟨n, hPatient, Episode.potential_lt rfl ?_ ?_⟩
    · rw [hStage]
      rfl
    · simp [hStage, Stage.rank]

theorem calls_stride {w w' : World} {written : List Entry} (hStride : Stride w written w') :
    w'.calls = w.calls := by
  cases hStride <;> simp [welcome, connect]

/-- No episode begins within another one. -/
theorem episodes_of_recovering {w w' : World} {written : List Entry} {ep : Episode}
    (hTask : w.task = .recovering ep) (hStride : Stride w written w') :
    w'.episodes = w.episodes := by
  cases hStride with
  | stop hIdle | beginBare hIdle | begin hIdle =>
    rw [hTask] at hIdle
    cases hIdle
  | _ => simp [connect]

/-- An episode begins with the strategy made for it. -/
theorem strategy_of_idle {w w' : World} {written : List Entry} {ep' : Episode}
    (hTask : ∀ ep, w.task ≠ .recovering ep) (hTask' : w'.task = .recovering ep')
    (hStride : Stride w written w') :
    ep'.strategy = w.config.strategy w.episodes ∧ w'.episodes = w.episodes + 1 := by
  cases hStride with
  | stop | beginBare => simp at hTask'
  | begin =>
    cases hTask'
    exact ⟨rfl, rfl⟩
  | consult hSame | backOff hSame | dialNobody hSame | dial hSame | refuse hSame | install hSame
  | announceNothing hSame | announce hSame | hearNothing hSame | hearNoise hSame | hear hSame
  | resume hSame | reject hSame | cut hSame => exact absurd hSame (hTask _)

end World

/-- Where all strategies are patient, that of the episode under way is. -/
theorem Reachable.patient {w : World} {ep : Episode} (hReach : Reachable w)
    (hPatient : ∀ k, (w.config.strategy k).Patient) (hTask : w.task = .recovering ep) :
    ep.strategy.Patient := by
  refine hReach.induct_act (P := fun v => (∀ k, (v.config.strategy k).Patient) →
    ∀ ep, v.task = .recovering ep → ep.strategy.Patient) ?_ ?_ hPatient ep hTask
  · intro config tokens reconciliations bursts _ ep hTask
    cases hTask
  · intro v v' action hReach ih hAct hAll ep' hTask'
    obtain ⟨written, hChange⟩ := World.change_of_act hAct
    rw [World.config_change hChange] at hAll
    rcases World.act_cases hAct with ⟨rfl, written, hStride⟩ | ⟨millis, rfl, -, rfl⟩ |
      ⟨-, hBystander⟩
    · by_cases hTask : ∃ ep, v.task = .recovering ep
      · obtain ⟨ep, hTask⟩ := hTask
        obtain ⟨start, -, -, -, hTo⟩ := hReach.timed.current ep hTask
        obtain ⟨n, hFrom⟩ := ih hAll ep hTask
        obtain ⟨n', hFrom', -⟩ := World.potential_stride hTask hTask' hTo hFrom hStride
        exact ⟨n', hFrom'⟩
      · obtain ⟨hStrategy, -⟩ :=
          World.strategy_of_idle (fun ep hEp => hTask ⟨ep, hEp⟩) hTask' hStride
        rw [hStrategy]
        exact hAll v.episodes
    · exact ih hAll ep' hTask'
    · exact ih hAll ep' (hBystander.recovering hTask')

-- ---------------------------------------------------------------------------
-- Waiting
-- ---------------------------------------------------------------------------

/-- Whether an episode may have to wait at that stage. -/
def Stage.waits : Stage → Bool
  | .consulting _ | .announcing .. => false
  | _ => true

theorem Pending.ready_eq_none {α : Type} {p : Pending α} {now : Nat} :
    p.ready? now = none ↔ ∀ due, p.time? = some due → now < due := by
  cases p with
  | never => simp [ready?, time?]
  | due time value => simp [ready?, time?]

namespace World

/-- An episode waits exactly where what it waits for is not there. -/
theorem proceed_eq_none {w : World} {ep : Episode} :
    w.proceed ep = none ↔
      ep.stage.waits ∧ ∀ due, ep.stage.time? = some due → w.now < due := by
  unfold proceed
  cases hStage : ep.stage with
  | consulting cause => simp [Stage.waits]
  | announcing channel implied position => simp [Stage.waits]
  | advised reply => simp [Stage.waits, Stage.time?, Pending.ready_eq_none]
  | dialling answer => simp [Stage.waits, Stage.time?, Pending.ready_eq_none]
  | listening answer => simp [Stage.waits, Stage.time?, Pending.ready_eq_none]
  | backingOff due => simp [Stage.waits, Stage.time?]
  | reconciling work => simp [Stage.waits, Stage.time?]

end World

/-- What happens without anybody's doing: steps of the task, time, and the ends of resumptions that
callers have begun. -/
def Action.isInternal : Action → Bool
  | .work | .elapse _ | .finishResume _ => true
  | _ => false

def Action.isWork : Action → Bool
  | .work => true
  | _ => false

theorem countP_isWork {action : Action} (hWork : action ≠ .work) :
    [action].countP Action.isWork = 0 := by
  cases action <;> first | rfl | exact absurd rfl hWork

namespace World

/-- Where the task has to wait, a caller's resumption ends or time passes. -/
theorem exists_move {w : World} (hTimed : w.Timed) (hStep : w.step = none) :
    (∃ number w', w.act (.finishResume number) = some w' ∧
      w'.calls.length < w.calls.length) ∨
    w.act (.elapse 1) = some { w with now := w.now + 1 } := by
  by_cases hDue : ∃ work ∈ w.calls, work.due ≤ w.now
  · left
    obtain ⟨work, hMem, hDue⟩ := hDue
    obtain ⟨number, hLess, hWork⟩ := List.mem_iff_getElem.mp hMem
    have hSome : w.calls[number]? = some work := by
      rw [List.getElem?_eq_getElem hLess, hWork]
    refine ⟨number, _, by unfold act World.finishResume; simp only [hSome, hDue, if_true]; rfl, ?_⟩
    cases hReply : work.reply.error <;>
      simp [finishReconciling, hReply, List.length_eraseIdx, hLess] <;> omega
  · right
    have hCalls : ∀ work ∈ w.calls, w.now + 1 ≤ work.due := by
      intro work hMem
      exact Nat.lt_of_not_le fun hLess => hDue ⟨work, hMem, hLess⟩
    have hWake : w.wakeTime?.all fun wake => w.now + 1 ≤ wake := by
      cases hTask : w.task with
      | idle | ended => simp [wakeTime?, hTask]
      | recovering ep =>
        obtain ⟨start, -, -, -, hTo⟩ := hTimed.current ep hTask
        rw [hTimed.step_eq hTask, Option.or_eq_none_iff] at hStep
        obtain ⟨hProceed, hCut⟩ := hStep
        have hNow : w.now ≠ ep.deadline := by
          intro hNow
          rw [if_pos hNow] at hCut
          cases hCut
        have hLater := (proceed_eq_none.mp hProceed).2
        simp only [wakeTime?, hTask, Option.all_some, decide_eq_true_eq, Nat.le_min]
        refine ⟨?_, by omega⟩
        cases hTime : ep.stage.time? with
        | none =>
          show w.now + 1 ≤ ep.deadline
          omega
        | some due => exact hLater due hTime
    have hMay : w.mayReach (w.now + 1) = true := by
      unfold mayReach
      rw [hStep, hWake]
      simpa using hCalls
    rw [act, if_pos hMay]

/-- What can go on only so long without reaching a goal reaches it. -/
theorem exists_run (P : Nat → World → Prop) (goal : World → Prop)
    (hMove : ∀ {m : Nat} {v : World}, P m v → ¬ goal v →
      ∃ action v' m', action.isInternal ∧ v.act action = some v' ∧ P m' v' ∧ m' < m)
    {m : Nat} {w : World} (hP : P m w) :
    ∃ actions w', (∀ action ∈ actions, action.isInternal) ∧ w.run actions = some w' ∧
      (∃ m', P m' w') ∧ goal w' := by
  induction m using Nat.strongRecOn generalizing w with
  | ind m ih =>
    by_cases hGoal : goal w
    · exact ⟨[], w, by simp, rfl, ⟨m, hP⟩, hGoal⟩
    · obtain ⟨action, v, m', hInternal, hAct, hNext, hLess⟩ := hMove hP hGoal
      obtain ⟨actions, w', hActions, hRun, hEnd⟩ := ih m' hLess hNext
      refine ⟨action :: actions, w', ?_, ?_, hEnd⟩
      · intro a hMem
        rcases List.mem_cons.mp hMem with rfl | hMem
        · exact hInternal
        · exact hActions a hMem
      · rw [run, hAct]
        exact hRun

-- ---------------------------------------------------------------------------
-- One episode
-- ---------------------------------------------------------------------------

/-- Whether the episode of that number is under way. -/
def InEpisode (number : Nat) (w : World) : Prop :=
  w.episodes = number ∧ ∃ ep, w.task = .recovering ep

theorem episodes_stride {w w' : World} {written : List Entry} (hStride : Stride w written w') :
    w.episodes ≤ w'.episodes := by
  cases hStride <;> simp [welcome, connect]

theorem episodes_act {w w' : World} {action : Action} (hAct : w.act action = some w') :
    w.episodes ≤ w'.episodes := by
  rcases act_cases hAct with ⟨rfl, written, hStride⟩ | ⟨millis, rfl, -, rfl⟩ | ⟨-, hBystander⟩
  · exact episodes_stride hStride
  · exact Nat.le_refl _
  · exact Nat.le_of_eq hBystander.episodes.symm

/-- An episode that is over does not come back. -/
theorem over_act {w w' : World} {action : Action} {number : Nat} (hFrom : number ≤ w.episodes)
    (hOver : ¬ w.InEpisode number) (hAct : w.act action = some w') : ¬ w'.InEpisode number := by
  rintro ⟨hNumber, ep', hTask'⟩
  rcases act_cases hAct with ⟨rfl, written, hStride⟩ | ⟨millis, rfl, -, rfl⟩ | ⟨-, hBystander⟩
  · by_cases hTask : ∃ ep, w.task = .recovering ep
    · obtain ⟨ep, hTask⟩ := hTask
      exact hOver ⟨(episodes_of_recovering hTask hStride).symm.trans hNumber, ep, hTask⟩
    · have hNext := (strategy_of_idle (fun ep hEp => hTask ⟨ep, hEp⟩) hTask' hStride).2
      omega
  · exact hOver ⟨hNumber, ep', hTask'⟩
  · exact hOver ⟨hBystander.episodes.symm.trans hNumber, ep', hBystander.recovering hTask'⟩

theorem over_run {w w' : World} {actions : List Action} {number : Nat}
    (hFrom : number ≤ w.episodes) (hOver : ¬ w.InEpisode number) (hRun : w.run actions = some w') :
    ¬ w'.InEpisode number := by
  induction actions generalizing w with
  | nil =>
    cases hRun
    exact hOver
  | cons action actions ih =>
    obtain ⟨next, hNext, hRest⟩ := Option.bind_eq_some_iff.mp hRun
    exact ih (Nat.le_trans hFrom (episodes_act hNext)) (over_act hFrom hOver hNext) hRest

/-- The episode under way can do at most that many steps more. -/
def Budget (most : Nat) (w : World) : Prop :=
  ∀ ep, w.task = .recovering ep →
    ∃ n, ep.strategy.PatientFrom n ∧ ep.potential n w.now ≤ most

/-- Every step uses up some of the budget, and nothing adds to it. -/
theorem budget_act {w w' : World} {action : Action} {most : Nat} {ep : Episode}
    (hReach : Reachable w) (hTask : w.task = .recovering ep) (hBudget : w.Budget most)
    (hAct : w.act action = some w') :
    ∃ most', w'.Budget most' ∧ most' + [action].countP Action.isWork ≤ most := by
  obtain ⟨start, -, -, -, hTo⟩ := hReach.timed.current ep hTask
  obtain ⟨n, hPatient, hMost⟩ := hBudget ep hTask
  rcases act_cases hAct with ⟨rfl, written, hStride⟩ | ⟨millis, rfl, -, rfl⟩ |
    ⟨hWork, hBystander⟩
  · have hSome := ep.potential_pos n w.now
    refine ⟨most - 1, ?_, ?_⟩
    · intro ep' hTask'
      obtain ⟨n', hPatient', hLess⟩ := potential_stride hTask hTask' hTo hPatient hStride
      exact ⟨n', hPatient', by omega⟩
    · show most - 1 + 1 ≤ most
      omega
  · refine ⟨most, ?_, Nat.le_refl most⟩
    intro ep' hTask'
    have hSame : w.task = .recovering ep' := hTask'
    rw [hTask] at hSame
    cases hSame
    exact ⟨n, hPatient, Nat.le_trans (ep.potential_mono n (Nat.le_add_right w.now millis)) hMost⟩
  · refine ⟨most, ?_, ?_⟩
    · intro ep' hTask'
      have hSame := hBystander.recovering hTask'
      rw [hTask] at hSame
      cases hSame
      rw [hBystander.now]
      exact ⟨n, hPatient, hMost⟩
    · rw [countP_isWork hWork]
      exact Nat.le_refl most

/-- The task does only so many steps in one episode, whatever happens meanwhile. -/
theorem works_le {w w' : World} {actions : List Action} {most : Nat} (hReach : Reachable w)
    (hBudget : w.Budget most) (hRun : w.run actions = some w')
    (hIn : w'.InEpisode w.episodes) : actions.countP Action.isWork ≤ most := by
  induction actions generalizing w most with
  | nil => exact Nat.zero_le most
  | cons action actions ih =>
    obtain ⟨next, hNext, hRest⟩ := Option.bind_eq_some_iff.mp hRun
    by_cases hTask : ∃ ep, w.task = .recovering ep
    · obtain ⟨ep, hTask⟩ := hTask
      obtain ⟨most', hBudget', hUsed⟩ := budget_act hReach hTask hBudget hNext
      by_cases hStill : next.InEpisode w.episodes
      · rw [← hStill.1] at hIn
        have hRestUsed := ih (hReach.act hNext) hBudget' hRest hIn
        show ([action] ++ actions).countP Action.isWork ≤ most
        rw [List.countP_append]
        omega
      · exact absurd hIn (over_run (episodes_act hNext) hStill hRest)
    · exact absurd hIn (over_run (Nat.le_refl _) (fun hIn => hTask hIn.2) hRun)

/-- An episode on its way to its end, with what is left of it. -/
structure Nearing (number deadline most : Nat) (w : World) : Prop where
  reachable : Reachable w
  episodes : w.episodes = number
  now : w.now ≤ deadline
  left : ∀ ep, w.task = .recovering ep → ep.deadline = deadline ∧ ∃ n, ep.strategy.PatientFrom n ∧
    ep.potential n w.now + (deadline - w.now) + w.calls.length ≤ most

theorem Nearing.move {w : World} {number deadline most : Nat}
    (hNearing : w.Nearing number deadline most) (hTask : ∃ ep, w.task = .recovering ep) :
    ∃ action w' most', action.isInternal ∧ w.act action = some w' ∧
      w'.Nearing number deadline most' ∧ most' < most := by
  obtain ⟨ep, hTask⟩ := hTask
  have hReach := hNearing.reachable
  obtain ⟨hDeadline, n, hPatient, hLeft⟩ := hNearing.left ep hTask
  obtain ⟨start, -, -, -, hTo⟩ := hReach.timed.current ep hTask
  cases hStep : w.step with
  | some w' =>
    obtain ⟨written, hStride⟩ := stride_of_step hStep
    have hEpisodes := episodes_of_recovering hTask hStride
    have hCalls := calls_stride hStride
    have hNow := now_stride hStride
    have hAct : w.act .work = some w' := hStep
    have hSome := ep.potential_pos n w.now
    refine ⟨.work, w', most - 1, rfl, hAct, ?_, by omega⟩
    refine ⟨hReach.act hAct, hEpisodes.trans hNearing.episodes, ?_, ?_⟩
    · rw [hNow]
      exact hNearing.now
    · intro ep' hTask'
      obtain ⟨hSame, -⟩ := deadline_stride hTask hTask' hStride
      obtain ⟨n', hPatient', hLess⟩ := potential_stride hTask hTask' hTo hPatient hStride
      refine ⟨hSame.trans hDeadline, n', hPatient', ?_⟩
      rw [hCalls, hNow] at *
      omega
  | none =>
    rcases exists_move hReach.timed hStep with ⟨number', w', hAct, hCalls⟩ | hAct
    · -- a caller's resumption has no say in the episode
      have hBystander := bystander_finishResume hAct
      refine ⟨.finishResume number', w', most - 1, rfl, hAct, ?_, by omega⟩
      refine ⟨hReach.act hAct, hBystander.episodes.trans hNearing.episodes, ?_, ?_⟩
      · rw [hBystander.now]
        exact hNearing.now
      · intro ep' hTask'
        have hSame := hBystander.recovering hTask'
        rw [hTask] at hSame
        cases hSame
        refine ⟨hDeadline, n, hPatient, ?_⟩
        rw [hBystander.now]
        omega
    · have hMay := (mayReach_recovering hTask (elapse_eq hAct).1).2
      refine ⟨.elapse 1, _, most - 1, rfl, hAct, ?_, by omega⟩
      refine ⟨hReach.act hAct, hNearing.episodes, ?_, ?_⟩
      · show w.now + 1 ≤ deadline
        omega
      · intro ep' hTask'
        have hSame : w.task = .recovering ep' := hTask'
        rw [hTask] at hSame
        cases hSame
        have hMono := ep.potential_mono n (Nat.le_add_right w.now 1)
        refine ⟨hDeadline, n, hPatient, ?_⟩
        show ep.potential n (w.now + 1) + (deadline - (w.now + 1)) + w.calls.length ≤ most - 1
        omega

/-- Everything that is due in an episode comes to be done, and the episode to its end. -/
theorem exists_end {w : World} {ep : Episode} (hReach : Reachable w)
    (hTask : w.task = .recovering ep) (hPatient : ep.strategy.Patient) :
    ∃ actions w', (∀ action ∈ actions, action.isInternal) ∧ w.run actions = some w' ∧
      w'.episodes = w.episodes ∧ w'.now ≤ ep.deadline ∧ ∀ ep', w'.task ≠ .recovering ep' := by
  obtain ⟨n, hFrom⟩ := hPatient
  obtain ⟨start, -, -, -, hTo⟩ := hReach.timed.current ep hTask
  have hStart : w.Nearing w.episodes ep.deadline
      (ep.potential n w.now + (ep.deadline - w.now) + w.calls.length) := by
    refine ⟨hReach, rfl, hTo, ?_⟩
    intro ep' hTask'
    rw [hTask] at hTask'
    cases hTask'
    exact ⟨rfl, n, hFrom, Nat.le_refl _⟩
  obtain ⟨actions, w', hActions, hRun, ⟨most, hEnd⟩, hOver⟩ :=
    exists_run (fun m v => v.Nearing w.episodes ep.deadline m)
      (fun v => ¬ ∃ ep', v.task = .recovering ep')
      (fun hNearing hGoal => hNearing.move (Classical.not_not.mp hGoal)) hStart
  exact ⟨actions, w', hActions, hRun, hEnd.episodes, hEnd.now, fun ep' hEp => hOver ⟨ep', hEp⟩⟩

end World

-- ---------------------------------------------------------------------------
-- Every run
-- ---------------------------------------------------------------------------

/-- Every episode keeps within its time. Entries that are mere notices are left out, and the latest
entry comes first. -/
structure World.Timely (w : World) : Prop where
  /-- A duration of whole milliseconds is taken as it is. -/
  whole : w.config.duration.nanos % Duration.nanosPerMilli = 0 →
    w.span * Duration.nanosPerMilli = w.config.duration.nanos
  /-- No call is made after the deadline of its episode. -/
  calls : ∀ later e earlier, deeds w.journal = later ++ e :: earlier → e.isOwnCall →
    ∃ start, began earlier = some start ∧ start ≤ e.time ∧ e.time ≤ start + w.span
  /-- When everything due by its deadline is done, an episode has ended: it has come to its outcome
  or to an error that no attempt can mend, the session was dropped, or it was cut. -/
  ends : ∀ later b earlier, deeds w.journal = later ++ b :: earlier → b.event.isTaken →
    w.DoneBy (b.time + w.span) →
      ∃ after e between how, later = after ++ e :: between ∧
        (∀ x ∈ between, x.event.isTurn = false) ∧ e.event = .ended how ∧
        b.time ≤ e.time ∧ e.time ≤ b.time + w.span
  /-- An episode ends only once. -/
  once : ∀ later e earlier, deeds w.journal = later ++ e :: earlier → e.event.isEnding →
    Open earlier
  /-- A cut comes at the deadline. The connection is disposed at that moment, unless it is disposed
  already, the task is over, and no ERROR frame has been sent or will be. -/
  cut : ∀ later e earlier, deeds w.journal = later ++ e :: earlier → e.event.isCut →
    (∃ start, began earlier = some start ∧ e.time = start + w.span) ∧ w.task = .ended ∧
      (∃ after, later = after ++ aftermath e.time earlier ∧ ∀ x ∈ after, x.actor ≠ .task) ∧
      ∀ x ∈ later ++ latest earlier, x.isOwnFailure = false
  /-- What is due is done, at the deadline as well. Only an episode that has to wait at its deadline
  is cut, and it has to wait only for what is not there yet. -/
  ties : ∀ ep, w.task = .recovering ep →
    (∃ start, began (deeds w.journal) = some start ∧ ep.deadline = start + w.span) ∧
      w.now ≤ ep.deadline ∧
      w.step =
        (w.proceed ep).or (if w.now = ep.deadline then some (w.giveUp ep .cut) else none) ∧
      (w.proceed ep = none ↔
        ep.stage.waits ∧ ∀ due, ep.stage.time? = some due → w.now < due)
  /-- There is only so much to be done in an episode. -/
  bounded : ∀ ep, w.task = .recovering ep → ∃ most, ∀ actions w', w.run actions = some w' →
    w'.InEpisode w.episodes → actions.countP Action.isWork ≤ most
  /-- The episode can always come to its end, with nobody else doing anything. -/
  finishes : ∀ ep, w.task = .recovering ep → ∃ actions w',
    (∀ action ∈ actions, action.isInternal) ∧ w.run actions = some w' ∧
      w'.episodes = w.episodes ∧ w'.now ≤ ep.deadline ∧ ∀ ep', w'.task ≠ .recovering ep'

namespace World

theorem whole_span {w : World} (hWhole : w.config.duration.nanos % Duration.nanosPerMilli = 0) :
    w.span * Duration.nanosPerMilli = w.config.duration.nanos := by
  unfold span Duration.ceilMillis
  unfold Duration.nanosPerMilli at *
  omega

theorem cut_of_reachable {w : World} {later earlier : List Entry} {e : Entry} (hReach : Reachable w)
    (hSplit : deeds w.journal = later ++ e :: earlier) (hCut : e.event.isCut) :
    (∃ start, began earlier = some start ∧ e.time = start + w.span) ∧ w.task = .ended ∧
      (∃ after, later = after ++ aftermath e.time earlier ∧ ∀ x ∈ after, x.actor ≠ .task) ∧
      ∀ x ∈ later ++ latest earlier, x.isOwnFailure = false := by
  have hPunctual := hReach.timed.punctual later e earlier hSplit
  obtain ⟨start, hStart, -, -⟩ := hPunctual.time (.inr (Event.isEnding_of_isCut hCut))
  obtain ⟨hTask, -, after, rfl, hAfter⟩ := hReach.final later e earlier hSplit hCut
  refine ⟨⟨start, hStart, hPunctual.cut hCut start hStart⟩, hTask, ⟨after, rfl, hAfter⟩, ?_⟩
  intro x hMem
  rcases List.mem_append.mp hMem with hMem | hMem
  · rcases List.mem_append.mp hMem with hMem | hMem
    · exact isOwnFailure_of_actor (hAfter x hMem)
    · unfold aftermath at hMem
      cases hSpent : isSpent earlier <;> simp [hSpent] at hMem
      · rcases hMem with rfl | rfl <;> rfl
      · rw [hMem]
        rfl
  · exact hPunctual.silent hCut x hMem

end World

/-- In every run whose strategies are patient, every episode keeps within its time. -/
theorem timely_of_reachable {w : World} (hReach : Reachable w)
    (hPatient : ∀ number, (w.config.strategy number).Patient) : w.Timely := by
  have hTimed := hReach.timed
  constructor
  · exact World.whole_span
  · intro later e earlier hSplit hCall
    exact (hTimed.punctual later e earlier hSplit).time (.inl hCall)
  · intro later b earlier hSplit hTaken hDone
    exact World.ended_of_doneBy hReach hSplit hTaken hDone
  · intro later e earlier hSplit hEnding
    exact (hReach.traced.proper later e earlier hSplit).within (.inr hEnding)
  · intro later e earlier hSplit hCut
    exact World.cut_of_reachable hReach hSplit hCut
  · intro ep hTask
    obtain ⟨start, hBegan, hDeadline, -, hTo⟩ := hTimed.current ep hTask
    exact ⟨⟨start, hBegan, hDeadline⟩, hTo, hTimed.step_eq hTask, World.proceed_eq_none⟩
  · intro ep hTask
    obtain ⟨n, hFrom⟩ := hReach.patient hPatient hTask
    have hBudget : w.Budget (ep.potential n w.now) := by
      intro ep' hTask'
      rw [hTask] at hTask'
      cases hTask'
      exact ⟨n, hFrom, Nat.le_refl _⟩
    exact ⟨_, fun actions w' hRun hIn => World.works_le hReach hBudget hRun hIn⟩
  · intro ep hTask
    exact World.exists_end hReach hTask (hReach.patient hPatient hTask)

theorem after_periodic (period : Duration) (n : Nat) :
    (Strategy.periodic period).after n = .periodic period := by
  induction n with
  | zero => rfl
  | succ n ih => exact ih

theorem patient_periodic {period : Duration} (hPeriod : period.ceilMillis ≠ 0) :
    (Strategy.periodic period).Patient := by
  refine ⟨0, fun m _ => ?_⟩
  unfold Strategy.advice
  rw [after_periodic]
  simpa [Strategy.consult, Reply.isHasty] using hPeriod

/-- A session with two seconds for an episode, which waits one before every attempt. -/
def World.steady : World :=
  .initial ⟨.ofSeconds 2, fun _ => .periodic (.ofSeconds 1)⟩ [⟨#[1]⟩] [] []

theorem reachable_steady {w : World} {actions : List Action}
    (hRun : World.steady.run actions = some w) : Reachable w :=
  ⟨_, _, _, _, actions, hRun⟩

theorem patient_steady {w : World} {actions : List Action}
    (hRun : World.steady.run actions = some w) (number : Nat) :
    (w.config.strategy number).Patient := by
  rw [World.config_run hRun]
  exact patient_periodic (by decide)

/-- Nobody has a connection. The second attempt is due exactly at the deadline. -/
def World.tying : List Action :=
  [.bind 0, .fail .closed, .work, .work, .work, .elapse 1000, .work, .work, .work, .elapse 1000,
    .work, .work, .work, .work]

theorem timely_of_reachable_tying :
    ∃ w, World.steady.run World.tying = some w ∧ w.now = 2000 ∧
      (∀ number, (w.config.strategy number).Patient) ∧
      (w.journal.filter fun e => e.event.isCut).map Entry.time = [2000] ∧ w.Timely := by
  have hFacts : (World.steady.run World.tying).map (fun w =>
      (w.now, (w.journal.filter fun e => e.event.isCut).map Entry.time)) =
        some (2000, [2000]) := by
    decide +kernel
  obtain ⟨w, hRun, hFacts⟩ := Option.map_eq_some_iff.mp hFacts
  obtain ⟨hNow, hCut⟩ := Prod.mk.inj hFacts
  have hReach := reachable_steady hRun
  have hPatient := patient_steady hRun
  exact ⟨w, hRun, hNow, hPatient, hCut, timely_of_reachable hReach hPatient⟩

end Resumption
