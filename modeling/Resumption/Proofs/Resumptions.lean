import Resumption.Proofs.Failures
import Resumption.Proofs.Outcomes
import Resumption.Session.Scenario

/-!
# One resumption from its frame to its outcome

A resumption begins with a frame and ends with an outcome; between the two anything may happen to
the session. A frame that cannot be read ends it at once. Otherwise the position is handed to the
resumable connection, once, and its reply alone settles the rest: nothing more is done if the
position was taken, and if it was not, the peer is told so in one ERROR frame and the connection is
disposed, whether or not that frame could be sent.

* `Explains` — an ERROR frame names the position; `explains_rejection` — it can be read
* `Settles` — what the outcome step writes down; `settles_finishReconciling` — whoever takes it
* `renumbered` — where a resumption stands among those under way after a course of events
* `resumes_of_open` — every frame that a caller hands over, and every frame that an episode hears
-/

namespace Resumption

-- ---------------------------------------------------------------------------
-- The frame that names the position
-- ---------------------------------------------------------------------------

/-- Whoever reads the frame learns that the connection is given up for the sake of that position,
which is spelled out in decimal digits. -/
def Explains (position : UInt64) (frame : ByteArray) : Prop :=
  ∀ c : Cursor, c.Sees frame →
    Failure.Tells 0 .connectionError
      ("resumption_server_pos=[" ++ String.ofList (Nat.toDigits 10 position.toNat) ++ "]") c

theorem explains_rejection (position : UInt64) : Explains position (World.rejection position) :=
  fun _ hSees => Failure.tells_encode hSees

/-- What the outcome step writes down, latest first. Errors that the connection raises meanwhile
come first in time. -/
inductive Settles (actor : Actor) (work : Reconciling) (w : World) : Outcome → List Entry → Prop
  | resumed (hReply : work.reply.error = none) :
      Settles actor work w .resumed
        (⟨w.now, actor, .reconciled none⟩ :: w.raised work.reply.raises)
  | rejected {error frame} (hReply : work.reply.error = some error)
      (hFrame : Explains work.position frame) :
      Settles actor work w .rejected
        (w.disposal actor ++ ⟨w.now, actor, .sent frame w.sendsFail w.pool.counts⟩ ::
          ⟨w.now, actor, .reconciled (some error)⟩ :: w.raised work.reply.raises)

/-- What is written down does not depend on the resumptions under way. -/
theorem Settles.of_calls {actor : Actor} {work : Reconciling} {w : World} {outcome : Outcome}
    {written : List Entry} {calls : List Reconciling}
    (hSettles : Settles actor work { w with calls } outcome written) :
    Settles actor work w outcome written := by
  cases hSettles with
  | resumed hReply => exact .resumed hReply
  | rejected hReply hFrame => exact .rejected hReply hFrame

namespace World

section

attribute [local simp] raised arrived disposal taking listens Event.isNotice

/-- Whoever takes the outcome step, it does this much and no more. -/
theorem settles_finishReconciling (actor : Actor) (work : Reconciling) (w : World) :
    ∃ written, Settles actor work w work.outcome written ∧
      deeds (w.finishReconciling actor work).2.journal = written ++ deeds w.journal := by
  unfold Reconciling.outcome
  cases hReply : work.reply.error with
  | none =>
    refine ⟨_, .resumed hReply, ?_⟩
    simp [finishReconciling, hReply]
  | some error =>
    refine ⟨_, .rejected hReply (explains_rejection work.position), ?_⟩
    by_cases hDisposed : w.disposed <;> simp [finishReconciling, hReply, hDisposed]

end

end World

-- ---------------------------------------------------------------------------
-- Resumptions under way
-- ---------------------------------------------------------------------------

/-- The number of a resumption after an action, or `none` where the action ends it. -/
def Action.renumbers : Action → Nat → Option Nat
  | .finishResume ended, number =>
    if ended = number then none
    else if ended < number then some (number - 1)
    else some number
  | _, number => some number

/-- The number of a resumption after a course of events that does not end it. -/
def renumbered (actions : List Action) (number : Nat) : Option Nat :=
  actions.foldlM (fun number action => action.renumbers number) number

namespace World

/-- A resumption under way stays in its place until one is ended. -/
theorem prefix_calls {w w' : World} {action : Action}
    (hOther : ∀ number, action ≠ .finishResume number) (hAct : w.act action = some w') :
    w.calls <+: w'.calls := by
  cases action with
  | finishResume number => exact absurd rfl (hOther number)
  | work =>
    obtain ⟨written, hStride⟩ := stride_of_step hAct
    exact calls_stride hStride ▸ List.prefix_refl _
  | beginResume frame =>
    unfold act World.beginResume at hAct
    cases hDecode : ResumeOk.position frame with
    | error cause cursor =>
      simp only [hDecode] at hAct
      obtain ⟨-, rfl⟩ := of_whileOpen hAct
      exact List.prefix_refl _
    | ok position cursor =>
      simp only [hDecode] at hAct
      obtain ⟨-, rfl⟩ := of_whileOpen hAct
      exact List.prefix_append _ _
  | elapse millis =>
    obtain ⟨-, rfl⟩ := elapse_eq hAct
    exact List.prefix_refl _
  | fail error =>
    cases hAct
    simp
  | bind token =>
    simp only [act] at hAct
    split at hAct
    case isTrue =>
      obtain ⟨-, rfl⟩ := of_whileOpen hAct
      simp [World.bind]
    case isFalse => cases hAct
  | reconnect label =>
    obtain ⟨-, rfl⟩ := of_whileOpen hAct
    simp
  | hold =>
    obtain ⟨-, rfl⟩ := of_whileOpen hAct
    cases hBound : w.bound <;> simp [World.hold, hBound]
  | drop =>
    simp only [act] at hAct
    split at hAct
    case isFalse => cases hAct
    case isTrue =>
      obtain ⟨-, rfl⟩ := of_whileOpen hAct
      cases hTask : w.task <;> simp [World.drop, hTask]
  | setSupplier supplier | observe observer | subscribe =>
    obtain ⟨-, rfl⟩ := of_whileOpen hAct
    exact List.prefix_refl _
  | closeErrors | setPositions implied position | setSendsFail sendsFail
  | addReconciliation reconciliation | releaseHeld | poll =>
    cases hAct
    exact List.prefix_refl _

/-- Only callers who ask for a resumption add to those under way; only its end takes one away. -/
theorem calls_act {w w' : World} {action : Action} (hAct : w.act action = some w') :
    (∃ number, action = .finishResume number ∧ w'.calls = w.calls.eraseIdx number) ∨
      (∀ number, action ≠ .finishResume number) ∧ w.calls <+: w'.calls := by
  by_cases hEnds : ∃ number, action = .finishResume number
  · obtain ⟨number, rfl⟩ := hEnds
    obtain ⟨⟨outcome, v⟩, hFinish, rfl⟩ := Option.map_eq_some_iff.mp hAct
    obtain ⟨work, hWork, hDue⟩ := of_finishResume hFinish
    rw [finishResume_eq hWork hDue] at hFinish
    cases hFinish
    refine .inl ⟨number, rfl, ?_⟩
    unfold finishReconciling
    cases work.reply.error <;> simp
  · have hOther : ∀ number, action ≠ .finishResume number :=
      fun number hSame => hEnds ⟨number, hSame⟩
    exact .inr ⟨hOther, prefix_calls hOther hAct⟩

/-- A resumption that is not ended stays as it is. -/
theorem getElem?_calls_act {w w' : World} {action : Action} {number number' : Nat}
    (hAct : w.act action = some w') (hNumber : action.renumbers number = some number')
    {work : Reconciling} (hWork : w.calls[number]? = some work) :
    w'.calls[number']? = some work := by
  rcases calls_act hAct with ⟨ended, rfl, hCalls⟩ | ⟨hOther, hCalls⟩
  · rw [hCalls, List.getElem?_eraseIdx]
    simp only [Action.renumbers] at hNumber
    split at hNumber
    case isTrue => cases hNumber
    case isFalse hNe =>
      split at hNumber <;> cases hNumber
      case isTrue hBefore =>
        rw [if_neg (by omega), Nat.sub_add_cancel (by omega)]
        exact hWork
      case isFalse hBehind =>
        rw [if_pos (by omega)]
        exact hWork
  · have hSame : number' = number := by
      cases action with
      | finishResume ended => exact absurd rfl (hOther ended)
      | _ => exact (Option.some.inj hNumber).symm
    rw [hSame]
    obtain ⟨more, hMore⟩ := hCalls
    rw [← hMore, List.getElem?_append_left (List.getElem?_eq_some_iff.mp hWork).1]
    exact hWork

theorem getElem?_calls_run {w w' : World} {actions : List Action} {number number' : Nat}
    (hRun : w.run actions = some w') (hNumber : renumbered actions number = some number')
    {work : Reconciling} (hWork : w.calls[number]? = some work) :
    w'.calls[number']? = some work := by
  induction actions generalizing w number with
  | nil =>
    cases hRun
    cases hNumber
    exact hWork
  | cons action actions ih =>
    obtain ⟨next, hAct, hRest⟩ := Option.bind_eq_some_iff.mp hRun
    obtain ⟨moved, hMoved, hNumber⟩ := Option.bind_eq_some_iff.mp hNumber
    exact ih hRest hNumber (getElem?_calls_act hAct hMoved hWork)

-- ---------------------------------------------------------------------------
-- A caller's resumption
-- ---------------------------------------------------------------------------

section

variable {w : World} {frame : Cursor} {position : UInt64} {cause : DecodeError} {c : Cursor}

/-- A frame that cannot be read is returned, and nothing else happens. -/
theorem act_of_unreadable (hOpen : w.isOpen = true)
    (hDecode : ResumeOk.position frame = .error cause c) :
    w.act (.beginResume frame) =
      some { w with journal := w.guest (.returned (.error cause)) :: w.journal } := by
  simp only [act, World.beginResume, hDecode]
  exact if_pos hOpen

/-- The resumption that a caller's frame begins, and the session once it has begun. -/
def taken (position : UInt64) (w : World) : Reconciling × World :=
  let work := (w.beginReconciling .caller position).1
  (work, { w with
    reconciliations := w.reconciliations.tail
    calls := w.calls ++ [work]
    journal := w.guest (.reconciling (-1) position) :: w.journal })

theorem beginResume_of_readable (hDecode : ResumeOk.position frame = .ok position c) :
    w.beginResume frame = .ok (w.taken position).2 := by
  simp only [World.beginResume, hDecode]
  rfl

theorem act_of_readable (hOpen : w.isOpen = true)
    (hDecode : ResumeOk.position frame = .ok position c) :
    w.act (.beginResume frame) = some (w.taken position).2 := by
  simp only [act, beginResume_of_readable hDecode]
  exact if_pos hOpen

end

/-- A resumption under way, and what its end comes to. -/
structure Finishes (w : World) (number : Nat) (work : Reconciling) : Prop where
  underWay : w.calls[number]? = some work
  /-- It can be brought to its end as soon as it is due. -/
  settled : work.due ≤ w.now → ∃ w' written, w.act (.finishResume number) = some w' ∧
    Settles .caller work w work.outcome written ∧
      deeds w'.journal =
        w.guest (.returned (.ok work.outcome)) :: (written ++ deeds w.journal)

theorem finishes_of_underWay {w : World} {number : Nat} {work : Reconciling}
    (hWork : w.calls[number]? = some work) : w.Finishes number work := by
  refine ⟨hWork, fun hDue => ?_⟩
  let called : World := { w with calls := w.calls.eraseIdx number }
  obtain ⟨written, hSettles, hDeeds⟩ := settles_finishReconciling .caller work called
  have hNow : (called.finishReconciling .caller work).2.now = w.now := by
    unfold finishReconciling
    cases work.reply.error <;> simp [called]
  refine ⟨_, written, congrArg (Option.map Prod.snd) (finishResume_eq hWork hDue),
    hSettles.of_calls, ?_⟩
  rw [record, hNow, deeds_cons, hDeeds]
  rfl

/-- Letting time pass ends no resumption. -/
theorem calls_settle {w w' : World} {time fuel : Nat} (hSettle : w.settle time fuel = some w') :
    w'.calls = w.calls := by
  induction fuel generalizing w with
  | zero => cases hSettle
  | succ fuel ih =>
    unfold settle at hSettle
    split at hSettle
    case h_1 next hStep =>
      obtain ⟨written, hStride⟩ := stride_of_step hStep
      rw [ih hSettle, calls_stride hStride]
    case h_2 =>
      split at hSettle
      case h_1 =>
        split at hSettle
        case isTrue =>
          have hRest := ih hSettle
          exact hRest
        case isFalse =>
          cases hSettle
          rfl
      case h_2 =>
        cases hSettle
        rfl

/-- The resumption begun last can be brought to its end when its time has come. -/
theorem finishResume_last {w : World} {calls : List Reconciling} {work : Reconciling}
    (hCalls : w.calls = calls ++ [work]) :
    ∃ w', { w with now := max w.now work.due }.finishResume (w.calls.length - 1) =
      some (work.outcome, w') := by
  have hWork : w.calls[w.calls.length - 1]? = some work := by
    rw [hCalls]
    simp
  exact ⟨_, finishResume_eq (w := { w with now := max w.now work.due }) hWork
    (Nat.le_max_right _ _)⟩

/-- A caller who waits for a resumption has the session to wait for, and nothing else. -/
theorem resume_of_readable {w : World} {frame : Cursor} {position : UInt64} {c : Cursor}
    (hDecode : ResumeOk.position frame = .ok position c) (fuel : Nat) :
    (Scenario.resume fuel frame w).map Prod.fst =
      (if (w.taken position).1.due ≤ w.now then some (w.taken position).2
        else (w.taken position).2.settle ((w.taken position).1.due - 1) fuel).map
        fun _ => .outcome (w.taken position).1.outcome := by
  obtain ⟨work, begun, hTaken⟩ : ∃ work begun, w.taken position = (work, begun) := ⟨_, _, rfl⟩
  have hCalls : begun.calls = w.calls ++ [work] := by
    cases hTaken
    rfl
  have hNow : begun.now = w.now := by
    cases hTaken
    rfl
  have hLast : begun.calls.getLast? = some work := by
    rw [hCalls, List.getLast?_concat]
  unfold Scenario.resume
  rw [beginResume_of_readable hDecode, hTaken]
  simp only [hLast, hNow, Option.bind_eq_bind, Option.bind_some]
  split
  case isTrue hDue =>
    obtain ⟨v', hFinish⟩ := finishResume_last hCalls
    rw [hNow] at hFinish
    rw [hFinish]
    rfl
  case isFalse =>
    cases hSettle : begun.settle (work.due - 1) fuel with
    | none => rfl
    | some v =>
      obtain ⟨v', hFinish⟩ := finishResume_last ((calls_settle hSettle).trans hCalls)
      rw [Option.bind_some, hFinish]
      rfl

-- ---------------------------------------------------------------------------
-- The resumption that is part of an episode
-- ---------------------------------------------------------------------------

theorem step_of_heard {w : World} {ep : Episode} {pending : Pending (Option ByteArray)}
    {answer : Option ByteArray} (hTask : w.task = .recovering ep)
    (hStage : ep.stage = .listening pending) (hReady : pending.ready? w.now = some answer) :
    w.step = some (w.hear ep answer) := by
  refine step_of_proceed hTask ?_
  rw [proceed, hStage]
  exact congrArg (Option.map _) hReady

/-- What an episode writes down when the resumption is over, latest first. -/
def closing (outcome : Outcome) (w : World) : List Entry :=
  match outcome with
  | .resumed => [w.own (.ended .resumed)]
  | .rejected => [w.own .stopped, w.own (.ended .rejected)]

/-- The outcome step is all that an episode does before it is over. -/
theorem deeds_conclude (ep : Episode) (work : Reconciling) (w : World) :
    deeds (w.conclude ep work).journal =
      w.closing work.outcome ++ deeds (w.finishReconciling .task work).2.journal := by
  unfold conclude Reconciling.outcome
  cases hReply : work.reply.error with
  | none => simp [finishReconciling, hReply, closing, own, Event.isNotice]
  | some error => simp [finishReconciling, hReply, closing, own, Event.isNotice]

end World

-- ---------------------------------------------------------------------------
-- Every resumption
-- ---------------------------------------------------------------------------

/-- What becomes of a frame that a caller hands over. -/
structure World.Resumes (w : World) (frame : Cursor) : Prop where
  /-- A frame that cannot be read is returned with what is wrong with it, and that is all. -/
  unreadable : ∀ cause c, ResumeOk.position frame = .error cause c →
    w.act (.beginResume frame) =
        some { w with journal := w.guest (.returned (.error cause)) :: w.journal } ∧
      ∀ fuel, Scenario.resume fuel frame w = some (.failed (.decode cause), w)
  /-- The position of any other is handed to the connection, once. The resumption then comes to its
  end with what the connection replied, whatever happens meanwhile. -/
  readable : ∀ position c, ResumeOk.position frame = .ok position c →
    ∃ work begun, work.position = position ∧ work.reply = w.reconciliations.headD .success ∧
      w.act (.beginResume frame) = some begun ∧
      begun = { w with
        reconciliations := w.reconciliations.tail
        calls := w.calls ++ [work]
        journal := w.guest (.reconciling (-1) position) :: w.journal } ∧
      (∀ actions v number, begun.run actions = some v →
        renumbered actions w.calls.length = some number → v.Finishes number work) ∧
      ∀ fuel, (Scenario.resume fuel frame w).map Prod.fst =
        (if work.due ≤ w.now then some begun else begun.settle (work.due - 1) fuel).map
          fun _ => .outcome work.outcome

/-- What becomes of a frame that an episode hears. -/
structure World.ResumesOwn (w : World) (ep : Episode) : Prop where
  /-- A frame that cannot be read is what ends the attempt. -/
  unreadable : ∀ pending frame cause c, ep.stage = .listening pending →
    pending.ready? w.now = some (some frame) → ResumeOk.position (.start frame) = .error cause c →
      ∃ w', w.step = some w' ∧
        w'.task = .recovering { ep with stage := .consulting (.decode cause) } ∧
          deeds w'.journal = w.own (.heard (some frame)) :: deeds w.journal
  readable : ∀ pending frame position c, ep.stage = .listening pending →
    pending.ready? w.now = some (some frame) → ResumeOk.position (.start frame) = .ok position c →
      ∃ work w', work.position = position ∧ work.reply = w.reconciliations.headD .success ∧
        w.step = some w' ∧ w'.task = .recovering { ep with stage := .reconciling work } ∧
          deeds w'.journal = w.own (.reconciling (-1) position) ::
            w.own (.heard (some frame)) :: deeds w.journal
  /-- The outcome ends the episode. -/
  settled : ∀ work, ep.stage = .reconciling work → work.due ≤ w.now →
    ∃ w' written, w.step = some w' ∧ Settles .task work w work.outcome written ∧
      deeds w'.journal = w.closing work.outcome ++ (written ++ deeds w.journal)

/-- Every frame that is handed over by a caller or heard by an episode is dealt with alike: it is
refused for what is wrong with it, or its position is handed to the connection, whose reply alone
settles the outcome. -/
theorem resumes_of_open {w : World} (hOpen : w.isOpen = true) :
    (∀ frame, w.Resumes frame) ∧ ∀ ep, w.task = .recovering ep → w.ResumesOwn ep := by
  refine ⟨fun frame => ⟨?_, ?_⟩, fun ep hTask => ⟨?_, ?_, ?_⟩⟩
  · intro cause c hDecode
    refine ⟨World.act_of_unreadable hOpen hDecode, fun fuel => ?_⟩
    simp only [Scenario.resume, World.beginResume, hDecode]
  · intro position c hDecode
    refine ⟨(w.taken position).1, (w.taken position).2, rfl, rfl,
      World.act_of_readable hOpen hDecode, rfl, ?_, World.resume_of_readable hDecode⟩
    intro actions v number hRun hNumber
    have hWork : (w.taken position).2.calls[w.calls.length]? = some (w.taken position).1 :=
      List.getElem?_concat_length
    exact World.finishes_of_underWay (World.getElem?_calls_run hRun hNumber hWork)
  · intro pending frame cause c hStage hReady hDecode
    refine ⟨_, World.step_of_heard hTask hStage hReady, ?_, ?_⟩
    · simp [World.hear, hDecode, World.retry, RecoveryError.isRetryable]
    · simp [World.hear, hDecode, World.retry, RecoveryError.isRetryable, World.own, Event.isNotice]
  · intro pending frame position c hStage hReady hDecode
    refine ⟨(w.beginReconciling .task position).1, _, rfl, rfl,
      World.step_of_heard hTask hStage hReady, ?_, ?_⟩
    · simp [World.hear, hDecode, World.beginReconciling]
    · simp [World.hear, hDecode, World.beginReconciling, World.own, Event.isNotice,
        World.unknownPosition]
  · intro work hStage hDue
    obtain ⟨written, hSettles, hDeeds⟩ := World.settles_finishReconciling .task work w
    refine ⟨_, written, World.step_of_reconciling hTask hStage hDue, hSettles, ?_⟩
    rw [World.deeds_conclude, hDeeds]

/-- A session whose connection will not take the position, with sends that fail. -/
def World.unheeded : World :=
  { World.sample with
    sendsFail := true
    reconciliations := [⟨0, 0, some (.rejected "no")⟩] }

theorem resumes_of_open_unheeded :
    World.unheeded.isOpen = true ∧
      (∃ c, ResumeOk.position (.start World.sampleOk) = .ok 7 c) ∧
      ((World.unheeded.run [.beginResume (.start World.sampleOk), .finishResume 0]).map
        fun w => (w.disposed, w.calls.length)) = some (true, 0) ∧
      World.unheeded.Resumes (.start World.sampleOk) := by
  have hOpen : World.unheeded.isOpen = true := rfl
  exact ⟨hOpen, ⟨_, rfl⟩, by decide +kernel, (resumes_of_open hOpen).1 _⟩

end Resumption
