import Resumption.Proofs.Holders

/-!
# The deadline of an episode

An episode has so much time and no more: whatever it calls, it calls by its deadline, and at its
deadline it is over. What can still be done at the deadline itself is done; only an episode that
would have to wait there is cut, which disposes the connection at that very moment and ends the
task.

* `began` — when the latest episode began, as the journal tells it
* `act_cases` — a step, time passing, or the doing of others
* `Punctual` — what an entry says about the time of its episode
* `World.Timed` — the journal keeps the time, and so does the episode under way
* `Aftermath` — what comes after a cut
-/

namespace Resumption

-- ---------------------------------------------------------------------------
-- The time of an episode
-- ---------------------------------------------------------------------------

def Event.isTaken : Event → Bool
  | .taken _ => true
  | _ => false

/-- Whether an episode was cut at its deadline. -/
def Event.isCut : Event → Bool
  | .ended .cut => true
  | _ => false

/-- An ERROR frame sent by the task. -/
def Entry.isOwnFailure (e : Entry) : Bool :=
  match e.event with
  | .sent frame _ _ => e.actor = .task && isFailure frame
  | _ => false

theorem isOwnFailure_of_actor {e : Entry} (hActor : e.actor ≠ .task) :
    e.isOwnFailure = false := by
  unfold Entry.isOwnFailure
  split
  · simp [hActor]
  · rfl

/-- When the latest episode began. -/
def began (journal : List Entry) : Option Nat :=
  (journal.find? fun e => e.event.isTaken).map Entry.time

/-- What was written down since the latest episode began. -/
def latest (journal : List Entry) : List Entry :=
  journal.takeWhile fun e => !e.event.isTaken

theorem began_cons (e : Entry) (journal : List Entry) :
    began (e :: journal) = if e.event.isTaken then some e.time else began journal := by
  unfold began
  rw [List.find?_cons]
  cases e.event.isTaken <;> rfl

theorem latest_cons (e : Entry) (journal : List Entry) :
    latest (e :: journal) = if e.event.isTaken then [] else e :: latest journal := by
  unfold latest
  rw [List.takeWhile_cons]
  cases e.event.isTaken <;> rfl

theorem began_append {later : List Entry} (journal : List Entry)
    (hTaken : ∀ e ∈ later, e.event.isTaken = false) : began (later ++ journal) = began journal := by
  induction later with
  | nil => rfl
  | cons e later ih =>
    rw [List.cons_append, began_cons, hTaken e List.mem_cons_self, if_neg Bool.false_ne_true]
    exact ih fun e' he' => hTaken e' (List.mem_cons_of_mem e he')

theorem latest_append {later : List Entry} (journal : List Entry)
    (hTaken : ∀ e ∈ later, e.event.isTaken = false) :
    latest (later ++ journal) = later ++ latest journal := by
  induction later with
  | nil => rfl
  | cons e later ih =>
    rw [List.cons_append, latest_cons, hTaken e List.mem_cons_self, if_neg Bool.false_ne_true,
      ih fun e' he' => hTaken e' (List.mem_cons_of_mem e he')]
    rfl

/-- What an entry says about its episode, which has that much time. -/
structure Punctual (span : Nat) (e : Entry) (past : List Entry) : Prop where
  /-- Calls are made, and episodes end, in the time of the episode. -/
  time : e.isOwnCall ∨ e.event.isEnding →
    ∃ start, began past = some start ∧ start ≤ e.time ∧ e.time ≤ start + span
  /-- Only the deadline itself cuts an episode. -/
  cut : e.event.isCut → ∀ start, began past = some start → e.time = start + span
  /-- The episode that was cut has sent no ERROR frame. -/
  silent : e.event.isCut → ∀ x ∈ latest past, x.isOwnFailure = false
  /-- No episode begins within another one. -/
  taken : e.event.isTaken → ¬ Open past

theorem Event.isEnding_of_isCut {event : Event} (hCut : event.isCut) : event.isEnding := by
  unfold isCut at hCut
  split at hCut
  · rfl
  · cases hCut

theorem Event.plain_of_isTurn {event : Event} (hTurn : event.isTurn = false) :
    event.isEnding = false ∧ event.isCut = false ∧ event.isTaken = false := by
  cases event <;> first | exact ⟨rfl, rfl, rfl⟩ | cases hTurn

/-- What is neither a call of the task nor a turn says nothing about the time. -/
theorem punctual_plain {span : Nat} {later journal : List Entry}
    (hPlain : ∀ e ∈ later, e.isOwnCall = false ∧ e.event.isTurn = false)
    (hAlways : Always (Punctual span) journal) : Always (Punctual span) (later ++ journal) := by
  induction later with
  | nil => exact hAlways
  | cons e later ih =>
    obtain ⟨hCall, hTurn⟩ := hPlain e List.mem_cons_self
    obtain ⟨hEnding, hCut, hTaken⟩ := Event.plain_of_isTurn hTurn
    refine always_cons ?_ (ih fun e' he' => hPlain e' (List.mem_cons_of_mem e he'))
    constructor
    · intro h
      rw [hCall, hEnding] at h
      simp at h
    · intro h
      rw [hCut] at h
      cases h
    · intro h
      rw [hCut] at h
      cases h
    · intro h
      rw [hTaken] at h
      cases h

/-- What is written down in the time of an episode. -/
theorem punctual_append {span start now : Nat} {later journal : List Entry}
    (hBegan : began journal = some start) (hFrom : start ≤ now) (hTo : now ≤ start + span)
    (hTime : ∀ e ∈ later, e.time = now)
    (hKind : ∀ e ∈ later, e.event.isTaken = false ∧ e.event.isCut = false)
    (hAlways : Always (Punctual span) journal) : Always (Punctual span) (later ++ journal) := by
  induction later with
  | nil => exact hAlways
  | cons e later ih =>
    obtain ⟨hTaken, hCut⟩ := hKind e List.mem_cons_self
    have hRest : ∀ e' ∈ later, e'.event.isTaken = false := fun e' he' =>
      (hKind e' (List.mem_cons_of_mem e he')).1
    refine always_cons ?_ (ih (fun e' he' => hTime e' (List.mem_cons_of_mem e he'))
      fun e' he' => hKind e' (List.mem_cons_of_mem e he'))
    constructor
    · intro _
      refine ⟨start, (began_append journal hRest).trans hBegan, ?_⟩
      rw [hTime e List.mem_cons_self]
      exact ⟨hFrom, hTo⟩
    · intro h
      rw [hCut] at h
      cases h
    · intro h
      rw [hCut] at h
      cases h
    · intro h
      rw [hTaken] at h
      cases h

namespace World

-- ---------------------------------------------------------------------------
-- Steps, time, and others
-- ---------------------------------------------------------------------------

/-- How long an episode may take, in milliseconds. -/
def span (w : World) : Nat :=
  w.config.duration.ceilMillis

theorem span_change {w w' : World} {action : Action} {written : List Entry}
    (hChange : Change w action written w') : w'.span = w.span := by
  unfold span
  rw [config_change hChange]

/-- Something that somebody else than the task does, in no time. -/
structure Bystander (w w' : World) : Prop where
  now : w'.now = w.now
  episodes : w'.episodes = w.episodes
  /-- The task is left alone or cancelled. -/
  task : w'.task = w.task ∨ w'.task = .ended
  /-- A stream that was closed takes no errors. -/
  deaf : w.errorsClosed → w'.errorsClosed ∧ w'.errors = w.errors

theorem bystander_accept (errors : List LinkError) (w : World) :
    Bystander w (w.accept errors) := by
  rw [accept_eq]
  refine ⟨rfl, rfl, .inl rfl, fun hClosed => ⟨hClosed, ?_⟩⟩
  simp [taking, listens, hClosed]

theorem Bystander.same {w w' : World} (hNow : w'.now = w.now) (hEpisodes : w'.episodes = w.episodes)
    (hTask : w'.task = w.task) (hClosed : w.errorsClosed → w'.errorsClosed)
    (hErrors : w'.errors = w.errors) : Bystander w w' :=
  ⟨hNow, hEpisodes, .inl hTask, fun h => ⟨hClosed h, hErrors⟩⟩

/-- An episode under way has been so before others did something. -/
theorem Bystander.recovering {w w' : World} {ep : Episode} (hBystander : Bystander w w')
    (hTask' : w'.task = .recovering ep) : w.task = .recovering ep := by
  rcases hBystander.task with hSame | hEnded
  · exact hSame.symm.trans hTask'
  · rw [hEnded] at hTask'
    cases hTask'

theorem Bystander.idle {w w' : World} (hBystander : Bystander w w') (hTask' : w'.task = .idle) :
    w.task = .idle := by
  rcases hBystander.task with hSame | hEnded
  · exact hSame.symm.trans hTask'
  · rw [hEnded] at hTask'
    cases hTask'

section

attribute [local simp] taking listens

theorem bystander_finishResume {w w' : World} {number : Nat}
    (hAct : w.act (.finishResume number) = some w') : Bystander w w' := by
  unfold act World.finishResume at hAct
  cases hWork : w.calls[number]? with
  | none => simp [hWork] at hAct
  | some work =>
    simp only [hWork] at hAct
    split at hAct
    case isFalse => cases hAct
    case isTrue =>
      cases hReply : work.reply.error <;>
        simp only [finishReconciling, hReply, Option.map_some, Option.some.injEq] at hAct <;>
        subst hAct <;> constructor <;> simp +contextual

theorem bystander_drop {w w' : World} (hAct : w.act .drop = some w') : Bystander w w' := by
  have hEnded := (gone_of_drop hAct).ended
  simp only [act] at hAct
  split at hAct
  case isFalse => cases hAct
  case isTrue =>
    obtain ⟨-, rfl⟩ := of_whileOpen hAct
    refine ⟨?_, ?_, .inr hEnded, ?_⟩ <;> cases hTask : w.task <;> simp [World.drop, hTask]

theorem bystander_act {w w' : World} {action : Action} (hWork : action ≠ .work)
    (hElapse : ∀ millis, action ≠ .elapse millis) (hAct : w.act action = some w') :
    Bystander w w' := by
  cases action with
  | work => exact absurd rfl hWork
  | elapse millis => exact absurd rfl (hElapse millis)
  | fail error =>
    cases hAct
    exact bystander_accept [error] w
  | bind token =>
    simp only [act] at hAct
    split at hAct
    case isTrue =>
      obtain ⟨-, rfl⟩ := of_whileOpen hAct
      constructor <;> simp +contextual [World.bind]
    case isFalse => cases hAct
  | reconnect label =>
    obtain ⟨-, rfl⟩ := of_whileOpen hAct
    constructor <;> simp +contextual
  | beginResume frame =>
    unfold act World.beginResume at hAct
    cases hDecode : ResumeOk.position frame with
    | error cause cursor | ok position cursor =>
      simp only [hDecode] at hAct
      obtain ⟨-, rfl⟩ := of_whileOpen hAct
      exact .same rfl rfl rfl id rfl
  | finishResume number => exact bystander_finishResume hAct
  | drop => exact bystander_drop hAct
  | hold =>
    obtain ⟨-, rfl⟩ := of_whileOpen hAct
    cases hBound : w.bound <;> simp only [World.hold, hBound] <;> exact .same rfl rfl rfl id rfl
  | closeErrors =>
    cases hAct
    exact .same rfl rfl rfl (fun _ => rfl) rfl
  | setSupplier supplier | observe observer | subscribe =>
    obtain ⟨-, rfl⟩ := of_whileOpen hAct
    exact .same rfl rfl rfl id rfl
  | setPositions implied position | setSendsFail sendsFail | addReconciliation reconciliation
  | releaseHeld | poll =>
    cases hAct
    exact .same rfl rfl rfl id rfl

end

theorem elapse_eq {w w' : World} {millis : Nat} (hAct : w.act (.elapse millis) = some w') :
    w.mayReach (w.now + millis) = true ∧ w' = { w with now := w.now + millis } := by
  simp only [act] at hAct
  split at hAct
  case isTrue hMay =>
    cases hAct
    exact ⟨hMay, rfl⟩
  case isFalse => cases hAct

/-- Everything that happens is a step of the task, time passing, or the doing of others. -/
theorem act_cases {w w' : World} {action : Action} (hAct : w.act action = some w') :
    (action = .work ∧ ∃ written, Stride w written w') ∨
    (∃ millis, action = .elapse millis ∧ w.mayReach (w.now + millis) = true ∧
      w' = { w with now := w.now + millis }) ∨
    action ≠ .work ∧ Bystander w w' := by
  by_cases hWork : action = .work
  · subst hWork
    exact .inl ⟨rfl, stride_of_step hAct⟩
  · by_cases hElapse : ∃ millis, action = .elapse millis
    · obtain ⟨millis, rfl⟩ := hElapse
      exact .inr (.inl ⟨millis, rfl, elapse_eq hAct⟩)
    · exact .inr (.inr ⟨hWork, bystander_act hWork (fun m h => hElapse ⟨m, h⟩) hAct⟩)

/-- Time passes only while the task has to wait, and not beyond what it waits for. -/
theorem mayReach_recovering {w : World} {ep : Episode} {time : Nat} (hTask : w.task = .recovering ep)
    (hMay : w.mayReach time = true) : w.step = none ∧ time ≤ ep.deadline := by
  unfold mayReach wakeTime? at hMay
  rw [hTask] at hMay
  simp only [Bool.and_eq_true, Option.isNone_iff_eq_none, Option.all_some, decide_eq_true_eq,
    Nat.le_min] at hMay
  exact ⟨hMay.1.1, hMay.1.2.2⟩

-- ---------------------------------------------------------------------------
-- What is written down when
-- ---------------------------------------------------------------------------

section

attribute [local simp] own guest raised Event.isTaken Event.isCut Entry.isOwnFailure Event.isTurn

/-- Everything is written down with the time at which it happens. -/
theorem time_change {w w' : World} {action : Action} {written : List Entry}
    (hChange : Change w action written w') : ∀ e ∈ written, e.time = w.now := by
  cases hChange with
  | work hStride => cases hStride <;> simp [or_imp, forall_and]
  | _ => simp [or_imp, forall_and]

theorem now_stride {w w' : World} {written : List Entry} (hStride : Stride w written w') :
    w'.now = w.now := by
  cases hStride <;> simp [welcome, connect]

/-- A step of an episode takes no error from the stream. -/
theorem isTaken_stride {w w' : World} {written : List Entry} {ep : Episode}
    (hTask : w.task = .recovering ep) (hStride : Stride w written w') :
    ∀ e ∈ written, e.event.isTaken = false := by
  cases hStride with
  | stop hIdle | beginBare hIdle | begin hIdle =>
    rw [hTask] at hIdle
    cases hIdle
  | _ => simp [or_imp, forall_and]

/-- A step that cuts an episode does so at its deadline. -/
theorem isCut_stride {w w' : World} {written : List Entry} (hStride : Stride w written w') :
    (∀ e ∈ written, e.event.isCut = false) ∨ ∃ ep, w.task = .recovering ep ∧
      ep.deadline ≤ w.now ∧ w' = w.giveUp ep .cut ∧
      written = (w.own .stopped :: w.disposal .task) ++ [w.own (.ended .cut)] := by
  cases hStride with
  | cut hTask hWait hDeadline => exact .inr ⟨_, hTask, hDeadline, rfl, rfl⟩
  | _ => exact .inl (by simp [or_imp, forall_and])

/-- What others do begins no episode and cuts none. -/
theorem isTaken_change {w w' : World} {action : Action} {written : List Entry}
    (hAction : action ≠ .work) (hChange : Change w action written w') :
    ∀ e ∈ written, e.event.isTaken = false ∧ e.event.isCut = false := by
  cases hChange with
  | work => exact absurd rfl hAction
  | _ => simp [or_imp, forall_and]

/-- Others end an episode only where one is under way. -/
theorem isTurn_change {w w' : World} {action : Action} {written : List Entry}
    (hAction : action ≠ .work) (hTask : ∀ ep, w.task ≠ .recovering ep)
    (hChange : Change w action written w') : ∀ e ∈ written, e.event.isTurn = false := by
  cases hChange with
  | work => exact absurd rfl hAction
  | dropRecovering hRecovering => exact absurd hRecovering (hTask _)
  | _ => simp [or_imp, forall_and]

/-- A step to the next stage keeps the deadline and sends no ERROR frame. -/
theorem deadline_stride {w w' : World} {written : List Entry} {ep ep' : Episode}
    (hTask : w.task = .recovering ep) (hTask' : w'.task = .recovering ep')
    (hStride : Stride w written w') :
    ep'.deadline = ep.deadline ∧ ∀ e ∈ written, e.isOwnFailure = false := by
  cases hStride with
  | stop hIdle | beginBare hIdle | begin hIdle =>
    rw [hTask] at hIdle
    cases hIdle
  | announceNothing | resume | reject | cut => simp at hTask'
  | announce hSame hStage hEncode =>
    rw [hTask] at hSame
    cases hSame
    cases hTask'
    simp [isFailure_encode hEncode]
  | consult hSame | backOff hSame | dialNobody hSame | dial hSame | refuse hSame | install hSame
  | hearNothing hSame | hearNoise hSame | hear hSame =>
    rw [hTask] at hSame
    cases hSame
    cases hTask'
    simp [or_imp, forall_and]

end

-- ---------------------------------------------------------------------------
-- The invariant
-- ---------------------------------------------------------------------------

/-- The journal keeps the time, and so does the episode under way. -/
structure Timed (w : World) : Prop where
  punctual : Always (Punctual w.span) (deeds w.journal)
  current : ∀ ep, w.task = .recovering ep → ∃ start, began (deeds w.journal) = some start ∧
    ep.deadline = start + w.span ∧ start ≤ w.now ∧ w.now ≤ ep.deadline
  silent : ∀ ep, w.task = .recovering ep → ∀ x ∈ latest (deeds w.journal), x.isOwnFailure = false

/-- A step of an episode is in its time. -/
theorem punctual_stride {w w' : World} {written : List Entry} {ep : Episode} (hTimed : w.Timed)
    (hTask : w.task = .recovering ep) (hStride : Stride w written w') :
    Always (Punctual w.span) (written ++ deeds w.journal) := by
  obtain ⟨start, hBegan, hDeadline, hFrom, hTo⟩ := hTimed.current ep hTask
  have hTaken := isTaken_stride hTask hStride
  have hTime := time_change (.work hStride)
  rcases isCut_stride hStride with hCut | ⟨ep', hTask', hOver, -, rfl⟩
  · exact punctual_append hBegan hFrom (by omega) hTime (fun e he => ⟨hTaken e he, hCut e he⟩)
      hTimed.punctual
  · -- the cut comes at the deadline, and the disposal after it
    rw [hTask] at hTask'
    cases hTask'
    have hEnd : Punctual w.span (w.own (.ended .cut)) (deeds w.journal) := by
      refine ⟨fun _ => ⟨start, hBegan, hFrom, ?_⟩, ?_, ?_, ?_⟩
      · show w.now ≤ start + w.span
        omega
      · intro _ start' hBegan'
        show w.now = start' + w.span
        rw [hBegan] at hBegan'
        cases hBegan'
        omega
      · exact fun _ => hTimed.silent ep hTask
      · intro h
        cases h
    have hAfter : ∀ e ∈ w.own .stopped :: w.disposal .task,
        e.time = w.now ∧ e.event.isTaken = false ∧ e.event.isCut = false := by
      simp [own, Event.isTaken, Event.isCut]
    have hEnded : began (w.own (.ended .cut) :: deeds w.journal) = some start :=
      hBegan
    have hAll := punctual_append hEnded hFrom (by omega) (fun e he => (hAfter e he).1)
      (fun e he => (hAfter e he).2) (always_cons hEnd hTimed.punctual)
    simpa using hAll

/-- The beginning of an episode, and what comes at once. -/
theorem punctual_begin {w : World} {error : LinkError} {later : List Entry} (hTimed : w.Timed)
    (hClosed : ¬ Open (deeds w.journal))
    (hLater : ∀ e ∈ later, e.time = w.now ∧ e.event.isTaken = false ∧ e.event.isCut = false) :
    Always (Punctual w.span) (later ++ w.own (.taken error) :: deeds w.journal) := by
  have hTaken : Punctual w.span (w.own (.taken error)) (deeds w.journal) := by
    refine ⟨?_, nofun, nofun, fun _ => hClosed⟩
    intro h
    rcases h with h | h <;> simp [own, Entry.isOwnCall, Event.isCall, Event.isEnding] at h
  exact punctual_append (show began _ = some w.now from rfl) (Nat.le_refl _) (by omega)
    (fun e he => (hLater e he).1) (fun e he => (hLater e he).2) (always_cons hTaken hTimed.punctual)

theorem Timed.of_not_recovering {w : World} (hPunctual : Always (Punctual w.span) (deeds w.journal))
    (hTask : ∀ ep, w.task ≠ .recovering ep) : w.Timed :=
  ⟨hPunctual, fun ep hEp => absurd hEp (hTask ep), fun ep hEp => absurd hEp (hTask ep)⟩

theorem timed_stride {w w' : World} {written : List Entry} (hReach : Reachable w)
    (hTimed : w.Timed) (hStride : Stride w written w') : w'.Timed := by
  have hDeeds := deeds_stride hStride
  have hSpan := span_change (.work hStride)
  cases hTask : w.task with
  | ended => exact absurd hStride (not_stride_of_ended (by rw [hTask]; rfl))
  | recovering ep =>
    have hPunctual := punctual_stride hTimed hTask hStride
    obtain ⟨start, hBegan, hDeadline, hFrom, hTo⟩ := hTimed.current ep hTask
    have hTaken := isTaken_stride hTask hStride
    rw [← hDeeds, ← hSpan] at hPunctual
    refine ⟨hPunctual, ?_, ?_⟩
    · intro ep' hTask'
      obtain ⟨hSame, -⟩ := deadline_stride hTask hTask' hStride
      refine ⟨start, ?_, ?_, ?_, ?_⟩
      · rw [hDeeds, began_append _ hTaken, hBegan]
      · rw [hSame, hDeadline, hSpan]
      · rw [now_stride hStride]
        exact hFrom
      · rw [now_stride hStride, hSame]
        exact hTo
    · intro ep' hTask' x hMem
      obtain ⟨-, hSilent⟩ := deadline_stride hTask hTask' hStride
      rw [hDeeds, latest_append _ hTaken] at hMem
      rcases List.mem_append.mp hMem with hMem | hMem
      · exact hSilent x hMem
      · exact hTimed.silent ep hTask x hMem
  | idle =>
    have hClosed : ¬ Open (deeds w.journal) := by
      rintro ⟨c, older, hChapters, hEnding⟩
      refine hReach.chronicle.closed (by simp [hTask]) c ?_ hEnding
      rw [hChapters]
      exact List.mem_cons_self
    cases hStride with
    | stop =>
      refine .of_not_recovering ?_ (by simp)
      rw [hDeeds, hSpan]
      exact punctual_plain (by simp [own, Entry.isOwnCall, Event.isCall, Event.isTurn])
        hTimed.punctual
    | @beginBare error errors =>
      have hLater : ∀ e ∈ w.own .stopped ::
          (w.disposal .task ++ [w.own (.ended (.failed .missingToken))]),
          e.time = w.now ∧ e.event.isTaken = false ∧ e.event.isCut = false := by
        simp [own, or_imp, forall_and, Event.isTaken, Event.isCut]
      refine .of_not_recovering ?_ (by simp)
      rw [hDeeds, hSpan]
      simpa using punctual_begin hTimed hClosed hLater
    | @begin error errors token =>
      have hLater : ∀ e ∈ [w.own .strategyMade],
          e.time = w.now ∧ e.event.isTaken = false ∧ e.event.isCut = false := by
        simp [own, Event.isTaken, Event.isCut]
      refine ⟨?_, ?_, ?_⟩
      · rw [hDeeds, hSpan]
        exact punctual_begin hTimed hClosed hLater
      · intro ep hEp
        cases hEp
        refine ⟨w.now, ?_, ?_, ?_, ?_⟩
        · rw [hDeeds]
          rfl
        · rw [hSpan]
          rfl
        · simp [welcome]
        · simp [welcome]
      · intro ep _ x hMem
        rw [hDeeds] at hMem
        have hOnly : x = w.own .strategyMade := by
          simpa [latest, own, Event.isTaken] using hMem
        rw [hOnly]
        rfl
    | _ => simp_all

theorem timed_elapse {w : World} {millis : Nat} (hTimed : w.Timed)
    (hMay : w.mayReach (w.now + millis) = true) :
    { w with now := w.now + millis }.Timed := by
  refine ⟨hTimed.punctual, ?_, hTimed.silent⟩
  intro ep hTask
  have hSame : w.task = .recovering ep := hTask
  obtain ⟨start, hBegan, hDeadline, hFrom, -⟩ := hTimed.current ep hSame
  refine ⟨start, hBegan, hDeadline, ?_, (mayReach_recovering hSame hMay).2⟩
  show start ≤ w.now + millis
  omega

/-- What others do keeps the time. -/
theorem timed_bystander {w w' : World} {action : Action} {written : List Entry} (hTimed : w.Timed)
    (hAction : action ≠ .work) (hBystander : Bystander w w')
    (hChange : Change w action written w') : w'.Timed := by
  have hDeeds := deeds_change hChange
  have hSpan := span_change hChange
  have hKind := isTaken_change hAction hChange
  have hActor := actor_change hAction hChange
  have hPunctual : Always (Punctual w.span) (written ++ deeds w.journal) := by
    by_cases hTask : ∃ ep, w.task = .recovering ep
    · obtain ⟨ep, hTask⟩ := hTask
      obtain ⟨start, hBegan, hDeadline, hFrom, hTo⟩ := hTimed.current ep hTask
      exact punctual_append hBegan hFrom (by omega) (time_change hChange) hKind hTimed.punctual
    · have hTurn := isTurn_change hAction (fun ep hEp => hTask ⟨ep, hEp⟩) hChange
      refine punctual_plain (fun e he => ⟨?_, hTurn e he⟩) hTimed.punctual
      simp [Entry.isOwnCall, hActor e he]
  rw [← hDeeds, ← hSpan] at hPunctual
  refine ⟨hPunctual, ?_, ?_⟩
  · intro ep hEp
    obtain ⟨start, hBegan, hDeadline, hFrom, hTo⟩ := hTimed.current ep (hBystander.recovering hEp)
    refine ⟨start, ?_, ?_, ?_, ?_⟩
    · rw [hDeeds, began_append _ fun e he => (hKind e he).1, hBegan]
    · rw [hDeadline, hSpan]
    · rw [hBystander.now]
      exact hFrom
    · rw [hBystander.now]
      exact hTo
  · intro ep hEp x hMem
    rw [hDeeds, latest_append _ fun e he => (hKind e he).1] at hMem
    rcases List.mem_append.mp hMem with hMem | hMem
    · exact isOwnFailure_of_actor (hActor x hMem)
    · exact hTimed.silent ep (hBystander.recovering hEp) x hMem

theorem timed_act {w w' : World} {action : Action} (hReach : Reachable w) (hTimed : w.Timed)
    (hAct : w.act action = some w') : w'.Timed := by
  rcases act_cases hAct with ⟨rfl, written, hStride⟩ | ⟨millis, rfl, hMay, rfl⟩ |
    ⟨hWork, hBystander⟩
  · exact timed_stride hReach hTimed hStride
  · exact timed_elapse hTimed hMay
  · obtain ⟨written, hChange⟩ := change_of_act hAct
    exact timed_bystander hTimed hWork hBystander hChange

end World

theorem Reachable.timed {w : World} (hReach : Reachable w) : w.Timed := by
  refine hReach.induct_act ?_ World.timed_act
  intro config tokens reconciliations bursts
  refine .of_not_recovering ?_ ?_
  · exact always_nil
  · intro ep hTask
    cases hTask

-- ---------------------------------------------------------------------------
-- At the deadline
-- ---------------------------------------------------------------------------

/-- Whether somebody has disposed the connection. -/
def isSpent (journal : List Entry) : Bool :=
  journal.any fun e => e.event.isDisposal

theorem isSpent_eq_false {journal : List Entry} : isSpent journal = false ↔ disposals journal = 0 := by
  rw [isSpent, disposals_eq_zero, List.any_eq_false]
  simp

/-- The entries right after a cut, latest first: the disposal unless the connection is disposed
already, and the end of the task. -/
def aftermath (time : Nat) (past : List Entry) : List Entry :=
  ⟨time, .task, .stopped⟩ :: if isSpent past then [] else [⟨time, .task, .disposed⟩]

namespace World

/-- A cut ends the task, which does nothing afterwards. -/
def Final (w : World) : Prop :=
  ∀ later e past, deeds w.journal = later ++ e :: past → e.event.isCut →
    w.task = .ended ∧ e.actor = .task ∧
      ∃ after, later = after ++ aftermath e.time past ∧ ∀ x ∈ after, x.actor ≠ .task

/-- An entry is among those just written down or among those before. -/
theorem split_append {later past written journal : List Entry} {e : Entry}
    (hSplit : written ++ journal = later ++ e :: past) :
    (∃ rest, later = written ++ rest ∧ journal = rest ++ e :: past) ∨
      ∃ rest, written = later ++ e :: rest ∧ past = rest ++ journal := by
  rcases List.append_eq_append_iff.mp hSplit with ⟨rest, hLater, hJournal⟩ | ⟨rest, hWritten, hRest⟩
  · exact .inl ⟨rest, hLater, hJournal⟩
  · cases rest with
    | nil => exact .inl ⟨[], by simpa using hWritten.symm, hRest.symm⟩
    | cons x rest =>
      cases hRest
      exact .inr ⟨rest, hWritten, rfl⟩

theorem cut_of_split {later front rest : List Entry} {x e : Entry}
    (hSplit : front ++ [x] = later ++ e :: rest) (hFront : ∀ y ∈ front, y.event.isCut = false)
    (hCut : e.event.isCut) : later = front ∧ e = x ∧ rest = [] := by
  rcases split_append hSplit with ⟨between, rfl, hLast⟩ | ⟨between, rfl, -⟩
  · cases between with
    | nil =>
      cases hLast
      exact ⟨List.append_nil front, rfl, rfl⟩
    | cons y between => simp at hLast
  · have hNone := hFront e (List.mem_append_right later List.mem_cons_self)
    rw [hCut] at hNone
    cases hNone

/-- What a step writes down behind a cut. -/
theorem aftermath_stride {w w' : World} {later rest : List Entry} {e : Entry}
    (hReach : Reachable w) (hStride : Stride w (later ++ e :: rest) w') (hCut : e.event.isCut) :
    w'.task = .ended ∧ e = w.own (.ended .cut) ∧ rest = [] ∧
      later = aftermath w.now (deeds w.journal) := by
  have hMem : e ∈ later ++ e :: rest := List.mem_append_right later List.mem_cons_self
  have hSpent : isSpent (deeds w.journal) = w.disposed := by
    have hCount := hReach.disposals_eq
    cases hDisposed : w.disposed with
    | false =>
      rw [hDisposed] at hCount
      exact isSpent_eq_false.mpr hCount
    | true =>
      rw [← Bool.not_eq_false]
      intro hNone
      rw [isSpent_eq_false.mp hNone, hDisposed] at hCount
      cases hCount
  have hFront : ∀ y ∈ w.own .stopped :: w.disposal .task, y.event.isCut = false := by
    simp [own, Event.isCut]
  rcases isCut_stride hStride with hNone | ⟨ep, -, -, rfl, hWritten⟩
  · have hPlain := hNone e hMem
    rw [hCut] at hPlain
    cases hPlain
  · obtain ⟨rfl, rfl, rfl⟩ := cut_of_split hWritten.symm hFront hCut
    refine ⟨by simp, rfl, rfl, ?_⟩
    unfold aftermath disposal
    rw [hSpent]
    rfl

theorem final_change {w w' : World} {action : Action} {written : List Entry} (hReach : Reachable w)
    (hFinal : w.Final) (hChange : Change w action written w') : w'.Final := by
  intro later e past hSplit hCut
  rw [deeds_change hChange] at hSplit
  rcases split_append hSplit with ⟨rest, rfl, hJournal⟩ | ⟨rest, hWritten, rfl⟩
  · -- the task was over before
    obtain ⟨hTask, hActor, after, rfl, hAfter⟩ := hFinal rest e past hJournal hCut
    obtain ⟨hEnded, hOthers⟩ := ended_change (by rw [hTask]; rfl) hChange
    refine ⟨?_, hActor, written ++ after, (List.append_assoc ..).symm, ?_⟩
    · cases hTask' : w'.task <;> simp_all [Task.isEnded]
    · intro x hMem
      rcases List.mem_append.mp hMem with hMem | hMem
      · exact hOthers x hMem
      · exact hAfter x hMem
  · have hMem : e ∈ written := by
      rw [hWritten]
      exact List.mem_append_right later List.mem_cons_self
    by_cases hWork : action = .work
    · subst hWork
      cases hChange with
      | quiet hQuiet => exact absurd rfl hQuiet
      | work hStride =>
        rw [hWritten] at hStride
        obtain ⟨hEnded, rfl, rfl, rfl⟩ := aftermath_stride hReach hStride hCut
        exact ⟨hEnded, rfl, [], rfl, by simp⟩
    · have hNone := (isTaken_change hWork hChange e hMem).2
      rw [hCut] at hNone
      cases hNone

end World

theorem Reachable.final {w : World} (hReach : Reachable w) : w.Final := by
  refine hReach.induct ?_ World.final_change
  intro config tokens reconciliations bursts later e past hSplit
  simp [World.initial, deeds] at hSplit

-- ---------------------------------------------------------------------------
-- When everything due is done
-- ---------------------------------------------------------------------------

theorem exists_first_turn (journal : List Entry) :
    (∀ e ∈ journal, e.event.isTurn = false) ∨
      ∃ after e between, journal = after ++ e :: between ∧ e.event.isTurn ∧
        ∀ x ∈ between, x.event.isTurn = false := by
  induction journal with
  | nil => exact .inl (by simp)
  | cons e journal ih =>
    rcases ih with hNone | ⟨after, e', between, rfl, hTurn, hBetween⟩
    · cases hTurn : e.event.isTurn with
      | true => exact .inr ⟨[], e, journal, rfl, hTurn, hNone⟩
      | false => exact .inl (by simpa [hTurn] using hNone)
    · exact .inr ⟨e :: after, e', between, rfl, hTurn, hBetween⟩

namespace World

/-- Whether the task has done all that is due up to that time. -/
def DoneBy (time : Nat) (w : World) : Prop :=
  time < w.now ∨ time = w.now ∧ w.step = none

/-- What can be done is done, at the deadline as well; an episode that would have to wait there is
cut. -/
theorem Timed.step_eq {w : World} {ep : Episode} (hTimed : w.Timed)
    (hTask : w.task = .recovering ep) :
    w.step = (w.proceed ep).or (if w.now = ep.deadline then some (w.giveUp ep .cut) else none) := by
  obtain ⟨start, -, -, -, hTo⟩ := hTimed.current ep hTask
  have hOnly : ep.deadline ≤ w.now ↔ w.now = ep.deadline := by omega
  rw [step_recovering hTask]
  simp only [hOnly]
  cases w.proceed ep <;> rfl

theorem Timed.not_doneBy {w : World} {ep : Episode} (hTimed : w.Timed)
    (hTask : w.task = .recovering ep) : ¬ w.DoneBy ep.deadline := by
  obtain ⟨start, -, -, -, hTo⟩ := hTimed.current ep hTask
  rintro (hPast | ⟨hNow, hStep⟩)
  · omega
  · rw [hTimed.step_eq hTask, if_pos hNow.symm] at hStep
    cases hProceed : w.proceed ep <;> simp [hProceed] at hStep

/-- When everything due by the deadline of an episode is done, the episode is over. -/
theorem ended_of_doneBy {w : World} {later earlier : List Entry} {b : Entry} (hReach : Reachable w)
    (hSplit : deeds w.journal = later ++ b :: earlier) (hTaken : b.event.isTaken)
    (hDone : w.DoneBy (b.time + w.span)) :
    ∃ after e between how, later = after ++ e :: between ∧
      (∀ x ∈ between, x.event.isTurn = false) ∧ e.event = .ended how ∧
      b.time ≤ e.time ∧ e.time ≤ b.time + w.span := by
  have hTimed := hReach.timed
  have hOpen : Open (b :: earlier) := by
    obtain ⟨time, actor, event⟩ := b
    cases event <;> first | exact ⟨_, _, rfl, rfl⟩ | cases hTaken
  have hBegan : began (b :: earlier) = some b.time := by
    rw [began_cons, if_pos hTaken]
  have hNotTaken : ∀ {between : List Entry}, (∀ x ∈ between, x.event.isTurn = false) →
      ∀ x ∈ between, x.event.isTaken = false :=
    fun hBetween x hMem => (Event.plain_of_isTurn (hBetween x hMem)).2.2
  rcases exists_first_turn later with hNone | ⟨after, e, between, rfl, hTurn, hBetween⟩
  · -- the episode would be under way still
    obtain ⟨c, older, hChapters, hEnding⟩ := open_append hNone hOpen
    by_cases hTask : ∃ ep, w.task = .recovering ep
    · obtain ⟨ep, hTask⟩ := hTask
      obtain ⟨start, hStart, hDeadline, -, -⟩ := hTimed.current ep hTask
      rw [hSplit, began_append _ (hNotTaken hNone), hBegan] at hStart
      cases hStart
      rw [← hDeadline] at hDone
      exact absurd hDone (hTimed.not_doneBy hTask)
    · refine absurd hEnding (hReach.chronicle.closed (fun ep hEp => hTask ⟨ep, hEp⟩) c ?_)
      rw [hSplit, hChapters]
      exact List.mem_cons_self
  · have hPunctual := hTimed.punctual after e (between ++ b :: earlier)
      (by rw [hSplit, List.append_assoc, List.cons_append])
    cases hEvent : e.event with
    | ended how =>
      obtain ⟨start, hStart, hFrom, hTo⟩ := hPunctual.time (.inr (by rw [hEvent]; rfl))
      rw [began_append _ (hNotTaken hBetween), hBegan] at hStart
      cases hStart
      exact ⟨after, e, between, how, rfl, hBetween, hEvent, hFrom, hTo⟩
    | taken error =>
      exact absurd (open_append hBetween hOpen) (hPunctual.taken (by rw [hEvent]; rfl))
    | _ =>
      rw [hEvent] at hTurn
      cases hTurn

end World

end Resumption
