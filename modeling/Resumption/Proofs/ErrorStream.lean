import Resumption.Proofs.Episodes

/-!
# What becomes of an error

Errors of the connection are served in the order in which they came. Each one that the stream took
begins one episode, or is dropped right before the task reconnects, or waits. A reconnect leaves no
error behind it, so what comes later belongs to the new connection, and an episode that recovers
the connection leaves those errors alone: the earliest of them begins the next one.

* `accepted`, `settled` — the errors that came, and those that have met their fate
* `fifo_change` — the first come is the first served
* `Always` — what every entry satisfies together with those before it
* `Orderly` — what becomes of the errors of a session
* `orderly_of_reachable` — every run is orderly
-/

namespace Resumption

-- ---------------------------------------------------------------------------
-- Fates
-- ---------------------------------------------------------------------------

/-- What becomes of an error. -/
inductive Fate where
  /-- It began an episode. -/
  | began
  /-- It was dropped when the task reconnected. -/
  | discarded
  /-- It is still in the stream. -/
  | queued
deriving DecidableEq

def Event.accepted? : Event → Option LinkError
  | .accepted error => some error
  | _ => none

def Event.settled? : Event → Option (LinkError × Fate)
  | .taken error => some (error, .began)
  | .discarded error => some (error, .discarded)
  | _ => none

/-- The errors that the stream took, earliest first. -/
def accepted (journal : List Entry) : List LinkError :=
  (journal.filterMap fun e => e.event.accepted?).reverse

/-- The errors taken out of the stream with their fates, earliest first. -/
def settled (journal : List Entry) : List (LinkError × Fate) :=
  (journal.filterMap fun e => e.event.settled?).reverse

/-- What became of every error, in the order in which they came. -/
def World.fates (w : World) : List (LinkError × Fate) :=
  settled w.journal ++ w.errors.map fun error => (error, .queued)

@[simp] theorem accepted_nil : accepted [] = [] := rfl

@[simp] theorem accepted_append (later earlier : List Entry) :
    accepted (later ++ earlier) = accepted earlier ++ accepted later := by
  simp [accepted]

@[simp] theorem settled_append (later earlier : List Entry) :
    settled (later ++ earlier) = settled earlier ++ settled later := by
  simp [settled]

@[simp] theorem accepted_cons (e : Entry) (journal : List Entry) :
    accepted (e :: journal) = accepted journal ++ e.event.accepted?.toList := by
  cases hEvent : e.event.accepted? <;> simp [accepted, hEvent]

@[simp] theorem settled_cons (e : Entry) (journal : List Entry) :
    settled (e :: journal) = settled journal ++ e.event.settled?.toList := by
  cases hEvent : e.event.settled? <;> simp [settled, hEvent]

theorem settled_eq_nil {journal : List Entry} :
    settled journal = [] ↔ ∀ e ∈ journal, e.event.settled? = none := by
  simp [settled]

/-- What is read off events that are no notices is read off the deeds as well. -/
theorem filterMap_deeds {α : Type} {f : Event → Option α}
    (hNotices : ∀ event : Event, event.isNotice → f event = none) (journal : List Entry) :
    (deeds journal).filterMap (fun e => f e.event) = journal.filterMap fun e => f e.event := by
  rw [deeds, List.filterMap_filter]
  congr 1
  funext e
  cases hNotice : e.event.isNotice with
  | false => rfl
  | true =>
    rw [hNotices e.event hNotice]
    rfl

theorem accepted_deeds (journal : List Entry) : accepted (deeds journal) = accepted journal := by
  rw [accepted, accepted, filterMap_deeds]
  intro event hNotice
  cases event <;> first | rfl | cases hNotice

theorem settled_deeds (journal : List Entry) : settled (deeds journal) = settled journal := by
  rw [settled, settled, filterMap_deeds]
  intro event hNotice
  cases event <;> first | rfl | cases hNotice

theorem map_cause_modifyHead {f : Chapter → Chapter} (hCause : ∀ c, (f c).cause = c.cause)
    (told : List Chapter) : (told.modifyHead f).map Chapter.cause = told.map Chapter.cause := by
  cases told <;> simp [hCause]

/-- The errors that began an episode are the causes of the chapters. -/
theorem causes_eq (journal : List Entry) :
    ((chapters journal).map Chapter.cause).reverse =
      ((settled journal).filter fun s => s.2 = .began).map Prod.fst := by
  induction journal with
  | nil => rfl
  | cons e journal ih =>
    obtain ⟨time, actor, event⟩ := e
    cases event with
    | taken error => simp [ih, Event.settled?]
    | ended how =>
      -- the end of a chapter leaves its cause alone, and so do calls
      rw [chapters_ended, map_cause_modifyHead, ih]
      · simp [Event.settled?]
      · exact fun _ => rfl
    | _ =>
      rw [chapters_cons rfl, map_cause_modifyHead, ih]
      · simp [Event.settled?]
      · exact fun _ => rfl

namespace World

-- ---------------------------------------------------------------------------
-- First come, first served
-- ---------------------------------------------------------------------------

section

attribute [local simp] own guest raised disposal Event.accepted? Event.settled?

@[simp] theorem accepted_arrived (errors : List LinkError) (w : World) :
    accepted (w.arrived errors) = w.taking errors := by
  rw [accepted, arrived, List.filterMap_reverse, List.reverse_reverse, List.filterMap_map]
  exact List.filterMap_some

@[simp] theorem settled_arrived (errors : List LinkError) (w : World) :
    settled (w.arrived errors) = [] := by
  rw [settled_eq_nil, forall_mem_arrived]
  exact fun _ _ => rfl

@[simp] theorem accepted_drained (w : World) : accepted w.drained = [] := by
  rw [accepted, List.reverse_eq_nil_iff, List.filterMap_eq_nil_iff, forall_mem_drained]
  exact fun _ _ => rfl

@[simp] theorem settled_drained (w : World) :
    settled w.drained = w.errors.map fun error => (error, .discarded) := by
  rw [settled, drained, List.filterMap_reverse, List.reverse_reverse, List.filterMap_map]
  exact congrFun List.filterMap_eq_map w.errors

theorem fifo_stride {w w' : World} {written journal : List Entry}
    (hFifo : accepted journal = (settled journal).map Prod.fst ++ w.errors)
    (hStride : Stride w written w') :
    accepted (written ++ journal) = (settled (written ++ journal)).map Prod.fst ++ w'.errors := by
  cases hStride with
  | stop | consult | backOff | refuse | dialNobody | announce | hearNothing | hearNoise | hear =>
    simp [hFifo]
  | begin hTask hErrors => simp [hFifo, hErrors, welcome]
  | beginBare hTask hErrors =>
    by_cases hDisposed : w.disposed <;> simp [hFifo, hErrors, hDisposed, welcome]
  | dial | resume => simp [hFifo, taking, listens]
  | install =>
    -- what was queued is dropped, and what the new connection raises is queued
    simp [hFifo, connect, taking, listens, Function.comp_def]
  | announceNothing | cut => by_cases hDisposed : w.disposed <;> simp [hFifo, hDisposed]
  | reject => by_cases hDisposed : w.disposed <;> simp [hFifo, hDisposed]

/-- Every error that the stream took is settled or waits, in the order in which they came. -/
theorem fifo_change {w w' : World} {action : Action} {written journal : List Entry}
    (hFifo : accepted journal = (settled journal).map Prod.fst ++ w.errors)
    (hChange : Change w action written w') :
    accepted (written ++ journal) = (settled (written ++ journal)).map Prod.fst ++ w'.errors := by
  cases hChange with
  | work hStride => exact fifo_stride hFifo hStride
  | quiet _ hSame => rw [hSame.errors, List.nil_append, hFifo]
  | bind => simp [World.bind, hFifo]
  | hold | releaseHeld => exact hFifo
  | reject => by_cases hDisposed : w.disposed <;> simp [hFifo, hDisposed, taking, listens]
  | _ => simp [hFifo, taking, listens]

end

end World

-- ---------------------------------------------------------------------------
-- Entries and what came before them
-- ---------------------------------------------------------------------------

/-- Every entry satisfies `Q` together with those before it. Latest first. -/
def Always (Q : Entry → List Entry → Prop) (journal : List Entry) : Prop :=
  ∀ later e earlier, journal = later ++ e :: earlier → Q e earlier

theorem always_nil {Q : Entry → List Entry → Prop} : Always Q [] := by
  intro later e earlier hSplit
  simp at hSplit

theorem always_cons {Q : Entry → List Entry → Prop} {e : Entry} {journal : List Entry}
    (hEntry : Q e journal) (hAlways : Always Q journal) : Always Q (e :: journal) := by
  intro later e' earlier hSplit
  cases later with
  | nil =>
    cases hSplit
    exact hEntry
  | cons e'' later =>
    cases hSplit
    exact hAlways later e' earlier rfl

theorem Always.tail {Q : Entry → List Entry → Prop} {later earlier : List Entry}
    (hAlways : Always Q (later ++ earlier)) : Always Q earlier := by
  intro after e before hSplit
  refine hAlways (later ++ after) e before ?_
  rw [hSplit, List.append_assoc]

def Event.isDiscard : Event → Bool
  | .discarded _ => true
  | _ => false

def Event.isEnding : Event → Bool
  | .ended _ => true
  | _ => false

/-- A reconnect made by the task. -/
def Entry.isOwnReconnect (e : Entry) : Bool :=
  e.actor = .task && e.event.isReconnect

/-- Whether an episode ended with the connection recovered. -/
def Event.isResumed : Event → Bool
  | .ended .resumed => true
  | _ => false

/-- Whether the latest chapter has no end yet. -/
def Open (journal : List Entry) : Prop :=
  ∃ c older, chapters journal = c :: older ∧ c.ending = none

/-- Whether the task has reconnected, and has taken nothing out of the stream since. -/
def Clear (journal : List Entry) : Prop :=
  ∃ mid r earlier, journal = mid ++ r :: earlier ∧ r.isOwnReconnect ∧
    ∀ m ∈ mid, m.isOwnReconnect = false ∧ m.event.settled? = none

/-- What an entry says about those before it. -/
structure Proper (e : Entry) (past : List Entry) : Prop where
  /-- A reconnect leaves no error behind it. -/
  reconnect : e.isOwnReconnect → accepted past = (settled past).map Prod.fst
  /-- After a dropped error comes another one or the reconnect. -/
  discard : ∀ d, past.head? = some d → d.event.isDiscard →
    e.event.isDiscard ∨ e.isOwnReconnect
  /-- Errors are dropped, and episodes end, only in an episode. -/
  within : e.event.isDiscard ∨ e.event.isEnding → Open past
  resumed : e.event.isResumed → Clear past

/-- Whether an entry neither drops an error nor ends an episode nor is a reconnect of the task. -/
def Entry.isPlain (e : Entry) : Bool :=
  !e.event.isDiscard && !e.event.isEnding && !e.isOwnReconnect

theorem Event.eq_of_isResumed {event : Event} (hResumed : event.isResumed) :
    event = .ended .resumed := by
  unfold isResumed at hResumed
  split at hResumed
  · rfl
  · cases hResumed

theorem Event.isEnding_of_isResumed {event : Event} (hResumed : event.isResumed) :
    event.isEnding := by
  rw [eq_of_isResumed hResumed]
  rfl

theorem Entry.isPlain_iff {e : Entry} :
    e.isPlain ↔
      e.event.isDiscard = false ∧ e.event.isEnding = false ∧ e.isOwnReconnect = false := by
  simp [Entry.isPlain, and_assoc]

/-- Whether the latest entry is not an error being dropped. -/
def Finished (journal : List Entry) : Prop :=
  ∀ d, journal.head? = some d → d.event.isDiscard = false

theorem Proper.plain {e : Entry} {past : List Entry} (hPlain : e.isPlain)
    (hFinished : Finished past) : Proper e past := by
  obtain ⟨hDiscard, hEnding, hReconnect⟩ := Entry.isPlain_iff.mp hPlain
  constructor
  · intro h
    rw [hReconnect] at h
    cases h
  · intro d hHead h
    rw [hFinished d hHead] at h
    cases h
  · intro h
    rw [hDiscard, hEnding] at h
    simp at h
  · intro h
    rw [Event.isEnding_of_isResumed h] at hEnding
    cases hEnding

theorem finished_cons {e : Entry} {journal : List Entry} (hDiscard : e.event.isDiscard = false) :
    Finished (e :: journal) := by
  intro d hHead
  cases hHead
  exact hDiscard

/-- Plain entries say nothing about those before them. -/
theorem proper_append {later journal : List Entry} (hPlain : ∀ e ∈ later, e.isPlain)
    (hFinished : Finished journal) (hAlways : Always Proper journal) :
    Always Proper (later ++ journal) ∧ Finished (later ++ journal) := by
  induction later with
  | nil => exact ⟨hAlways, hFinished⟩
  | cons e later ih =>
    obtain ⟨hRest, hDone⟩ := ih fun e' he' => hPlain e' (List.mem_cons_of_mem e he')
    have hHead := hPlain e List.mem_cons_self
    exact ⟨always_cons (.plain hHead hDone) hRest, finished_cons (Entry.isPlain_iff.mp hHead).1⟩

/-- The end of an episode. -/
theorem proper_ended {e : Entry} {past : List Entry} (hEnding : e.event.isEnding)
    (hOpen : Open past) (hClear : e.event.isResumed → Clear past) (hFinished : Finished past)
    (hAlways : Always Proper past) : Always Proper (e :: past) ∧ Finished (e :: past) := by
  have hEvent : e.event.isDiscard = false ∧ e.isOwnReconnect = false := by
    cases hEvent : e.event <;>
      simp_all [Event.isEnding, Event.isDiscard, Entry.isOwnReconnect, Event.isReconnect]
  refine ⟨always_cons ⟨?_, ?_, fun _ => hOpen, hClear⟩ hAlways, finished_cons hEvent.1⟩
  · intro h
    rw [hEvent.2] at h
    cases h
  · intro d hHead h
    rw [hFinished d hHead] at h
    cases h

theorem open_append {later journal : List Entry} (hTurns : ∀ e ∈ later, e.event.isTurn = false)
    (hOpen : Open journal) : Open (later ++ journal) := by
  obtain ⟨c, older, hChapters, hEnding⟩ := hOpen
  refine ⟨{ c with calls := c.calls ++ ownCalls later }, older, ?_, hEnding⟩
  rw [chapters_append journal hTurns, hChapters]
  rfl

theorem Event.plain_of_isDiscard {event : Event} (hDiscard : event.isDiscard) :
    event.isTurn = false ∧ event.isResumed = false ∧ event.isReconnect = false := by
  cases event <;> simp_all [Event.isDiscard, Event.isTurn, Event.isResumed, Event.isReconnect]

/-- Errors being dropped in an episode. -/
theorem proper_discards {later journal : List Entry} (hDiscards : ∀ e ∈ later, e.event.isDiscard)
    (hOpen : Open journal) (hAlways : Always Proper journal) :
    Always Proper (later ++ journal) := by
  induction later with
  | nil => exact hAlways
  | cons e later ih =>
    have hRest := ih fun e' he' => hDiscards e' (List.mem_cons_of_mem e he')
    have hDiscard := hDiscards e List.mem_cons_self
    obtain ⟨-, hResumed, hReconnect⟩ := Event.plain_of_isDiscard hDiscard
    refine always_cons ⟨?_, fun _ _ _ => .inl hDiscard, fun _ => ?_, ?_⟩ hRest
    · intro h
      rw [Entry.isOwnReconnect, hReconnect, Bool.and_false] at h
      cases h
    · refine open_append (fun e' he' => ?_) hOpen
      exact (Event.plain_of_isDiscard (hDiscards e' (List.mem_cons_of_mem e he'))).1
    · intro h
      rw [hResumed] at h
      cases h

/-- A reconnect of the task when nothing is left in the stream. -/
theorem proper_reconnect {r : Entry} {past : List Entry} (hReconnect : r.isOwnReconnect)
    (hSettled : accepted past = (settled past).map Prod.fst) (hAlways : Always Proper past) :
    Always Proper (r :: past) ∧ Finished (r :: past) := by
  have hEvent : r.event.isDiscard = false ∧ r.event.isEnding = false := by
    cases hEvent : r.event <;>
      simp_all [Event.isEnding, Event.isDiscard, Entry.isOwnReconnect, Event.isReconnect]
  refine ⟨always_cons ⟨fun _ => hSettled, fun _ _ _ => .inr hReconnect, ?_, ?_⟩ hAlways,
    finished_cons hEvent.1⟩
  · intro h
    rw [hEvent.1, hEvent.2] at h
    simp at h
  · intro h
    rw [Event.isEnding_of_isResumed h] at hEvent
    cases hEvent.2

theorem clear_append {later journal : List Entry}
    (hLater : ∀ e ∈ later, e.isOwnReconnect = false ∧ e.event.settled? = none)
    (hClear : Clear journal) : Clear (later ++ journal) := by
  obtain ⟨mid, r, earlier, rfl, hReconnect, hMid⟩ := hClear
  refine ⟨later ++ mid, r, earlier, (List.append_assoc ..).symm, hReconnect, ?_⟩
  intro m hm
  rcases List.mem_append.mp hm with hm | hm
  · exact hLater m hm
  · exact hMid m hm

-- ---------------------------------------------------------------------------
-- The invariant
-- ---------------------------------------------------------------------------

/-- Whether a new connection is in place. -/
def Stage.isConnected : Stage → Bool
  | .announcing .. | .listening _ | .reconciling _ => true
  | _ => false

namespace World

/-- The journal tells what became of the errors, and how it stands with the stream. -/
structure Traced (w : World) : Prop where
  proper : Always Proper (deeds w.journal)
  finished : Finished (deeds w.journal)
  fifo : accepted (deeds w.journal) = (settled (deeds w.journal)).map Prod.fst ++ w.errors
  clear : ∀ ep, w.task = .recovering ep → ep.stage.isConnected → Clear (deeds w.journal)
  /-- A task that ended by itself after an episode that recovered left nothing in the stream. -/
  emptied : w.task.isEnded → w.isOpen → ∀ c, (chapters (deeds w.journal)).head? = some c →
    c.ending = some .resumed → w.errors = []

theorem Chronicle.open {w : World} {ep : Episode} (hChronicle : w.Chronicle)
    (hTask : w.task = .recovering ep) : Open (deeds w.journal) := by
  obtain ⟨c, older, hChapters, -, hCurrent⟩ := hChronicle.current ep hTask
  exact ⟨c, older, hChapters, hCurrent.ending⟩

/-- The entries around the end of an episode. -/
theorem Traced.turn {w : World} {e : Entry} {before after : List Entry} (hTraced : w.Traced)
    (hBefore : ∀ e ∈ before, e.isPlain) (hAfter : ∀ e ∈ after, e.isPlain)
    (hEnding : e.event.isEnding) (hOpen : Open (before ++ deeds w.journal))
    (hClear : e.event.isResumed → Clear (before ++ deeds w.journal)) :
    Always Proper (after ++ e :: (before ++ deeds w.journal)) ∧
      Finished (after ++ e :: (before ++ deeds w.journal)) := by
  obtain ⟨hAlways, hFinished⟩ := proper_append hBefore hTraced.finished hTraced.proper
  obtain ⟨hAlways, hFinished⟩ := proper_ended hEnding hOpen hClear hFinished hAlways
  exact proper_append hAfter hFinished hAlways

section

attribute [local simp] own guest raised Entry.isPlain Entry.isOwnReconnect Event.isReconnect
  Event.isEnding Event.isDiscard Event.isTurn Event.isResumed Event.settled? Event.accepted?

theorem isPlain_ended (w : World) : ∀ e ∈ w.own .stopped :: w.disposal .task, e.isPlain := by
  simp

theorem proper_install {w : World} (hTraced : w.Traced) (hOpen : Open (deeds w.journal)) :
    Always Proper (w.own (.positionsRead w.implied w.position) ::
        (w.raised (w.bursts.headD 0) ++ w.own (.reconnected (.request (w.connections + 1))) ::
          (w.drained ++ [w.own (.demultiplexed (w.connections + 1))])) ++ deeds w.journal) ∧
      Finished (w.own (.positionsRead w.implied w.position) ::
        (w.raised (w.bursts.headD 0) ++ w.own (.reconnected (.request (w.connections + 1))) ::
          (w.drained ++ [w.own (.demultiplexed (w.connections + 1))])) ++ deeds w.journal) := by
  -- the errors that wait are dropped, which leaves nothing for the reconnect
  have hDemux : ∀ e ∈ [w.own (.demultiplexed (w.connections + 1))], e.isPlain := by simp
  have hDiscards : ∀ e ∈ w.drained, e.event.isDiscard := by simp
  have hArrived : ∀ e ∈ w.own (.positionsRead w.implied w.position) ::
      w.raised (w.bursts.headD 0), e.isPlain := by
    simp
  have hReconnect : (w.own (.reconnected (.request (w.connections + 1)))).isOwnReconnect := by simp
  have hSplit : Open ([w.own (.demultiplexed (w.connections + 1))] ++ deeds w.journal) :=
    open_append (by simp) hOpen
  have hFirst := (proper_append hDemux hTraced.finished hTraced.proper).1
  have hDrained := proper_discards hDiscards hSplit hFirst
  have hSettled : accepted (w.drained ++ ([w.own (.demultiplexed (w.connections + 1))] ++
      deeds w.journal)) = (settled (w.drained ++ ([w.own (.demultiplexed (w.connections + 1))] ++
        deeds w.journal))).map Prod.fst := by
    simp [hTraced.fifo, Function.comp_def]
  obtain ⟨hAlways, hFinished⟩ := proper_reconnect hReconnect hSettled hDrained
  have hLast := proper_append hArrived hFinished hAlways
  simpa only [List.append_assoc, List.cons_append, List.nil_append] using hLast

theorem proper_stride {w w' : World} {written : List Entry} (hTraced : w.Traced)
    (hChronicle : w.Chronicle) (hStride : Stride w written w') :
    Always Proper (written ++ deeds w.journal) ∧ Finished (written ++ deeds w.journal) := by
  have hNone : ∀ e ∈ ([] : List Entry), e.isPlain := by simp
  cases hStride with
  | stop | begin | consult | backOff | dialNobody | dial | refuse | announce | hearNothing
  | hearNoise | hear =>
    exact proper_append (by simp [or_imp, forall_and]) hTraced.finished hTraced.proper
  | install hTask => exact proper_install hTraced (hChronicle.open hTask)
  | @beginBare error errors hTask hErrors hBound =>
    have hTaken : ∀ e ∈ [w.own (.taken error)], e.isPlain := by simp
    have hOpen : Open ([w.own (.taken error)] ++ deeds w.journal) := ⟨_, _, rfl, rfl⟩
    have hTurn := hTraced.turn (e := w.own (.ended (.failed .missingToken))) hTaken
      (isPlain_ended w) rfl hOpen (by simp)
    simpa using hTurn
  | @announceNothing ep channel implied position cause hTask =>
    have hTurn := hTraced.turn (e := w.own (.ended (.failed (.encode cause)))) hNone
      (isPlain_ended w) rfl (hChronicle.open hTask) (by simp)
    simpa using hTurn
  | cut hTask =>
    have hTurn := hTraced.turn (e := w.own (.ended .cut)) hNone (isPlain_ended w) rfl
      (hChronicle.open hTask) (by simp)
    simpa using hTurn
  | @reject ep work error hTask =>
    have hBefore : ∀ e ∈ w.disposal .task ++
        w.own (.sent (rejection work.position) w.sendsFail w.pool.counts) ::
          w.own (.reconciled (some error)) :: w.raised work.reply.raises, e.isPlain := by
      simp [or_imp, forall_and]
    have hAfter : ∀ e ∈ [w.own .stopped], e.isPlain := by simp
    have hOpen : Open ((w.disposal .task ++
        w.own (.sent (rejection work.position) w.sendsFail w.pool.counts) ::
          w.own (.reconciled (some error)) :: w.raised work.reply.raises) ++ deeds w.journal) :=
      open_append (by simp [or_imp, forall_and]) (hChronicle.open hTask)
    exact hTraced.turn (e := w.own (.ended .rejected)) hBefore hAfter rfl hOpen (by simp)
  | @resume ep work hTask hStage =>
    have hBefore : ∀ e ∈ w.own (.reconciled none) :: w.raised work.reply.raises, e.isPlain := by
      simp
    have hOpen : Open ((w.own (.reconciled none) :: w.raised work.reply.raises) ++
        deeds w.journal) :=
      open_append (by simp) (hChronicle.open hTask)
    have hClear : Clear ((w.own (.reconciled none) :: w.raised work.reply.raises) ++
        deeds w.journal) :=
      clear_append (by simp) (hTraced.clear ep hTask (by rw [hStage]; rfl))
    exact hTraced.turn (e := w.own (.ended .resumed)) hBefore hNone rfl hOpen fun _ => hClear

theorem proper_change {w w' : World} {action : Action} {written : List Entry} (hTraced : w.Traced)
    (hChronicle : w.Chronicle) (hChange : Change w action written w') :
    Always Proper (written ++ deeds w.journal) ∧ Finished (written ++ deeds w.journal) := by
  cases hChange with
  | work hStride => exact proper_stride hTraced hChronicle hStride
  | @dropRecovering ep hTask =>
    have hNone : ∀ e ∈ ([] : List Entry), e.isPlain := by simp
    have hAfter : ∀ e ∈ [w.guest .dropped], e.isPlain := by simp
    exact hTraced.turn (e := w.guest (.ended .dropped)) hNone hAfter rfl (hChronicle.open hTask)
      (by simp)
  | _ => exact proper_append (by simp [or_imp, forall_and]) hTraced.finished hTraced.proper

theorem clear_stride {w w' : World} {written : List Entry} {ep' : Episode} (hTraced : w.Traced)
    (hStride : Stride w written w') (hTask' : w'.task = .recovering ep')
    (hConnected : ep'.stage.isConnected) : Clear (written ++ deeds w.journal) := by
  cases hStride with
  | stop | beginBare | announceNothing | resume | reject | cut => simp at hTask'
  | begin | consult | backOff | dialNobody | dial | refuse | hearNothing | hearNoise =>
    cases hTask'
    cases hConnected
  | install =>
    refine ⟨w.own (.positionsRead w.implied w.position) :: w.raised (w.bursts.headD 0),
      w.own (.reconnected (.request (w.connections + 1))),
      w.drained ++ [w.own (.demultiplexed (w.connections + 1))] ++ deeds w.journal, ?_, ?_, ?_⟩
    · simp
    · simp
    · simp
  | announce hTask hStage =>
    exact clear_append (by simp) (hTraced.clear _ hTask (by rw [hStage]; rfl))
  | hear hTask hStage =>
    exact clear_append (by simp) (hTraced.clear _ hTask (by rw [hStage]; rfl))

theorem clear_change {w w' : World} {action : Action} {written : List Entry} {ep' : Episode}
    (hTraced : w.Traced) (hChange : Change w action written w')
    (hTask' : w'.task = .recovering ep') (hConnected : ep'.stage.isConnected) :
    Clear (written ++ deeds w.journal) := by
  cases hChange with
  | work hStride => exact clear_stride hTraced hStride hTask' hConnected
  | quiet _ hSame =>
    exact hTraced.clear ep' (hSame.task.symm.trans hTask') hConnected
  | drop | dropRecovering => cases hTask'
  | _ =>
    refine clear_append (by simp [or_imp, forall_and]) (hTraced.clear ep' ?_ hConnected)
    simpa [World.bind, releaseHeld] using hTask'

theorem ending_of_head {after past : List Entry} {time : Nat} {actor : Actor} {how : Ending}
    {c : Chapter} (hAfter : ∀ e ∈ after, e.event.isTurn = false)
    (hHead : (chapters (after ++ ⟨time, actor, .ended how⟩ :: past)).head? = some c) :
    c.ending = some how := by
  rw [chapters_append _ hAfter, chapters_ended] at hHead
  cases hChapters : chapters past with
  | nil => simp [hChapters] at hHead
  | cons c' older =>
    simp only [hChapters, List.modifyHead_cons, List.head?_cons, Option.some.injEq] at hHead
    rw [← hHead]

theorem emptied_stride {w w' : World} {written : List Entry} {c : Chapter}
    (hStride : Stride w written w') (hEnded : w'.task.isEnded)
    (hHead : (chapters (written ++ deeds w.journal)).head? = some c)
    (hResumed : c.ending = some .resumed) : w'.errors = [] := by
  cases hStride with
  | stop hTask hErrors => simpa using hErrors
  | begin | consult | backOff | dialNobody | dial | refuse | install | announce | hearNothing
  | hearNoise | hear | resume => simp [Task.isEnded] at hEnded
  | beginBare | announceNothing | cut =>
    -- the last chapter has just ended in another way
    rw [List.cons_append, List.append_assoc, ← List.cons_append] at hHead
    have hHow := ending_of_head (isTurn_ended w) hHead
    rw [hResumed] at hHow
    cases hHow
  | reject =>
    rw [List.cons_append, List.cons_append, ← List.singleton_append] at hHead
    have hHow := ending_of_head (by simp) hHead
    rw [hResumed] at hHow
    cases hHow

/-- Once the task is over nothing is put into the stream. -/
theorem errors_of_ended {w w' : World} {action : Action} {written : List Entry}
    (hEnded : w.task.isEnded) (hChange : Change w action written w') : w'.errors = w.errors := by
  cases hChange with
  | work hStride => exact absurd hStride (not_stride_of_ended hEnded)
  | quiet _ hSame => exact hSame.errors
  | bind => simp [World.bind]
  | hold | releaseHeld => rfl
  | _ => simp [taking, listens, hEnded]

theorem emptied_change {w w' : World} {action : Action} {written : List Entry} {c : Chapter}
    (hTraced : w.Traced) (hChange : Change w action written w') (hEnded : w'.task.isEnded)
    (hOpen : w'.isOpen) (hHead : (chapters (deeds w'.journal)).head? = some c)
    (hResumed : c.ending = some .resumed) : w'.errors = [] := by
  by_cases hAction : action = .work
  · subst hAction
    rw [deeds_change hChange] at hHead
    cases hChange with
    | work hStride => exact emptied_stride hStride hEnded hHead hResumed
    | quiet hWork => exact absurd rfl hWork
  · have hSame : w.task.isEnded ∧ w.isOpen ∧ ∀ e ∈ written, e.event.isTurn = false := by
      cases hChange with
      | work => exact absurd rfl hAction
      | quiet _ hSame =>
        rw [hSame.task] at hEnded
        rw [hSame.isOpen] at hOpen
        exact ⟨hEnded, hOpen, by simp⟩
      | drop | dropRecovering => cases hOpen
      | _ =>
        simp [World.bind, releaseHeld] at hEnded hOpen
        simp [hEnded, hOpen, or_imp, forall_and]
    obtain ⟨hBefore, hStill, hTurns⟩ := hSame
    rw [deeds_change hChange, chapters_append_of_ownCalls _ hTurns
      (ownCalls_of_actor (actor_change hAction hChange))] at hHead
    rw [errors_of_ended hBefore hChange]
    exact hTraced.emptied hBefore hStill c hHead hResumed

theorem traced_change {w w' : World} {action : Action} {written : List Entry} (hTraced : w.Traced)
    (hChronicle : w.Chronicle) (hChange : Change w action written w') : w'.Traced := by
  have hDeeds := deeds_change hChange
  obtain ⟨hAlways, hFinished⟩ := proper_change hTraced hChronicle hChange
  constructor
  · rw [hDeeds]
    exact hAlways
  · rw [hDeeds]
    exact hFinished
  · rw [hDeeds]
    exact fifo_change hTraced.fifo hChange
  · intro ep hTask hConnected
    rw [hDeeds]
    exact clear_change hTraced hChange hTask hConnected
  · intro hEnded hOpen c hHead hResumed
    exact emptied_change hTraced hChange hEnded hOpen hHead hResumed

end

end World

theorem Reachable.traced {w : World} (hReach : Reachable w) : w.Traced := by
  refine hReach.induct ?_ fun hReach hTraced hChange =>
    World.traced_change hTraced hReach.chronicle hChange
  intro config tokens reconciliations bursts
  have hNone : deeds (World.initial config tokens reconciliations bursts).journal = [] := rfl
  constructor
  · rw [hNone]
    exact always_nil
  · intro d hHead
    cases hHead
  · rfl
  · intro ep hTask
    cases hTask
  · intro hEnded
    cases hEnded

-- ---------------------------------------------------------------------------
-- What becomes of the errors
-- ---------------------------------------------------------------------------

/-- A dropped error is followed by others of its kind, up to the reconnect if that has come. -/
theorem discards_or_reconnect {later earlier : List Entry} {d : Entry}
    (hAlways : Always Proper (later ++ d :: earlier)) (hDiscard : d.event.isDiscard) :
    (∀ e ∈ later, e.event.isDiscard) ∨
      ∃ after r between, later = after ++ r :: between ∧ r.isOwnReconnect ∧
        ∀ e ∈ between, e.event.isDiscard := by
  induction later with
  | nil => exact .inl (by simp)
  | cons e later ih =>
    have hTail : Always Proper ([e] ++ (later ++ d :: earlier)) := hAlways
    rcases ih hTail.tail with hAll | ⟨after, r, between, rfl, hReconnect, hBetween⟩
    · -- the entry before this one is still an error being dropped
      obtain ⟨d', hHead, hDiscard'⟩ : ∃ d', (later ++ d :: earlier).head? = some d' ∧
          d'.event.isDiscard := by
        cases later with
        | nil => exact ⟨d, rfl, hDiscard⟩
        | cons d' later => exact ⟨d', rfl, hAll d' List.mem_cons_self⟩
      rcases (hAlways [] e _ rfl).discard d' hHead hDiscard' with hMore | hReconnect
      · left
        intro e' he'
        rcases List.mem_cons.mp he' with rfl | he'
        · exact hMore
        · exact hAll e' he'
      · exact .inr ⟨[], e, later, rfl, hReconnect, hAll⟩
    · exact .inr ⟨e :: after, r, between, rfl, hReconnect, hBetween⟩

theorem exists_first_settled {journal : List Entry} {s : LinkError × Fate}
    {more : List (LinkError × Fate)} (hSettled : settled journal = s :: more) :
    ∃ later e earlier, journal = later ++ e :: earlier ∧
      (∀ e' ∈ earlier, e'.event.settled? = none) ∧ e.event.settled? = some s := by
  induction journal generalizing more with
  | nil => cases hSettled
  | cons e journal ih =>
    rw [settled_cons] at hSettled
    cases hRest : settled journal with
    | nil =>
      refine ⟨[], e, journal, rfl, settled_eq_nil.mp hRest, ?_⟩
      cases hEvent : e.event.settled? with
      | none => simp [hRest, hEvent] at hSettled
      | some s' =>
        simp only [hRest, hEvent, Option.toList_some, List.nil_append, List.cons.injEq] at hSettled
        rw [hSettled.1]
    | cons s' rest =>
      rw [hRest, List.cons_append, List.cons.injEq] at hSettled
      rw [hSettled.1] at hRest
      obtain ⟨later, e', earlier, rfl, hNone, hFirst⟩ := ih hRest
      exact ⟨e :: later, e', earlier, rfl, hNone, hFirst⟩

theorem not_open_of_ending {journal : List Entry} {c : Chapter} {older : List Chapter}
    {how : Ending} (hChapters : chapters journal = c :: older) (hEnding : c.ending = some how) :
    ¬ Open journal := by
  rintro ⟨c', older', hChapters', hOpen⟩
  rw [hChapters] at hChapters'
  cases hChapters'
  rw [hEnding] at hOpen
  cases hOpen

/-- After an episode that recovered the connection no other begins by itself. -/
theorem resumed_head {later past : List Entry} {e : Entry}
    (hAlways : Always Proper (later ++ e :: past)) (hResumed : e.event.isResumed)
    (hNone : ∀ x ∈ later, x.event.settled? = none) :
    ∃ c older, chapters (later ++ e :: past) = c :: older ∧ c.ending = some .resumed := by
  induction later with
  | nil =>
    have hProper := hAlways [] e past rfl
    obtain ⟨c, older, hChapters, -⟩ :=
      hProper.within (.inr (Event.isEnding_of_isResumed hResumed))
    obtain ⟨time, actor, event⟩ := e
    have hEvent : event = .ended .resumed := Event.eq_of_isResumed hResumed
    subst hEvent
    rw [List.nil_append, chapters_ended, hChapters]
    exact ⟨_, _, rfl, rfl⟩
  | cons x later ih =>
    have hTail : Always Proper ([x] ++ (later ++ e :: past)) := hAlways
    obtain ⟨c, older, hChapters, hEnding⟩ :=
      ih hTail.tail fun y hy => hNone y (List.mem_cons_of_mem x hy)
    have hClosed := not_open_of_ending hChapters hEnding
    -- nothing is taken out of the stream, and what has ended cannot end again
    have hTurn : x.event.isTurn = false := by
      have hStill := hNone x List.mem_cons_self
      have hWithin := (hAlways [] x _ rfl).within
      cases hEvent : x.event with
      | taken error => simp [hEvent, Event.settled?] at hStill
      | ended how => exact absurd (hWithin (.inr (by rw [hEvent]; rfl))) hClosed
      | _ => rfl
    rw [List.cons_append, chapters_cons hTurn, hChapters]
    exact ⟨_, _, rfl, hEnding⟩

theorem closed_of_resumed {later past : List Entry} {e : Entry}
    (hAlways : Always Proper (later ++ e :: past)) (hResumed : e.event.isResumed)
    (hNone : ∀ x ∈ later, x.event.settled? = none) : ¬ Open (later ++ e :: past) := by
  obtain ⟨c, older, hChapters, hEnding⟩ := resumed_head hAlways hResumed hNone
  exact not_open_of_ending hChapters hEnding

/-- What becomes of the errors of a session. Entries that are mere notices are left out, and the
latest entry comes first. -/
structure World.Orderly (w : World) : Prop where
  /-- Every error that the stream took has one fate, and the first come is the first served. -/
  fifo : accepted w.journal = w.fates.map Prod.fst
  /-- The errors that began an episode are the causes of the episodes, each of one. -/
  causes : ((chapters w.journal).map Chapter.cause).reverse =
    (w.fates.filter fun fate => fate.2 = .began).map Prod.fst
  /-- Errors are dropped right before the task reconnects. -/
  discards : ∀ later d earlier, deeds w.journal = later ++ d :: earlier → d.event.isDiscard →
    ∃ after r between, later = after ++ r :: between ∧ r.isOwnReconnect ∧
      ∀ e ∈ between, e.event.isDiscard
  /-- All errors that came before a reconnect of the task are settled by then, and what is settled
  or waits afterwards came afterwards. -/
  reconnects : ∀ later r earlier, deeds w.journal = later ++ r :: earlier → r.isOwnReconnect →
    accepted earlier = (settled earlier).map Prod.fst ∧
      accepted later = (settled later).map Prod.fst ++ w.errors
  /-- From the last reconnect of an episode that recovers the connection to its end no error is
  taken out of the stream. The first that came after that reconnect is the first to be taken
  afterwards, and it begins an episode. While it waits the task can do nothing else, and no time
  can pass. -/
  resumed : ∀ later e past, deeds w.journal = later ++ e :: past → e.event.isResumed →
    ∃ mid r earlier, past = mid ++ r :: earlier ∧ r.isOwnReconnect ∧
      (∀ m ∈ mid, m.isOwnReconnect = false ∧ m.event.settled? = none) ∧
      (∀ error fate more, settled later = (error, fate) :: more →
        fate = .began ∧ (accepted (later ++ e :: mid)).head? = some error) ∧
      (∀ error more, settled later = [] → accepted (later ++ e :: mid) = error :: more → w.isOpen →
        w.errors = error :: more ∧ w.step = some ({ w with errors := more }.begin error) ∧
          ∀ millis, w.act (.elapse millis) = none)

namespace World

theorem Traced.reconnects {w : World} {later earlier : List Entry} {r : Entry} (hTraced : w.Traced)
    (hSplit : deeds w.journal = later ++ r :: earlier) (hReconnect : r.isOwnReconnect) :
    accepted earlier = (settled earlier).map Prod.fst ∧
      accepted later = (settled later).map Prod.fst ++ w.errors := by
  have hBefore := (hTraced.proper later r earlier hSplit).reconnect hReconnect
  have hPlain : r.event.accepted? = none ∧ r.event.settled? = none := by
    cases hEvent : r.event <;>
      simp_all [Entry.isOwnReconnect, Event.isReconnect, Event.accepted?, Event.settled?]
  have hFifo := hTraced.fifo
  rw [hSplit] at hFifo
  simp only [accepted_append, settled_append, accepted_cons, settled_cons, hPlain, hBefore,
    Option.toList_none, List.append_nil, List.map_append, List.append_assoc] at hFifo
  exact ⟨hBefore, List.append_cancel_left hFifo⟩

theorem step_of_queued {w : World} {error : LinkError} {more : List LinkError}
    (hTask : w.task = .idle) (hErrors : w.errors = error :: more) :
    w.step = some ({ w with errors := more }.begin error) ∧
      ∀ millis, w.act (.elapse millis) = none := by
  have hStep : w.step = some ({ w with errors := more }.begin error) := by
    rw [step_idle hTask]
    simp only [hErrors]
  refine ⟨hStep, fun millis => ?_⟩
  simp only [act, mayReach, hStep, Option.isNone_some, Bool.false_and, Bool.false_eq_true, if_false]

/-- An error that came after the last reconnect and still waits is what the task turns to next. -/
theorem Traced.next {w : World} {later past : List Entry} {e : Entry} {error : LinkError}
    {more : List LinkError} (hTraced : w.Traced) (hChronicle : w.Chronicle)
    (hSplit : deeds w.journal = later ++ e :: past) (hResumed : e.event.isResumed)
    (hNone : ∀ x ∈ later, x.event.settled? = none) (hErrors : w.errors = error :: more)
    (hOpen : w.isOpen) : w.task = .idle := by
  have hProper := hTraced.proper
  rw [hSplit] at hProper
  cases hTask : w.task with
  | idle => rfl
  | recovering ep =>
    -- nothing began an episode since
    have hCurrent := hChronicle.open hTask
    rw [hSplit] at hCurrent
    exact absurd hCurrent (closed_of_resumed hProper hResumed hNone)
  | ended =>
    obtain ⟨c, older, hChapters, hEnding⟩ := resumed_head hProper hResumed hNone
    have hEmpty := hTraced.emptied (by rw [hTask]; rfl) hOpen c
      (by rw [hSplit, hChapters]; rfl) hEnding
    rw [hErrors] at hEmpty
    cases hEmpty

/-- Errors are dropped right before a reconnect. -/
theorem Traced.discards {w : World} {later earlier : List Entry} {d : Entry} (hTraced : w.Traced)
    (hSplit : deeds w.journal = later ++ d :: earlier) (hDiscard : d.event.isDiscard) :
    ∃ after r between, later = after ++ r :: between ∧ r.isOwnReconnect ∧
      ∀ e ∈ between, e.event.isDiscard := by
  have hProper := hTraced.proper
  rw [hSplit] at hProper
  rcases discards_or_reconnect hProper hDiscard with hAll | hReconnect
  · -- the latest entry would be an error being dropped
    have hFinished := hTraced.finished
    rw [hSplit] at hFinished
    cases later with
    | nil =>
      rw [hFinished d rfl] at hDiscard
      cases hDiscard
    | cons e later =>
      have hHead := hAll e List.mem_cons_self
      rw [hFinished e rfl] at hHead
      cases hHead
  · exact hReconnect

/-- What came after the last reconnect of an episode that recovered the connection is settled after
that episode, or waits. -/
theorem Traced.since {w : World} {later mid earlier : List Entry} {e r : Entry}
    (hTraced : w.Traced) (hSplit : deeds w.journal = later ++ e :: (mid ++ r :: earlier))
    (hResumed : e.event.isResumed) (hReconnect : r.isOwnReconnect)
    (hMid : ∀ m ∈ mid, m.event.settled? = none) :
    accepted (later ++ e :: mid) = (settled later).map Prod.fst ++ w.errors := by
  have hParts : deeds w.journal = (later ++ e :: mid) ++ r :: earlier := by
    rw [hSplit, List.append_assoc, List.cons_append]
  have hQuiet : settled mid = [] := settled_eq_nil.mpr hMid
  have hEnd : e.event.settled? = none := by
    rw [Event.eq_of_isResumed hResumed]
    rfl
  rw [(hTraced.reconnects hParts hReconnect).2, settled_append, settled_cons, hQuiet, hEnd]
  rfl

/-- The first error taken out of the stream after an episode that recovered the connection begins
another episode: it could be dropped only in one. -/
theorem Traced.began {w : World} {later past : List Entry} {e : Entry} {error : LinkError}
    {fate : Fate} {more : List (LinkError × Fate)} (hTraced : w.Traced)
    (hSplit : deeds w.journal = later ++ e :: past) (hResumed : e.event.isResumed)
    (hSettled : settled later = (error, fate) :: more) : fate = .began := by
  obtain ⟨later', x, between, rfl, hNone, hFirst⟩ := exists_first_settled hSettled
  have hProper := hTraced.proper
  rw [hSplit, List.append_assoc, List.cons_append] at hProper
  have hTail : Always Proper ((later' ++ [x]) ++ (between ++ e :: past)) := by
    rw [List.append_assoc]
    exact hProper
  have hClosed := closed_of_resumed hTail.tail hResumed hNone
  have hWithin := (hProper later' x _ rfl).within
  cases hEvent : x.event with
  | taken _ =>
    rw [hEvent] at hFirst
    cases hFirst
    rfl
  | discarded _ =>
    rw [hEvent] at hWithin
    exact absurd (hWithin (.inl rfl)) hClosed
  | _ =>
    rw [hEvent] at hFirst
    cases hFirst

end World

/-- Every run is orderly. -/
theorem orderly_of_reachable {w : World} (hReach : Reachable w) : w.Orderly := by
  have hTraced := hReach.traced
  constructor
  · have hFifo := hTraced.fifo
    rw [accepted_deeds, settled_deeds] at hFifo
    rw [hFifo, World.fates]
    simp [Function.comp_def]
  · rw [causes_eq, World.fates]
    simp [List.filter_append, List.filter_map, Function.comp_def]
  · intro later d earlier hSplit hDiscard
    exact hTraced.discards hSplit hDiscard
  · intro later r earlier hSplit hReconnect
    exact hTraced.reconnects hSplit hReconnect
  · intro later e past hSplit hResumed
    obtain ⟨mid, r, earlier, rfl, hReconnect, hMid⟩ :=
      (hTraced.proper later e past hSplit).resumed hResumed
    have hSince := hTraced.since hSplit hResumed hReconnect fun m hm => (hMid m hm).2
    refine ⟨mid, r, earlier, rfl, hReconnect, hMid, ?_, ?_⟩
    · intro error fate more hSettled
      refine ⟨hTraced.began hSplit hResumed hSettled, ?_⟩
      rw [hSince, hSettled]
      rfl
    · intro error more hSettled hAccepted hOpen
      have hErrors : w.errors = error :: more := by
        rw [← hAccepted, hSince, hSettled]
        rfl
      have hIdle := hTraced.next hReach.chronicle hSplit hResumed (settled_eq_nil.mp hSettled)
        hErrors hOpen
      exact ⟨hErrors, World.step_of_queued hIdle hErrors⟩

/-- One error comes while the task connects, and one while the positions are reconciled. -/
def World.renewing : List Action :=
  [.bind 0, .addReconciliation ⟨0, 1, none⟩,
    .setSupplier ⟨"next", [⟨1, 0, .connected ⟨[⟨0, World.sampleOk⟩], true⟩⟩]⟩,
    .fail .closed] ++ List.replicate 8 .work

theorem orderly_of_reachable_renewing :
    ∃ w, World.sample.run World.renewing = some w ∧
      w.fates.map Prod.snd = [.began, .discarded, .queued] ∧ w.Orderly := by
  have hFates : (World.sample.run World.renewing).map (fun w => w.fates.map Prod.snd) =
      some [.began, .discarded, .queued] := by
    decide +kernel
  obtain ⟨w, hRun, hOnce⟩ := Option.map_eq_some_iff.mp hFates
  exact ⟨w, hRun, hOnce, orderly_of_reachable (reachable_sample hRun)⟩

end Resumption
