import Resumption.Proofs.Shares

/-!
# The episodes of a journal

The journal of a session read as a list of episodes. An error that the task takes from the stream
opens a chapter, what the task does afterwards goes into it, and the end of the episode closes it.

* `Chapter` — one episode: its cause, the token bound at its beginning, the calls made, its end
* `chapters` — the episodes of a journal, latest first
* `chapters_append` — what is written down meanwhile goes into the latest chapter
* `covered_append` — no call is lost where a chapter is open
-/

namespace Resumption

-- ---------------------------------------------------------------------------
-- Entries
-- ---------------------------------------------------------------------------

/-- Whether an event is a call of a collaborator, the answer to one, or the beginning of an
attempt. -/
def Event.isCall : Event → Bool
  | .strategyMade | .consulted .. | .advised _ | .attempted | .dialled _ | .refused _
  | .demultiplexed _ | .reconnected _ | .positionsRead .. | .sent .. | .listened _ | .heard _
  | .reconciling .. | .reconciled _ | .disposed => true
  | .told .. | .entered _ | .accepted _ | .taken _ | .discarded _ | .ended _ | .returned _
  | .bound _ | .stopped | .dropped => false

/-- Whether an episode begins or ends. -/
def Event.isTurn : Event → Bool
  | .taken _ | .ended _ => true
  | _ => false

def Event.isReconnect : Event → Bool
  | .reconnected _ => true
  | _ => false

/-- A call made by the task. -/
def Entry.isOwnCall (e : Entry) : Bool :=
  e.actor = .task && e.event.isCall

/-- The calls of the task, earliest first. -/
def ownCalls (journal : List Entry) : List Event :=
  ((journal.filter Entry.isOwnCall).map Entry.event).reverse

/-- Whether somebody but the task disposed the connection. -/
def disposedElsewhere (journal : List Entry) : Bool :=
  journal.any fun e => e.event.isDisposal && e.actor ≠ .task

@[simp] theorem ownCalls_nil : ownCalls [] = [] := rfl

@[simp] theorem ownCalls_cons (e : Entry) (journal : List Entry) :
    ownCalls (e :: journal) = ownCalls journal ++ if e.isOwnCall then [e.event] else [] := by
  rw [ownCalls, List.filter_cons]
  cases e.isOwnCall <;> simp [ownCalls]

@[simp] theorem ownCalls_append (later earlier : List Entry) :
    ownCalls (later ++ earlier) = ownCalls earlier ++ ownCalls later := by
  simp [ownCalls]

theorem ownCalls_eq_nil {journal : List Entry} :
    ownCalls journal = [] ↔ ∀ e ∈ journal, e.isOwnCall = false := by
  simp [ownCalls]

-- ---------------------------------------------------------------------------
-- Chapters
-- ---------------------------------------------------------------------------

structure Chapter where
  /-- The error that began it. -/
  cause : LinkError
  /-- The token bound at its beginning. -/
  token : Option Token.Id
  /-- The calls of the task with their answers, earliest first. -/
  calls : List Event
  /-- How it ended, if it has. -/
  ending : Option Ending
  /-- Whether somebody but the task had disposed the connection by its end. -/
  spent : Bool

/-- How an entry continues the chapter that is open. -/
def Chapter.continue (e : Entry) (journal : List Entry) (c : Chapter) : Chapter :=
  match e.event with
  | .ended how => { c with ending := some how, spent := disposedElsewhere journal }
  | event => if e.isOwnCall then { c with calls := c.calls ++ [event] } else c

/-- The episodes of a journal. Both are latest first. -/
def chapters : List Entry → List Chapter
  | [] => []
  | e :: journal =>
    match e.event with
    | .taken cause => ⟨cause, binding journal, [], none, false⟩ :: chapters journal
    | _ => (chapters journal).modifyHead (Chapter.continue e journal)

@[simp] theorem chapters_taken (time : Nat) (actor : Actor) (cause : LinkError)
    (journal : List Entry) :
    chapters (⟨time, actor, .taken cause⟩ :: journal) =
      ⟨cause, binding journal, [], none, false⟩ :: chapters journal :=
  rfl

@[simp] theorem chapters_ended (time : Nat) (actor : Actor) (how : Ending)
    (journal : List Entry) :
    chapters (⟨time, actor, .ended how⟩ :: journal) =
      (chapters journal).modifyHead fun c =>
        { c with ending := some how, spent := disposedElsewhere journal } :=
  rfl

theorem chapters_cons {e : Entry} {journal : List Entry} (hTurn : e.event.isTurn = false) :
    chapters (e :: journal) =
      (chapters journal).modifyHead fun c => { c with calls := c.calls ++ ownCalls [e] } := by
  have hContinue : Chapter.continue e journal =
      fun c => { c with calls := c.calls ++ ownCalls [e] } := by
    funext c
    cases hOwn : e.isOwnCall <;> cases hEvent : e.event <;>
      simp_all [Chapter.continue, Event.isTurn]
  rw [← hContinue]
  cases hEvent : e.event <;> simp_all [chapters, Event.isTurn]

/-- Between the turns everything goes into the latest chapter. -/
theorem chapters_append {later : List Entry} (journal : List Entry)
    (hTurns : ∀ e ∈ later, e.event.isTurn = false) :
    chapters (later ++ journal) =
      (chapters journal).modifyHead fun c => { c with calls := c.calls ++ ownCalls later } := by
  induction later with
  | nil => cases hChapters : chapters journal <;> simp [hChapters]
  | cons e later ih =>
    rw [List.cons_append, chapters_cons (hTurns e List.mem_cons_self),
      ih fun e' he' => hTurns e' (List.mem_cons_of_mem e he')]
    cases chapters journal with
    | nil => rfl
    | cons c older => simp

/-- What the task does not do leaves the chapters as they are. -/
theorem chapters_append_of_ownCalls {later : List Entry} (journal : List Entry)
    (hTurns : ∀ e ∈ later, e.event.isTurn = false) (hCalls : ownCalls later = []) :
    chapters (later ++ journal) = chapters journal := by
  rw [chapters_append journal hTurns, hCalls]
  cases chapters journal <;> simp

-- ---------------------------------------------------------------------------
-- No call is lost
-- ---------------------------------------------------------------------------

/-- Whether the chapters tell every call of the task, in order. -/
def Covered (journal : List Entry) : Prop :=
  (chapters journal).reverse.flatMap Chapter.calls = ownCalls journal

theorem covered_taken {time : Nat} {cause : LinkError} {journal : List Entry}
    (hCovered : Covered journal) : Covered (⟨time, .task, .taken cause⟩ :: journal) := by
  rw [Covered] at hCovered ⊢
  simp [hCovered, Entry.isOwnCall, Event.isCall]

theorem covered_ended {time : Nat} {actor : Actor} {how : Ending} {journal : List Entry}
    (hCovered : Covered journal) : Covered (⟨time, actor, .ended how⟩ :: journal) := by
  have hCall : (⟨time, actor, .ended how⟩ : Entry).isOwnCall = false := by
    simp [Entry.isOwnCall, Event.isCall]
  rw [Covered] at hCovered ⊢
  rw [chapters_ended, ownCalls_cons, hCall, ← hCovered]
  cases chapters journal <;> simp

/-- No call is lost while a chapter is open. -/
theorem covered_append {later journal : List Entry} (hOpen : chapters journal ≠ [])
    (hTurns : ∀ e ∈ later, e.event.isTurn = false) (hCovered : Covered journal) :
    Covered (later ++ journal) := by
  rw [Covered] at hCovered ⊢
  rw [chapters_append journal hTurns, ownCalls_append, ← hCovered]
  cases hChapters : chapters journal with
  | nil => exact absurd hChapters hOpen
  | cons c older => simp

theorem covered_append_of_ownCalls {later journal : List Entry}
    (hTurns : ∀ e ∈ later, e.event.isTurn = false) (hCalls : ownCalls later = [])
    (hCovered : Covered journal) : Covered (later ++ journal) := by
  rw [Covered] at hCovered ⊢
  rw [chapters_append_of_ownCalls journal hTurns hCalls, ownCalls_append, hCalls,
    List.append_nil, hCovered]

-- ---------------------------------------------------------------------------
-- Notices
-- ---------------------------------------------------------------------------

theorem Event.plain_of_isNotice {event : Event} (hNotice : event.isNotice) :
    event.isTurn = false ∧ event.isCall = false ∧ event.isDisposal = false := by
  cases event <;> simp_all [Event.isNotice, Event.isTurn, Event.isCall, Event.isDisposal]

theorem ownCalls_deeds (journal : List Entry) : ownCalls (deeds journal) = ownCalls journal := by
  rw [ownCalls, ownCalls, deeds, List.filter_filter]
  congr 2
  refine List.filter_congr fun e _ => ?_
  cases hNotice : e.event.isNotice with
  | false => simp
  | true => simp [Entry.isOwnCall, (Event.plain_of_isNotice hNotice).2.1]

theorem disposedElsewhere_deeds (journal : List Entry) :
    disposedElsewhere (deeds journal) = disposedElsewhere journal := by
  rw [disposedElsewhere, disposedElsewhere, deeds, List.any_filter]
  congr 1
  funext e
  cases hNotice : e.event.isNotice with
  | false => simp
  | true => simp [(Event.plain_of_isNotice hNotice).2.2]

/-- Notices have no place in the chapters. -/
theorem chapters_deeds (journal : List Entry) : chapters (deeds journal) = chapters journal := by
  induction journal with
  | nil => rfl
  | cons e journal ih =>
    rw [deeds_cons]
    split
    case isTrue hNotice =>
      obtain ⟨hTurn, hCall, -⟩ := Event.plain_of_isNotice hNotice
      have hCalls : ownCalls [e] = [] := by simp [Entry.isOwnCall, hCall]
      have hSame : chapters ([e] ++ journal) = chapters journal :=
        chapters_append_of_ownCalls journal (by simpa using hTurn) hCalls
      rw [ih]
      exact hSame.symm
    case isFalse =>
      have hContinue : Chapter.continue e (deeds journal) = Chapter.continue e journal := by
        funext c
        rw [Chapter.continue, Chapter.continue, disposedElsewhere_deeds]
      rw [chapters, chapters, hContinue, ih, binding_deeds]

end Resumption
