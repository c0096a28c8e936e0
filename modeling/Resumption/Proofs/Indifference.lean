import Resumption.Proofs.Views

/-!
# What the task does not look at

The task decides what to do by the error stream, the bound token, the supplier, the stage of its
episode and the clock. It never asks for the status of the session, nor whether the connection has
been disposed. Two sessions that differ only in these go on side by side, and their tasks make the
same calls at the same times.

* `recoveryCalls` — the calls by which the task recovers the connection
* `blur` — a session without what the task does not look at
* `complete_blur` — the blur shows all that the task looks at
* `recoveryCalls_eq_of_run` — hence sessions with one blur make the same calls ever after
-/

namespace Resumption

-- ---------------------------------------------------------------------------
-- Calls of the task
-- ---------------------------------------------------------------------------

/-- Whether a frame that is sent is a RESUME frame. -/
def isResume (frame : ByteArray) : Bool :=
  match Header.peek (.start frame) with
  | .ok header _ => header.kind = .resume
  | .error .. => false

/-- The calls by which a connection is recovered: the strategy is asked, a supplier is asked, the
connection is reconnected, a RESUME frame is sent. -/
def Event.isRecovery : Event → Bool
  | .consulted .. | .dialled _ | .reconnected _ => true
  | .sent frame _ _ => isResume frame
  | _ => false

/-- Only the task's own calls count. -/
def Entry.isRecovery (e : Entry) : Bool :=
  e.actor = .task && e.event.isRecovery

theorem Event.isRecovery_of_isNotice {event : Event} (hNotice : event.isNotice) :
    event.isRecovery = false := by
  cases event <;> first | rfl | cases hNotice

@[simp] theorem isRecovery_link (time : Nat) (event : Event) :
    (⟨time, .link, event⟩ : Entry).isRecovery = false :=
  rfl

theorem filter_isRecovery_deeds (journal : List Entry) :
    (deeds journal).filter Entry.isRecovery = journal.filter Entry.isRecovery := by
  rw [deeds, List.filter_filter]
  refine List.filter_congr fun e _ => ?_
  cases hNotice : e.event.isNotice with
  | false => simp
  | true => simp [Entry.isRecovery, Event.isRecovery_of_isNotice hNotice]

theorem filter_isRecovery_congr {journal journal' : List Entry}
    (hDeeds : deeds journal = deeds journal') :
    journal.filter Entry.isRecovery = journal'.filter Entry.isRecovery := by
  rw [← filter_isRecovery_deeds, hDeeds, filter_isRecovery_deeds]

namespace World

/-- Latest first. -/
def recoveryCalls (w : World) : List Entry :=
  w.journal.filter Entry.isRecovery

/-- What the task looks at, and the calls it made. -/
def blur (w : World) : World :=
  { w with
    status := .active
    disposed := false
    observer := none
    subscriber := none
    journal := w.recoveryCalls }

-- ---------------------------------------------------------------------------
-- Elementary changes make no calls
-- ---------------------------------------------------------------------------

@[simp] theorem filter_enter (actor : Actor) (status : Status) (w : World) :
    (w.enter actor status).journal.filter Entry.isRecovery = w.journal.filter Entry.isRecovery :=
  filter_isRecovery_congr (deeds_enter actor status w)

@[simp] theorem filter_dispose (actor : Actor) (w : World) :
    (w.dispose actor).journal.filter Entry.isRecovery = w.journal.filter Entry.isRecovery := by
  rw [← filter_isRecovery_deeds, deeds_dispose]
  split
  · exact filter_isRecovery_deeds w.journal
  · rw [List.filter_cons_of_neg (by simp [Entry.isRecovery, Event.isRecovery])]
    exact filter_isRecovery_deeds w.journal

@[simp] theorem filter_terminate (w : World) :
    w.terminate.journal.filter Entry.isRecovery = w.journal.filter Entry.isRecovery := by
  rw [← filter_isRecovery_deeds, deeds_terminate,
    List.filter_cons_of_neg (by simp [Entry.isRecovery, Event.isRecovery])]
  exact filter_isRecovery_deeds w.journal

-- ---------------------------------------------------------------------------
-- The blur as a view
-- ---------------------------------------------------------------------------

section

attribute [local simp] blur recoveryCalls taking listens List.filter_cons

theorem blur_blur (w : World) : w.blur.blur = w.blur := by
  simp

theorem blur_observe (observer : Observer) (w : World) : (w.observe observer).blur = w.blur := by
  have hCalls : (w.tell .caller observer).journal.filter Entry.isRecovery =
      w.journal.filter Entry.isRecovery :=
    filter_isRecovery_congr (deeds_tell .caller observer w)
  simp only [World.observe, blur, recoveryCalls, hCalls]
  rfl

attribute [local simp] touch settleCore closeErrors setSendsFail World.subscribe World.poll

/-- All that the task looks at shows in the blur, and it keeps showing. -/
theorem complete_blur : Complete blur where
  core _ := rfl
  errors _ := rfl
  errorsClosed _ := rfl
  supplier _ := rfl
  touch change w := by
    cases change with
    | observe observer =>
      show (w.blur.observe observer).blur = (w.observe observer).blur
      rw [blur_observe, blur_observe, blur_blur]
    | _ => simp

end

/-- Sessions with one blur make the same calls ever after. -/
theorem recoveryCalls_eq_of_run {w v w' : World} {actions : List Action}
    (hSame : w.blur = v.blur) (hRun : w.run actions = some w') :
    ∃ v', v.run actions = some v' ∧ v'.recoveryCalls = w'.recoveryCalls := by
  have hBlur := complete_blur.run hSame actions
  rw [hRun] at hBlur
  obtain ⟨v', hRun', hBlur'⟩ := Option.map_eq_some_iff.mp hBlur.symm
  exact ⟨v', hRun', congrArg journal hBlur'⟩

end World

end Resumption
