import Resumption.Session.Run

/-!
# What the elementary changes do

Everything that happens to a session is composed of a few changes. This module says for each of
them which part of the state it leaves alone and what it writes into the journal. What is written
about a status and its observers carries no consequences, so the theory reads the journal without
these notices.

* `deeds` — a journal without its notices
* `enter_frame`, `deeds_enter` — a change of status is nothing but a notice
* `dispose_frame`, `deeds_dispose` — a disposal is written down once
* `terminate_frame`, `deeds_terminate` — the end of the task gives back the bound token
-/

namespace Resumption

-- ---------------------------------------------------------------------------
-- The journal without notices
-- ---------------------------------------------------------------------------

/-- Whether an event only says that the status changed. -/
def Event.isNotice : Event → Bool
  | .entered _ | .told _ _ => true
  | _ => false

def deeds (journal : List Entry) : List Entry :=
  journal.filter fun e => !e.event.isNotice

@[simp] theorem deeds_cons (e : Entry) (journal : List Entry) :
    deeds (e :: journal) = if e.event.isNotice then deeds journal else e :: deeds journal := by
  rw [deeds, List.filter_cons]
  cases e.event.isNotice <;> rfl

@[simp] theorem deeds_append (later earlier : List Entry) :
    deeds (later ++ earlier) = deeds later ++ deeds earlier :=
  List.filter_append ..

theorem mem_deeds {e : Entry} {journal : List Entry} :
    e ∈ deeds journal ↔ e ∈ journal ∧ e.event.isNotice = false := by
  simp [deeds, List.mem_filter]

@[simp] theorem Status.isTerminal_values :
    active.isTerminal = false ∧ recovering.isTerminal = false ∧
    reestablished.isTerminal = false ∧ resumeSent.isTerminal = false ∧
    resumed.isTerminal = false ∧ disposed.isTerminal = true ∧ closed.isTerminal = true :=
  ⟨rfl, rfl, rfl, rfl, rfl, rfl, rfl⟩

namespace World

attribute [simp] record recordAll retain release atStage raise discardErrors send reconnect

-- ---------------------------------------------------------------------------
-- Status
-- ---------------------------------------------------------------------------

/-- Who is told of a status is of no consequence. -/
@[simp] theorem deeds_tell (actor : Actor) (observer : Observer) (w : World) :
    deeds (w.tell actor observer).journal = deeds w.journal := by
  have hNotices : ∀ names : List String,
      deeds (names.map fun name => (⟨w.now, actor, .told name w.status⟩ : Entry)) = [] := by
    intro names
    rw [deeds, List.filter_eq_nil_iff]
    intro e he
    obtain ⟨name, -, rfl⟩ := List.mem_map.mp he
    simp [Event.isNotice]
  simp only [tell, recordAll, deeds_append, ← List.map_reverse, List.map_map, Function.comp_def,
    hNotices, List.nil_append]

@[simp] theorem deeds_enter (actor : Actor) (status : Status) (w : World) :
    deeds (w.enter actor status).journal = deeds w.journal := by
  rw [enter]
  split
  · rfl
  · dsimp only
    split
    · simp [Event.isNotice]
    · rw [deeds_tell]
      simp [Event.isNotice]

/-- A change of status touches nothing but the status, those who watch it and the journal. -/
@[simp] theorem enter_frame (actor : Actor) (status : Status) (w : World) :
    (w.enter actor status).now = w.now ∧ (w.enter actor status).config = w.config ∧
    (w.enter actor status).pool = w.pool ∧ (w.enter actor status).errors = w.errors ∧
    (w.enter actor status).errorsClosed = w.errorsClosed ∧
    (w.enter actor status).implied = w.implied ∧ (w.enter actor status).position = w.position ∧
    (w.enter actor status).sendsFail = w.sendsFail ∧
    (w.enter actor status).reconciliations = w.reconciliations ∧
    (w.enter actor status).bursts = w.bursts ∧
    (w.enter actor status).connections = w.connections ∧
    (w.enter actor status).isOpen = w.isOpen ∧ (w.enter actor status).disposed = w.disposed ∧
    (w.enter actor status).supplier = w.supplier ∧ (w.enter actor status).bound = w.bound ∧
    (w.enter actor status).episodes = w.episodes ∧ (w.enter actor status).task = w.task ∧
    (w.enter actor status).calls = w.calls ∧ (w.enter actor status).held = w.held := by
  rw [enter]
  split
  · simp only [and_self]
  · dsimp only
    split <;> simp [tell]

@[simp] theorem status_enter (actor : Actor) (status : Status) (w : World) :
    (w.enter actor status).status = if w.status.isTerminal then w.status else status := by
  rw [enter]
  by_cases hTerminal : w.status.isTerminal
  · simp [hTerminal]
  · by_cases hSame : w.status = status
    · simp [hSame]
    · simp only [hTerminal, hSame, Bool.false_eq_true, or_self, if_false]
      split <;> simp [tell]

-- ---------------------------------------------------------------------------
-- The error stream
-- ---------------------------------------------------------------------------

/-- The errors that the stream takes out of those it is given: all of them or none. -/
def taking (errors : List LinkError) (w : World) : List LinkError :=
  if w.listens then errors else []

@[simp] theorem accept_eq (errors : List LinkError) (w : World) :
    w.accept errors =
      { w with
        errors := w.errors ++ w.taking errors
        journal := ((w.taking errors).map fun e => ⟨w.now, .link, .accepted e⟩).reverse ++
          w.journal } := by
  rw [accept, taking]
  by_cases hListens : w.listens
  · simp [hListens, Function.comp_def]
  · simp [hListens]

@[simp] theorem deeds_accepted (time : Nat) (errors : List LinkError) :
    deeds ((errors.map fun e => (⟨time, .link, .accepted e⟩ : Entry)).reverse) =
      (errors.map fun e => ⟨time, .link, .accepted e⟩).reverse := by
  rw [deeds, List.filter_eq_self]
  intro e he
  obtain ⟨error, -, rfl⟩ := List.mem_map.mp (List.mem_reverse.mp he)
  rfl

@[simp] theorem deeds_discarded (time : Nat) (errors : List LinkError) :
    deeds ((errors.map fun e => (⟨time, .task, .discarded e⟩ : Entry)).reverse) =
      (errors.map fun e => ⟨time, .task, .discarded e⟩).reverse := by
  rw [deeds, List.filter_eq_self]
  intro e he
  obtain ⟨error, -, rfl⟩ := List.mem_map.mp (List.mem_reverse.mp he)
  rfl

-- ---------------------------------------------------------------------------
-- The two ways to an end
-- ---------------------------------------------------------------------------

@[simp] theorem unbind_eq (w : World) :
    w.unbind =
      { w with
        pool := match w.bound with
          | none => w.pool
          | some token => w.pool.release token
        bound := none } := by
  rw [unbind]
  cases hBound : w.bound with
  | none => simp only [← hBound]
  | some token => rfl

@[simp] theorem deeds_dispose (actor : Actor) (w : World) :
    deeds (w.dispose actor).journal =
      if w.disposed then deeds w.journal
      else ⟨w.now, actor, .disposed⟩ :: deeds w.journal := by
  rw [dispose]
  split
  · rfl
  · simp [Event.isNotice]

@[simp] theorem dispose_frame (actor : Actor) (w : World) :
    (w.dispose actor).disposed = true ∧ (w.dispose actor).now = w.now ∧
    (w.dispose actor).config = w.config ∧ (w.dispose actor).pool = w.pool ∧
    (w.dispose actor).errors = w.errors ∧ (w.dispose actor).errorsClosed = w.errorsClosed ∧
    (w.dispose actor).implied = w.implied ∧ (w.dispose actor).position = w.position ∧
    (w.dispose actor).sendsFail = w.sendsFail ∧
    (w.dispose actor).reconciliations = w.reconciliations ∧
    (w.dispose actor).bursts = w.bursts ∧ (w.dispose actor).connections = w.connections ∧
    (w.dispose actor).isOpen = w.isOpen ∧ (w.dispose actor).supplier = w.supplier ∧
    (w.dispose actor).bound = w.bound ∧ (w.dispose actor).episodes = w.episodes ∧
    (w.dispose actor).task = w.task ∧ (w.dispose actor).calls = w.calls ∧
    (w.dispose actor).held = w.held := by
  rw [dispose]
  split
  · simp_all
  · simp

theorem status_dispose (actor : Actor) (w : World) :
    (w.dispose actor).status =
      if w.disposed ∨ w.status.isTerminal then w.status else .disposed := by
  rw [dispose]
  by_cases hDisposed : w.disposed
  · simp [hDisposed]
  · simp [hDisposed]

@[simp] theorem deeds_terminate (w : World) :
    deeds w.terminate.journal = ⟨w.now, .task, .stopped⟩ :: deeds w.journal := by
  rw [terminate]
  dsimp only
  split <;> simp [Event.isNotice]

@[simp] theorem terminate_frame (w : World) :
    w.terminate.task = .ended ∧ w.terminate.bound = none ∧
    w.terminate.pool = w.unbind.pool ∧ w.terminate.now = w.now ∧
    w.terminate.config = w.config ∧ w.terminate.errors = w.errors ∧
    w.terminate.errorsClosed = w.errorsClosed ∧ w.terminate.implied = w.implied ∧
    w.terminate.position = w.position ∧ w.terminate.sendsFail = w.sendsFail ∧
    w.terminate.reconciliations = w.reconciliations ∧ w.terminate.bursts = w.bursts ∧
    w.terminate.connections = w.connections ∧ w.terminate.disposed = w.disposed ∧
    w.terminate.isOpen = w.isOpen ∧ w.terminate.supplier = w.supplier ∧
    w.terminate.episodes = w.episodes ∧ w.terminate.calls = w.calls ∧
    w.terminate.held = w.held := by
  rw [terminate]
  dsimp only
  split <;> simp

theorem status_terminate (w : World) :
    w.terminate.status = if w.disposed ∨ w.status.isTerminal then w.status else .closed := by
  rw [terminate]
  by_cases hDisposed : w.disposed
  · simp [hDisposed]
  · simp [hDisposed]

end World

end Resumption
