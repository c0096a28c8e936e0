import Resumption.Proofs.Views

/-!
# An episode does not listen to the error stream

While an episode is under way the task drops errors or leaves them where they are, but it never
asks whether there are any, nor whether the stream has ended. Two sessions in an episode that
differ only in what is in their streams go on side by side until the episode is over.

* `hush` — a session without its error stream
* `coherent_hush` — elementary changes do not bring it back
* `During` — a run that does not leave the episode
* `hush_run` — whether the stream is closed makes no difference to a run in an episode
-/

namespace Resumption

/-- Whether an event is an error coming into the stream, or being dropped from it. -/
def Event.isStream : Event → Bool
  | .accepted _ | .discarded _ => true
  | _ => false

/-- A journal without its notices and without what came into the error stream or was dropped. -/
def hushed (journal : List Entry) : List Entry :=
  journal.filter fun e => !e.event.isNotice && !e.event.isStream

@[simp] theorem hushed_cons (e : Entry) (journal : List Entry) :
    hushed (e :: journal) =
      if e.event.isNotice || e.event.isStream then hushed journal else e :: hushed journal := by
  rw [hushed, List.filter_cons]
  cases e.event.isNotice <;> cases e.event.isStream <;> rfl

@[simp] theorem hushed_append (later earlier : List Entry) :
    hushed (later ++ earlier) = hushed later ++ hushed earlier :=
  List.filter_append ..

theorem hushed_deeds (journal : List Entry) : hushed (deeds journal) = hushed journal := by
  rw [hushed, deeds, List.filter_filter, hushed]
  refine List.filter_congr fun e _ => ?_
  cases e.event.isNotice <;> simp

theorem hushed_congr {journal journal' : List Entry} (hDeeds : deeds journal = deeds journal') :
    hushed journal = hushed journal' := by
  rw [← hushed_deeds, hDeeds, hushed_deeds]

@[simp] theorem hushed_hushed (journal : List Entry) :
    hushed (hushed journal) = hushed journal := by
  rw [hushed, hushed, List.filter_filter]
  refine List.filter_congr fun e _ => ?_
  cases e.event.isNotice <;> cases e.event.isStream <;> rfl

@[simp] theorem hushed_accepted (time : Nat) (errors : List LinkError) :
    hushed ((errors.map fun e => (⟨time, .link, .accepted e⟩ : Entry)).reverse) = [] := by
  rw [hushed, List.filter_eq_nil_iff]
  intro e hMem
  obtain ⟨error, -, rfl⟩ := List.mem_map.mp (List.mem_reverse.mp hMem)
  simp [Event.isStream]

@[simp] theorem hushed_discarded (time : Nat) (errors : List LinkError) :
    hushed ((errors.map fun e => (⟨time, .task, .discarded e⟩ : Entry)).reverse) = [] := by
  rw [hushed, List.filter_eq_nil_iff]
  intro e hMem
  obtain ⟨error, -, rfl⟩ := List.mem_map.mp (List.mem_reverse.mp hMem)
  simp [Event.isStream]

namespace World

@[simp] theorem hushed_enter (actor : Actor) (status : Status) (w : World) :
    hushed (w.enter actor status).journal = hushed w.journal :=
  hushed_congr (deeds_enter actor status w)

@[simp] theorem hushed_dispose (actor : Actor) (w : World) :
    hushed (w.dispose actor).journal =
      if w.disposed then hushed w.journal else ⟨w.now, actor, .disposed⟩ :: hushed w.journal := by
  rw [← hushed_deeds, deeds_dispose]
  split
  · exact hushed_deeds w.journal
  · simp [hushed_deeds, Event.isNotice, Event.isStream]

@[simp] theorem hushed_terminate (w : World) :
    hushed w.terminate.journal = ⟨w.now, .task, .stopped⟩ :: hushed w.journal := by
  rw [← hushed_deeds, deeds_terminate]
  simp [hushed_deeds, Event.isNotice, Event.isStream]

/-- The session as it looks to somebody who does not see the error stream and whom it tells of no
change of its status. -/
def hush (w : World) : World :=
  { w with
    errors := []
    errorsClosed := true
    observer := none
    subscriber := none
    journal := hushed w.journal }

-- ---------------------------------------------------------------------------
-- The hush as a view
-- ---------------------------------------------------------------------------

section

attribute [local simp] hush status_dispose status_terminate Function.comp_def

theorem hush_hush (w : World) : w.hush.hush = w.hush := by
  simp

theorem hush_observe (observer : Observer) (w : World) : (w.observe observer).hush = w.hush := by
  have hJournal : hushed (w.tell .caller observer).journal = hushed w.journal :=
    hushed_congr (deeds_tell .caller observer w)
  simp only [World.observe, hush, hJournal]
  rfl

attribute [local simp] touch settleCore closeErrors setSendsFail World.subscribe World.poll

theorem coherent_hush : Coherent hush where
  core _ := rfl
  touch change w := by
    cases change with
    | observe observer =>
      show (w.hush.observe observer).hush = (w.observe observer).hush
      rw [hush_observe, hush_observe, hush_hush]
    | _ => simp

end

-- ---------------------------------------------------------------------------
-- Runs
-- ---------------------------------------------------------------------------

/-- A run in which every action is taken while an episode is under way. -/
def During : World → List Action → Prop
  | _, [] => True
  | w, action :: actions =>
    (∃ ep, w.task = .recovering ep) ∧ ∀ next, w.act action = some next → During next actions

/-- Sessions with one hush stay so for as long as an episode is under way, and both runs are
possible or none is. -/
theorem hush_run {w v : World} {actions : List Action} (hSame : w.hush = v.hush)
    (hDuring : During w actions) : (w.run actions).map hush = (v.run actions).map hush := by
  refine run_view ?_ (fun hDuring hNext => hDuring.2 _ hNext) hSame hDuring
  rintro w v action actions hSame ⟨⟨ep, hTask⟩, -⟩
  have hSupplier : w.hush.supplier = v.hush.supplier := congrArg supplier hSame
  refine coherent_hush.act hSame (fun hIdle => ?_) fun _ _ _ => hSupplier
  -- an episode is under way, so nobody waits for an error
  rw [hTask] at hIdle
  cases hIdle

theorem hush_closeErrors (w : World) : w.closeErrors.hush = w.hush :=
  rfl

end World

end Resumption
