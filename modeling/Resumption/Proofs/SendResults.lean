import Mathlib.Data.List.Induction
import Resumption.Proofs.Views

/-!
# Whether a send fails is of no consequence

A session sends a frame and goes on, whether or not the send failed. Two sessions that differ only
in that go on side by side: the same calls at the same times, the same octets on the wire, the same
statuses, the same results and the same shares. This holds of every pattern of failing sends, and
every pattern occurs.

* `smooth` — a session as it looks to somebody who is not told whether sends fail
* `complete_smooth` — what is seen of it includes all that the task looks at
* `script` — a run without what only settles which sends fail; `course` — the states it comes to
* `exists_pattern` — whatever sends are to fail, there is a run in which they do
* `indifferent_of_script` — runs with one script cannot be told apart
-/

namespace Resumption

/-- An event without the result of a send. -/
def Event.smooth : Event → Event
  | .sent frame _ shares => .sent frame false shares
  | event => event

def Entry.smooth (e : Entry) : Entry :=
  { e with event := e.event.smooth }

namespace World

/-- A session as it looks to somebody who is not told whether sends fail. -/
def smooth (w : World) : World :=
  { w with
    sendsFail := false
    journal := w.journal.map Entry.smooth }

-- ---------------------------------------------------------------------------
-- Elementary changes
-- ---------------------------------------------------------------------------

theorem smooth_recordAll {events : List Event} (hPlain : ∀ event ∈ events, event.smooth = event)
    (actor : Actor) (w : World) :
    (w.recordAll actor events).smooth = w.smooth.recordAll actor events := by
  have hEvents : events.map (fun event => Entry.smooth ⟨w.now, actor, event⟩) =
      events.map fun event => ⟨w.now, actor, event⟩ := by
    refine List.map_congr_left fun event hMem => ?_
    rw [Entry.smooth, hPlain event hMem]
  simp [smooth, recordAll, Function.comp_def, hEvents]

theorem smooth_tell (actor : Actor) (observer : Observer) (w : World) :
    (w.tell actor observer).smooth = w.smooth.tell actor observer := by
  refine smooth_recordAll ?_ actor w
  intro event hMem
  obtain ⟨name, -, rfl⟩ := List.mem_map.mp hMem
  rfl

theorem smooth_observe (observer : Observer) (w : World) :
    (w.observe observer).smooth = w.smooth.observe observer :=
  congrArg (fun v : World => { v with observer := some observer }) (smooth_tell .caller observer w)

theorem smooth_enter (actor : Actor) (status : Status) (w : World) :
    (w.enter actor status).smooth = w.smooth.enter actor status := by
  have hStatus : w.smooth.status = w.status := rfl
  have hObserver : w.smooth.observer = w.observer := rfl
  unfold enter
  rw [hStatus]
  split
  · rfl
  · dsimp only
    rw [hObserver]
    cases w.observer with
    | none => rfl
    | some observer =>
      let entered : World :=
        { w with status, subscriber := w.subscriber.map fun _ => true }
      have hTell := smooth_tell actor observer (entered.record actor (.entered status))
      exact congrArg (fun v : World => { v with observer := some (observer.successor status) })
        hTell

theorem smooth_dispose (actor : Actor) (w : World) :
    (w.dispose actor).smooth = w.smooth.dispose actor := by
  have hDisposed : w.smooth.disposed = w.disposed := rfl
  unfold dispose
  rw [hDisposed]
  split
  · rfl
  · exact smooth_enter ..

theorem smooth_unbind (w : World) : w.unbind.smooth = w.smooth.unbind := by
  rw [unbind_eq, unbind_eq]
  rfl

theorem smooth_terminate (w : World) : w.terminate.smooth = w.smooth.terminate := by
  have hDisposed : w.smooth.unbind.disposed = w.unbind.disposed := by simp [smooth]
  unfold terminate
  dsimp only
  rw [hDisposed, ← smooth_unbind]
  split
  · rfl
  · rw [← smooth_enter]
    rfl

theorem smooth_accept (errors : List LinkError) (w : World) :
    (w.accept errors).smooth = w.smooth.accept errors := by
  have hListens : w.smooth.listens = w.listens := rfl
  unfold accept
  rw [hListens]
  split
  · refine smooth_recordAll ?_ .link { w with errors := w.errors ++ errors }
    intro event hMem
    obtain ⟨error, -, rfl⟩ := List.mem_map.mp hMem
    rfl
  · rfl

theorem smooth_discardErrors (w : World) : w.discardErrors.smooth = w.smooth.discardErrors := by
  refine smooth_recordAll ?_ .task { w with errors := [] }
  intro event hMem
  obtain ⟨error, -, rfl⟩ := List.mem_map.mp hMem
  rfl

-- ---------------------------------------------------------------------------
-- As a view
-- ---------------------------------------------------------------------------

theorem smooth_smooth (w : World) : w.smooth.smooth = w.smooth := by
  have hEntry : ∀ e : Entry, e.smooth.smooth = e.smooth := by
    rintro ⟨time, actor, event⟩
    cases event <;> rfl
  simp only [smooth, List.map_map, Function.comp_def, hEntry]

theorem smooth_change (change : World → World) (hChange : ∀ w, (change w).smooth = change w.smooth)
    (w : World) : (change w.smooth).smooth = (change w).smooth := by
  rw [← hChange, smooth_smooth]

/-- All that the task looks at shows, and it keeps showing. -/
theorem complete_smooth : Complete smooth where
  core _ := rfl
  errors _ := rfl
  errorsClosed _ := rfl
  supplier _ := rfl
  touch change w := by
    cases change with
    | record actor event => exact congrArg (record actor event.smooth) (smooth_smooth w)
    | setSendsFail sendsFail => exact smooth_smooth w
    | enter actor status => exact smooth_change _ (smooth_enter actor status) w
    | dispose actor => exact smooth_change _ (smooth_dispose actor) w
    | terminate => exact smooth_change _ smooth_terminate w
    | accept errors => exact smooth_change _ (smooth_accept errors) w
    | discardErrors => exact smooth_change _ smooth_discardErrors w
    | observe observer => exact smooth_change _ (smooth_observe observer) w
    | _ => exact smooth_change (touch · _) (fun _ => rfl) w

end World

-- ---------------------------------------------------------------------------
-- Runs
-- ---------------------------------------------------------------------------

/-- Whether an action only settles whether sends fail from now on. -/
def Action.setsSends : Action → Bool
  | .setSendsFail _ => true
  | _ => false

/-- What happens in a run, but for which sends fail. -/
def script (actions : List Action) : List Action :=
  actions.filter fun action => !action.setsSends

theorem Action.eq_of_setsSends {action : Action} (hSets : action.setsSends) :
    ∃ sendsFail, action = .setSendsFail sendsFail := by
  unfold setsSends at hSets
  split at hSets
  case h_1 sendsFail => exact ⟨sendsFail, rfl⟩
  case h_2 => cases hSets

theorem script_append (actions more : List Action) :
    script (actions ++ more) = script actions ++ script more :=
  List.filter_append ..

namespace World

/-- The states that a run comes to, one for each action of its script. It breaks off at an action
that is not possible. -/
def course (w : World) : List Action → List World
  | [] => []
  | action :: actions =>
    match w.act action with
    | none => []
    | some next =>
      if action.setsSends then next.course actions else next :: next.course actions

/-- A run looks like the run of its script from a session that looks the same. -/
theorem smooth_run {w v : World} (hSame : w.smooth = v.smooth) (actions : List Action) :
    (w.run actions).map smooth = (v.run (script actions)).map smooth ∧
      (w.course actions).map smooth = (v.course (script actions)).map smooth := by
  induction actions generalizing w v with
  | nil => exact ⟨congrArg some hSame, rfl⟩
  | cons action actions ih =>
    cases hSets : action.setsSends with
    | true =>
      obtain ⟨sendsFail, rfl⟩ := Action.eq_of_setsSends hSets
      -- the session looks the same as before
      have hStill : (w.setSendsFail sendsFail).smooth = v.smooth := hSame
      exact ih hStill
    | false =>
      have hScript : script (action :: actions) = action :: script actions := by
        rw [script, List.filter_cons_of_pos (by simp [hSets])]
        rfl
      have hAct := complete_smooth.act hSame action
      rw [hScript, run, run, course, course]
      cases hNext : w.act action with
      | none =>
        rw [hNext] at hAct
        rw [Option.map_eq_none_iff.mp hAct.symm]
        exact ⟨rfl, rfl⟩
      | some next =>
        rw [hNext] at hAct
        obtain ⟨next', hNext', hLook⟩ := Option.map_eq_some_iff.mp hAct.symm
        obtain ⟨hRun, hCourse⟩ := ih hLook.symm
        rw [hNext']
        refine ⟨hRun, ?_⟩
        simp only [hSets, Bool.false_eq_true, if_false, List.map_cons, hCourse, hLook]

end World

-- ---------------------------------------------------------------------------
-- Every pattern of failing sends
-- ---------------------------------------------------------------------------

/-- Whether a send failed. -/
def Event.sendResult? : Event → Option Bool
  | .sent _ failed _ => some failed
  | _ => none

/-- Whether the sends failed, latest first. -/
def sendResults (journal : List Entry) : List Bool :=
  journal.filterMap fun e => e.event.sendResult?

@[simp] theorem sendResults_nil : sendResults [] = [] := rfl

@[simp] theorem sendResults_cons (e : Entry) (journal : List Entry) :
    sendResults (e :: journal) = e.event.sendResult?.toList ++ sendResults journal := by
  unfold sendResults
  rw [List.filterMap_cons]
  cases e.event.sendResult? <;> rfl

@[simp] theorem sendResults_append (later earlier : List Entry) :
    sendResults (later ++ earlier) = sendResults later ++ sendResults earlier :=
  List.filterMap_append

theorem sendResults_eq_nil {journal : List Entry} :
    sendResults journal = [] ↔ ∀ e ∈ journal, e.event.sendResult? = none :=
  List.filterMap_eq_nil_iff

theorem sendResults_deeds (journal : List Entry) :
    sendResults (deeds journal) = sendResults journal := by
  unfold sendResults deeds
  rw [List.filterMap_filter]
  congr 1
  funext e
  cases hEvent : e.event <;> rfl

namespace World

/-- Whether sends fail or not, there are as many of them. -/
theorem length_sendResults {w v : World} (hSame : w.smooth = v.smooth) :
    (sendResults w.journal).length = (sendResults v.journal).length := by
  have hSmooth : ∀ journal : List Entry,
      (sendResults (journal.map Entry.smooth)).length = (sendResults journal).length := by
    intro journal
    induction journal with
    | nil => rfl
    | cons e journal ih =>
      have hEvent : e.smooth.event.sendResult?.toList.length =
          e.event.sendResult?.toList.length := by
        obtain ⟨time, actor, event⟩ := e
        cases event <;> rfl
      rw [List.map_cons, sendResults_cons, sendResults_cons, List.length_append,
        List.length_append, ih, hEvent]
  have hJournal : w.journal.map Entry.smooth = v.journal.map Entry.smooth :=
    congrArg journal hSame
  rw [← hSmooth w.journal, hJournal, hSmooth]

section

attribute [local simp] own guest raised Event.sendResult?

theorem sendResults_arrived (errors : List LinkError) (w : World) :
    sendResults (w.arrived errors) = [] := by
  rw [sendResults_eq_nil]
  simp

theorem sendResults_drained (w : World) : sendResults w.drained = [] := by
  rw [sendResults_eq_nil]
  simp

theorem sendResults_disposal (actor : Actor) (w : World) : sendResults (w.disposal actor) = [] := by
  rw [sendResults_eq_nil]
  simp

attribute [local simp] sendResults_arrived sendResults_drained sendResults_disposal

/-- An action sends one frame at most, and what comes of it was settled before. -/
theorem sendResults_change {w w' : World} {action : Action} {written : List Entry}
    (hChange : Change w action written w') :
    ∃ results, sendResults w'.journal = results ++ sendResults w.journal ∧
      (results = [] ∨ results = [w.sendsFail]) := by
  refine ⟨sendResults written, ?_, ?_⟩
  · rw [← sendResults_deeds, deeds_change hChange, sendResults_append, sendResults_deeds]
  · cases hChange with
    | work hStride => cases hStride <;> simp
    | _ => simp

end

theorem sendResults_run {w w' : World} {actions : List Action} (hRun : w.run actions = some w') :
    (sendResults w.journal).length ≤ (sendResults w'.journal).length := by
  refine run_induct (P := fun v => (sendResults w.journal).length ≤ (sendResults v.journal).length)
    ?_ hRun (Nat.le_refl _)
  rintro v v' action written - hMore hChange
  obtain ⟨results, hResults, -⟩ := sendResults_change hChange
  rw [hResults, List.length_append]
  omega

/-- An action that is possible in one session is possible in every other that looks the same. -/
theorem act_of_smooth {w w' v : World} {action : Action} (hSame : v.smooth = w.smooth)
    (hAct : w.act action = some w') : ∃ v', v.act action = some v' ∧ v'.smooth = w'.smooth := by
  have hNext := complete_smooth.act hSame action
  rw [hAct] at hNext
  exact Option.map_eq_some_iff.mp hNext

/-- Two runs with one script from one session end in sessions that look the same. -/
theorem smooth_of_script {w u v : World} {actions actions' : List Action}
    (hScript : script actions' = script actions) (hRun : w.run actions = some u)
    (hRun' : w.run actions' = some v) : v.smooth = u.smooth := by
  have hLeft := (smooth_run (rfl : w.smooth = w.smooth) actions).1
  have hRight := (smooth_run (rfl : w.smooth = w.smooth) actions').1
  rw [hScript, ← hLeft, hRun', hRun] at hRight
  exact Option.some.inj hRight

/-- Where one run goes on with an action, so does every other one with the same script, whether the
frame that the action may send is to fail there or not. -/
theorem exists_last {w u u' v : World} {actions actions' : List Action} {action : Action}
    (hScript : script actions' = script actions) (hRun : w.run actions = some u)
    (hRun' : w.run actions' = some v) (hAct : u.act action = some u') (failed : Bool) :
    ∃ more v', script (actions' ++ more) = script (actions ++ [action]) ∧
      w.run (actions' ++ more) = some v' ∧
      ((sendResults u'.journal).length = (sendResults u.journal).length ∧
          sendResults v'.journal = sendResults v.journal ∨
        (sendResults u'.journal).length = (sendResults u.journal).length + 1 ∧
          sendResults v'.journal = failed :: sendResults v.journal) := by
  have hLook := smooth_of_script hScript hRun hRun'
  have hSame : (v.setSendsFail failed).smooth = u.smooth := hLook
  obtain ⟨v', hAct', hSmooth⟩ := act_of_smooth hSame hAct
  obtain ⟨written, hChange⟩ := change_of_act hAct'
  obtain ⟨results, hResults, hOne⟩ := sendResults_change hChange
  refine ⟨[.setSendsFail failed, action], v', ?_, ?_, ?_⟩
  · rw [script_append, script_append, hScript]
    rfl
  · rw [run_append, hRun']
    exact congrArg (Option.bind · fun next => next.run []) hAct'
  · rw [← length_sendResults hSame, ← length_sendResults hSmooth, hResults]
    rcases hOne with rfl | rfl
    · exact .inl ⟨rfl, rfl⟩
    · exact .inr ⟨rfl, rfl⟩

/-- Whatever sends are to fail, there is a run with the same script in which just these fail. -/
theorem exists_pattern {w w' : World} {actions : List Action} (hRun : w.run actions = some w')
    {pattern : List Bool}
    (hLength : (sendResults w'.journal).length = pattern.length + (sendResults w.journal).length) :
    ∃ actions' v, script actions' = script actions ∧ w.run actions' = some v ∧
      sendResults v.journal = pattern ++ sendResults w.journal := by
  induction actions using List.reverseRecOn generalizing w' pattern with
  | nil =>
    cases hRun
    obtain rfl : pattern = [] := List.eq_nil_of_length_eq_zero (by omega)
    exact ⟨[], w, rfl, rfl, rfl⟩
  | append_singleton actions action ih =>
    rw [run_append] at hRun
    obtain ⟨u, hBefore, hRun⟩ := Option.bind_eq_some_iff.mp hRun
    obtain ⟨u', hAct, hEnd⟩ := Option.bind_eq_some_iff.mp hRun
    obtain rfl : u' = w' := Option.some.inj hEnd
    cases hSets : action.setsSends with
    | true =>
      obtain ⟨sendsFail, rfl⟩ := Action.eq_of_setsSends hSets
      cases hAct
      obtain ⟨actions', v, hScript, hRun', hResults⟩ := ih hBefore hLength
      refine ⟨actions', v, ?_, hRun', hResults⟩
      rw [script_append, hScript]
      exact (List.append_nil _).symm
    | false =>
      obtain ⟨written, hChange⟩ := change_of_act hAct
      obtain ⟨results, hResults, hOne⟩ := sendResults_change hChange
      have hMore := sendResults_run hBefore
      rw [hResults, List.length_append] at hLength
      -- the last action has a part in the pattern only if it sends a frame
      rcases hOne with rfl | rfl
      · obtain ⟨actions', v, hScript, hRun', hPattern⟩ := ih hBefore (by simpa using hLength)
        obtain ⟨more, v', hScript', hEnd', hLast⟩ :=
          exists_last hScript hBefore hRun' hAct false
        refine ⟨actions' ++ more, v', hScript', hEnd', ?_⟩
        rcases hLast with ⟨-, hSame⟩ | ⟨hLonger, -⟩
        · rw [hSame, hPattern]
        · simp [hResults] at hLonger
      · cases pattern with
        | nil =>
          simp only [List.length_singleton, List.length_nil] at hLength
          omega
        | cons failed pattern =>
          have hRest : (sendResults u.journal).length =
              pattern.length + (sendResults w.journal).length := by
            simp only [List.length_cons, List.length_nil] at hLength
            omega
          obtain ⟨actions', v, hScript, hRun', hPattern⟩ := ih hBefore hRest
          obtain ⟨more, v', hScript', hEnd', hLast⟩ :=
            exists_last hScript hBefore hRun' hAct failed
          refine ⟨actions' ++ more, v', hScript', hEnd', ?_⟩
          rcases hLast with ⟨hSame, -⟩ | ⟨-, hLonger⟩
          · simp [hResults] at hSame
          · rw [hLonger, hPattern]
            rfl

end World

-- ---------------------------------------------------------------------------
-- Two runs
-- ---------------------------------------------------------------------------

/-- Runs with one script, from sessions that look the same, look the same at every step: calls and
their times, octets sent, statuses, results and shares. And every pattern of failing sends is that
of some run with the script. -/
theorem indifferent_of_script {w v : World} {actions actions' : List Action}
    (hSame : w.smooth = v.smooth) (hScript : script actions = script actions') :
    (w.course actions).map World.smooth = (v.course actions').map World.smooth ∧
      (w.run actions).map World.smooth = (v.run actions').map World.smooth ∧
      ∀ w', w.run actions = some w' → ∀ pattern : List Bool,
        (sendResults w'.journal).length = pattern.length + (sendResults w.journal).length →
          ∃ others v', script others = script actions ∧ w.run others = some v' ∧
            sendResults v'.journal = pattern ++ sendResults w.journal := by
  obtain ⟨hRun, hCourse⟩ := World.smooth_run hSame actions
  obtain ⟨hRun', hCourse'⟩ := World.smooth_run (rfl : v.smooth = v.smooth) actions'
  refine ⟨?_, ?_, fun w' hEnd pattern hLength => World.exists_pattern hEnd hLength⟩
  · rw [hCourse, hCourse', hScript]
  · rw [hRun, hRun', hScript]

/-- An episode in which the positions cannot be reconciled: RESUME is sent, and then ERROR. -/
def World.refusal (first second : Bool) : List Action :=
  [.addReconciliation ⟨0, 0, some (.rejected "no")⟩, .bind 0,
    .setSupplier ⟨"next", [⟨0, 0, .connected ⟨[⟨0, World.sampleOk⟩], true⟩⟩]⟩, .fail .closed,
    .setSendsFail first] ++ List.replicate 7 .work ++ [.setSendsFail second, .work]

theorem indifferent_of_script_refusal :
    script (World.refusal true false) = script (World.refusal false true) ∧
      (World.sample.run (World.refusal true false)).map (fun w => sendResults w.journal) =
        some [false, true] ∧
      (World.sample.run (World.refusal false true)).map (fun w => sendResults w.journal) =
        some [true, false] ∧
      (World.sample.course (World.refusal true false)).map World.smooth =
        (World.sample.course (World.refusal false true)).map World.smooth := by
  have hScript : script (World.refusal true false) = script (World.refusal false true) := rfl
  have hSame : World.sample.smooth = World.sample.smooth := rfl
  refine ⟨hScript, by decide +kernel, by decide +kernel, ?_⟩
  exact (indifferent_of_script hSame hScript).1

end Resumption
