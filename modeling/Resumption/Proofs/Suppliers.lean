import Mathlib.Data.List.Induction
import Resumption.Proofs.Counsel
import Resumption.Proofs.Interference
import Resumption.Proofs.Outcomes
import Resumption.Proofs.Views

/-!
# Whom an attempt asks for a connection

Callers install suppliers whenever they like. An attempt looks at them once, in the step in which it
begins: it asks the supplier that was installed last by then for one connection, and nobody else;
without one it has failed, and the strategy is told so. What is installed later makes no difference
to it. The connection it puts in place is the one that its supplier came up with.

* `World.Stocked` — the supplier in place is the one installed last, less what it was asked for
* `World.Attempts`, `World.Installs` — what an attempt does when it begins, and with its connection
* `World.stock`, `World.coherent_stock` — the session with another supplier in place
* `World.run_stock` — what is installed makes no difference until the next attempt begins
* `World.Dialling` — the answer an attempt waits for is that of the supplier it asked
* `sourced_of_run` — every attempt of every run
-/

namespace Resumption

/-- The supplier that an action installs. -/
def Action.supplier? : Action → Option Supplier
  | .setSupplier supplier => some supplier
  | _ => none

theorem Action.eq_of_supplier? {action : Action} {supplier : Supplier}
    (hInstalls : action.supplier? = some supplier) : action = .setSupplier supplier := by
  cases action with
  | setSupplier other =>
    cases hInstalls
    rfl
  | _ => cases hInstalls

/-- Whether a call has to do with making a connection or putting it in place. -/
def Event.isSupply : Event → Bool
  | .attempted | .dialled _ | .demultiplexed _ | .reconnected _ => true
  | _ => false

theorem Event.not_attempt_of_isSupply {event : Event} (hOther : event.isSupply = false) :
    event.isAttempt = false ∧ event.isDial = false := by
  cases event <;> first | exact ⟨rfl, rfl⟩ | cases hOther

/-- What is left of a supplier that was asked so many times. -/
def Supplier.spent (count : Nat) (supplier : Supplier) : Supplier :=
  { supplier with dials := supplier.dials.drop count }

theorem Supplier.spent_spent (supplier : Supplier) (count more : Nat) :
    (supplier.spent count).spent more = supplier.spent (count + more) := by
  unfold spent
  rw [List.drop_drop]

namespace World

-- ---------------------------------------------------------------------------
-- The supplier in place
-- ---------------------------------------------------------------------------

/-- How many connections the task has asked for. -/
def connects (w : World) : Nat :=
  dials (ownCalls w.journal)

theorem connects_change {w w' : World} {action : Action} {written : List Entry}
    (hChange : Change w action written w') :
    w'.connects = w.connects + dials (ownCalls written) := by
  rw [connects, ownCalls_change hChange, dials_append]
  rfl

theorem connects_run {w w' : World} {actions : List Action} (hRun : w.run actions = some w') :
    w.connects ≤ w'.connects := by
  obtain ⟨calls, hCalls, -⟩ := dials_run hRun
  rw [connects, connects, hCalls, dials_append]
  exact Nat.le_add_right _ _

section

attribute [local simp] own raised ownCalls_arrived ownCalls_drained disposal welcome connect
  Entry.isOwnCall Event.isCall Event.isDial dials List.countP_cons

/-- Only the step in which an attempt begins asks the supplier in place. -/
theorem supplier_stride {w w' : World} {written : List Entry} (hStride : Stride w written w') :
    w'.supplier = w.supplier.map (Supplier.spent (dials (ownCalls written))) := by
  have hNone : ∀ v : World, dials (ownCalls written) = 0 → v.supplier = w.supplier →
      v.supplier = w.supplier.map (Supplier.spent (dials (ownCalls written))) := by
    intro v hDials hSame
    rw [hDials, hSame]
    exact (Option.map_id_apply).symm
  cases hStride with
  | @dial ep due supplier hTask hStage hDue hSupplier => simp [hSupplier, Supplier.spent]
  | beginBare | announceNothing | reject | cut =>
    by_cases hDisposed : w.disposed <;> exact hNone _ (by simp [hDisposed]) (by simp)
  | _ => exact hNone _ (by simp) (by simp)

/-- Others put suppliers in place, and do nothing else about them while the task is there. They make
no connections. -/
theorem supplier_bystander {w w' : World} {action : Action} (hWork : action ≠ .work)
    (hAct : w.act action = some w') :
    w'.connections = w.connections ∧
      (w'.task ≠ .ended → w'.supplier = action.supplier?.or w.supplier) := by
  cases action with
  | work => exact absurd rfl hWork
  | drop =>
    refine ⟨?_, fun hAlive => absurd (gone_of_drop hAct).ended hAlive⟩
    simp only [act] at hAct
    split at hAct
    case isTrue =>
      obtain ⟨-, rfl⟩ := of_whileOpen hAct
      cases hTask : w.task <;> simp [World.drop, hTask]
    case isFalse => cases hAct
  | elapse millis =>
    obtain ⟨-, rfl⟩ := elapse_eq hAct
    exact ⟨rfl, fun _ => rfl⟩
  | fail error =>
    cases hAct
    rw [accept_eq]
    exact ⟨rfl, fun _ => rfl⟩
  | bind token =>
    simp only [act] at hAct
    split at hAct
    case isTrue =>
      obtain ⟨-, rfl⟩ := of_whileOpen hAct
      simp [World.bind, Action.supplier?]
    case isFalse => cases hAct
  | reconnect label =>
    obtain ⟨-, rfl⟩ := of_whileOpen hAct
    simp [Action.supplier?]
  | beginResume frame =>
    unfold act World.beginResume at hAct
    cases hDecode : ResumeOk.position frame with
    | error cause cursor | ok position cursor =>
      simp only [hDecode] at hAct
      obtain ⟨-, rfl⟩ := of_whileOpen hAct
      exact ⟨rfl, fun _ => rfl⟩
  | finishResume number =>
    obtain ⟨⟨outcome, v⟩, hFinish, rfl⟩ := Option.map_eq_some_iff.mp hAct
    obtain ⟨work, hUnderWay, hDue⟩ := of_finishResume hFinish
    rw [finishResume_eq hUnderWay hDue] at hFinish
    cases hFinish
    unfold finishReconciling
    cases work.reply.error <;> simp [Action.supplier?]
  | hold =>
    obtain ⟨-, rfl⟩ := of_whileOpen hAct
    cases hBound : w.bound <;> simp [World.hold, hBound, Action.supplier?]
  | setSupplier supplier | observe observer | subscribe =>
    obtain ⟨-, rfl⟩ := of_whileOpen hAct
    exact ⟨rfl, fun _ => rfl⟩
  | closeErrors | setPositions implied position | setSendsFail sendsFail
  | addReconciliation reconciliation | releaseHeld | poll =>
    cases hAct
    exact ⟨rfl, fun _ => rfl⟩

end

/-- The supplier in place after a run: none was installed at all, or it is the one that was
installed last, less the connections that it was asked for since. -/
inductive Stocked (start w : World) (actions : List Action) : Option Supplier → Prop
  | bare (hNone : ∀ action ∈ actions, action.supplier? = none) : Stocked start w actions none
  | latest {before after v supplier} (hActions : actions = before ++ .setSupplier supplier :: after)
      (hAfter : ∀ action ∈ after, action.supplier? = none)
      (hRun : start.run (before ++ [.setSupplier supplier]) = some v) :
      Stocked start w actions (some (supplier.spent (w.connects - v.connects)))

variable {start w : World} {actions : List Action}

/-- An action that installs no supplier. -/
theorem Stocked.append {w' : World} {action : Action} {written : List Entry}
    {supplier : Option Supplier} (hStocked : Stocked start w actions supplier)
    (hRun : start.run actions = some w) (hNone : action.supplier? = none)
    (hChange : Change w action written w') :
    Stocked start w' (actions ++ [action])
      (supplier.map (Supplier.spent (dials (ownCalls written)))) := by
  have hLast : ∀ more : List Action, (∀ a ∈ more, a.supplier? = none) →
      ∀ a ∈ more ++ [action], a.supplier? = none := by
    intro more hMore a hMem
    rcases List.mem_append.mp hMem with hMem | hMem
    · exact hMore a hMem
    · rw [List.mem_singleton.mp hMem]
      exact hNone
  cases hStocked with
  | bare hBare => exact .bare (hLast actions hBare)
  | @latest before after v supplier hActions hAfter hInstalled =>
    have hSince : v.connects ≤ w.connects := by
      rw [hActions, List.append_cons, run_append, hInstalled] at hRun
      exact connects_run hRun
    have hSpent : (supplier.spent (w.connects - v.connects)).spent (dials (ownCalls written)) =
        supplier.spent (w'.connects - v.connects) := by
      rw [Supplier.spent_spent, connects_change hChange]
      congr 1
      omega
    rw [Option.map_some, hSpent]
    exact .latest (by rw [hActions]; simp) (hLast after hAfter) hInstalled

/-- While the task is there, the supplier in place is the one installed last. -/
theorem stocked_of_run (hStart : start.supplier = none) (hRun : start.run actions = some w)
    (hAlive : w.task ≠ .ended) : Stocked start w actions w.supplier := by
  induction actions using List.reverseRecOn generalizing w with
  | nil =>
    cases hRun
    rw [hStart]
    exact .bare (by simp)
  | append_singleton actions action ih =>
    have hBoth := hRun
    rw [run_append] at hRun
    obtain ⟨u, hBefore, hLast⟩ := Option.bind_eq_some_iff.mp hRun
    obtain ⟨u', hAct, hEnd⟩ := Option.bind_eq_some_iff.mp hLast
    obtain rfl : u' = w := Option.some.inj hEnd
    obtain ⟨written, hChange⟩ := change_of_act hAct
    have hAlive' : u.task ≠ .ended := by
      intro hEnded
      have hStill := (ended_change (by rw [hEnded]; rfl) hChange).1
      cases hTask : u'.task <;> simp_all [Task.isEnded]
    have hStocked := ih hBefore hAlive'
    by_cases hWork : action = .work
    · subst hWork
      cases hChange with
      | quiet hQuiet => exact absurd rfl hQuiet
      | work hStride =>
        rw [supplier_stride hStride]
        exact hStocked.append hBefore rfl (.work hStride)
    · rw [(supplier_bystander hWork hAct).2 hAlive]
      cases hInstalls : action.supplier? with
      | some supplier =>
        obtain rfl := Action.eq_of_supplier? hInstalls
        have hLatest : Stocked start u' (actions ++ [.setSupplier supplier])
            (some (supplier.spent (u'.connects - u'.connects))) :=
          .latest rfl (by simp) hBoth
        rw [Nat.sub_self] at hLatest
        exact hLatest
      | none =>
        have hAppend := hStocked.append hBefore hInstalls hChange
        rw [ownCalls_of_actor (actor_change hWork hChange)] at hAppend
        have hUnspent : Supplier.spent (dials []) = id := rfl
        rwa [hUnspent, Option.map_id] at hAppend

-- ---------------------------------------------------------------------------
-- Attempts
-- ---------------------------------------------------------------------------

/-- How many attempts the task has begun. -/
def begun (w : World) : Nat :=
  attempts (ownCalls w.journal)

/-- What becomes of an attempt that begins with that supplier in place. -/
inductive Attempts (w w' : World) (ep : Episode) : Option Supplier → Prop
  /-- With none the attempt has failed, and the strategy is told so. -/
  | bare (hCalls : ownCalls w'.journal = ownCalls w.journal ++ [.attempted])
      (hTask : w'.task = .recovering { ep with stage := .consulting .noSupplier }) :
      Attempts w w' ep none
  /-- That supplier is asked for one connection, and the attempt waits for its answer. -/
  | asks {supplier}
      (hCalls : ownCalls w'.journal =
        ownCalls w.journal ++ [.attempted, .dialled supplier.name])
      (hTask : w'.task = .recovering
        { ep with stage := .dialling ((supplier.dials.headD .hanging).answer w.now) }) :
      Attempts w w' ep (some supplier)

theorem Attempts.calls {w w' : World} {ep : Episode} {supplier : Option Supplier}
    (hAttempts : Attempts w w' ep supplier) :
    ownCalls w'.journal = ownCalls w.journal ++
      .attempted :: supplier.toList.map fun s => .dialled s.name := by
  cases hAttempts with
  | bare hCalls | asks hCalls => exact hCalls

/-- The answer is there, and it is a connection. -/
def Answered (w : World) (ep : Episode) (peer : Peer) : Prop :=
  w.task = .recovering ep ∧
    ∃ answer, ep.stage = .dialling answer ∧ answer.ready? w.now = some (.ok peer)

/-- The connection to that peer is put in place, under a new number, and the attempt goes on with
it. -/
structure Installs (w w' : World) (ep : Episode) (peer : Peer) : Prop where
  calls : ownCalls w'.journal = ownCalls w.journal ++
    [.demultiplexed (w.connections + 1), .reconnected (.request (w.connections + 1)),
      .positionsRead w.implied w.position]
  connections : w'.connections = w.connections + 1
  task : w'.task = .recovering
    { ep with stage := .announcing ⟨w.connections + 1, peer⟩ w.implied w.position }

/-- What a step has to do with connections, with the calls it makes. -/
inductive Supplying (w w' : World) (calls : List Event) : Prop
  | attempt {ep} (hBegins : w.Begins ep) (hAttempts : Attempts w w' ep w.supplier)
      (hSame : w'.connections = w.connections)
  | install {ep peer} (hAnswered : w.Answered ep peer) (hInstalls : Installs w w' ep peer)
  | other (hBegins : ∀ ep, ¬ w.Begins ep) (hAnswered : ∀ ep peer, ¬ w.Answered ep peer)
      (hCalls : ∀ event ∈ calls, event.isSupply = false) (hSame : w'.connections = w.connections)

section

attribute [local simp] own raised ownCalls_arrived ownCalls_drained disposal connect welcome
  Entry.isOwnCall Event.isCall Event.isSupply

theorem supplying_stride {w w' : World} {written : List Entry} (hStride : Stride w written w') :
    Supplying w w' (ownCalls written) := by
  have hCalls := ownCalls_change (.work hStride)
  cases hStride with
  | dialNobody hTask hStage hDue hSupplier =>
    refine .attempt ⟨hTask, _, hStage, hDue⟩ ?_ (by simp)
    rw [hSupplier]
    exact .bare (hCalls.trans (by simp)) rfl
  | dial hTask hStage hDue hSupplier =>
    refine .attempt ⟨hTask, _, hStage, hDue⟩ ?_ (by simp)
    rw [hSupplier]
    exact .asks (hCalls.trans (by simp)) rfl
  | install hTask hStage hReady =>
    exact .install ⟨hTask, _, hStage, hReady⟩ ⟨hCalls.trans (by simp), by simp, rfl⟩
  | @cut ep hTask hWait =>
    refine .other ?_ ?_ ?_ ?_
    · rintro ep' ⟨hTask', due, hStage, hDue⟩
      cases hTask.symm.trans hTask'
      unfold proceed at hWait
      simp only [hStage, if_pos hDue, reduceCtorEq] at hWait
    · rintro ep' peer ⟨hTask', answer, hStage, hReady⟩
      cases hTask.symm.trans hTask'
      unfold proceed at hWait
      simp only [hStage, hReady, Option.map_some, reduceCtorEq] at hWait
    · by_cases hDisposed : w.disposed <;> simp [hDisposed]
    · simp
  | beginBare hTask | announceNothing hTask | reject hTask =>
    refine .other ?_ ?_ ?_ (by simp)
    · rintro ep' ⟨hTask', due, hStage, hDue⟩
      simp_all
    · rintro ep' peer ⟨hTask', answer, hStage, hReady⟩
      simp_all
    · by_cases hDisposed : w.disposed <;> simp [hDisposed]
  | _ =>
    refine .other ?_ ?_ (by simp) (by simp)
    · rintro ep' ⟨hTask', due, hStage, hDue⟩
      simp_all
    · rintro ep' peer ⟨hTask', answer, hStage, hReady⟩
      simp_all

end

/-- A connection comes after the beginning of its attempt. -/
theorem not_answered_of_begins {w : World} {ep ep' : Episode} {peer : Peer}
    (hBegins : w.Begins ep) : ¬ w.Answered ep' peer := by
  rintro ⟨hTask, answer, hStage, -⟩
  obtain ⟨hSame, due, hBacking, -⟩ := hBegins
  cases hTask.symm.trans hSame
  cases hStage.symm.trans hBacking

theorem attempts_of_begins {w : World} {ep : Episode} (hBegins : w.Begins ep) :
    ∃ w', w.act .work = some w' ∧ Attempts w w' ep w.supplier := by
  have hStep := step_of_begins hBegins
  obtain ⟨written, hStride⟩ := stride_of_step hStep
  refine ⟨_, hStep, ?_⟩
  cases supplying_stride hStride with
  | attempt hSame hAttempts =>
    cases hBegins.1.symm.trans hSame.1
    exact hAttempts
  | install hAnswered => exact absurd hAnswered (not_answered_of_begins hBegins)
  | other hNone => exact absurd hBegins (hNone ep)

theorem installs_of_answered {w : World} {ep : Episode} {peer : Peer}
    (hAnswered : w.Answered ep peer) :
    ∃ w', w.act .work = some w' ∧ Installs w w' ep peer := by
  have hStep : w.step = some (w.install ep peer) := by
    obtain ⟨hTask, answer, hStage, hReady⟩ := hAnswered
    refine step_of_proceed hTask ?_
    rw [proceed, hStage]
    exact congrArg (Option.map _) hReady
  obtain ⟨written, hStride⟩ := stride_of_step hStep
  refine ⟨_, hStep, ?_⟩
  cases supplying_stride hStride with
  | attempt hBegins => exact absurd hAnswered (not_answered_of_begins hBegins)
  | @install ep' peer' hSame hInstalls =>
    obtain ⟨hTask, answer, hStage, hReady⟩ := hAnswered
    obtain ⟨hTask', answer', hStage', hReady'⟩ := hSame
    cases hTask.symm.trans hTask'
    cases hStage.symm.trans hStage'
    cases hReady.symm.trans hReady'
    exact hInstalls
  | other _ hNone => exact absurd hAnswered (hNone ep peer)

/-- Whatever happens, connections have to do with the steps of the task alone. -/
theorem supplying_act {w w' : World} {action : Action} (hAct : w.act action = some w') :
    (action = .work ∧ ∃ calls, ownCalls w'.journal = ownCalls w.journal ++ calls ∧
      Supplying w w' calls) ∨
    action ≠ .work ∧ ownCalls w'.journal = ownCalls w.journal ∧
      w'.connections = w.connections := by
  obtain ⟨written, hChange⟩ := change_of_act hAct
  by_cases hWork : action = .work
  · subst hWork
    cases hChange with
    | quiet hQuiet => exact absurd rfl hQuiet
    | work hStride =>
      exact .inl ⟨rfl, _, ownCalls_change (.work hStride), supplying_stride hStride⟩
  · refine .inr ⟨hWork, ?_, (supplier_bystander hWork hAct).1⟩
    rw [ownCalls_change hChange, ownCalls_of_actor (actor_change hWork hChange), List.append_nil]

theorem begun_run {w w' : World} {actions : List Action} (hRun : w.run actions = some w') :
    w.begun ≤ w'.begun := by
  obtain ⟨calls, hCalls, -⟩ := dials_run hRun
  rw [begun, begun, hCalls, attempts_append]
  exact Nat.le_add_right _ _

theorem Attempts.begun {w w' : World} {ep : Episode} {supplier : Option Supplier}
    (hAttempts : Attempts w w' ep supplier) : w'.begun = w.begun + 1 := by
  rw [World.begun, World.begun, hAttempts.calls, attempts_append]
  cases supplier <;> rfl

/-- A step that begins no attempt asks no supplier. -/
theorem Supplying.begins {w w' : World} {calls : List Event} (hSupplying : Supplying w w' calls)
    (hCalls : ownCalls w'.journal = ownCalls w.journal ++ calls)
    (hMore : w'.begun ≠ w.begun ∨ w'.connects ≠ w.connects) : ∃ ep, w.Begins ep := by
  have hNone : attempts calls = 0 → dials calls = 0 → False := by
    intro hAttempts hDials
    rw [World.begun, World.begun, connects, connects, hCalls, attempts_append, dials_append,
      hAttempts, hDials] at hMore
    exact hMore.elim (absurd rfl) (absurd rfl)
  cases hSupplying with
  | attempt hBegins => exact ⟨_, hBegins⟩
  | install _ hInstalls =>
    obtain rfl := List.append_cancel_left (hCalls.symm.trans hInstalls.calls)
    exact (hNone rfl rfl).elim
  | other _ _ hOther =>
    have hPlain : ∀ event ∈ calls, event.isAttempt = false ∧ event.isDial = false :=
      fun event hMem => Event.not_attempt_of_isSupply (hOther event hMem)
    refine (hNone ?_ ?_).elim
    · exact List.countP_eq_zero.mpr fun event hMem => by simp [(hPlain event hMem).1]
    · exact List.countP_eq_zero.mpr fun event hMem => by simp [(hPlain event hMem).2]

-- ---------------------------------------------------------------------------
-- Another supplier in place
-- ---------------------------------------------------------------------------

/-- The session with another supplier in place. -/
def stock (supplier : Option Supplier) (w : World) : World :=
  { w with supplier }

theorem enter_stock (supplier : Option Supplier) (actor : Actor) (status : Status) (w : World) :
    (w.stock supplier).enter actor status = (w.enter actor status).stock supplier := by
  have hStatus : (w.stock supplier).status = w.status := rfl
  have hObserver : (w.stock supplier).observer = w.observer := rfl
  unfold enter
  rw [hStatus, hObserver]
  split
  · rfl
  · cases w.observer <;> rfl

theorem dispose_stock (supplier : Option Supplier) (actor : Actor) (w : World) :
    (w.stock supplier).dispose actor = (w.dispose actor).stock supplier := by
  have hDisposed : (w.stock supplier).disposed = w.disposed := rfl
  unfold dispose
  rw [hDisposed]
  split
  · rfl
  · exact enter_stock supplier actor .disposed ({ w with disposed := true }.record actor .disposed)

theorem terminate_stock (supplier : Option Supplier) (w : World) :
    (w.stock supplier).terminate = w.terminate.stock supplier := by
  have hUnbind : (w.stock supplier).unbind = w.unbind.stock supplier := by
    rw [unbind_eq, unbind_eq]
    rfl
  have hDisposed : (w.unbind.stock supplier).disposed = w.unbind.disposed := rfl
  unfold terminate
  rw [hUnbind]
  dsimp only
  rw [hDisposed]
  split
  · rfl
  · rw [enter_stock]
    rfl

/-- Whichever supplier is in place, an elementary change has the same effect on all the rest. -/
theorem coherent_stock : Coherent (stock none) where
  core _ := rfl
  touch change w := by
    cases change with
    | enter actor status =>
      show ((w.stock none).enter actor status).stock none = (w.enter actor status).stock none
      rw [enter_stock]
      rfl
    | dispose actor =>
      show ((w.stock none).dispose actor).stock none = (w.dispose actor).stock none
      rw [dispose_stock]
      rfl
    | terminate =>
      show (w.stock none).terminate.stock none = w.terminate.stock none
      rw [terminate_stock]
      rfl
    | accept errors =>
      show ((w.stock none).accept errors).stock none = (w.accept errors).stock none
      rw [accept_eq, accept_eq]
      rfl
    | _ => rfl

/-- A run in which no attempt begins. -/
def Unbegun (w : World) (actions : List Action) : Prop :=
  ∃ w', w.run actions = some w' ∧ w'.begun = w.begun

theorem unbegun_cons {w : World} {action : Action} {actions : List Action}
    (hUnbegun : w.Unbegun (action :: actions)) :
    (action = .work → ∀ ep, ¬ w.Begins ep) ∧
      ∀ next, w.act action = some next → next.Unbegun actions := by
  obtain ⟨w', hRun, hBegun⟩ := hUnbegun
  obtain ⟨next, hNext, hRest⟩ := Option.bind_eq_some_iff.mp hRun
  have hOne : w.run [action] = some next := by
    rw [run, hNext]
    rfl
  have hFirst := begun_run hOne
  have hLater := begun_run hRest
  refine ⟨?_, fun next' hNext' => ?_⟩
  · rintro rfl ep hBegins
    obtain ⟨next', hStep, hAttempts⟩ := attempts_of_begins hBegins
    cases hNext.symm.trans hStep
    have hMore := hAttempts.begun
    omega
  · cases hNext.symm.trans hNext'
    exact ⟨w', hRest, by omega⟩

/-- Until the next attempt begins, everything goes on as it would with another supplier. -/
theorem run_stock {w w' : World} {actions : List Action} (supplier : Option Supplier)
    (hRun : w.run actions = some w') (hBegun : w'.begun = w.begun) :
    ∃ left, (w.stock supplier).run actions = some (w'.stock left) := by
  have hUnbegun : w.Unbegun actions := ⟨w', hRun, hBegun⟩
  have hSame : w.stock none = (w.stock supplier).stock none := rfl
  have hRuns : (w.run actions).map (stock none) =
      ((w.stock supplier).run actions).map (stock none) := by
    refine run_view ?_ (fun hUnbegun hNext => (unbegun_cons hUnbegun).2 _ hNext) hSame hUnbegun
    intro w v action actions hSame hUnbegun
    have hErrors : (w.stock none).errors = (v.stock none).errors := congrArg errors hSame
    have hClosed : (w.stock none).errorsClosed = (v.stock none).errorsClosed :=
      congrArg errorsClosed hSame
    refine coherent_stock.act hSame (fun _ => ⟨hErrors, hClosed⟩) fun hWork ep hBegins => ?_
    exact absurd hBegins ((unbegun_cons hUnbegun).1 hWork ep)
  rw [hRun] at hRuns
  obtain ⟨v, hOther, hEqual⟩ := Option.map_eq_some_iff.mp hRuns.symm
  -- the two differ in nothing but the supplier
  have hLeft : (v.stock none).stock v.supplier = (w'.stock none).stock v.supplier :=
    congrArg (stock v.supplier) hEqual
  exact ⟨v.supplier, hOther.trans (congrArg some hLeft)⟩

-- ---------------------------------------------------------------------------
-- Where a connection comes from
-- ---------------------------------------------------------------------------

/-- An attempt under way waits for the answer of the supplier that it asked when it began. No other
call was made since. -/
inductive Dialling (start w : World) (actions : List Action) : Dial → Nat → Prop
  | since {earlier between v ep supplier} (hActions : actions = earlier ++ .work :: between)
      (hRun : start.run earlier = some v) (hBegins : v.Begins ep)
      (hStocked : Stocked start v earlier (some supplier))
      (hCalls : ownCalls w.journal =
        ownCalls v.journal ++ [.attempted, .dialled supplier.name]) :
      Dialling start w actions (supplier.dials.headD .hanging) v.now

/-- A step after which an episode waits for a connection is one in which an attempt begins. -/
theorem begins_of_dialling {w w' : World} {written : List Entry} {ep : Episode}
    {answer : Pending (Except LinkError Peer)} (hStride : Stride w written w')
    (hTask : w'.task = .recovering ep) (hStage : ep.stage = .dialling answer) :
    ∃ before, w.Begins before := by
  cases hStride with
  | dial hBefore hBacking hDue => exact ⟨_, hBefore, _, hBacking, hDue⟩
  | stop | beginBare | announceNothing | resume | reject | cut => simp at hTask
  | _ =>
    cases hTask
    cases hStage

/-- How an episode comes to wait for a connection. -/
theorem dialling_of_run {ep : Episode} {answer : Pending (Except LinkError Peer)}
    (hStart : start.supplier = none) (hIdle : start.task = .idle)
    (hRun : start.run actions = some w) (hTask : w.task = .recovering ep)
    (hStage : ep.stage = .dialling answer) :
    ∃ dial time, answer = dial.answer time ∧ Dialling start w actions dial time := by
  induction actions using List.reverseRecOn generalizing w with
  | nil =>
    cases hRun
    cases hIdle.symm.trans hTask
  | append_singleton actions action ih =>
    rw [run_append] at hRun
    obtain ⟨u, hBefore, hLast⟩ := Option.bind_eq_some_iff.mp hRun
    obtain ⟨u', hAct, hEnd⟩ := Option.bind_eq_some_iff.mp hLast
    obtain rfl : u' = w := Option.some.inj hEnd
    by_cases hWork : action = .work
    · subst hWork
      obtain ⟨written, hStride⟩ := stride_of_step hAct
      obtain ⟨ep', hBegins⟩ := begins_of_dialling hStride hTask hStage
      obtain ⟨next, hStep, hAttempts⟩ := attempts_of_begins hBegins
      cases hAct.symm.trans hStep
      have hStocked := stocked_of_run hStart hBefore (by simp [hBegins.1])
      generalize u.supplier = supplier at hStocked hAttempts
      cases hAttempts with
      | bare _ hTask' =>
        cases hTask.symm.trans hTask'
        cases hStage
      | asks hCalls hTask' =>
        cases hTask.symm.trans hTask'
        cases hStage
        exact ⟨_, _, rfl, .since rfl hBefore hBegins hStocked hCalls⟩
    · -- the episode waits on, and nobody else calls in its name
      have hTask' : u.task = .recovering ep := by
        rcases act_cases hAct with ⟨rfl, -⟩ | ⟨millis, -, -, rfl⟩ | ⟨-, hBystander⟩
        · exact absurd rfl hWork
        · exact hTask
        · exact hBystander.recovering hTask
      obtain ⟨-, hSame, -⟩ := (supplying_act hAct).resolve_left fun hOther => hWork hOther.1
      obtain ⟨dial, time, hAnswer, hDialling⟩ := ih hBefore hTask'
      refine ⟨dial, time, hAnswer, ?_⟩
      cases hDialling with
      | @since earlier between v ep' supplier hActions hEarlier hBegins hStocked hCalls =>
        have hMore : actions ++ [action] = earlier ++ .work :: (between ++ [action]) := by
          rw [hActions, List.append_assoc, List.cons_append]
        exact .since hMore hEarlier hBegins hStocked (hSame.trans hCalls)

end World

/-- Connections are numbered in the order in which they are made. -/
theorem Reachable.numbered {w : World} (hReach : Reachable w) :
    ∀ number, .demultiplexed number ∈ ownCalls w.journal → number ≤ w.connections := by
  refine hReach.induct_act (P := fun v => ∀ number, .demultiplexed number ∈ ownCalls v.journal →
    number ≤ v.connections) (fun _ _ _ _ => nofun) ?_
  intro v v' action hReach ih hAct
  rcases World.supplying_act hAct with ⟨-, calls, hCalls, hSupplying⟩ | ⟨-, hCalls, hSame⟩
  · cases hSupplying with
    | attempt _ hAttempts hSame =>
      intro number hMem
      rw [hSame]
      exact ih number (by simpa [hAttempts.calls] using hMem)
    | install _ hInstalls =>
      intro number hMem
      rw [hInstalls.connections]
      rcases List.mem_append.mp (hInstalls.calls ▸ hMem) with hOld | hNew
      · exact Nat.le_succ_of_le (ih number hOld)
      · exact Nat.le_of_eq (by simpa using hNew)
    | other _ _ hOther hSame =>
      intro number hMem
      rw [hSame]
      rcases List.mem_append.mp (hCalls ▸ hMem) with hOld | hNew
      · exact ih number hOld
      · cases hOther _ hNew
  · rw [hCalls, hSame]
    exact ih

theorem Dial.connected_of_ready {dial : Dial} {time now : Nat} {peer : Peer}
    (hReady : (dial.answer time).ready? now = some (.ok peer)) :
    dial.outcome = .connected peer ∧ time + dial.delay ≤ now := by
  unfold Dial.answer at hReady
  cases hOutcome : dial.outcome with
  | connected other =>
    simp only [hOutcome, Pending.ready?] at hReady
    split at hReady
    case isTrue hDue =>
      cases hReady
      exact ⟨rfl, hDue⟩
    case isFalse => cases hReady
  | failed cause =>
    simp only [hOutcome, Pending.ready?] at hReady
    split at hReady <;> cases hReady
  | hung => simp only [hOutcome, Pending.ready?, reduceCtorEq] at hReady

/-- How the attempts of a run come by their connections. -/
structure World.Sourced (start w : World) (actions : List Action) : Prop where
  /-- While the task is there, the supplier in place is the one installed last. -/
  latest : w.task ≠ .ended → World.Stocked start w actions w.supplier
  /-- An attempt begins at the moment when the delay before it is over, and looks at the supplier
  that is in place then. -/
  attempt : ∀ ep, w.Begins ep →
    (∃ a ∈ accounts w.journal, a.ending = none ∧
      (a.replies.map attemptDue).getLast? = some w.now) ∧
    ∃ w', w.act .work = some w' ∧ World.Attempts w w' ep w.supplier
  /-- Nothing else begins an attempt, or asks any supplier for a connection. -/
  only : ∀ action w', w.act action = some w' →
    w'.begun ≠ w.begun ∨ w'.connects ≠ w.connects → action = .work ∧ ∃ ep, w.Begins ep
  /-- What is installed makes a difference to later attempts only: until the next one begins,
  everything goes on as with any other supplier. -/
  later : ∀ supplier more w', w.run more = some w' → w'.begun = w.begun →
    ∃ left, (w.stock supplier).run more = some (w'.stock left)
  /-- An attempt waits for nothing but the answer of the supplier that it asked when it began. -/
  waiting : ∀ ep answer, w.task = .recovering ep → ep.stage = .dialling answer →
    ∃ dial time, answer = dial.answer time ∧ World.Dialling start w actions dial time
  /-- The connection that comes of it is put in place, under a number that none had before. -/
  install : ∀ ep peer, w.Answered ep peer →
    (∃ dial time, World.Dialling start w actions dial time ∧ dial.outcome = .connected peer ∧
      time + dial.delay ≤ w.now) ∧
    (∃ w', w.act .work = some w' ∧ World.Installs w w' ep peer) ∧
    .demultiplexed (w.connections + 1) ∉ ownCalls w.journal
  /-- The task puts no other connection in place. -/
  reconnects : ∀ action w' calls target, w.act action = some w' →
    ownCalls w'.journal = ownCalls w.journal ++ calls → .reconnected target ∈ calls →
      action = .work ∧ ∃ ep peer, w.Answered ep peer

/-- In every run, each attempt has its connection from the supplier that was installed last when it
began. -/
theorem sourced_of_run {config : Config} {tokens : List ByteArray}
    {reconciliations : List Reconciliation} {bursts : List Nat} {w : World} {actions : List Action}
    (hRun : (World.initial config tokens reconciliations bursts).run actions = some w) :
    (World.initial config tokens reconciliations bursts).Sourced w actions := by
  have hReach : Reachable w := ⟨_, _, _, _, _, hRun⟩
  constructor
  case latest => exact World.stocked_of_run rfl hRun
  case attempt =>
    intro ep hBegins
    refine ⟨?_, World.attempts_of_begins hBegins⟩
    obtain ⟨hTask, due, hStage, hDue⟩ := hBegins
    obtain ⟨a, hTracks⟩ := hReach.tracks hTask
    have hKeeps := (hReach.live Account.counselled_law hTracks).keeps
    rw [hStage] at hKeeps
    cases hKeeps with
    | between hBetween => cases hBetween
    | backingOff _ hStarts hTime =>
      obtain rfl := Nat.le_antisymm hDue hTime
      refine ⟨a, hTracks.mem, hTracks.ending, ?_⟩
      rw [hStarts, List.getLast?_concat]
  case only =>
    intro action w' hAct hMore
    rcases World.supplying_act hAct with ⟨hWork, calls, hCalls, hSupplying⟩ | ⟨-, hCalls, -⟩
    · exact ⟨hWork, hSupplying.begins hCalls hMore⟩
    · rw [World.begun, World.begun, World.connects, World.connects, hCalls] at hMore
      exact absurd hMore (by simp)
  case later =>
    intro supplier more w' hMore hBegun
    exact World.run_stock supplier hMore hBegun
  case waiting =>
    intro ep answer hTask hStage
    exact World.dialling_of_run rfl rfl hRun hTask hStage
  case install =>
    intro ep peer hAnswered
    refine ⟨?_, World.installs_of_answered hAnswered, fun hOld => ?_⟩
    · obtain ⟨hTask, answer, hStage, hReady⟩ := hAnswered
      obtain ⟨dial, time, rfl, hDialling⟩ := World.dialling_of_run rfl rfl hRun hTask hStage
      exact ⟨dial, time, hDialling, Dial.connected_of_ready hReady⟩
    · exact absurd (hReach.numbered _ hOld) (Nat.not_succ_le_self _)
  case reconnects =>
    intro action w' calls target hAct hCalls hMem
    rcases World.supplying_act hAct with ⟨hWork, calls', hCalls', hSupplying⟩ | ⟨-, hSame, -⟩
    · obtain rfl := List.append_cancel_left (hCalls'.symm.trans hCalls)
      cases hSupplying with
      | attempt _ hAttempts =>
        obtain rfl := List.append_cancel_left (hAttempts.calls.symm.trans hCalls)
        simp at hMem
      | install hAnswered => exact ⟨hWork, _, _, hAnswered⟩
      | other _ _ hOther => cases hOther _ hMem
    · obtain rfl := List.append_right_eq_self.mp (hCalls.symm.trans hSame)
      cases hMem

/-- One supplier after the other is installed: before an attempt, while the strategy is asked, and
while the attempt waits for its connection. Only the second one ever has one. -/
def World.restocking : List Action :=
  [.bind 0, .setSupplier ⟨"first", []⟩, .fail .closed, .work, .work, .work,
    .setSupplier ⟨"second", [⟨0, 5, .connected ⟨[⟨0, World.sampleOk⟩], true⟩⟩]⟩, .work,
    .setSupplier ⟨"third", [⟨0, 0, .failed .closed⟩]⟩, .elapse 5, .work, .work, .work, .work]

theorem sourced_of_run_restocking :
    ∃ w, World.sample.run World.restocking = some w ∧ w.status = .resumed ∧ w.begun = 1 ∧
      w.connects = 1 ∧ w.connections = 1 ∧ w.supplier.map Supplier.name = some "third" ∧
      World.sample.Sourced w World.restocking := by
  have hFacts : (World.sample.run World.restocking).map (fun w =>
      (w.status, w.begun, w.connects, w.connections, w.supplier.map Supplier.name)) =
        some (.resumed, 1, 1, 1, some "third") := by
    decide +kernel
  obtain ⟨w, hRun, hFacts⟩ := Option.map_eq_some_iff.mp hFacts
  simp only [Prod.mk.injEq] at hFacts
  obtain ⟨hStatus, hBegun, hConnects, hConnections, hSupplier⟩ := hFacts
  exact ⟨w, hRun, hStatus, hBegun, hConnects, hConnections, hSupplier, sourced_of_run hRun⟩

end Resumption
