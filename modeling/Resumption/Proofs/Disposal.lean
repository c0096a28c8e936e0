import Resumption.Proofs.Indifference

/-!
# After the connection is disposed

Disposing the resumable connection is meant to be the end of recovery. It is where the task itself
disposes: that is its last act but one, and a task that is over does nothing any more. A caller's
resumption that is rejected disposes as well, but it does not stop the task, and the task never
looks whether the connection is still there. It then goes on as though nothing had happened.

* `Quiet` — no call that recovers the connection after its disposal
* `ended_run` — a task that is over does nothing any more
* `stride_ends` — a step that disposes ends the task, and makes no call after the disposal
* `quiet_iff` — a run is quiet exactly where the task disposed, or where the same run without the
  disposal has no calls either
-/

namespace Resumption

def Event.isDisposal : Event → Bool
  | .disposed => true
  | _ => false

/-- How often the connection was disposed. -/
def disposals (journal : List Entry) : Nat :=
  journal.countP fun e => e.event.isDisposal

/-- Once the connection is disposed, the task makes no call to recover it. Latest first. -/
def Quiet (journal : List Entry) : Prop :=
  journal.Pairwise fun later earlier => earlier.event.isDisposal → later.isRecovery = false

instance (journal : List Entry) : Decidable (Quiet journal) :=
  inferInstanceAs (Decidable (journal.Pairwise _))

theorem quiet_deeds {journal : List Entry} : Quiet (deeds journal) ↔ Quiet journal := by
  rw [Quiet, Quiet, deeds, List.pairwise_filter]
  refine List.Pairwise.iff fun later earlier => ?_
  -- a notice is neither a disposal nor a call
  constructor
  · intro h hDisposal
    have hEarlier : earlier.event.isNotice = false := by
      cases hEvent : earlier.event <;> simp_all [Event.isDisposal, Event.isNotice]
    cases hLater : later.event.isNotice with
    | false => exact h (by simp [hLater]) (by simp [hEarlier]) hDisposal
    | true => simp [Entry.isRecovery, Event.isRecovery_of_isNotice hLater]
  · intro h _ _
    exact h

namespace World

-- ---------------------------------------------------------------------------
-- Ends are final
-- ---------------------------------------------------------------------------

section

attribute [local simp] own guest arrived raised drained disposal disposals Event.isDisposal

theorem disposals_stride {w w' : World} {written : List Entry} (hStride : Stride w written w') :
    w'.disposed.toNat = disposals written + w.disposed.toNat := by
  cases hStride with
  | stop => simp
  | beginBare => by_cases hDisposed : w.disposed <;> simp [hDisposed]
  | begin => simp [welcome]
  | consult => simp
  | backOff => simp
  | dialNobody => simp
  | dial => simp [Function.comp_def]
  | refuse => simp
  | install => simp [connect, Function.comp_def]
  | announceNothing => by_cases hDisposed : w.disposed <;> simp [hDisposed]
  | announce => simp
  | hearNothing => simp
  | hearNoise => simp
  | hear => simp
  | resume => simp [Function.comp_def]
  | reject => by_cases hDisposed : w.disposed <;> simp [hDisposed, Function.comp_def]
  | cut => by_cases hDisposed : w.disposed <;> simp [hDisposed]

theorem disposals_change {w w' : World} {action : Action} {written : List Entry}
    (hChange : Change w action written w') :
    w'.disposed.toNat = disposals written + w.disposed.toNat := by
  cases hChange with
  | work hStride => exact disposals_stride hStride
  | quiet _ hSame => simp [hSame.disposed]
  | fail error => simp [Function.comp_def]
  | bind => simp [World.bind]
  | reconnect label => simp [Function.comp_def]
  | beginResume => simp
  | refuseResume => simp
  | resume => simp [Function.comp_def]
  | reject => by_cases hDisposed : w.disposed <;> simp [hDisposed, Function.comp_def]
  | hold => simp
  | releaseHeld => simp [releaseHeld]
  | drop => simp
  | dropRecovering => simp

theorem not_stride_of_ended {w w' : World} {written : List Entry} (hEnded : w.task.isEnded) :
    ¬ Stride w written w' := by
  intro hStride
  cases hStride <;> simp_all [Task.isEnded]

/-- Only a step of the task writes in its name. -/
theorem actor_change {w w' : World} {action : Action} {written : List Entry}
    (hAction : action ≠ .work) (hChange : Change w action written w') :
    ∀ e ∈ written, e.actor ≠ .task := by
  cases hChange with
  | work => exact absurd rfl hAction
  | quiet => simp
  | fail error => simp
  | bind => simp
  | reconnect label => simp [or_imp, forall_and]
  | beginResume => simp
  | refuseResume => simp
  | resume => simp
  | reject => by_cases hDisposed : w.disposed <;> simp [hDisposed]
  | hold => simp
  | releaseHeld => simp
  | drop => simp
  | dropRecovering => simp

/-- A task that is over stays so, and nothing is written down in its name. -/
theorem ended_change {w w' : World} {action : Action} {written : List Entry}
    (hEnded : w.task.isEnded) (hChange : Change w action written w') :
    w'.task.isEnded ∧ ∀ e ∈ written, e.actor ≠ .task := by
  have hAction : action ≠ .work := by
    rintro rfl
    cases hChange with
    | work hStride => exact not_stride_of_ended hEnded hStride
    | quiet hWork _ => exact hWork rfl
  refine ⟨?_, actor_change hAction hChange⟩
  cases hChange with
  | work => exact absurd rfl hAction
  | quiet _ hSame => rw [hSame.task, hEnded]
  | fail error => simp [hEnded]
  | bind => simp [World.bind, hEnded]
  | reconnect label => simp [hEnded]
  | beginResume => simp [hEnded]
  | refuseResume => simp [hEnded]
  | resume => simp [hEnded]
  | reject => simp [hEnded]
  | hold => simp [hEnded]
  | releaseHeld => simp [releaseHeld, hEnded]
  | drop => rfl
  | dropRecovering => rfl

/-- A step that disposes ends the task, and makes no call after the disposal. -/
theorem stride_ends {w w' : World} {written : List Entry} (hBefore : w.disposed = false)
    (hStride : Stride w written w') (hNow : w'.disposed) : w'.task.isEnded ∧ Quiet written := by
  have hDisposal := disposals_stride hStride
  rw [hNow, hBefore] at hDisposal
  cases hStride with
  | beginBare => simp [Quiet, Task.isEnded, hBefore, Entry.isRecovery, Event.isRecovery]
  | announceNothing => simp [Quiet, Task.isEnded, hBefore, Entry.isRecovery, Event.isRecovery]
  | reject =>
    simp [Quiet, Task.isEnded, hBefore, Entry.isRecovery, Event.isRecovery, List.pairwise_reverse,
      List.pairwise_map, List.pairwise_of_forall]
  | cut => simp [Quiet, Task.isEnded, hBefore, Entry.isRecovery, Event.isRecovery]
  | _ =>
    -- no other step disposes
    simp [Function.comp_def] at hDisposal

end

-- ---------------------------------------------------------------------------
-- Whole runs
-- ---------------------------------------------------------------------------

theorem ended_run {w w' : World} {actions : List Action} (hEnded : w.task.isEnded)
    (hRun : w.run actions = some w') :
    ∃ more, deeds w'.journal = more ++ deeds w.journal ∧ ∀ e ∈ more, e.actor ≠ .task :=
  (run_grows ended_change hRun hEnded).2

theorem deeds_run {w w' : World} {actions : List Action} (hRun : w.run actions = some w') :
    ∃ more, deeds w'.journal = more ++ deeds w.journal := by
  obtain ⟨more, hMore, -⟩ :=
    (run_grows (P := fun _ => True) (Q := fun _ => True) (by simp) hRun trivial).2
  exact ⟨more, hMore⟩

end World

theorem disposals_append (later earlier : List Entry) :
    disposals (later ++ earlier) = disposals later + disposals earlier :=
  List.countP_append

theorem disposals_eq_zero {journal : List Entry} :
    disposals journal = 0 ↔ ∀ e ∈ journal, e.event.isDisposal = false := by
  simp [disposals, List.countP_eq_zero]

/-- The connection is disposed at most once. -/
theorem Reachable.disposals_eq {w : World} (hReach : Reachable w) :
    disposals (deeds w.journal) = w.disposed.toNat := by
  refine hReach.induct (P := fun w => disposals (deeds w.journal) = w.disposed.toNat)
    (fun _ _ _ _ => rfl) ?_
  intro w w' action written _ hCount hChange
  rw [World.disposals_change hChange, World.deeds_change hChange, disposals_append, hCount]

theorem isRecovery_of_actor {e : Entry} (hActor : e.actor ≠ .task) : e.isRecovery = false := by
  simp [Entry.isRecovery, hActor]

theorem quiet_append {later earlier : List Entry} :
    Quiet (later ++ earlier) ↔
      Quiet later ∧ Quiet earlier ∧
        ∀ a ∈ later, ∀ b ∈ earlier, b.event.isDisposal → a.isRecovery = false :=
  List.pairwise_append

theorem quiet_of_disposals {journal : List Entry} (hNone : disposals journal = 0) :
    Quiet journal := by
  rw [disposals_eq_zero] at hNone
  refine List.Pairwise.imp_of_mem ?_ (List.pairwise_of_forall (R := fun _ _ => True) (by simp))
  intro later earlier _ hEarlier _ hDisposal
  rw [hNone earlier hEarlier] at hDisposal
  cases hDisposal

theorem quiet_of_isRecovery {journal : List Entry} (hNone : ∀ e ∈ journal, e.isRecovery = false) :
    Quiet journal := by
  refine List.Pairwise.imp_of_mem ?_ (List.pairwise_of_forall (R := fun _ _ => True) (by simp))
  intro later earlier hLater _ _ _
  exact hNone later hLater

/-- Where others disposed, quiet means that the task makes no call afterwards. -/
theorem quiet_append_iff {more written before : List Entry} (hBefore : disposals before = 0)
    (hWritten : disposals written ≠ 0) (hMore : disposals more = 0)
    (hActor : ∀ e ∈ written, e.actor ≠ .task) :
    Quiet (more ++ (written ++ before)) ↔ ∀ e ∈ more, e.isRecovery = false := by
  have hEarlier : Quiet (written ++ before) := by
    refine quiet_append.mpr ⟨?_, quiet_of_disposals hBefore, ?_⟩
    · exact quiet_of_isRecovery fun e he => isRecovery_of_actor (hActor e he)
    · intro a ha _ _ _
      exact isRecovery_of_actor (hActor a ha)
  obtain ⟨d, hd, hDisposal⟩ : ∃ d ∈ written, d.event.isDisposal := by
    rw [Ne, disposals_eq_zero] at hWritten
    simpa using hWritten
  rw [quiet_append]
  constructor
  · rintro ⟨-, -, hAcross⟩ e he
    exact hAcross e he d (List.mem_append_left before hd) hDisposal
  · intro hNone
    exact ⟨quiet_of_disposals hMore, hEarlier, fun a ha _ _ _ => hNone a ha⟩

namespace World

theorem recoveryCalls_eq_iff {w v : World} {more : List Entry}
    (hMore : deeds v.journal = more ++ deeds w.journal) :
    v.recoveryCalls = w.recoveryCalls ↔ ∀ e ∈ more, e.isRecovery = false := by
  rw [recoveryCalls, recoveryCalls, ← filter_isRecovery_deeds, hMore, List.filter_append,
    filter_isRecovery_deeds, List.append_left_eq_self, List.filter_eq_nil_iff]
  simp

/-- The session as it would be if its connection had not been disposed. -/
def spare (status : Status) (w : World) : World :=
  { w with disposed := false, status }

/-- Disposal by a caller changes nothing in what the task does. -/
theorem recoveryCalls_spare {w w' : World} {actions : List Action} (status : Status)
    (hRun : w.run actions = some w') :
    ∃ spared, (w.spare status).run actions = some spared ∧
      spared.recoveryCalls = w'.recoveryCalls :=
  recoveryCalls_eq_of_run (show w.blur = (w.spare status).blur from rfl) hRun

/-- After its disposal the connection is left alone in exactly two cases: the task itself disposed
it, or the task would have made no further call without the disposal either. -/
theorem quiet_iff {w₀ w₁ w : World} {action : Action} {after : List Action}
    (hReach : Reachable w₀) (hBefore : w₀.disposed = false) (hAct : w₀.act action = some w₁)
    (hNow : w₁.disposed = true) (hRun : w₁.run after = some w) :
    Quiet w.journal ↔
      action = .work ∨
        ∃ spared, (w₁.spare w₀.status).run after = some spared ∧
          spared.recoveryCalls = w₁.recoveryCalls := by
  obtain ⟨written, hChange⟩ := change_of_act hAct
  have hReach₁ : Reachable w₁ := hReach.act hAct
  have hDeeds := deeds_change hChange
  have hNone : disposals (deeds w₀.journal) = 0 := by rw [hReach.disposals_eq, hBefore]; rfl
  have hOne : disposals written = 1 := by
    have hCount := disposals_change hChange
    rw [hNow, hBefore] at hCount
    exact hCount.symm
  -- a disposal in the course of a step is the task's own
  by_cases hAction : action = .work
  · -- the task is over, so what comes after is not its own
    subst hAction
    have hStride : Stride w₀ written w₁ := by
      cases hChange with
      | work hStride => exact hStride
      | quiet hWork => exact absurd rfl hWork
    obtain ⟨hEnded, hQuiet⟩ := stride_ends hBefore hStride hNow
    obtain ⟨more, hMore, hActor⟩ := ended_run hEnded hRun
    have hIdle : ∀ e ∈ more, e.isRecovery = false := fun e he => isRecovery_of_actor (hActor e he)
    refine iff_of_true ?_ (Or.inl rfl)
    rw [← quiet_deeds, hMore, hDeeds]
    refine quiet_append.mpr ⟨quiet_of_isRecovery hIdle, ?_, fun a ha _ _ _ => hIdle a ha⟩
    refine quiet_append.mpr ⟨hQuiet, quiet_of_disposals hNone, ?_⟩
    intro _ _ b hb hDisposal
    rw [disposals_eq_zero.mp hNone b hb] at hDisposal
    cases hDisposal
  · -- the disposal was a caller's, and the run goes on as it would have without it
    obtain ⟨spared, hSpared, hCalls⟩ := recoveryCalls_spare w₀.status hRun
    obtain ⟨more, hMore⟩ := deeds_run hRun
    have hOnce : disposals more = 0 := by
      have hCount := (hReach₁.run hRun).disposals_eq
      rw [hMore, disposals_append, hReach₁.disposals_eq, hNow] at hCount
      have := Bool.toNat_le w.disposed
      have : (true : Bool).toNat = 1 := rfl
      omega
    rw [← quiet_deeds, hMore, hDeeds,
      quiet_append_iff hNone (by omega) hOnce (actor_change hAction hChange),
      ← recoveryCalls_eq_iff hMore]
    constructor
    · intro hSame
      exact Or.inr ⟨spared, hSpared, hCalls.trans hSame⟩
    · rintro (hWork | ⟨spared', hSpared', hSame⟩)
      · exact absurd hWork hAction
      · rw [hSpared] at hSpared'
        cases hSpared'
        exact hCalls.symm.trans hSame

/-- A caller's resumption under way, which the connection is going to refuse. -/
def refusing : List Action :=
  [.bind 0, .addReconciliation ⟨0, 0, some (.rejected "no")⟩, .beginResume (.start sampleOk)]

theorem quiet_iff_refusing :
    ∃ w₀ w₁ w : World, Reachable w₀ ∧ w₀.disposed = false ∧
      w₀.act (.finishResume 0) = some w₁ ∧ w₁.disposed = true ∧
      w₁.run [.fail .closed, .work, .work] = some w ∧
      (Quiet w.journal ↔
        Action.finishResume 0 = .work ∨
          ∃ spared, (w₁.spare w₀.status).run [.fail .closed, .work, .work] = some spared ∧
            spared.recoveryCalls = w₁.recoveryCalls) := by
  have hFresh : (sample.run refusing).map World.disposed = some false := by decide +kernel
  have hGone : (sample.run (refusing ++ [.finishResume 0])).map World.disposed = some true := by
    decide +kernel
  have hLater : (sample.run (refusing ++ .finishResume 0 ::
      [.fail .closed, .work, .work])).isSome := by
    decide +kernel
  obtain ⟨w₀, hRun₀, hBefore⟩ := Option.map_eq_some_iff.mp hFresh
  rw [run_append, hRun₀, Option.bind_some] at hGone hLater
  obtain ⟨w₁, hRun₁, hNow⟩ := Option.map_eq_some_iff.mp hGone
  obtain ⟨next, hAct, hSame⟩ := Option.bind_eq_some_iff.mp hRun₁
  cases hSame
  rw [run, hAct, Option.bind_some] at hLater
  obtain ⟨w, hRun⟩ := Option.isSome_iff_exists.mp hLater
  have hReach := reachable_sample hRun₀
  exact ⟨w₀, w₁, w, hReach, hBefore, hAct, hNow, hRun, quiet_iff hReach hBefore hAct hNow hRun⟩

/-- A task that finds another error after a caller's resumption was rejected starts over. -/
theorem not_quiet : ¬ ∀ w, Reachable w → Quiet w.journal := by
  intro h
  have hLoud : (sample.run (refusing ++ [.finishResume 0, .fail .closed, .work, .work])).map
      (fun w => decide (Quiet w.journal)) = some false := by
    decide +kernel
  obtain ⟨w, hRun, hCalls⟩ := Option.map_eq_some_iff.mp hLoud
  exact of_decide_eq_false hCalls (h w (reachable_sample hRun))

end World

end Resumption
