import Resumption.Proofs.Questions

/-!
# Laws of episodes

A law says what holds of the account of an episode under way, and what of one that is over. It is
proved for the four things that can happen to an episode: it begins, time passes while it has to
wait, it goes on from one stage to the next, and it ends. Then it holds of all accounts of every
session.

* `Stage.Ends` — how an episode can end at each stage
* `World.Tracks` — the account of the episode under way
* `World.Concludes` — what is written down where an episode ends
* `Account.Law` — what the four have to keep
* `Reachable.live`, `Reachable.lived` — a law holds of all accounts
-/

namespace Resumption

-- ---------------------------------------------------------------------------
-- Reading accounts
-- ---------------------------------------------------------------------------

/-- The end of an episode and what is written down with it. -/
theorem accounts_append_ended {before after : List Entry} {e : Entry} {how : Ending}
    (journal : List Entry) (hEvent : e.event = .ended how)
    (hTurns : ∀ x ∈ before ++ after, x.event.isTurn = false) :
    accounts (after ++ e :: before ++ journal) = (accounts journal).modifyHead fun a =>
      { a.extend (ownEntries (after ++ e :: before)) with ending := some how } := by
  obtain ⟨time, actor, event⟩ := e
  cases hEvent
  obtain ⟨hBefore, hAfter⟩ := List.forall_mem_append.mp hTurns
  rw [List.append_assoc, accounts_append _ hAfter, List.cons_append, accounts_ended,
    accounts_append _ hBefore]
  cases accounts journal with
  | nil => rfl
  | cons a older => simp [Account.extend, Entry.isOwnCall, Event.isCall]

@[simp] theorem Account.time_continue (e : Entry) (a : Account) :
    (a.continue e).time = a.time := by
  unfold Account.continue
  split <;> rfl

/-- The latest account is that of the episode that began last. -/
theorem began_of_accounts {journal : List Entry} {a : Account} {older : List Account}
    (hAccounts : accounts journal = a :: older) : began journal = some a.time := by
  induction journal generalizing a older with
  | nil => cases hAccounts
  | cons e journal ih =>
    rw [began_cons]
    obtain ⟨time, actor, event⟩ := e
    cases event with
    | taken cause =>
      cases hAccounts
      rfl
    | _ =>
      -- any other entry goes into the latest account
      cases hBefore : accounts journal with
      | nil => simp [accounts, hBefore] at hAccounts
      | cons b rest =>
        simp only [accounts, hBefore, List.modifyHead_cons, List.cons.injEq] at hAccounts
        obtain ⟨rfl, -⟩ := hAccounts
        rw [Account.time_continue]
        exact ih hBefore

/-- An account that is closed says how its episode ended, and the journal says when. -/
theorem ended_of_account {journal : List Entry} {a : Account} {how : Ending}
    (hMem : a ∈ accounts journal) (hEnding : a.ending = some how) :
    ∃ later e earlier, journal = later ++ e :: earlier ∧ e.event = .ended how ∧
      began earlier = some a.time := by
  induction journal generalizing a with
  | nil => cases hMem
  | cons e journal ih =>
    have hLater : ∀ b ∈ accounts journal, b.time = a.time → b.ending = some how →
        ∃ later e' earlier, e :: journal = later ++ e' :: earlier ∧ e'.event = .ended how ∧
          began earlier = some a.time := by
      intro b hOld hTime hSame
      obtain ⟨later, e', earlier, rfl, hEvent, hBegan⟩ := ih hOld hSame
      exact ⟨e :: later, e', earlier, rfl, hEvent, hTime ▸ hBegan⟩
    obtain ⟨time, actor, event⟩ := e
    cases event with
    | taken cause =>
      rcases List.mem_cons.mp hMem with rfl | hOld
      · cases hEnding
      · exact hLater a hOld rfl hEnding
    | ended other =>
      rw [accounts_ended] at hMem
      cases hBefore : accounts journal with
      | nil => simp [hBefore] at hMem
      | cons b rest =>
        have hBegan : began journal = some b.time := began_of_accounts hBefore
        rw [hBefore, List.modifyHead_cons] at hMem
        rcases List.mem_cons.mp hMem with rfl | hOld
        · obtain rfl := Option.some.inj hEnding
          exact ⟨[], _, journal, rfl, rfl, hBegan⟩
        · exact hLater a (by rw [hBefore]; exact List.mem_cons_of_mem b hOld) rfl hEnding
    | _ =>
      rw [accounts_cons rfl] at hMem
      cases hBefore : accounts journal with
      | nil => simp [hBefore] at hMem
      | cons b rest =>
        rw [hBefore, List.modifyHead_cons] at hMem
        rcases List.mem_cons.mp hMem with rfl | hOld
        · exact hLater b (by rw [hBefore]; exact List.mem_cons_self) rfl hEnding
        · exact hLater a (by rw [hBefore]; exact List.mem_cons_of_mem b hOld) rfl hEnding

-- ---------------------------------------------------------------------------
-- The end of an episode
-- ---------------------------------------------------------------------------

/-- How an episode with that token can end at that stage, if it ends there. -/
inductive Stage.Ends (token : ByteArray) : Stage → Option Ending → Prop
  | underway {stage} : Ends token stage none
  | dropped {stage} : Ends token stage (some .dropped)
  | cut {stage} (hWaits : stage.waits) : Ends token stage (some .cut)
  | failed {channel implied position cause}
      (hEncode : Resume.encode { token, implied, position } = .error cause) :
      Ends token (.announcing channel implied position) (some (.failed (.encode cause)))
  | resumed {work} : Ends token (.reconciling work) (some .resumed)
  | rejected {work} : Ends token (.reconciling work) (some .rejected)

/-- Whether the task itself brought the episode to its end. -/
def Ending.isOwn : Ending → Bool
  | .cut | .dropped => false
  | _ => true

namespace World

/-- How an episode is ended in what is written down, latest first. -/
structure Concludes (w : World) (ep : Episode) (how : Ending) (written : List Entry) : Prop where
  parts : ∃ e before after, written = after ++ e :: before ∧ e.event = .ended how ∧
    ∀ x ∈ before ++ after, x.event.isTurn = false
  ends : ep.stage.Ends (w.pool.bytes ep.token) (some how)
  /-- What the task does besides has nothing to do with the strategy. -/
  settling : ∀ e ∈ ownEntries written, e.event.isSettling
  /-- If the episode was stopped, that is the disposal at most. -/
  idle : how.isOwn = false → ∀ e ∈ ownEntries written, e.event.isDisposal
  /-- Only an episode that has to wait at its deadline is cut. -/
  cut : how = .cut → w.proceed ep = none ∧ ep.deadline ≤ w.now

section

attribute [local simp] own guest raised Entry.isOwnCall Event.isCall Event.isTurn Event.isSettling
  Event.isDisposal Ending.isOwn mem_ownEntries

/-- A step that ends an episode leaves out nothing. -/
theorem concludes_stride {w w' : World} {written : List Entry} {ep : Episode}
    (hStride : Stride w written w') (hTask : w.task = .recovering ep)
    (hOver : ∀ ep', w'.task ≠ .recovering ep') : ∃ how, Concludes w ep how written := by
  cases hStride with
  | stop hIdle | beginBare hIdle | begin hIdle =>
    rw [hTask] at hIdle
    cases hIdle
  | consult | backOff | dialNobody | dial | refuse | install | announce | hearNothing | hearNoise
  | hear => exact absurd rfl (hOver _)
  | @announceNothing _ channel implied position cause hSame hStage hEncode =>
    cases hTask.symm.trans hSame
    refine ⟨.failed (.encode cause),
      ⟨w.own (.ended (.failed (.encode cause))), [], w.own .stopped :: w.disposal .task, rfl, rfl,
        by simp⟩, ?_, by simp, by simp, by simp⟩
    rw [hStage]
    exact .failed hEncode
  | @resume _ work hSame hStage =>
    cases hTask.symm.trans hSame
    refine ⟨.resumed, ⟨_, w.own (.reconciled none) :: w.raised work.reply.raises, [], rfl, rfl,
      by simp⟩, ?_, by simp [or_imp, forall_and], by simp, by simp⟩
    rw [hStage]
    exact .resumed
  | reject hSame hStage =>
    cases hTask.symm.trans hSame
    refine ⟨.rejected, ⟨_, _, [w.own .stopped], rfl, rfl, by simp [or_imp, forall_and]⟩, ?_,
      by simp [or_imp, forall_and], by simp, by simp⟩
    rw [hStage]
    exact .rejected
  | cut hSame hWait hDeadline =>
    cases hTask.symm.trans hSame
    refine ⟨.cut, ⟨w.own (.ended .cut), [], w.own .stopped :: w.disposal .task, rfl, rfl,
      by simp⟩, .cut (proceed_eq_none.mp hWait).1, by simp, fun _ => by simp,
      fun _ => ⟨hWait, hDeadline⟩⟩

/-- A session that is dropped leaves its episode where it stands. -/
theorem concludes_drop (w : World) (ep : Episode) :
    Concludes w ep .dropped [w.guest .dropped, w.guest (.ended .dropped)] :=
  ⟨⟨w.guest (.ended .dropped), [], [w.guest .dropped], rfl, rfl, by simp⟩, .dropped, by simp,
    by simp, by simp⟩

end

-- ---------------------------------------------------------------------------
-- The episode under way
-- ---------------------------------------------------------------------------

/-- The account of the episode under way. -/
structure Tracks (w : World) (ep : Episode) (a : Account) : Prop where
  task : w.task = .recovering ep
  /-- It is the latest one, and all others are closed. -/
  head : ∃ older, accounts (deeds w.journal) = a :: older ∧ ∀ a' ∈ older, a'.ending ≠ none
  chapter : ∃ c, a.Tells c ∧ c.Current ep w.config.duration w.pool.bytes

variable {w w' : World} {ep ep' : Episode} {a : Account}

theorem Tracks.ending (hTracks : w.Tracks ep a) : a.ending = none := by
  obtain ⟨c, hTells, hCurrent⟩ := hTracks.chapter
  exact hTells.ending.trans hCurrent.ending

theorem Tracks.token (hTracks : w.Tracks ep a) : a.token = some ep.token := by
  obtain ⟨c, hTells, hCurrent⟩ := hTracks.chapter
  exact hTells.token.trans hCurrent.token

theorem Tracks.mem (hTracks : w.Tracks ep a) : a ∈ accounts w.journal := by
  obtain ⟨older, hAccounts, -⟩ := hTracks.head
  rw [← accounts_deeds, hAccounts]
  exact List.mem_cons_self

/-- The episode has its time, and keeps within it. -/
theorem Tracks.timed (hTracks : w.Tracks ep a) (hReach : Reachable w) :
    ep.deadline = a.time + w.span ∧ a.time ≤ w.now ∧ w.now ≤ ep.deadline := by
  obtain ⟨older, hAccounts, -⟩ := hTracks.head
  obtain ⟨start, hBegan, hTime⟩ := hReach.timed.current ep hTracks.task
  cases hBegan.symm.trans (began_of_accounts hAccounts)
  exact hTime

/-- What a step to the next stage writes down goes into the account. -/
theorem accounts_stride {written : List Entry} {older : List Account}
    (hAccounts : accounts (deeds w.journal) = a :: older) (hStride : Stride w written w')
    (hTask : w.task = .recovering ep) (hTask' : w'.task = .recovering ep') :
    accounts (deeds w'.journal) = a.extend (ownEntries written) :: older := by
  rw [deeds_stride hStride, accounts_append _ (isTurn_stride hStride hTask hTask'), hAccounts]
  rfl

theorem mayReach_due {time due : Nat} (hTask : w.task = .recovering ep)
    (hMay : w.mayReach time = true) (hDue : ep.stage.time? = some due) : time ≤ due := by
  unfold mayReach wakeTime? at hMay
  rw [hTask] at hMay
  simp only [hDue, Bool.and_eq_true, Option.all_some, decide_eq_true_eq, Nat.le_min,
    Option.getD_some] at hMay
  exact hMay.1.2.1

end World

theorem Reachable.tracks {w : World} {ep : Episode} (hReach : Reachable w)
    (hTask : w.task = .recovering ep) : ∃ a, w.Tracks ep a := by
  obtain ⟨c, rest, hChapters, hClosed, hCurrent⟩ := hReach.chronicle.current ep hTask
  have hAll := tells_accounts (deeds w.journal)
  rw [hChapters] at hAll
  generalize hAccounts : accounts (deeds w.journal) = as at hAll
  cases hAll with
  | @cons a _ older _ hTells hRest =>
    refine ⟨a, hTask, ⟨older, hAccounts, ?_⟩, c, hTells, hCurrent⟩
    intro a' hMem
    obtain ⟨c', hOther, hTells'⟩ := exists_tells hRest hMem
    rw [hTells'.ending]
    exact hClosed c' hOther

/-- The account of an episode that has come to its next stage. -/
theorem World.Tracks.advance {w w' : World} {written : List Entry} {ep ep' : Episode} {a : Account}
    (hTracks : w.Tracks ep a) (hReach : Reachable w') (hStride : Stride w written w')
    (hTask' : w'.task = .recovering ep') : w'.Tracks ep' (a.extend (ownEntries written)) := by
  obtain ⟨older, hAccounts, -⟩ := hTracks.head
  obtain ⟨a', hTracks'⟩ := hReach.tracks hTask'
  obtain ⟨older', hAccounts', -⟩ := hTracks'.head
  cases (accounts_stride hAccounts hStride hTracks.task hTask').symm.trans hAccounts'
  exact hTracks'

/-- Only the account of the episode under way is open. -/
theorem Reachable.tracks_of_open {w : World} {a : Account} (hReach : Reachable w)
    (hMem : a ∈ accounts w.journal) (hEnding : a.ending = none) : ∃ ep, w.Tracks ep a := by
  rw [← accounts_deeds] at hMem
  by_cases hTask : ∃ ep, w.task = .recovering ep
  · obtain ⟨ep, hTask⟩ := hTask
    obtain ⟨first, hTracks⟩ := hReach.tracks hTask
    obtain ⟨older, hAccounts, hClosed⟩ := hTracks.head
    rw [hAccounts] at hMem
    rcases List.mem_cons.mp hMem with rfl | hMem
    · exact ⟨ep, hTracks⟩
    · exact absurd hEnding (hClosed a hMem)
  · obtain ⟨c, hChapter, hTells⟩ := exists_tells (tells_accounts (deeds w.journal)) hMem
    have hClosed := hReach.chronicle.closed (fun ep hEp => hTask ⟨ep, hEp⟩) c hChapter
    rw [← hTells.ending] at hClosed
    exact absurd hEnding hClosed

-- ---------------------------------------------------------------------------
-- Numbers of episodes
-- ---------------------------------------------------------------------------

namespace World

section

attribute [local simp] own guest raised connect welcome Event.makesStrategy

/-- The task makes a strategy for every episode with a token, and for nothing else. -/
theorem strategies_stride {w w' : World} {written : List Entry} (hStride : Stride w written w') :
    w'.episodes = strategies written + w.episodes := by
  cases hStride with
  | begin =>
    show w.episodes + 1 = strategies [w.own .strategyMade, w.own (.taken _)] + w.episodes
    exact Nat.add_comm _ _
  | _ =>
    rw [strategies_eq_zero.mpr (by simp [or_imp, forall_and])]
    simp

theorem strategies_change {w w' : World} {action : Action} {written : List Entry}
    (hAction : action ≠ .work) (hChange : Change w action written w') : strategies written = 0 := by
  rw [strategies_eq_zero]
  cases hChange with
  | work => exact absurd rfl hAction
  | _ => simp [or_imp, forall_and]

end

end World

theorem Reachable.strategies_eq {w : World} (hReach : Reachable w) :
    strategies (deeds w.journal) = w.episodes := by
  refine hReach.induct_act (P := fun v => strategies (deeds v.journal) = v.episodes)
    (fun _ _ _ _ => rfl) ?_
  intro v v' action hReach ih hAct
  rcases World.act_cases hAct with ⟨rfl, written, hStride⟩ | ⟨millis, rfl, -, rfl⟩ |
    ⟨hWork, hBystander⟩
  · rw [World.deeds_stride hStride, strategies_append, ih, World.strategies_stride hStride]
  · exact ih
  · obtain ⟨written, hChange⟩ := World.change_of_act hAct
    rw [World.deeds_change hChange, strategies_append, World.strategies_change hWork hChange,
      ih, hBystander.episodes, Nat.zero_add]

-- ---------------------------------------------------------------------------
-- Laws
-- ---------------------------------------------------------------------------

/-- What holds of an episode under way at that time, and what of one that is over, whatever happens
to it. -/
structure Account.Law
    (Live : Config → (Token.Id → ByteArray) → Episode → Nat → Account → Prop)
    (Lived : Config → (Token.Id → ByteArray) → Token.Id → Account → Prop) : Prop where
  begins : ∀ (w : World) (error : LinkError) (token : Token.Id) (number : Nat),
    Live w.config w.pool.bytes
      { snapshot := ⟨w.config.duration, token⟩
        strategy := w.config.strategy number
        deadline := w.now + w.config.duration.ceilMillis
        stage := .consulting (.connection error) }
      w.now ⟨w.now, error, some token, number, [w.own .strategyMade], none⟩
  elapses : ∀ {w ep a millis}, Reachable w → w.Tracks ep a →
    w.mayReach (w.now + millis) = true → Live w.config w.pool.bytes ep w.now a →
      Live w.config w.pool.bytes ep (w.now + millis) a
  advances : ∀ {w w' written ep ep' a}, Reachable w → w.Tracks ep a → w.Stride written w' →
    w'.task = .recovering ep' → Live w.config w.pool.bytes ep w.now a →
      Live w.config w.pool.bytes ep' w.now (a.extend (ownEntries written))
  ends : ∀ {w ep a how written}, Reachable w → w.Tracks ep a → w.Concludes ep how written →
    Live w.config w.pool.bytes ep w.now a →
      Lived w.config w.pool.bytes ep.token
        { a.extend (ownEntries written) with ending := some how }

section

variable {Live : Config → (Token.Id → ByteArray) → Episode → Nat → Account → Prop}
  {Lived : Config → (Token.Id → ByteArray) → Token.Id → Account → Prop}

namespace World

/-- The law holds of all accounts, up to now. -/
structure Abides (Live : Config → (Token.Id → ByteArray) → Episode → Nat → Account → Prop)
    (Lived : Config → (Token.Id → ByteArray) → Token.Id → Account → Prop) (w : World) : Prop where
  live : ∀ ep a, w.Tracks ep a → Live w.config w.pool.bytes ep w.now a
  lived : ∀ a ∈ accounts (deeds w.journal), a.ending ≠ none → ∀ id, a.token = some id →
    Lived w.config w.pool.bytes id a

variable {w w' : World} {written : List Entry} {ep ep' : Episode}

/-- What concerns no episode. -/
theorem Abides.still (hAbides : w.Abides Live Lived)
    (hDeeds : deeds w'.journal = written ++ deeds w.journal)
    (hTurns : ∀ e ∈ written, e.event.isTurn = false) (hCalls : ownEntries written = [])
    (hConfig : w'.config = w.config) (hBytes : w'.pool.bytes = w.pool.bytes) (hNow : w'.now = w.now)
    (hTask : ∀ ep, w'.task = .recovering ep → w.task = .recovering ep) :
    w'.Abides Live Lived := by
  have hAccounts : accounts (deeds w'.journal) = accounts (deeds w.journal) := by
    rw [hDeeds, accounts_append_of_ownEntries _ hTurns hCalls]
  constructor
  · intro ep a hTracks
    obtain ⟨hRecovering, hHead, hChapter⟩ := hTracks
    rw [hConfig, hBytes] at hChapter
    rw [hAccounts] at hHead
    rw [hConfig, hBytes, hNow]
    exact hAbides.live ep a ⟨hTask ep hRecovering, hHead, hChapter⟩
  · rw [hAccounts, hConfig, hBytes]
    exact hAbides.lived

/-- Time passes. -/
theorem Abides.elapse {millis : Nat} (hLaw : Account.Law Live Lived)
    (hAbides : w.Abides Live Lived) (hReach : Reachable w)
    (hMay : w.mayReach (w.now + millis) = true) :
    Abides Live Lived { w with now := w.now + millis } := by
  constructor
  · intro ep a hTracks
    have hBefore : w.Tracks ep a := ⟨hTracks.task, hTracks.head, hTracks.chapter⟩
    exact hLaw.elapses hReach hBefore hMay (hAbides.live ep a hBefore)
  · exact hAbides.lived

/-- A step from one stage of an episode to the next. -/
theorem Abides.advance (hLaw : Account.Law Live Lived) (hAbides : w.Abides Live Lived)
    (hReach : Reachable w) (hStride : Stride w written w') (hTask : w.task = .recovering ep)
    (hTask' : w'.task = .recovering ep') : w'.Abides Live Lived := by
  obtain ⟨a, hTracks⟩ := hReach.tracks hTask
  obtain ⟨older, hAccounts, -⟩ := hTracks.head
  have hAccounts' := accounts_stride hAccounts hStride hTask hTask'
  constructor
  · intro ep₁ a₁ hTracks₁
    cases hTask'.symm.trans hTracks₁.task
    obtain ⟨older₁, hAccounts₁, -⟩ := hTracks₁.head
    cases hAccounts'.symm.trans hAccounts₁
    rw [config_stride hStride, bytes_stride hStride, now_stride hStride]
    exact hLaw.advances hReach hTracks hStride hTask' (hAbides.live ep a hTracks)
  · intro a' hMem hEnding
    rw [config_stride hStride, bytes_stride hStride]
    rw [hAccounts'] at hMem
    rcases List.mem_cons.mp hMem with rfl | hMem
    · -- the account of the episode is still open
      exact absurd hTracks.ending hEnding
    · exact hAbides.lived a' (by rw [hAccounts]; exact List.mem_cons_of_mem a hMem) hEnding

/-- The end of an episode. -/
theorem Abides.conclude {how : Ending} (hLaw : Account.Law Live Lived)
    (hAbides : w.Abides Live Lived) (hReach : Reachable w) (hTask : w.task = .recovering ep)
    (hOver : ∀ ep', w'.task ≠ .recovering ep') (hConcludes : Concludes w ep how written)
    (hDeeds : deeds w'.journal = written ++ deeds w.journal) (hConfig : w'.config = w.config)
    (hBytes : w'.pool.bytes = w.pool.bytes) : w'.Abides Live Lived := by
  obtain ⟨a, hTracks⟩ := hReach.tracks hTask
  obtain ⟨older, hAccounts, -⟩ := hTracks.head
  have hAccounts' : accounts (deeds w'.journal) =
      { a.extend (ownEntries written) with ending := some how } :: older := by
    obtain ⟨e, before, after, rfl, hEvent, hTurns⟩ := hConcludes.parts
    rw [hDeeds, accounts_append_ended _ hEvent hTurns, hAccounts]
    rfl
  constructor
  · intro ep' a' hTracks'
    exact absurd hTracks'.task (hOver ep')
  · intro a' hMem hEnding id hToken
    rw [hConfig, hBytes]
    rw [hAccounts'] at hMem
    rcases List.mem_cons.mp hMem with rfl | hMem
    · obtain rfl := Option.some.inj (hTracks.token.symm.trans hToken)
      exact hLaw.ends hReach hTracks hConcludes (hAbides.live ep a hTracks)
    · exact hAbides.lived a' (by rw [hAccounts]; exact List.mem_cons_of_mem a hMem) hEnding id
        hToken

/-- The beginning of an episode, which without a token is its end as well. -/
theorem Abides.begin {error : LinkError} {token : Option Token.Id} {calls : List Entry}
    {ending : Option Ending} {number : Nat} (hAbides : w.Abides Live Lived)
    (hAccounts : accounts (deeds w'.journal) =
      ⟨w.now, error, token, number, calls, ending⟩ :: accounts (deeds w.journal))
    (hLive : ∀ ep, w'.task = .recovering ep →
      Live w.config w.pool.bytes ep w.now ⟨w.now, error, token, number, calls, ending⟩)
    (hBare : ending ≠ none → token = none) (hConfig : w'.config = w.config)
    (hBytes : w'.pool.bytes = w.pool.bytes) (hNow : w'.now = w.now) : w'.Abides Live Lived := by
  constructor
  · intro ep a hTracks
    obtain ⟨older, hHead, -⟩ := hTracks.head
    cases hAccounts.symm.trans hHead
    rw [hConfig, hBytes, hNow]
    exact hLive ep hTracks.task
  · intro a hMem hEnding id hToken
    rw [hConfig, hBytes]
    rw [hAccounts] at hMem
    rcases List.mem_cons.mp hMem with rfl | hMem
    · cases (hBare hEnding).symm.trans hToken
    · exact hAbides.lived a hMem hEnding id hToken

theorem abides_stride (hLaw : Account.Law Live Lived) (hReach : Reachable w)
    (hAbides : w.Abides Live Lived) (hStride : Stride w written w') : w'.Abides Live Lived := by
  have hDeeds := deeds_stride hStride
  have hConfig := config_stride hStride
  have hBytes := bytes_stride hStride
  have hNow := now_stride hStride
  cases hTask : w.task with
  | recovering ep =>
    by_cases hOver : ∀ ep', w'.task ≠ .recovering ep'
    · obtain ⟨how, hConcludes⟩ := concludes_stride hStride hTask hOver
      exact hAbides.conclude hLaw hReach hTask hOver hConcludes hDeeds hConfig hBytes
    · obtain ⟨ep', hTask'⟩ : ∃ ep', w'.task = .recovering ep' := by
        simpa using hOver
      exact hAbides.advance hLaw hReach hStride hTask hTask'
  | ended => exact absurd hStride (not_stride_of_ended (by rw [hTask]; rfl))
  | idle =>
    cases hStride with
    | stop =>
      exact hAbides.still hDeeds (by simp [own, Event.isTurn])
        (by simp [own, Entry.isOwnCall, Event.isCall]) hConfig hBytes (by simp) (by simp)
    | @beginBare error errors hIdle hErrors hBound =>
      have hBinding : binding (deeds w.journal) = none := by
        rw [binding_deeds, ← hReach.bound_eq, hBound]
      have hAccounts := hDeeds.trans (show _ = (w.own .stopped :: w.disposal .task) ++
        w.own (.ended (.failed .missingToken)) :: w.own (.taken error) :: deeds w.journal by simp)
      have hAccounts := (congrArg accounts hAccounts).trans (accounts_append _ (isTurn_ended w))
      simp only [own, accounts_ended, accounts_taken, hBinding, List.modifyHead_cons] at hAccounts
      exact hAbides.begin hAccounts (by simp) (fun _ => rfl) hConfig hBytes hNow
    | @begin error errors token hIdle hErrors hBound =>
      have hBinding : binding (deeds w.journal) = some token := by
        rw [binding_deeds, ← hReach.bound_eq, hBound]
      have hAccounts : accounts (w.own .strategyMade :: w.own (.taken error) :: deeds w.journal) =
          ⟨w.now, error, some token, w.episodes, [w.own .strategyMade], none⟩ ::
            accounts (deeds w.journal) := by
        rw [accounts_cons rfl]
        simp only [own, accounts_taken, hReach.strategies_eq, hBinding, List.modifyHead_cons]
        rfl
      refine hAbides.begin ((congrArg accounts hDeeds).trans hAccounts) ?_ (absurd rfl) hConfig
        hBytes hNow
      intro ep hTask'
      cases hTask'
      exact hLaw.begins w error token w.episodes
    | _ => simp_all

section

attribute [local simp] own guest raised Event.isTurn

theorem abides_bystander {action : Action} (hLaw : Account.Law Live Lived) (hReach : Reachable w)
    (hAbides : w.Abides Live Lived) (hAction : action ≠ .work) (hBystander : Bystander w w')
    (hChange : Change w action written w') : w'.Abides Live Lived := by
  have hDeeds := deeds_change hChange
  have hConfig := config_change hChange
  have hBytes := bytes_change hChange
  -- nobody else writes in the task's name
  have hCalls := ownEntries_eq_nil.mpr (ownCalls_of_actor (actor_change hAction hChange))
  cases hChange with
  | work => exact absurd rfl hAction
  | @dropRecovering ep hTask =>
    exact hAbides.conclude hLaw hReach hTask (by simp) (concludes_drop w ep) hDeeds hConfig hBytes
  | _ =>
    exact hAbides.still hDeeds (by simp [or_imp, forall_and]) hCalls hConfig hBytes
      hBystander.now fun _ => hBystander.recovering

end

end World

theorem Reachable.abides {w : World} (hLaw : Account.Law Live Lived) (hReach : Reachable w) :
    w.Abides Live Lived := by
  refine hReach.induct_act ?_ ?_
  · intro config tokens reconciliations bursts
    refine ⟨fun ep a hTracks => ?_, fun a hMem => ?_⟩
    · cases hTracks.task
    · cases hMem
  · intro v v' action hReach hAbides hAct
    rcases World.act_cases hAct with ⟨rfl, written, hStride⟩ | ⟨millis, rfl, hMay, rfl⟩ |
      ⟨hWork, hBystander⟩
    · exact World.abides_stride hLaw hReach hAbides hStride
    · exact hAbides.elapse hLaw hReach hMay
    · obtain ⟨written, hChange⟩ := World.change_of_act hAct
      exact World.abides_bystander hLaw hReach hAbides hWork hBystander hChange

/-- A law holds of the episode under way. -/
theorem Reachable.live {w : World} {ep : Episode} {a : Account} (hLaw : Account.Law Live Lived)
    (hReach : Reachable w) (hTracks : w.Tracks ep a) : Live w.config w.pool.bytes ep w.now a :=
  (hReach.abides hLaw).live ep a hTracks

/-- A law holds of every episode that is over. -/
theorem Reachable.lived {w : World} {a : Account} {id : Token.Id} (hLaw : Account.Law Live Lived)
    (hReach : Reachable w) (hMem : a ∈ accounts w.journal) (hEnding : a.ending ≠ none)
    (hToken : a.token = some id) : Lived w.config w.pool.bytes id a := by
  rw [← accounts_deeds] at hMem
  exact (hReach.abides hLaw).lived a hMem hEnding id hToken

end

end Resumption
