import Resumption.Proofs.Tales

/-!
# What happens in an episode

Every chapter of every run is a word of the language, and the chapters leave out no call of the
task. The invariant says how far the episode under way has got in its word; a step of the task adds
to the word what the next stage asks for, or brings it to its end.

* `underway_stride` — what a step adds to the word
* `Chronicle` — all chapters are as they should be, and only the one under way is open
* `Chronicle.advance`, `Chronicle.finish` — the next stage, and the end of an episode
* `chapters_told` — every chapter of every run is as it should be
-/

namespace Resumption

-- ---------------------------------------------------------------------------
-- Steps of an episode
-- ---------------------------------------------------------------------------

namespace World

theorem listened_of_announced {token : ByteArray} {attempt : List Event}
    (hAnnounced : Announced token attempt) :
    ∃ before connection, attempt = before ++ [.listened connection] := by
  obtain ⟨hEncode⟩ := hAnnounced
  exact ⟨_, _, List.append_cons ..⟩

/-- An episode that has to wait is at a point where an answer is due. -/
theorem awaited_of_proceed {w : World} {ep : Episode} {snapshot : Snapshot} {token : ByteArray}
    {cause : LinkError} {word : List Event}
    (hUnder : Underway snapshot token cause ep.stage word) (hWait : w.proceed ep = none) :
    ∃ before last, word = before ++ [last] ∧ last.isAwaited := by
  -- at the other two stages there is always something to do
  rw [proceed] at hWait
  generalize ep.stage = stage at hUnder hWait
  cases hUnder with
  | consulting => cases hWait
  | advised hRounds => exact ⟨_, _, rfl, rfl⟩
  | backingOff hRounds => exact ⟨_, _, by rw [asking, List.append_cons], rfl⟩
  | dialling hRounds => exact ⟨_, _, by rw [List.append_cons], rfl⟩
  | announcing => cases hWait
  | listening hRounds hAnnounced =>
    obtain ⟨before, connection, rfl⟩ := listened_of_announced hAnnounced
    exact ⟨_, _, (List.append_assoc ..).symm, rfl⟩
  | reconciling => exact ⟨_, _, by rw [List.append_cons], rfl⟩

section

attribute [local simp] own raised Entry.isOwnCall Event.isCall

theorem ownCalls_arrived (errors : List LinkError) (w : World) :
    ownCalls (w.arrived errors) = [] := by
  rw [ownCalls_eq_nil]
  simp

theorem ownCalls_drained (w : World) : ownCalls w.drained = [] := by
  rw [ownCalls_eq_nil]
  simp

theorem underway_at {w : World} {ep ep' : Episode} {stage : Stage} {snapshot : Snapshot}
    {token : ByteArray} {cause : LinkError} {word : List Event}
    (hTask : w.task = .recovering ep) (hSame : w.task = .recovering ep')
    (hStage : ep'.stage = stage) (hUnder : Underway snapshot token cause ep.stage word) :
    ep = ep' ∧ Underway snapshot token cause stage word := by
  cases hTask.symm.trans hSame
  rw [hStage] at hUnder
  exact ⟨rfl, hUnder⟩

/-- Each step of an episode adds to its word what the next stage asks for. -/
theorem underway_stride {w w' : World} {written : List Entry} {ep ep' : Episode} {cause : LinkError}
    {word : List Event} (hStride : Stride w written w') (hTask : w.task = .recovering ep)
    (hTask' : w'.task = .recovering ep')
    (hUnder : Underway ep.snapshot (w.pool.bytes ep.token) cause ep.stage word) :
    ep'.snapshot = ep.snapshot ∧
      Underway ep.snapshot (w.pool.bytes ep.token) cause ep'.stage (word ++ ownCalls written) := by
  cases hStride with
  | stop hIdle | beginBare hIdle | begin hIdle =>
    rw [hTask] at hIdle
    cases hIdle
  | announceNothing | resume | reject | cut => simp at hTask'
  -- from here on the episode of the step is `ep`, and its stage says what has been done so far
  | consult hSame hStage =>
    obtain ⟨rfl, hUnder⟩ := underway_at hTask hSame hStage hUnder
    cases hTask'
    cases hUnder with
    | consulting hRounds => exact ⟨rfl, by simpa using .advised hRounds⟩
  | backOff hSame hStage =>
    obtain ⟨rfl, hUnder⟩ := underway_at hTask hSame hStage hUnder
    cases hTask'
    cases hUnder with
    | advised hRounds => exact ⟨rfl, by simpa [asking] using .backingOff hRounds⟩
  | dialNobody hSame hStage =>
    obtain ⟨rfl, hUnder⟩ := underway_at hTask hSame hStage hUnder
    cases hTask'
    cases hUnder with
    | backingOff hRounds =>
      have hCalls : ownCalls [w.own .attempted] = [.attempted] := by simp
      rw [hCalls]
      exact ⟨rfl, .consulting (.more hRounds .noSupplier)⟩
  | @dial _ due supplier hSame hStage =>
    obtain ⟨rfl, hUnder⟩ := underway_at hTask hSame hStage hUnder
    cases hTask'
    cases hUnder with
    | backingOff hRounds =>
      have hCalls : ownCalls (w.raised (supplier.dials.headD .hanging).raises ++
          [w.own (.dialled supplier.name), w.own .attempted]) =
            [.attempted, .dialled supplier.name] := by
        simp [ownCalls_arrived]
      rw [hCalls]
      exact ⟨rfl, .dialling hRounds⟩
  | @refuse _ answer cause hSame hStage =>
    obtain ⟨rfl, hUnder⟩ := underway_at hTask hSame hStage hUnder
    cases hTask'
    cases hUnder with
    | dialling hRounds =>
      have hCalls : ownCalls [w.own (.refused cause)] = [.refused cause] := by simp
      rw [hCalls, List.append_assoc]
      exact ⟨rfl, .consulting (.more hRounds .refused)⟩
  | @install _ answer peer hSame hStage =>
    obtain ⟨rfl, hUnder⟩ := underway_at hTask hSame hStage hUnder
    cases hTask'
    cases hUnder with
    | @dialling error before reply supplier _ hRounds =>
      -- errors that are dropped or arrive meanwhile are no calls
      have hCalls : ownCalls (w.own (.positionsRead w.implied w.position) ::
          (w.raised (w.bursts.headD 0) ++ w.own (.reconnected (.request (w.connections + 1))) ::
            (w.drained ++ [w.own (.demultiplexed (w.connections + 1))]))) =
          [.demultiplexed (w.connections + 1), .reconnected (.request (w.connections + 1)),
            .positionsRead w.implied w.position] := by
        simp [ownCalls_arrived, ownCalls_drained]
      rw [hCalls, List.append_assoc]
      exact ⟨rfl, .announcing hRounds⟩
  | @announce _ channel implied position frame hSame hStage hEncode =>
    obtain ⟨rfl, hUnder⟩ := underway_at hTask hSame hStage hUnder
    cases hTask'
    cases hUnder with
    | announcing hRounds =>
      have hCalls : ownCalls [w.own (.listened channel.connection),
          w.own (.sent frame.toBytes w.sendsFail w.pool.counts)] =
          [.sent frame.toBytes w.sendsFail w.pool.counts, .listened channel.connection] := by
        simp
      rw [hCalls, List.append_assoc]
      exact ⟨rfl, .listening hRounds (.mk hEncode)⟩
  | hearNothing hSame hStage =>
    obtain ⟨rfl, hUnder⟩ := underway_at hTask hSame hStage hUnder
    cases hTask'
    cases hUnder with
    | listening hRounds hAnnounced =>
      have hCalls : ownCalls [w.own (.heard none)] = [.heard none] := by simp
      rw [hCalls, List.append_assoc]
      exact ⟨rfl, .consulting (.more hRounds (.setupClosed hAnnounced))⟩
  | @hearNoise _ answer frame error cursor hSame hStage hReady hDecode =>
    obtain ⟨rfl, hUnder⟩ := underway_at hTask hSame hStage hUnder
    cases hTask'
    cases hUnder with
    | listening hRounds hAnnounced =>
      have hCalls : ownCalls [w.own (.heard (some frame))] = [.heard (some frame)] := by simp
      rw [hCalls, List.append_assoc]
      exact ⟨rfl, .consulting (.more hRounds (.noise hAnnounced hDecode))⟩
  | @hear _ answer frame position cursor hSame hStage hReady hDecode =>
    obtain ⟨rfl, hUnder⟩ := underway_at hTask hSame hStage hUnder
    cases hTask'
    cases hUnder with
    | listening hRounds hAnnounced =>
      have hCalls : ownCalls [w.own (.reconciling unknownPosition position),
          w.own (.heard (some frame))] =
          [.heard (some frame), .reconciling unknownPosition position] := by
        simp
      rw [hCalls]
      exact ⟨rfl, .reconciling hRounds hAnnounced hDecode⟩

end

end World

-- ---------------------------------------------------------------------------
-- The invariant
-- ---------------------------------------------------------------------------

/-- The chapter of the episode under way. -/
structure Chapter.Current (c : Chapter) (ep : Episode) (duration : Duration)
    (bytes : Token.Id → ByteArray) : Prop where
  ending : c.ending = none
  token : c.token = some ep.token
  snapshot : ep.snapshot = ⟨duration, ep.token⟩
  underway : Underway ep.snapshot (bytes ep.token) c.cause ep.stage c.calls

theorem Chapter.Current.told {c : Chapter} {ep : Episode} {duration : Duration}
    {bytes : Token.Id → ByteArray} (hCurrent : c.Current ep duration bytes) :
    c.Told duration bytes := by
  obtain ⟨how, rest, hTale⟩ := hCurrent.underway.completes
  rw [hCurrent.snapshot] at hTale
  exact .unfinished hCurrent.token (.inl hCurrent.ending) hTale

theorem Chapter.Current.lost {c : Chapter} {ep : Episode} {duration : Duration}
    {bytes : Token.Id → ByteArray} {how : Ending} {word calls : List Event} {spent : Bool}
    (hCurrent : c.Current ep duration bytes) (hHow : how ≠ .resumed)
    (hTale : Tale ep.snapshot (bytes ep.token) c.cause how word)
    (hCalls : calls = word ++ if spent then [] else [.disposed]) :
    Chapter.Told duration bytes { c with calls, ending := some how, spent } := by
  rw [hCurrent.snapshot] at hTale
  exact .lost hCurrent.token rfl hHow hTale hCalls

namespace World

/-- The journal tells every episode as it should, and only the one under way is open. -/
structure Chronicle (w : World) : Prop where
  covered : Covered (deeds w.journal)
  told : ∀ c ∈ chapters (deeds w.journal), c.ending ≠ none →
    c.Told w.config.duration w.pool.bytes
  current : ∀ ep, w.task = .recovering ep → ∃ c older, chapters (deeds w.journal) = c :: older ∧
    (∀ c' ∈ older, c'.ending ≠ none) ∧ c.Current ep w.config.duration w.pool.bytes
  closed : (∀ ep, w.task ≠ .recovering ep) → ∀ c ∈ chapters (deeds w.journal), c.ending ≠ none

/-- What concerns no episode. -/
theorem Chronicle.still {w w' : World} {written : List Entry} (hChronicle : w.Chronicle)
    (hDeeds : deeds w'.journal = written ++ deeds w.journal)
    (hTurns : ∀ e ∈ written, e.event.isTurn = false) (hCalls : ownCalls written = [])
    (hConfig : w'.config = w.config) (hBytes : w'.pool.bytes = w.pool.bytes)
    (hTask : w'.task = w.task ∨
      (∀ ep, w.task ≠ .recovering ep) ∧ ∀ ep, w'.task ≠ .recovering ep) :
    w'.Chronicle := by
  have hChapters : chapters (deeds w'.journal) = chapters (deeds w.journal) := by
    rw [hDeeds, chapters_append_of_ownCalls _ hTurns hCalls]
  constructor
  · rw [hDeeds]
    exact covered_append_of_ownCalls hTurns hCalls hChronicle.covered
  · rw [hChapters, hConfig, hBytes]
    exact hChronicle.told
  · intro ep hRecovering
    rw [hChapters, hConfig, hBytes]
    rcases hTask with hSame | ⟨-, hNone⟩
    · exact hChronicle.current ep (hSame.symm.trans hRecovering)
    · exact absurd hRecovering (hNone ep)
  · intro hNone
    rw [hChapters]
    rcases hTask with hSame | ⟨hBefore, -⟩
    · exact hChronicle.closed (by rwa [← hSame])
    · exact hChronicle.closed hBefore

/-- A step from one stage of an episode to the next. -/
theorem Chronicle.advance {w w' : World} {written : List Entry} {ep ep' : Episode}
    (hChronicle : w.Chronicle) (hStride : Stride w written w') (hTask : w.task = .recovering ep)
    (hTask' : w'.task = .recovering ep') (hTurns : ∀ e ∈ written, e.event.isTurn = false)
    (hConfig : w'.config = w.config) (hBytes : w'.pool.bytes = w.pool.bytes) :
    w'.Chronicle := by
  obtain ⟨c, older, hChapters, hOlder, hCurrent⟩ := hChronicle.current ep hTask
  have hChapters' : chapters (deeds w'.journal) =
      { c with calls := c.calls ++ ownCalls written } :: older := by
    rw [deeds_stride hStride, chapters_append _ hTurns, hChapters]
    rfl
  have hCurrent' : Chapter.Current { c with calls := c.calls ++ ownCalls written } ep'
      w'.config.duration w'.pool.bytes := by
    obtain ⟨hSnapshot, hUnder⟩ := underway_stride hStride hTask hTask' hCurrent.underway
    have hToken : ep'.token = ep.token := by rw [Episode.token, hSnapshot, Episode.token]
    refine ⟨hCurrent.ending, ?_, ?_, ?_⟩
    · rw [hToken]
      exact hCurrent.token
    · rw [hSnapshot, hConfig, hToken]
      exact hCurrent.snapshot
    · rw [hSnapshot, hBytes, hToken]
      exact hUnder
  constructor
  · rw [deeds_stride hStride]
    refine covered_append ?_ hTurns hChronicle.covered
    rw [hChapters]
    exact List.cons_ne_nil c older
  · intro c' hMem hEnding
    rw [hConfig, hBytes]
    rw [hChapters'] at hMem
    rcases List.mem_cons.mp hMem with rfl | hMem
    · -- the chapter of the episode is still open
      exact absurd hCurrent.ending hEnding
    · exact hChronicle.told c' (by rw [hChapters]; exact List.mem_cons_of_mem c hMem) hEnding
  · intro ep₁ hTask₁
    cases hTask'.symm.trans hTask₁
    exact ⟨_, older, hChapters', hOlder, hCurrent'⟩
  · intro hNone
    exact absurd hTask' (hNone ep')

/-- The end of an episode. -/
theorem Chronicle.finish {w w' : World} {before after : List Entry} {ep : Episode} {time : Nat}
    {actor : Actor} {how : Ending} (hChronicle : w.Chronicle) (hTask : w.task = .recovering ep)
    (hTask' : ∀ ep', w'.task ≠ .recovering ep')
    (hDeeds : deeds w'.journal =
      after ++ ⟨time, actor, .ended how⟩ :: (before ++ deeds w.journal))
    (hBefore : ∀ e ∈ before, e.event.isTurn = false)
    (hAfter : ∀ e ∈ after, e.event.isTurn = false)
    (hConfig : w'.config = w.config) (hBytes : w'.pool.bytes = w.pool.bytes)
    (hTold : ∀ c : Chapter, c.Current ep w.config.duration w.pool.bytes →
      Chapter.Told w.config.duration w.pool.bytes
        { c with
          calls := c.calls ++ ownCalls before ++ ownCalls after
          ending := some how
          spent := disposedElsewhere (before ++ deeds w.journal) }) :
    w'.Chronicle := by
  obtain ⟨c, older, hChapters, hOlder, hCurrent⟩ := hChronicle.current ep hTask
  have hChapters' : chapters (deeds w'.journal) =
      { c with
        calls := c.calls ++ ownCalls before ++ ownCalls after
        ending := some how
        spent := disposedElsewhere (before ++ deeds w.journal) } :: older := by
    rw [hDeeds, chapters_append _ hAfter, chapters_ended, chapters_append _ hBefore, hChapters]
    rfl
  constructor
  · -- the chapter is open before and after its end, so that nothing falls outside
    rw [hDeeds]
    refine covered_append ?_ hAfter (covered_ended (covered_append ?_ hBefore hChronicle.covered))
    · rw [chapters_ended, chapters_append _ hBefore, hChapters]
      exact List.cons_ne_nil _ _
    · rw [hChapters]
      exact List.cons_ne_nil _ _
  · intro c' hMem hEnding
    rw [hConfig, hBytes]
    rw [hChapters'] at hMem
    rcases List.mem_cons.mp hMem with rfl | hMem
    · exact hTold c hCurrent
    · exact hChronicle.told c' (by rw [hChapters]; exact List.mem_cons_of_mem c hMem) hEnding
  · intro ep' hRecovering
    exact absurd hRecovering (hTask' ep')
  · intro _ c' hMem
    rw [hChapters'] at hMem
    rcases List.mem_cons.mp hMem with rfl | hMem
    · exact Option.some_ne_none how
    · exact hOlder c' hMem

-- ---------------------------------------------------------------------------
-- Disposal at the end
-- ---------------------------------------------------------------------------

section

attribute [local simp] own raised Entry.isOwnCall Event.isCall Event.isTurn Event.isDisposal

theorem ownCalls_disposal (w : World) :
    ownCalls (w.disposal .task) = if w.disposed then [] else [.disposed] := by
  cases hDisposed : w.disposed <;> simp [disposal, hDisposed]

theorem ownCalls_ended (w : World) :
    ownCalls (w.own .stopped :: w.disposal .task) = if w.disposed then [] else [.disposed] := by
  rw [ownCalls_cons, ownCalls_disposal]
  simp

theorem isTurn_ended (w : World) :
    ∀ e ∈ w.own .stopped :: w.disposal .task, e.event.isTurn = false := by
  simp

end

end World

theorem disposedElsewhere_append {later : List Entry} (journal : List Entry)
    (hNone : ∀ e ∈ later, e.event.isDisposal → e.actor = .task) :
    disposedElsewhere (later ++ journal) = disposedElsewhere journal := by
  have hLater : disposedElsewhere later = false := by
    rw [disposedElsewhere, List.any_eq_false]
    intro e he
    cases hDisposal : e.event.isDisposal with
    | false => simp
    | true => simp [hNone e he hDisposal]
  calc disposedElsewhere (later ++ journal)
    _ = (disposedElsewhere later || disposedElsewhere journal) := List.any_append
    _ = disposedElsewhere journal := by rw [hLater, Bool.false_or]

/-- While the task is there nobody else has disposed the connection. -/
theorem Reachable.disposed_eq {w : World} (hReach : Reachable w) (hAlive : w.task.isEnded = false) :
    w.disposed = disposedElsewhere (deeds w.journal) := by
  cases hDisposed : w.disposed with
  | true =>
    rcases hReach.concluded.ended hDisposed with hEnded | ⟨e, he, hDisposal, hActor⟩
    · rw [hAlive] at hEnded
      cases hEnded
    · symm
      rw [disposedElsewhere, List.any_eq_true]
      exact ⟨e, he, by simp [hDisposal, hActor]⟩
  | false =>
    have hCount := hReach.disposals_eq
    rw [hDisposed] at hCount
    symm
    rw [disposedElsewhere, List.any_eq_false]
    intro e he
    rw [disposals_eq_zero.mp hCount e he]
    simp

namespace World

section

attribute [local simp] own raised Entry.isOwnCall Event.isCall Event.isTurn Event.isDisposal

/-- A step that ends the episode. -/
theorem Chronicle.conclude {w w' : World} {written : List Entry} {ep : Episode}
    (hChronicle : w.Chronicle) (hReach : Reachable w) (hStride : Stride w written w')
    (hTask : w.task = .recovering ep) (hTask' : ∀ ep', w'.task ≠ .recovering ep')
    (hConfig : w'.config = w.config) (hBytes : w'.pool.bytes = w.pool.bytes) :
    w'.Chronicle := by
  have hSpent := hReach.disposed_eq (by rw [hTask]; rfl)
  have hDeeds := deeds_stride hStride
  cases hStride with
  | stop hIdle | beginBare hIdle | begin hIdle =>
    rw [hTask] at hIdle
    cases hIdle
  | consult | backOff | dialNobody | dial | refuse | install | announce | hearNothing | hearNoise
  | hear => exact absurd rfl (hTask' _)
  | @announceNothing _ channel implied position cause hSame hStage hEncode =>
    cases hTask.symm.trans hSame
    have hParts : deeds (w.giveUp ep (.failed (.encode cause))).journal =
        (w.own .stopped :: w.disposal .task) ++
          w.own (.ended (.failed (.encode cause))) :: ([] ++ deeds w.journal) := by
      simpa using hDeeds
    refine hChronicle.finish hTask hTask' hParts (by simp) (isTurn_ended w) hConfig hBytes ?_
    intro c hCurrent
    have hUnder := hCurrent.underway
    rw [hStage] at hUnder
    refine hCurrent.lost (by simp) (hUnder.unencodable hEncode) ?_
    rw [ownCalls_ended, hSpent, ownCalls_nil, List.append_nil, List.nil_append]
  | @resume _ work hSame hStage hDue hReply =>
    cases hTask.symm.trans hSame
    have hParts : deeds _ = [] ++ w.own (.ended .resumed) ::
        ((w.own (.reconciled none) :: w.raised work.reply.raises) ++ deeds w.journal) :=
      hDeeds
    refine hChronicle.finish hTask hTask' hParts (by simp) (by simp) hConfig hBytes ?_
    intro c hCurrent
    have hUnder := hCurrent.underway
    rw [hStage] at hUnder
    have hTale := hUnder.resumed
    rw [hCurrent.snapshot] at hTale
    refine .resumed hCurrent.token rfl ?_
    simpa [ownCalls_arrived] using hTale
  | @reject _ work error hSame hStage hDue hReply =>
    cases hTask.symm.trans hSame
    have hParts : deeds _ = [w.own .stopped] ++ w.own (.ended .rejected) ::
        ((w.disposal .task ++ w.own (.sent (rejection work.position) w.sendsFail w.pool.counts) ::
          w.own (.reconciled (some error)) :: w.raised work.reply.raises) ++ deeds w.journal) :=
      hDeeds
    refine hChronicle.finish hTask hTask' hParts (by simp [or_imp, forall_and]) (by simp) hConfig
      hBytes ?_
    intro c hCurrent
    have hUnder := hCurrent.underway
    rw [hStage] at hUnder
    refine hCurrent.lost (by simp) (hUnder.rejected error w.sendsFail w.pool.counts) ?_
    -- here the disposal comes before the episode is written off
    rw [disposedElsewhere_append _ (by simp [or_imp, forall_and]), ← hSpent, ownCalls_append,
      ownCalls_disposal]
    simp [ownCalls_arrived]
  | cut hSame hWait hDeadline =>
    cases hTask.symm.trans hSame
    have hParts : deeds (w.giveUp ep .cut).journal =
        (w.own .stopped :: w.disposal .task) ++ w.own (.ended .cut) :: ([] ++ deeds w.journal) := by
      simpa using hDeeds
    refine hChronicle.finish hTask hTask' hParts (by simp) (isTurn_ended w) hConfig hBytes ?_
    intro c hCurrent
    -- what has been done is the beginning of a word, up to a call that is not answered yet
    obtain ⟨how, rest, hTale⟩ := hCurrent.underway.completes
    obtain ⟨before, last, hWord, hAwaited⟩ := awaited_of_proceed hCurrent.underway hWait
    rw [hCurrent.snapshot, hWord] at hTale
    refine .cut hCurrent.token rfl hTale hAwaited ?_
    rw [ownCalls_ended, hSpent]
    simp [hWord, Chapter.farewell]

/-- A new chapter is opened by the error that begins an episode. -/
theorem Chronicle.begin {w w' : World} {error : LinkError} {token : Token.Id} {ep : Episode}
    (hChronicle : w.Chronicle) (hTask : w.task = .idle) (hTask' : w'.task = .recovering ep)
    (hBound : binding (deeds w.journal) = some token)
    (hDeeds : deeds w'.journal = w.own .strategyMade :: w.own (.taken error) :: deeds w.journal)
    (hSnapshot : ep.snapshot = ⟨w.config.duration, token⟩)
    (hStage : ep.stage = .consulting (.connection error))
    (hConfig : w'.config = w.config) (hBytes : w'.pool.bytes = w.pool.bytes) :
    w'.Chronicle := by
  have hClosed := hChronicle.closed (by simp [hTask])
  have hToken : ep.token = token := by rw [Episode.token, hSnapshot]
  have hChapters : chapters (deeds w'.journal) =
      ⟨error, some token, [.strategyMade], none, false⟩ :: chapters (deeds w.journal) := by
    rw [hDeeds, chapters_cons (by rfl)]
    simp [hBound]
  constructor
  · have hCovered : Covered ([w.own .strategyMade] ++ w.own (.taken error) :: deeds w.journal) := by
      refine covered_append ?_ (by simp) (covered_taken hChronicle.covered)
      rw [own, chapters_taken]
      exact List.cons_ne_nil _ _
    rw [hDeeds]
    exact hCovered
  · intro c hMem hEnding
    rw [hConfig, hBytes]
    rw [hChapters] at hMem
    rcases List.mem_cons.mp hMem with rfl | hMem
    · exact absurd rfl hEnding
    · exact hChronicle.told c hMem hEnding
  · intro ep' hRecovering
    cases hTask'.symm.trans hRecovering
    refine ⟨_, _, hChapters, hClosed, rfl, ?_, ?_, ?_⟩
    · rw [hToken]
    · rw [hSnapshot, hConfig, hToken]
    · rw [hStage]
      exact .consulting .none
  · intro hNone
    exact absurd hTask' (hNone ep)

/-- Without a token the chapter is closed at once. -/
theorem Chronicle.beginBare {w w' : World} {error : LinkError} (hChronicle : w.Chronicle)
    (hSpent : w.disposed = disposedElsewhere (deeds w.journal)) (hTask : w.task = .idle)
    (hTask' : ∀ ep, w'.task ≠ .recovering ep) (hBound : binding (deeds w.journal) = none)
    (hDeeds : deeds w'.journal = (w.own .stopped :: w.disposal .task) ++
      w.own (.ended (.failed .missingToken)) :: w.own (.taken error) :: deeds w.journal)
    (hConfig : w'.config = w.config) (hBytes : w'.pool.bytes = w.pool.bytes) :
    w'.Chronicle := by
  have hClosed := hChronicle.closed (by simp [hTask])
  -- the chapter is opened, closed and followed by the disposal in one step
  have hElsewhere : disposedElsewhere ([w.own (.taken error)] ++ deeds w.journal) =
      w.disposed := by
    rw [hSpent]
    exact disposedElsewhere_append _ (by simp)
  have hTaken : chapters (w.own (.taken error) :: deeds w.journal) =
      ⟨error, none, [], none, false⟩ :: chapters (deeds w.journal) := by
    rw [own, chapters_taken, hBound]
  have hEnded : chapters (w.own (.ended (.failed .missingToken)) :: w.own (.taken error) ::
      deeds w.journal) =
        ⟨error, none, [], some (.failed .missingToken), w.disposed⟩ ::
          chapters (deeds w.journal) := by
    rw [← hElsewhere, own, chapters_ended, hTaken]
    rfl
  have hChapters : chapters (deeds w'.journal) =
      ⟨error, none, if w.disposed then [] else [.disposed], some (.failed .missingToken),
        w.disposed⟩ :: chapters (deeds w.journal) := by
    rw [hDeeds, chapters_append _ (isTurn_ended w), hEnded, ownCalls_ended]
    rfl
  constructor
  · rw [hDeeds]
    refine covered_append ?_ (isTurn_ended w) (covered_ended (covered_taken hChronicle.covered))
    rw [hEnded]
    exact List.cons_ne_nil _ _
  · intro c hMem hEnding
    rw [hConfig, hBytes]
    rw [hChapters] at hMem
    rcases List.mem_cons.mp hMem with rfl | hMem
    · exact .bare rfl rfl rfl
    · exact hChronicle.told c hMem hEnding
  · intro ep hRecovering
    exact absurd hRecovering (hTask' ep)
  · intro _ c hMem
    rw [hChapters] at hMem
    rcases List.mem_cons.mp hMem with rfl | hMem
    · exact Option.some_ne_none _
    · exact hClosed c hMem

end

end World

-- ---------------------------------------------------------------------------
-- Every change
-- ---------------------------------------------------------------------------

namespace World

section

attribute [local simp] own guest raised Entry.isOwnCall Event.isCall Event.isTurn

/-- A step of an episode takes it to its next stage or ends it. -/
theorem isTurn_stride {w w' : World} {written : List Entry} {ep ep' : Episode}
    (hStride : Stride w written w') (hTask : w.task = .recovering ep)
    (hTask' : w'.task = .recovering ep') : ∀ e ∈ written, e.event.isTurn = false := by
  cases hStride with
  | stop hIdle | beginBare hIdle | begin hIdle =>
    rw [hTask] at hIdle
    cases hIdle
  | announceNothing | resume | reject | cut => simp at hTask'
  | _ => simp [or_imp, forall_and]

theorem chronicle_stride {w w' : World} {written : List Entry} (hReach : Reachable w)
    (hChronicle : w.Chronicle) (hStride : Stride w written w') : w'.Chronicle := by
  have hDeeds := deeds_stride hStride
  have hConfig := config_stride hStride
  have hBytes := bytes_stride hStride
  have hBinding : w.bound = binding (deeds w.journal) := by
    rw [binding_deeds]
    exact hReach.bound_eq
  cases hTask : w.task with
  | recovering ep =>
    -- a step of an episode leads to its next stage or ends it
    by_cases hOver : ∀ ep', w'.task ≠ .recovering ep'
    · exact hChronicle.conclude hReach hStride hTask hOver hConfig hBytes
    · obtain ⟨ep', hTask'⟩ : ∃ ep', w'.task = .recovering ep' := by
        simpa using hOver
      exact hChronicle.advance hStride hTask hTask' (isTurn_stride hStride hTask hTask') hConfig
        hBytes
  | ended => exact absurd hStride (not_stride_of_ended (by rw [hTask]; rfl))
  | idle =>
    have hSpent := hReach.disposed_eq (by rw [hTask]; rfl)
    cases hStride with
    | stop =>
      refine hChronicle.still hDeeds (by simp) (by simp) hConfig hBytes (.inr ⟨?_, ?_⟩)
      · simp [hTask]
      · simp
    | @beginBare error errors hIdle hErrors hBound =>
      have hParts := hDeeds.trans (show _ = (w.own .stopped :: w.disposal .task) ++
        w.own (.ended (.failed .missingToken)) :: w.own (.taken error) :: deeds w.journal by simp)
      exact hChronicle.beginBare hSpent hTask (by simp) (hBinding.symm.trans hBound) hParts hConfig
        hBytes
    | begin hIdle hErrors hBound =>
      exact hChronicle.begin hTask rfl (hBinding.symm.trans hBound) hDeeds rfl rfl hConfig hBytes
    | _ => simp_all

theorem ownCalls_of_actor {journal : List Entry} (hActor : ∀ e ∈ journal, e.actor ≠ .task) :
    ownCalls journal = [] := by
  rw [ownCalls_eq_nil]
  intro e he
  simp [hActor e he]

theorem chronicle_change {w w' : World} {action : Action} {written : List Entry}
    (hReach : Reachable w) (hChronicle : w.Chronicle) (hChange : Change w action written w') :
    w'.Chronicle := by
  have hDeeds := deeds_change hChange
  have hConfig := config_change hChange
  have hBytes := bytes_change hChange
  by_cases hAction : action = .work
  · subst hAction
    cases hChange with
    | work hStride => exact chronicle_stride hReach hChronicle hStride
    | quiet hWork => exact absurd rfl hWork
  · -- nobody else writes in the task's name
    have hCalls := ownCalls_of_actor (actor_change hAction hChange)
    cases hChange with
    | work => exact absurd rfl hAction
    | quiet _ hSame =>
      exact hChronicle.still hDeeds (by simp) hCalls hConfig hBytes (.inl hSame.task)
    | bind | hold | releaseHeld =>
      refine hChronicle.still hDeeds (by simp) hCalls hConfig hBytes (.inl ?_)
      simp [World.bind, releaseHeld]
    | drop hTask =>
      exact hChronicle.still hDeeds (by simp) hCalls hConfig hBytes (.inr ⟨hTask, by simp⟩)
    | @dropRecovering ep hTask =>
      -- the episode is left where it stands
      have hParts := hDeeds.trans
        (show _ = [w.guest .dropped] ++ w.guest (.ended .dropped) :: ([] ++ deeds w.journal)
          from rfl)
      refine hChronicle.finish hTask (by simp) hParts (by simp) (by simp) hConfig hBytes ?_
      intro c hCurrent
      obtain ⟨how, rest, hTale⟩ := hCurrent.underway.completes
      rw [hCurrent.snapshot] at hTale
      have hRest : Tale ⟨w.config.duration, ep.token⟩ (w.pool.bytes ep.token) c.cause how
          (c.calls ++ ownCalls [] ++ ownCalls [w.guest .dropped] ++ rest) := by
        simpa using hTale
      exact .unfinished hCurrent.token (.inr rfl) hRest
    | _ =>
      refine hChronicle.still hDeeds (by simp [or_imp, forall_and]) hCalls hConfig hBytes (.inl ?_)
      simp

end

end World

theorem Reachable.chronicle {w : World} (hReach : Reachable w) : w.Chronicle := by
  refine hReach.induct ?_ World.chronicle_change
  intro config tokens reconciliations bursts
  have hNone : chapters (deeds (World.initial config tokens reconciliations bursts).journal) = [] :=
    rfl
  constructor
  · rfl
  · rw [hNone]
    intro c hMem
    cases hMem
  · intro ep hTask
    cases hTask
  · rw [hNone]
    intro _ c hMem
    cases hMem

/-- In every run, the chapters tell all calls of the task, each of them looks as it should, and only
the episode under way has no end yet. -/
theorem chapters_told {w : World} (hReach : Reachable w) :
    (chapters w.journal).reverse.flatMap Chapter.calls = ownCalls w.journal ∧
      (∀ c ∈ chapters w.journal, c.Told w.config.duration w.pool.bytes) ∧
      ∀ c ∈ chapters w.journal, c.ending = none →
        ∃ ep older, w.task = .recovering ep ∧ chapters w.journal = c :: older := by
  have hChronicle := hReach.chronicle
  have hCovered := hChronicle.covered
  rw [Covered, chapters_deeds, ownCalls_deeds] at hCovered
  have hOpen : ∀ c ∈ chapters w.journal, c.ending = none →
      ∃ ep older, w.task = .recovering ep ∧ chapters w.journal = c :: older ∧
        c.Current ep w.config.duration w.pool.bytes := by
    intro c hMem hEnding
    rw [← chapters_deeds] at hMem ⊢
    by_cases hTask : ∃ ep, w.task = .recovering ep
    · obtain ⟨ep, hTask⟩ := hTask
      obtain ⟨c', older, hChapters, hOlder, hCurrent⟩ := hChronicle.current ep hTask
      rw [hChapters] at hMem ⊢
      rcases List.mem_cons.mp hMem with rfl | hMem
      · exact ⟨ep, older, hTask, rfl, hCurrent⟩
      · exact absurd hEnding (hOlder c hMem)
    · exact absurd hEnding (hChronicle.closed (fun ep hEp => hTask ⟨ep, hEp⟩) c hMem)
  refine ⟨hCovered, ?_, ?_⟩
  · intro c hMem
    cases hEnding : c.ending with
    | none =>
      obtain ⟨ep, older, -, -, hCurrent⟩ := hOpen c hMem hEnding
      exact hCurrent.told
    | some how =>
      refine hChronicle.told c ?_ (by simp [hEnding])
      rw [chapters_deeds]
      exact hMem
  · intro c hMem hEnding
    obtain ⟨ep, older, hTask, hChapters, -⟩ := hOpen c hMem hEnding
    exact ⟨ep, older, hTask, hChapters⟩

/-- An error while a supplier is installed whose connection answers with RESUME_OK. -/
def World.resuming : List Action :=
  [.bind 0, .setSupplier ⟨"next", [⟨0, 0, .connected ⟨[⟨0, World.sampleOk⟩], true⟩⟩]⟩,
    .fail .closed] ++ List.replicate 8 .work

theorem chapters_told_resuming :
    ∃ w, World.sample.run World.resuming = some w ∧
      (chapters w.journal).map Chapter.ending = [some .resumed] ∧
      (chapters w.journal).reverse.flatMap Chapter.calls = ownCalls w.journal ∧
      (∀ c ∈ chapters w.journal, c.Told w.config.duration w.pool.bytes) ∧
      ∀ c ∈ chapters w.journal, c.ending = none →
        ∃ ep older, w.task = .recovering ep ∧ chapters w.journal = c :: older := by
  have hEndings : (World.sample.run World.resuming).map (fun w =>
      (chapters w.journal).map Chapter.ending) = some [some .resumed] := by
    decide +kernel
  obtain ⟨w, hRun, hOnce⟩ := Option.map_eq_some_iff.mp hEndings
  exact ⟨w, hRun, hOnce, chapters_told (reachable_sample hRun)⟩

-- ---------------------------------------------------------------------------
-- A token that is too long
-- ---------------------------------------------------------------------------

def Event.sendsResume : Event → Bool
  | .sent frame _ _ => isResume frame
  | _ => false

theorem World.step_of_unencodable {w : World} {ep : Episode} {channel : Channel}
    {implied position : UInt64} {cause : EncodeError} (hTask : w.task = .recovering ep)
    (hStage : ep.stage = .announcing channel implied position)
    (hEncode : Resume.encode { token := w.pool.bytes ep.token, implied, position } =
      .error cause) :
    w.step = some (w.giveUp ep (.failed (.encode cause))) := by
  refine step_of_proceed hTask ?_
  simp only [proceed, hStage, announce, hEncode]

/-- The RESUME frame that is about to be sent: its token and its positions. -/
def World.announcing? (w : World) : Option (Token.Id × UInt64 × UInt64) :=
  match w.task with
  | .recovering ep =>
    match ep.stage with
    | .announcing _ implied position => some (ep.token, implied, position)
    | _ => none
  | _ => none

theorem World.announcing?_eq_some {w : World} {token : Token.Id} {implied position : UInt64}
    (hFrame : w.announcing? = some (token, implied, position)) :
    ∃ ep channel, w.task = .recovering ep ∧ ep.stage = .announcing channel implied position ∧
      ep.token = token := by
  unfold announcing? at hFrame
  split at hFrame
  case h_1 ep hTask =>
    split at hFrame
    case h_1 channel implied' position' hStage =>
      cases hFrame
      exact ⟨ep, channel, hTask, hStage, rfl⟩
    case h_2 => cases hFrame
  case h_2 => cases hFrame

theorem World.bytes_run {w w' : World} {actions : List Action} (hRun : w.run actions = some w') :
    w'.pool.bytes = w.pool.bytes :=
  run_induct (P := fun v => v.pool.bytes = w.pool.bytes)
    (fun _ hBytes hChange => (bytes_change hChange).trans hBytes) hRun rfl

/-- No RESUME frame can carry it. -/
def World.oversized : ByteArray :=
  ⟨Array.replicate 65536 0⟩

/-- A new connection is put in place before the token turns out to be too long. -/
theorem not_resume_after_reconnect :
    ¬ ∀ w, Reachable w → ∀ c ∈ chapters w.journal,
      c.ending ≠ none → c.ending ≠ some .cut → c.ending ≠ some .dropped →
        c.calls.countP Event.isReconnect = c.calls.countP Event.sendsResume := by
  intro h
  have hSize : World.oversized.size = 65536 := Array.size_replicate
  have hFacts : ((World.fresh World.oversized).run
      ([.bind 0, .setSupplier ⟨"next", [⟨0, 0, .connected ⟨[], true⟩⟩]⟩, .fail .closed] ++
        List.replicate 5 .work)).map (fun w =>
          (w.announcing?, (chapters w.journal).map fun c =>
            (c.calls.countP Event.isReconnect, c.calls.countP Event.sendsResume))) =
      some (some (0, 0, 0), [(1, 0)]) := by
    decide +kernel
  obtain ⟨w, hRun, hFacts⟩ := Option.map_eq_some_iff.mp hFacts
  obtain ⟨hFrame, hCounts⟩ := Prod.mk.inj hFacts
  obtain ⟨ep, channel, hTask, hStage, hToken⟩ := World.announcing?_eq_some hFrame
  have hBytes : w.pool.bytes ep.token = World.oversized := by
    rw [World.bytes_run hRun, hToken]
    rfl
  have hEncode : Resume.encode { token := w.pool.bytes ep.token, implied := 0, position := 0 } =
      .error (.tokenTooLong 65536) := by
    rw [hBytes, Resume.encode, hSize]
    rfl
  -- the next step ends the episode with nothing sent
  have hStep := World.step_of_unencodable hTask hStage hEncode
  have hReach := (reachable_fresh hRun).act (show w.act .work = some _ from hStep)
  have hDeeds := World.deeds_stride (.announceNothing hTask hStage hEncode)
  have hParts := hDeeds.trans (show _ = (w.own .stopped :: w.disposal .task) ++
    w.own (.ended (.failed (.encode (.tokenTooLong 65536)))) :: deeds w.journal by simp)
  cases hChapters : chapters w.journal with
  | nil => simp [hChapters] at hCounts
  | cons c older =>
    simp only [hChapters, List.map_cons, List.cons.injEq, Prod.mk.injEq] at hCounts
    obtain ⟨⟨hReconnect, hSent⟩, -⟩ := hCounts
    have hLater := World.ownCalls_ended w
    have hEnded : chapters (w.own (.ended (.failed (.encode (.tokenTooLong 65536)))) ::
        deeds w.journal) =
          { c with
            ending := some (.failed (.encode (.tokenTooLong 65536)))
            spent := disposedElsewhere (deeds w.journal) } :: older := by
      rw [World.own, chapters_ended, chapters_deeds, hChapters]
      rfl
    have hHead : chapters (w.giveUp ep (.failed (.encode (.tokenTooLong 65536)))).journal =
        { c with
          calls := c.calls ++ ownCalls (w.own .stopped :: w.disposal .task)
          ending := some (.failed (.encode (.tokenTooLong 65536)))
          spent := disposedElsewhere (deeds w.journal) } :: older := by
      rw [← chapters_deeds, hParts, chapters_append _ (World.isTurn_ended w), hEnded]
      rfl
    have hEqual := h _ hReach _ (by rw [hHead]; exact List.mem_cons_self) (by simp) (by simp)
      (by simp)
    simp only [List.countP_append, hReconnect, hSent, hLater] at hEqual
    split at hEqual <;> simp [Event.isReconnect, Event.sendsResume] at hEqual

end Resumption
