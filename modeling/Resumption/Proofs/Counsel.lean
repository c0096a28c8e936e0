import Resumption.Proofs.Handshake
import Resumption.Proofs.Ledger

/-!
# How an episode is counselled

An episode has one strategy, made for it at its beginning. The strategy is told what began the
episode and then why one attempt after the other failed, so that there is one question more than
there are failed attempts. The delays are those of that strategy alone, whatever happened in the
episodes before.

* `Account.Counselled` — what holds of an episode with a token
* `Account.counselled_law` — it holds of every episode, whatever happens
* `counsel_of_reachable` — every episode of every run is counselled
* `not_asked_after_failure` — a failure that no further attempt can mend is not told
-/

namespace Resumption

-- ---------------------------------------------------------------------------
-- An episode with a token
-- ---------------------------------------------------------------------------

/-- What holds of an episode with a token: of its strategy, the questions, the replies, and the
attempts. -/
structure Account.Counselled (config : Config) (bytes : Token.Id → ByteArray) (id : Token.Id)
    (a : Account) : Prop where
  /-- One strategy is made for it. -/
  once : a.events.countP Event.makesStrategy = 1
  /-- The strategy is always given the duration of the session and the token bound at the
  beginning. -/
  asks : ∀ event ∈ a.events, event.Asks ⟨config.duration, id⟩ (bytes id)
  /-- It is told what began the episode, and then why one attempt after the other failed. -/
  told : causes a.events <+: .connection a.cause :: a.failures
  /-- It is never told that it failed itself. -/
  honest : ∀ reason, .strategy reason ∉ causes a.events
  /-- Every question is answered by that strategy, from the first one on. -/
  answers : (config.strategy a.number).Answers a.asked a.replies
  /-- Attempts begin exactly when they are due after the replies, in order. -/
  starts : a.starts <+: a.replies.map attemptDue
  /-- There is one question more than there are failed attempts. -/
  counts : a.ending ≠ none → a.ending ≠ some .dropped → (∀ cause, a.ending ≠ some (.failed cause)) →
    a.asked.length = a.failures.length + 1
  /-- Only for a token that is too long the last attempt fails like the others, and the strategy is
  not asked again. -/
  refused : ∀ cause, a.ending = some (.failed cause) →
    65535 < (bytes id).size ∧ cause = .encode (.tokenTooLong (bytes id).size) ∧
      a.asked.length = a.failures.length
  /-- While the episode is under way the next question may be still to come. -/
  within : a.failures.length ≤ a.asked.length ∧ a.asked.length ≤ a.failures.length + 1
  /-- An episode that was not cut short has left no question and no attempt out. -/
  complete : ∀ how, a.ending = some how → how.isOwn →
    a.replies.length = a.asked.length ∧ a.starts = a.replies.map attemptDue

theorem Stage.untold_of_waits {stage : Stage} (hWaits : stage.waits) : stage.untold = [] := by
  cases stage <;> first | rfl | cases hWaits

namespace Stage.Ends

-- `failed` attempts may be followed by another, and the strategy was asked `asked` times
variable {token : ByteArray} {stage : Stage} {ending : Option Ending} {asked failed : Nat}

theorem counts (hEnds : stage.Ends token ending)
    (hLength : failed + 1 = asked + stage.untold.length)
    (hEnding : ending ≠ none) (hDropped : ending ≠ some .dropped)
    (hFailed : ∀ cause, ending ≠ some (.failed cause)) :
    asked = failed + (ending.bind Ending.failure?).toList.length + 1 := by
  cases hEnds with
  | underway => exact absurd rfl hEnding
  | dropped => exact absurd rfl hDropped
  | failed => exact absurd rfl (hFailed _)
  | cut hWaits =>
    rw [untold_of_waits hWaits] at hLength
    exact hLength.symm
  | resumed | rejected => exact hLength.symm

theorem refused {cause : RecoveryError} (hEnds : stage.Ends token ending)
    (hLength : failed + 1 = asked + stage.untold.length) (hCause : ending = some (.failed cause)) :
    65535 < token.size ∧ cause = .encode (.tokenTooLong token.size) ∧
      asked = failed + (ending.bind Ending.failure?).toList.length := by
  cases hEnds with
  | failed hEncode =>
    cases hCause
    obtain ⟨hLong, rfl⟩ := ((Resume.conveyed _).refused _).mp hEncode
    exact ⟨hLong, rfl, hLength.symm⟩
  | _ => cases hCause

theorem within (hEnds : stage.Ends token ending)
    (hLength : failed + 1 = asked + stage.untold.length) :
    failed + (ending.bind Ending.failure?).toList.length ≤ asked ∧
      asked ≤ failed + (ending.bind Ending.failure?).toList.length + 1 := by
  have hUntold : stage.untold.length ≤ 1 := by
    cases stage <;> simp [untold]
  cases hEnds with
  | failed => exact ⟨Nat.le_of_eq hLength, Nat.le_succ_of_le (Nat.le_of_eq hLength.symm)⟩
  | _ =>
    show failed + 0 ≤ asked ∧ asked ≤ failed + 0 + 1
    omega

/-- The task brings an episode to its end only after an attempt. -/
theorem isBetween {how : Ending} (hEnds : stage.Ends token (some how)) (hOwn : how.isOwn) :
    stage.isBetween := by
  cases hEnds with
  | dropped | cut => cases hOwn
  | failed | resumed | rejected => rfl

end Stage.Ends

namespace Account

variable {config : Config} {bytes : Token.Id → ByteArray} {ep : Episode} {a : Account} {c : Chapter}
  {more : List Entry} {ending : Option Ending}

theorem failures_extend (hMore : ∀ e ∈ more, e.event.isSettling) :
    failures { a.extend more with ending } =
      faults a.events ++ (ending.bind Ending.failure?).toList := by
  show faults (a.extend more).events ++ _ = _
  rw [events_extend, faults_append_of_isSettling _ (List.forall_mem_map.mpr hMore)]

/-- The strategy was told why attempts failed, but for what it is about to be told. -/
theorem Tells.causes_eq (hTells : a.Tells c) (hCurrent : c.Current ep config.duration bytes) :
    .connection a.cause :: faults a.events = causes a.events ++ ep.stage.untold := by
  have hUnder := hCurrent.underway.causes_eq
  rwa [← hTells.calls, ← hTells.cause] at hUnder

theorem Tells.length_asked (hTells : a.Tells c) (hCurrent : c.Current ep config.duration bytes) :
    (faults a.events).length + 1 = a.asked.length + ep.stage.untold.length := by
  rw [a.length_asked, ← List.length_append, ← hTells.causes_eq hCurrent, List.length_cons]

/-- An account under way is as it should be, and is so when the episode ends. -/
theorem Abreast.counselled {now : Nat} (hAbreast : a.Abreast config bytes ep now)
    (hTells : a.Tells c) (hCurrent : c.Current ep config.duration bytes)
    (hMore : ∀ e ∈ more, e.event.isSettling) (hEnds : ep.stage.Ends (bytes ep.token) ending) :
    Counselled config bytes ep.token { a.extend more with ending } := by
  obtain ⟨hOnce, hAsks, -, hAnswers, hKeeps⟩ := hAbreast
  have hPlain : ∀ e ∈ more, e.event.isPlain :=
    fun e hMem => Event.isPlain_of_isSettling (hMore e hMem)
  obtain ⟨hAsked, hReplies, hStarts⟩ := a.reads_plain hPlain
  have hCauses : causes (a.extend more).events = causes a.events := by
    rw [events_extend, causes_append_of_isSettling _ (List.forall_mem_map.mpr hMore)]
  have hUnder := hTells.causes_eq hCurrent
  have hLength := hTells.length_asked hCurrent
  constructor
  case once =>
    show (a.extend more).events.countP _ = 1
    rw [events_extend, List.countP_append, hOnce, (reads_of_isPlain hPlain).2.2.2]
  case asks =>
    show ∀ event ∈ (a.extend more).events, _
    rw [events_extend, List.forall_mem_append, List.forall_mem_map]
    exact ⟨hAsks, fun e hMem => Event.asks_of_isPlain (hPlain e hMem) _ _⟩
  case told =>
    rw [failures_extend hMore, ← List.cons_append]
    show causes (a.extend more).events <+: .connection a.cause :: faults a.events ++ _
    rw [hCauses, hUnder, List.append_assoc]
    exact List.prefix_append _ _
  case honest =>
    show ∀ reason, _ ∉ causes (a.extend more).events
    rw [hCauses]
    intro reason hMem
    have hTold := List.mem_append_left ep.stage.untold hMem
    rw [← hUnder, List.mem_cons] at hTold
    rcases hTold with hFirst | hLater
    · cases hFirst
    · exact honest_faults a.events reason hLater
  case answers =>
    show (config.strategy a.number).Answers (a.extend more).asked (a.extend more).replies
    rw [hAsked, hReplies]
    exact hAnswers
  case starts =>
    show (a.extend more).starts <+: (a.extend more).replies.map attemptDue
    rw [hStarts, hReplies]
    exact hKeeps.starts_prefix
  case counts =>
    rw [failures_extend hMore, List.length_append]
    show _ → _ → _ → (a.extend more).asked.length = _
    rw [hAsked]
    exact hEnds.counts hLength
  case refused =>
    rw [failures_extend hMore, List.length_append]
    show ∀ cause, _ → _ ∧ _ ∧ (a.extend more).asked.length = _
    rw [hAsked]
    exact fun cause => hEnds.refused hLength
  case within =>
    rw [failures_extend hMore, List.length_append]
    show _ ≤ (a.extend more).asked.length ∧ (a.extend more).asked.length ≤ _
    rw [hAsked]
    exact hEnds.within hLength
  case complete =>
    rintro how rfl hOwn
    show (a.extend more).replies.length = (a.extend more).asked.length ∧
      (a.extend more).starts = (a.extend more).replies.map attemptDue
    rw [hAsked, hReplies, hStarts]
    obtain ⟨hSame, hDue⟩ := hKeeps.settled (hEnds.isBetween hOwn)
    exact ⟨hSame.symm, hDue⟩

/-- Whatever happens to it, an episode is counselled. -/
theorem counselled_law : Law Abreast Counselled := by
  constructor
  case begins =>
    intro w error token number
    refine ⟨rfl, ?_, rfl, ?_, .between rfl rfl rfl⟩
    · intro event hEvent
      cases List.mem_singleton.mp hEvent
      trivial
    · intro n time reply hReply
      cases hReply
  case elapses =>
    intro w ep a millis _ hTracks hMay hAbreast
    exact { hAbreast with
      keeps := hAbreast.keeps.elapse fun due => World.mayReach_due hTracks.task hMay }
  case advances =>
    intro w w' written ep ep' a _ hTracks hStride hTask' hAbreast
    obtain ⟨c, -, hCurrent⟩ := hTracks.chapter
    obtain ⟨hSnapshot, -⟩ :=
      World.underway_stride hStride hTracks.task hTask' hCurrent.underway
    have hToken : ep'.token = ep.token := by
      rw [Episode.token, hSnapshot, Episode.token]
    exact hAbreast.deal (World.dealing_stride hStride hTracks.task hTask') hCurrent.snapshot hToken
  case ends =>
    intro w ep a how written _ hTracks hConcludes hAbreast
    obtain ⟨c, hTells, hCurrent⟩ := hTracks.chapter
    exact hAbreast.counselled hTells hCurrent hConcludes.settling hConcludes.ends

end Account

/-- The account of the episode under way goes as far as the episode does. -/
theorem Reachable.open_account {w : World} {a : Account} (hReach : Reachable w)
    (hMem : a ∈ accounts w.journal) (hEnding : a.ending = none) :
    ∃ ep c, w.task = .recovering ep ∧ a.Abreast w.config w.pool.bytes ep w.now ∧ a.Tells c ∧
      c.Current ep w.config.duration w.pool.bytes := by
  obtain ⟨ep, hTracks⟩ := hReach.tracks_of_open hMem hEnding
  obtain ⟨c, hTells, hCurrent⟩ := hTracks.chapter
  exact ⟨ep, c, hTracks.task, hReach.live Account.counselled_law hTracks, hTells, hCurrent⟩

theorem Reachable.counselled {w : World} {a : Account} {id : Token.Id} (hReach : Reachable w)
    (hMem : a ∈ accounts w.journal) (hToken : a.token = some id) :
    a.Counselled w.config w.pool.bytes id := by
  cases hEnding : a.ending with
  | some how => exact hReach.lived Account.counselled_law hMem (by simp [hEnding]) hToken
  | none =>
    obtain ⟨ep, c, -, hAbreast, hTells, hCurrent⟩ := hReach.open_account hMem hEnding
    cases hToken.symm.trans (hTells.token.trans hCurrent.token)
    have hCounselled : Account.Counselled w.config w.pool.bytes ep.token
        { a.extend [] with ending := none } :=
      hAbreast.counselled hTells hCurrent (by simp) .underway
    rwa [Account.extend, List.append_nil, ← hEnding] at hCounselled

/-- The strategies of all episodes of a session, and what became of what they said. -/
structure World.Counsels (w : World) : Prop where
  /-- The accounts leave out no call of the task. -/
  covered : (accounts w.journal).reverse.flatMap Account.events = ownCalls w.journal
  counselled : ∀ a ∈ accounts w.journal, ∀ id, a.token = some id →
    a.Counselled w.config w.pool.bytes id
  /-- Wherever the task has to wait, the strategy has been told of every failure, and there is one
  question more. -/
  waiting : w.step = none → ∀ a ∈ accounts w.journal, a.ending = none →
    causes a.events = .connection a.cause :: a.failures ∧ a.asked.length = a.failures.length + 1
  /-- No attempt is overdue. -/
  timely : ∀ a ∈ accounts w.journal, a.ending = none → ∀ (n time : Nat),
    (a.replies.map attemptDue)[n]? = some time → a.starts[n]? = some time ∨ w.now ≤ time
  /-- Two episodes whose strategies start out the same have the same delays, in this session and in
  any other one. -/
  independent : ∀ (w' : World) (a a' : Account), Reachable w' → a ∈ accounts w.journal →
    a' ∈ accounts w'.journal → a.token ≠ none → a'.token ≠ none →
      w.config.strategy a.number = w'.config.strategy a'.number →
        ∀ (n time time' : Nat) (reply reply' : Except String Duration),
          a.replies[n]? = some (time, reply) → a'.replies[n]? = some (time', reply') →
            reply = reply'

/-- In every run, an episode follows the advice of one strategy of its own. -/
theorem counsel_of_reachable {w : World} (hReach : Reachable w) : w.Counsels := by
  constructor
  · have hCovered := hReach.chronicle.covered
    rw [Covered, chapters_deeds, ownCalls_deeds] at hCovered
    exact flatMap_accounts hCovered
  · intro a hMem id hToken
    exact hReach.counselled hMem hToken
  · intro hStep a hMem hEnding
    obtain ⟨ep, c, hTask, -, hTells, hCurrent⟩ := hReach.open_account hMem hEnding
    rw [hReach.timed.step_eq hTask, Option.or_eq_none_iff] at hStep
    have hUntold := Stage.untold_of_waits (World.proceed_eq_none.mp hStep.1).1
    have hCauses := hTells.causes_eq hCurrent
    have hLength := hTells.length_asked hCurrent
    rw [hUntold] at hCauses hLength
    rw [Account.failures, hEnding, Option.bind_none, Option.toList_none, List.append_nil]
    exact ⟨(List.append_nil _).symm.trans hCauses.symm, hLength.symm⟩
  · intro a hMem hEnding n time hDue
    obtain ⟨ep, c, -, hAbreast, -, -⟩ := hReach.open_account hMem hEnding
    exact hAbreast.keeps.not_overdue hDue
  · intro w' a a' hReach' hMem hMem' hToken hToken' hStrategy n time time' reply reply' hReply
      hReply'
    obtain ⟨id, hToken⟩ := Option.ne_none_iff_exists'.mp hToken
    obtain ⟨id', hToken'⟩ := Option.ne_none_iff_exists'.mp hToken'
    have hAnswers := (hReach.counselled hMem hToken).answers
    rw [hStrategy] at hAnswers
    exact hAnswers.unique (hReach'.counselled hMem' hToken').answers hReply hReply'

/-- A session whose strategy waits one second first, and then twice as long every time. -/
def World.doubling : World :=
  .initial ⟨.ofSeconds 30, fun _ => .exponentialFrom (.ofSeconds 1) (.ofSeconds 16) 2⟩
    [⟨#[1]⟩] [] []

/-- In the first episode there is a supplier only for the second attempt. The second episode begins
as soon as the first is over. -/
def World.returning : List Action :=
  [.bind 0, .fail .closed, .work, .work, .work, .elapse 1000, .work, .work, .work,
    .setSupplier ⟨"next", [⟨0, 0, .connected ⟨[⟨0, World.sampleOk⟩], true⟩⟩]⟩, .elapse 2000,
    .work, .work, .work, .work, .work, .fail .closed, .work, .work, .work, .elapse 1000, .work]

theorem counsel_of_reachable_returning :
    ∃ w, World.doubling.run World.returning = some w ∧
      (accounts w.journal).map (fun a => (a.number, a.asked, a.starts)) =
        [(1, [3000], [4000]), (0, [0, 1000], [1000, 3000])] ∧
      (accounts w.journal).map Account.failures = [[], [.noSupplier]] ∧ w.Counsels := by
  have hTimes : (World.doubling.run World.returning).map (fun w =>
      (accounts w.journal).map fun a => (a.number, a.asked, a.starts)) =
        some [(1, [3000], [4000]), (0, [0, 1000], [1000, 3000])] := by
    decide +kernel
  have hFailures : (World.doubling.run World.returning).map (fun w =>
      (accounts w.journal).map Account.failures) = some [[], [.noSupplier]] := by
    decide +kernel
  obtain ⟨w, hRun, hTimes⟩ := Option.map_eq_some_iff.mp hTimes
  rw [hRun] at hFailures
  exact ⟨w, hRun, hTimes, Option.some.inj hFailures, counsel_of_reachable ⟨_, _, _, _, _, hRun⟩⟩

/-- After the failure of a token that is too long the strategy is not asked again. -/
theorem not_asked_after_failure :
    ¬ ∀ w, Reachable w → ∀ a ∈ accounts w.journal, a.token ≠ none →
      a.ending ≠ none → a.ending ≠ some .cut → a.ending ≠ some .dropped →
        a.asked.length = a.failures.length + 1 := by
  intro h
  have hSize : World.oversized.size = 65536 := Array.size_replicate
  have hFacts : ((World.fresh World.oversized).run
      ([.bind 0, .setSupplier ⟨"next", [⟨0, 0, .connected ⟨[], true⟩⟩]⟩, .fail .closed] ++
        List.replicate 5 .work)).map (fun w =>
          (w.announcing?, (accounts w.journal).map Account.token)) =
      some (some (0, 0, 0), [some 0]) := by
    decide +kernel
  obtain ⟨w, hRun, hFacts⟩ := Option.map_eq_some_iff.mp hFacts
  obtain ⟨hFrame, hTokens⟩ := Prod.mk.inj hFacts
  obtain ⟨a, hAccounts, hToken⟩ := List.map_eq_singleton_iff.mp hTokens
  obtain ⟨ep, channel, hTask, hStage, hId⟩ := World.announcing?_eq_some hFrame
  have hBytes : w.pool.bytes ep.token = World.oversized := by
    rw [World.bytes_run hRun, hId]
    rfl
  have hEncode : Resume.encode { token := w.pool.bytes ep.token, implied := 0, position := 0 } =
      .error (.tokenTooLong 65536) := by
    rw [hBytes, Resume.encode, hSize]
    rfl
  -- the next step ends the episode
  have hStep := World.step_of_unencodable hTask hStage hEncode
  have hReach := (reachable_fresh hRun).act (show w.act .work = some _ from hStep)
  have hDeeds := World.deeds_stride (.announceNothing hTask hStage hEncode)
  have hParts := hDeeds.trans (show _ = (w.own .stopped :: w.disposal .task) ++
    w.own (.ended (.failed (.encode (.tokenTooLong 65536)))) :: deeds w.journal by simp)
  have hEnded : accounts (w.giveUp ep (.failed (.encode (.tokenTooLong 65536)))).journal =
      [{ a.extend (ownEntries (w.own .stopped :: w.disposal .task)) with
          ending := some (.failed (.encode (.tokenTooLong 65536))) }] := by
    rw [← accounts_deeds, hParts, accounts_append _ (World.isTurn_ended w)]
    simp only [World.own, accounts_ended, accounts_deeds, hAccounts, List.modifyHead_cons]
    rfl
  have hMem := hEnded ▸ List.mem_singleton_self _
  obtain ⟨-, -, hEqual⟩ := (hReach.counselled hMem hToken).refused _ rfl
  have hMore := h _ hReach _ hMem (by simp [Account.extend, hToken]) (by simp) (by simp) (by simp)
  omega

end Resumption
