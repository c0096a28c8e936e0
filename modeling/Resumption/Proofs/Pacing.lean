import Resumption.Proofs.Credentials
import Resumption.Proofs.Rhythm

/-!
# How often an episode can try

Nothing counts the attempts of an episode. A strategy that never fails and always names a delay
keeps them apart, and the deadline is the end of them: between two attempts lies such a delay, and
before the first one too. An attempt that is due exactly at the deadline is made, so that there are
as many attempts as delays fit into the time of the episode, and one question more.

* `Strategy.Paced` — every reply is a delay of so many milliseconds at least
* `Account.le_start` — attempt `n` begins after that many delays
* `limited_of_reachable` — every episode of every run tries only so often
-/

namespace Resumption

/-- A delay of whole milliseconds, and of that many at least; or no reply at all. -/
def Reply.IsPaced (d : Nat) : Reply → Prop
  | .wait delay => ∃ millis, d ≤ millis ∧ delay.nanos = millis * Duration.nanosPerMilli
  | .refuse _ => False
  | .silence => True

/-- A strategy that never fails, and names no delay shorter than that many milliseconds. A reply may
take its time or never come. -/
def Strategy.Paced (d : Nat) (s : Strategy) : Prop :=
  ∀ n, (s.advice n).reply.IsPaced d

theorem Duration.ceilMillis_of_whole {d : Duration} {millis : Nat}
    (hWhole : d.nanos = millis * nanosPerMilli) : d.ceilMillis = millis := by
  unfold ceilMillis
  rw [hWhole]
  unfold nanosPerMilli
  omega

namespace Strategy

variable {s : Strategy} {d : Nat}

/-- The attempt after a reply begins at least one delay after the question. -/
theorem Paced.le_attemptDue {n asked time : Nat} {reply : Except String Duration}
    (hPaced : s.Paced d) (hAnswer : (s.advice n).answer asked = .due time reply) :
    asked + d ≤ attemptDue (time, reply) := by
  have hReply := hPaced n
  unfold Advice.answer at hAnswer
  cases hAdvice : (s.advice n).reply with
  | refuse reason =>
    rw [hAdvice] at hReply
    exact hReply.elim
  | silence =>
    simp only [hAdvice] at hAnswer
    cases hAnswer
  | wait delay =>
    simp only [hAdvice] at hAnswer
    cases hAnswer
    rw [hAdvice] at hReply
    obtain ⟨millis, hLess, hWhole⟩ := hReply
    rw [attemptDue, Duration.ceilMillis_of_whole hWhole]
    omega

theorem after_add (s : Strategy) (k n : Nat) : (s.after k).after n = s.after (k + n) := by
  induction k generalizing s with
  | zero => rw [Nat.zero_add, after]
  | succ k ih =>
    rw [Nat.succ_add]
    exact ih s.consult.2

/-- It is so after any number of questions. -/
theorem Paced.after (hPaced : s.Paced d) (k : Nat) : (s.after k).Paced d := by
  intro n
  rw [advice, after_add]
  exact hPaced (k + n)

/-- Who always names a delay is never hasty. -/
theorem Paced.patientFrom (hPaced : s.Paced d) (hDelay : 1 ≤ d) : s.PatientFrom 0 := by
  intro n _
  have hReply := hPaced n
  cases hAdvice : (s.advice n).reply with
  | refuse reason =>
    rw [hAdvice] at hReply
    exact hReply.elim
  | silence => rfl
  | wait delay =>
    rw [hAdvice] at hReply
    obtain ⟨millis, hLess, hWhole⟩ := hReply
    simp only [Reply.isHasty, Duration.ceilMillis_of_whole hWhole, decide_eq_false_iff_not]
    omega

end Strategy

-- ---------------------------------------------------------------------------
-- One episode
-- ---------------------------------------------------------------------------

namespace Account

variable {config : Config} {bytes : Token.Id → ByteArray} {id : Token.Id} {a : Account} {D d : Nat}

/-- Before attempt `n`, counted from 0, lie `n + 1` delays. -/
theorem le_start {n start : Nat} (hCounselled : a.Counselled config bytes id)
    (hRhythmic : a.Rhythmic config) (hPaced : (config.strategy a.number).Paced d)
    (hStart : a.starts[n]? = some start) : a.time + (n + 1) * d ≤ start := by
  induction n generalizing start with
  | zero =>
    obtain ⟨asked, time, reply, hAsked, hAnswer, rfl⟩ := hCounselled.start_eq hStart
    have hDelay := hPaced.le_attemptDue hAnswer
    obtain rfl : a.time = asked := Option.some.inj (hRhythmic.asked_eq hAsked)
    omega
  | succ n ih =>
    obtain ⟨asked, time, reply, hAsked, hAnswer, rfl⟩ := hCounselled.start_eq hStart
    have hDelay := hPaced.le_attemptDue hAnswer
    -- the question before it is about the failure of an attempt that had begun by then
    obtain ⟨before, hBefore, hLess⟩ := hRhythmic.after n asked (hRhythmic.asked_eq hAsked)
    have hFrom := ih hBefore
    rw [Nat.add_mul (n + 1) 1 d]
    omega

theorem length_starts_le (hCounselled : a.Counselled config bytes id)
    (hRhythmic : a.Rhythmic config) (hPaced : (config.strategy a.number).Paced d) (hDelay : 1 ≤ d)
    (hWhole : config.duration.nanos = D * Duration.nanosPerMilli) : a.starts.length ≤ D / d := by
  rw [Nat.le_div_iff_mul_le hDelay]
  cases hLength : a.starts.length with
  | zero => omega
  | succ n =>
    have hLast : a.starts[n]? = some a.starts[n] := List.getElem?_eq_getElem (by omega)
    have hFrom := le_start hCounselled hRhythmic hPaced hLast
    have hTo := hRhythmic.past _ (List.getElem_mem (by omega : n < a.starts.length))
    rw [Duration.ceilMillis_of_whole hWhole] at hTo
    omega

/-- There is one question more than there are attempts, at most. -/
theorem Rhythmic.length_asked_le (hRhythmic : a.Rhythmic config) :
    a.asked.length ≤ a.starts.length + 1 := by
  have hAsked := hRhythmic.asked.length_le
  rw [List.length_cons, List.length_map] at hAsked
  exact Nat.le_trans hAsked (Nat.add_le_add_right hRhythmic.within.1 1)

end Account

/-- What an episode can still do, if its strategy always names a delay. -/
theorem Episode.potential_le {ep : Episode} {now start D : Nat} (hFrom : start ≤ now)
    (hDeadline : ep.deadline = start + D) : ep.potential 0 now ≤ 8 * (D + 2) := by
  have hRank : ep.stage.rank ≤ 7 := by
    cases ep.stage <;> simp [Stage.rank]
  have hRoom : ep.room now ≤ D + 1 := by
    unfold room
    cases hEarliest : ep.stage.earliest now with
    | none => exact Nat.zero_le _
    | some time =>
      have hLater : now ≤ time := by
        unfold Stage.earliest at hEarliest
        split at hEarliest <;> cases hEarliest <;> omega
      dsimp only
      omega
  unfold potential
  omega

/-- Without a token nothing is done but the disposal. -/
theorem Reachable.bare {w : World} {a : Account} (hReach : Reachable w)
    (hMem : a ∈ accounts w.journal) (hToken : a.token = none) :
    a.asked = [] ∧ a.starts = [] ∧ dials a.events = 0 := by
  obtain ⟨c, hChapter, hTells⟩ := exists_tells (tells_accounts w.journal) hMem
  have hBare : a.events = c.farewell := by
    cases hReach.told c hChapter with
    | bare _ _ hCalls => exact hTells.calls.trans hCalls
    | resumed hSome | lost hSome | cut hSome | unfinished hSome =>
      cases (hTells.token.symm.trans hToken).symm.trans hSome
  have hSettling : ∀ event ∈ a.events, event.isSettling := by
    rw [hBare]
    intro event hEvent
    unfold Chapter.farewell at hEvent
    split at hEvent <;> simp_all [Event.isSettling]
  have hPlain : ∀ e ∈ a.calls, e.event.isPlain := fun e hCall =>
    Event.isPlain_of_isSettling (hSettling e.event (List.mem_map_of_mem hCall))
  obtain ⟨hAsked, -, hStarts, -⟩ := reads_of_isPlain hPlain
  exact ⟨hAsked, hStarts, dials_eq_zero_of_isSettling hSettling⟩

-- ---------------------------------------------------------------------------
-- Every run
-- ---------------------------------------------------------------------------

/-- An episode has `D` milliseconds, and where its strategy keeps attempts `d` milliseconds apart it
can make only so many. -/
structure World.Limited (w : World) (D d : Nat) : Prop where
  /-- The accounts leave out no call of the task. -/
  covered : (accounts w.journal).reverse.flatMap Account.events = ownCalls w.journal
  asked : ∀ a ∈ accounts w.journal, (w.config.strategy a.number).Paced d →
    a.asked.length ≤ D / d + 1
  starts : ∀ a ∈ accounts w.journal, (w.config.strategy a.number).Paced d → a.starts.length ≤ D / d
  dials : ∀ a ∈ accounts w.journal, (w.config.strategy a.number).Paced d →
    Resumption.dials a.events ≤ D / d
  /-- The task is done with the episode after so many steps. -/
  rounds : ∀ ep a, w.Tracks ep a → (w.config.strategy a.number).Paced d →
    ∀ actions w', w.run actions = some w' → w'.InEpisode w.episodes →
      actions.countP Action.isWork ≤ 8 * (D + 2)
  /-- The episode can come to its end, with nobody else doing anything, and does so by its
  deadline. -/
  finishes : ∀ ep a, w.Tracks ep a → (w.config.strategy a.number).Paced d →
    ∃ actions w', (∀ action ∈ actions, action.isInternal) ∧ w.run actions = some w' ∧
      w'.episodes = w.episodes ∧ w'.now ≤ a.time + D ∧ ∀ ep', w'.task ≠ .recovering ep'

/-- In every run, an episode tries only as often as its time and its delays allow, whatever
suppliers, peers and the connection do. -/
theorem limited_of_reachable {w : World} {D d : Nat} (hReach : Reachable w)
    (hWhole : w.config.duration.nanos = D * Duration.nanosPerMilli) (hDelay : 1 ≤ d) :
    w.Limited D d := by
  have hSpan : w.span = D := Duration.ceilMillis_of_whole hWhole
  have hStarts : ∀ a ∈ accounts w.journal, (w.config.strategy a.number).Paced d →
      a.starts.length ≤ D / d := by
    intro a hMem hPaced
    cases hToken : a.token with
    | none =>
      rw [(hReach.bare hMem hToken).2.1]
      exact Nat.zero_le _
    | some id =>
      exact Account.length_starts_le (hReach.counselled hMem hToken) (hReach.rhythmic hMem hToken)
        hPaced hDelay hWhole
  constructor
  case covered =>
    have hCovered := hReach.chronicle.covered
    rw [Covered, chapters_deeds, ownCalls_deeds] at hCovered
    exact flatMap_accounts hCovered
  case asked =>
    intro a hMem hPaced
    cases hToken : a.token with
    | none =>
      rw [(hReach.bare hMem hToken).1]
      exact Nat.zero_le _
    | some id =>
      exact Nat.le_trans (hReach.rhythmic hMem hToken).length_asked_le
        (Nat.add_le_add_right (hStarts a hMem hPaced) 1)
  case starts => exact hStarts
  case dials =>
    intro a hMem hPaced
    cases hToken : a.token with
    | none =>
      rw [(hReach.bare hMem hToken).2.2]
      exact Nat.zero_le _
    | some id => exact Nat.le_trans (hReach.rhythmic hMem hToken).dials (hStarts a hMem hPaced)
  case rounds =>
    intro ep a hTracks hPaced actions w' hRun hIn
    obtain ⟨hDeadline, hFrom, -⟩ := hTracks.timed hReach
    have hStrategy := (hReach.live Account.counselled_law hTracks).strategy
    refine World.works_le hReach (fun ep' hTask' => ?_) hRun hIn
    cases hTracks.task.symm.trans hTask'
    refine ⟨0, ?_, Episode.potential_le hFrom (hSpan ▸ hDeadline)⟩
    rw [hStrategy]
    exact (hPaced.after _).patientFrom hDelay
  case finishes =>
    intro ep a hTracks hPaced
    obtain ⟨hDeadline, -, -⟩ := hTracks.timed hReach
    have hStrategy := (hReach.live Account.counselled_law hTracks).strategy
    rw [← hSpan, ← hDeadline]
    refine World.exists_end hReach hTracks.task ⟨0, ?_⟩
    rw [hStrategy]
    exact (hPaced.after _).patientFrom hDelay

/-- A periodic strategy names the same delay every time. -/
theorem Strategy.paced_periodic {period : Duration} {d millis : Nat} (hLess : d ≤ millis)
    (hWhole : period.nanos = millis * Duration.nanosPerMilli) : (periodic period).Paced d := by
  intro n
  rw [advice, after_periodic]
  exact ⟨millis, hLess, hWhole⟩

/-- The second of two attempts is due exactly at the deadline, and there are no fewer attempts and
questions than there can be. -/
theorem limited_of_reachable_tying :
    ∃ w, World.steady.run World.tying = some w ∧
      w.config.duration.nanos = 2000 * Duration.nanosPerMilli ∧ 1 ≤ 1000 ∧
      (accounts w.journal).map (fun a => (a.asked, a.starts)) =
        [([0, 1000, 2000], [1000, 2000])] ∧
      (∀ number, (w.config.strategy number).Paced 1000) ∧ w.Limited 2000 1000 := by
  have hFacts : (World.steady.run World.tying).map (fun w =>
      (accounts w.journal).map fun a => (a.asked, a.starts)) =
        some [([0, 1000, 2000], [1000, 2000])] := by
    decide +kernel
  obtain ⟨w, hRun, hFacts⟩ := Option.map_eq_some_iff.mp hFacts
  have hConfig := World.config_run hRun
  have hWhole : w.config.duration.nanos = 2000 * Duration.nanosPerMilli := by
    rw [hConfig]
    decide
  have hPaced : ∀ number, (w.config.strategy number).Paced 1000 := by
    rw [hConfig]
    exact fun _ => Strategy.paced_periodic (Nat.le_refl 1000) (by decide)
  exact ⟨w, hRun, hWhole, by decide, hFacts, hPaced,
    limited_of_reachable (reachable_steady hRun) hWhole (by decide)⟩

end Resumption
