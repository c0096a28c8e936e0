import Mathlib.Algebra.BigOperators.Group.Finset.Basic
import Resumption.Proofs.Backoff
import Resumption.Proofs.Pacing
import Resumption.Proofs.Suppliers

/-!
# The timetable of an episode that fails

Where there is no connection to be had, an attempt takes no time. Then nothing but the delays of the
strategy and the deadline makes out what an episode does, and everything about it can be told in
advance: the attempts begin when the delays so far are over, all that are due by the deadline are
made, at the deadline as well, and then the connection is disposed.

* `Strategy.Regular` — the delays of a strategy, added up
* `Account.Vain` — every attempt failed at once, for want of a connection
* `World.Tracks.fails` — where there is none to be had, an attempt does
* `World.Timetable` — what such an episode does, and when
* `timetable_of_reachable` — every such episode of every run keeps to it
-/

namespace Resumption

-- ---------------------------------------------------------------------------
-- Delays
-- ---------------------------------------------------------------------------

/-- A strategy whose delays are whole milliseconds; the first `k` of them make `sum k` together. -/
inductive Strategy.Regular : Strategy → (Nat → Nat) → Prop
  | periodic {period millis} (hPeriod : period.nanos = millis * Duration.nanosPerMilli)
      (hPositive : 1 ≤ millis) : Regular (.periodic period) fun k => k * millis
  | exponential {first limit factor low cap}
      (hFirst : first.nanos = low * Duration.nanosPerMilli)
      (hLimit : limit.nanos = cap * Duration.nanosPerMilli) (hPositive : 1 ≤ low) (hLess : low ≤ cap)
      (hFactor : 1 ≤ UInt32.toNat factor) :
      Regular (.exponentialFrom first limit factor) fun k =>
        ∑ i ∈ Finset.range k, min (low * factor.toNat ^ i) cap

/-- A delay that starts and is cut off at whole milliseconds has whole milliseconds. -/
theorem Backoff.nanos_nth_whole {first limit : Duration} {low cap : Nat}
    (hFirst : first.nanos = low * Duration.nanosPerMilli)
    (hLimit : limit.nanos = cap * Duration.nanosPerMilli) (hLess : low ≤ cap) (factor : UInt32)
    (n : Nat) :
    ((fresh first limit factor).nth n).nanos =
      min (low * factor.toNat ^ n) cap * Duration.nanosPerMilli := by
  have hWithin : first.nanos ≤ limit.nanos := by
    rw [hFirst, hLimit]
    exact Nat.mul_le_mul_right Duration.nanosPerMilli hLess
  rw [nanos_nth_of_le hWithin, hFirst, hLimit, Nat.mul_right_comm, Nat.mul_min_mul_right]

namespace Strategy.Regular

variable {s : Strategy} {sum : Nat → Nat}

theorem zero (hRegular : s.Regular sum) : sum 0 = 0 := by
  cases hRegular with
  | periodic => exact Nat.zero_mul _
  | exponential => exact Finset.sum_range_zero _

/-- Every question is answered at once, with the next delay. -/
theorem advice (hRegular : s.Regular sum) (k : Nat) :
    ∃ delay, s.advice k = ⟨0, .wait delay⟩ ∧ 1 ≤ delay.ceilMillis ∧
      sum (k + 1) = sum k + delay.ceilMillis := by
  cases hRegular with
  | @periodic period millis hPeriod hPositive =>
    refine ⟨period, ?_, ?_, ?_⟩
    · rw [Strategy.advice, after_periodic]
      rfl
    · rwa [Duration.ceilMillis_of_whole hPeriod]
    · rw [Duration.ceilMillis_of_whole hPeriod]
      exact Nat.succ_mul k millis
  | @exponential first limit factor low cap hFirst hLimit hPositive hLess hFactor =>
    have hWhole := Backoff.nanos_nth_whole hFirst hLimit hLess factor k
    refine ⟨_, advice_exponential _ k, ?_, ?_⟩
    · have hGrown : 1 ≤ low * factor.toNat ^ k :=
        Nat.mul_pos hPositive (Nat.pow_pos hFactor)
      rw [Duration.ceilMillis_of_whole hWhole]
      omega
    · rw [Duration.ceilMillis_of_whole hWhole]
      exact Finset.sum_range_succ _ k

/-- The reply comes with the question, and names the next delay. -/
theorem answer_eq (hRegular : s.Regular sum) (k asked : Nat) :
    ∃ reply, (s.advice k).answer asked = .due asked reply ∧
      attemptDue (asked, reply) + sum k = asked + sum (k + 1) := by
  obtain ⟨delay, hAdvice, -, hSum⟩ := hRegular.advice k
  refine ⟨.ok delay, ?_, ?_⟩
  · rw [hAdvice]
    rfl
  · rw [attemptDue, hSum]
    omega

theorem attemptDue_eq (hRegular : s.Regular sum) {k asked time : Nat}
    {reply : Except String Duration} (hAnswer : (s.advice k).answer asked = .due time reply) :
    attemptDue (time, reply) + sum k = asked + sum (k + 1) := by
  obtain ⟨reply', hAnswer', hDue⟩ := hRegular.answer_eq k asked
  cases hAnswer.symm.trans hAnswer'
  exact hDue

end Strategy.Regular

-- ---------------------------------------------------------------------------
-- Episodes that fail
-- ---------------------------------------------------------------------------

/-- Every attempt failed at the time at which it began, for want of a connection. -/
structure Account.Vain (a : Account) : Prop where
  once : a.lapses.map Prod.fst = a.starts
  causes : ∀ lapse ∈ a.lapses, lapse.2.isVain

namespace Account

variable {config : Config} {bytes : Token.Id → ByteArray} {id : Token.Id} {a : Account}
  {sum : Nat → Nat}

/-- Attempt `k`, counted from 0, begins when `k + 1` delays are over. -/
theorem Vain.start_eq {k start : Nat} (hVain : a.Vain) (hCounselled : a.Counselled config bytes id)
    (hRhythmic : a.Rhythmic config) (hRegular : (config.strategy a.number).Regular sum)
    (hStart : a.starts[k]? = some start) : start = a.time + sum (k + 1) := by
  induction k generalizing start with
  | zero =>
    obtain ⟨asked, time, reply, hAsked, hAnswer, rfl⟩ := hCounselled.start_eq hStart
    have hDue := hRegular.attemptDue_eq hAnswer
    obtain rfl : a.time = asked := Option.some.inj (hRhythmic.asked_eq hAsked)
    rw [hRegular.zero] at hDue
    omega
  | succ k ih =>
    obtain ⟨asked, time, reply, hAsked, hAnswer, rfl⟩ := hCounselled.start_eq hStart
    have hDue := hRegular.attemptDue_eq hAnswer
    -- the attempt before it failed at once, and the question is about that
    have hBefore : a.starts[k]? = some asked := by
      rw [← hVain.once]
      exact hRhythmic.asked_eq hAsked
    have hSame := ih hBefore
    omega

/-- No attempt that is due by some time is left out, once everything due by then is done. -/
theorem Vain.starts_of_upTo {limit : Nat} (hVain : a.Vain)
    (hRegular : (config.strategy a.number).Regular sum)
    (hUpTo : a.UpTo (config.strategy a.number) limit) (k : Nat)
    (hDue : a.time + sum (k + 1) ≤ limit) : a.starts[k]? = some (a.time + sum (k + 1)) := by
  have hNext : ∀ k, a.time + sum (k + 1) ≤ limit →
      (a.time :: a.lapses.map Prod.fst)[k]? = some (a.time + sum k) →
        a.starts[k]? = some (a.time + sum (k + 1)) := by
    intro k hDue hTime
    obtain ⟨delay, -, -, hSum⟩ := hRegular.advice k
    obtain ⟨reply, hAnswer, hAttempt⟩ := hRegular.answer_eq k (a.time + sum k)
    have hAsked := (hUpTo.asked k _ hTime).resolve_right (by omega)
    have hReplied := (hUpTo.replied k _ _ reply hAsked hAnswer).resolve_right (by omega)
    have hAttemptDue : attemptDue (a.time + sum k, reply) = a.time + sum (k + 1) := by omega
    refine (hUpTo.started k _ ?_).resolve_right (Nat.not_lt_of_le hDue)
    rw [List.getElem?_map, hReplied, Option.map_some, hAttemptDue]
  induction k with
  | zero =>
    refine hNext 0 hDue ?_
    rw [hRegular.zero]
    rfl
  | succ k ih =>
    obtain ⟨delay, -, -, hSum⟩ := hRegular.advice (k + 1)
    refine hNext (k + 1) hDue ?_
    rw [List.getElem?_cons_succ, hVain.once]
    exact ih (by omega)

end Account

-- ---------------------------------------------------------------------------
-- Attempts that fail
-- ---------------------------------------------------------------------------

/-- There is no supplier, or it says at once that it has no connection. -/
def World.Deserted (w : World) : Prop :=
  ∀ supplier, w.supplier = some supplier →
    ∃ raises cause, supplier.dials.headD .hanging = ⟨raises, 0, .failed cause⟩

namespace World

variable {w w' : World} {ep ep' : Episode} {a : Account}

theorem step_of_refusal {due : Nat} {cause : LinkError} (hTask : w.task = .recovering ep)
    (hStage : ep.stage = .dialling (.due due (.error cause))) (hDue : due ≤ w.now) :
    ∃ w', w.act .work = some w' ∧
      w'.task = .recovering { ep with stage := .consulting (.connection cause) } := by
  refine ⟨w.refuse ep cause, ?_, by simp [refuse, retry, RecoveryError.isRetryable, atStage]⟩
  show w.step = some _
  refine step_of_proceed hTask ?_
  rw [proceed, hStage]
  simp [Pending.ready?, hDue]

/-- What a step to the next stage has to do with attempts goes into the account. -/
theorem Tracks.step (hTracks : w.Tracks ep a) (hReach : Reachable w)
    (hStep : w.act .work = some w') (hTask' : w'.task = .recovering ep') :
    w'.now = w.now ∧ ∃ a', w'.Tracks ep' a' ∧ a'.starts = a.starts ++ ep.stage.starting w.now ∧
      a'.lapses = a.lapses ++ ep'.stage.untold.map fun cause => (w.now, cause) := by
  obtain ⟨written, hStride⟩ := stride_of_step hStep
  have hBeats := beats_stride hStride hTracks.task hTask'
  exact ⟨now_stride hStride, _, hTracks.advance (hReach.act hStep) hStride hTask',
    a.starts_of_beats hBeats, a.lapses_of_beats hBeats⟩

/-- Where no connection is to be had, an attempt fails at the time at which it begins. -/
theorem Tracks.fails (hTracks : w.Tracks ep a) (hReach : Reachable w)
    (hBegins : ep.stage.Begins w.now) (hDeserted : w.Deserted) :
    ∃ works w' ep' a' cause, w.run (List.replicate works .work) = some w' ∧ w'.Tracks ep' a' ∧
      a'.starts = a.starts ++ [w.now] ∧ a'.lapses = a.lapses ++ [(w.now, cause)] ∧
      cause.isVain := by
  obtain ⟨v, hFirst, hAttempts⟩ := attempts_of_begins ⟨hTracks.task, hBegins⟩
  have hStarting : ep.stage.starting w.now = [w.now] := by
    obtain ⟨due, hStage, -⟩ := hBegins
    rw [hStage]
    rfl
  unfold Deserted at hDeserted
  generalize w.supplier = supplier at hAttempts hDeserted
  cases hAttempts with
  | bare _ hTask =>
    obtain ⟨-, a', hTracks', hStarts, hLapses⟩ := hTracks.step hReach hFirst hTask
    refine ⟨1, v, _, a', .noSupplier, ?_, hTracks', hStarting ▸ hStarts, hLapses, rfl⟩
    rw [List.replicate_one, run, hFirst]
    rfl
  | @asks supplier _ hTask =>
    obtain ⟨raises, cause, hDial⟩ := hDeserted supplier rfl
    rw [hDial] at hTask
    obtain ⟨hNow, b, hTracks₁, hStarts₁, hLapses₁⟩ := hTracks.step hReach hFirst hTask
    -- the answer is there, and it is a refusal
    obtain ⟨w', hSecond, hTask'⟩ := step_of_refusal hTask rfl (Nat.le_of_eq hNow.symm)
    obtain ⟨-, a', hTracks', hStarts', hLapses'⟩ :=
      hTracks₁.step (hReach.act hFirst) hSecond hTask'
    refine ⟨2, w', _, a', .connection cause, ?_, hTracks', ?_, ?_, rfl⟩
    · show ((w.act .work).bind fun next => (next.act .work).bind some) = some w'
      rw [hFirst, Option.bind_some, hSecond, Option.bind_some]
    · rw [hStarts', hStarts₁, hStarting]
      exact List.append_nil _
    · rw [hLapses', hLapses₁, hNow]
      simp [Stage.untold]

end World

/-- An attempt that fails at once is one more of that kind. -/
theorem Account.Vain.concat {a a' : Account} {now : Nat} {cause : RecoveryError} (hVain : a.Vain)
    (hStarts : a'.starts = a.starts ++ [now]) (hLapses : a'.lapses = a.lapses ++ [(now, cause)])
    (hCause : cause.isVain) : a'.Vain := by
  constructor
  · rw [hLapses, hStarts, List.map_append, hVain.once]
    rfl
  · rw [hLapses, List.forall_mem_append, List.forall_mem_singleton]
    exact ⟨hVain.causes, hCause⟩

/-- What an episode with `D` milliseconds does whose attempts all fail at once, and when; the first
`k` delays make `sum k` together. -/
structure World.Timetable (w : World) (D : Nat) (sum : Nat → Nat) (a : Account) : Prop where
  /-- Attempts begin when the delays so far are over, by the deadline, and at no other times. -/
  starts : ∀ k start, a.starts[k]? = some start →
    start = a.time + sum (k + 1) ∧ sum (k + 1) ≤ D
  /-- While the episode is under way, every attempt that is due has been made. -/
  timely : a.ending = none → ∀ k, w.DoneBy (a.time + sum (k + 1)) →
    a.starts[k]? = some (a.time + sum (k + 1))
  /-- It is stopped by its deadline, or before that because the session is dropped. -/
  stopped : ∀ how, a.ending = some how → how = .cut ∨ how = .dropped
  /-- When everything due by its deadline is done, it is over. -/
  ends : w.DoneBy (a.time + D) → a.ending ≠ none
  /-- By its deadline it has made every attempt that is due by then, at the deadline as well. -/
  complete : a.ending = some .cut → ∀ k, sum (k + 1) ≤ D →
    a.starts[k]? = some (a.time + sum (k + 1))
  /-- At the deadline it is cut. The connection is disposed right then, unless it is disposed
  already, and the task does nothing afterwards. -/
  disposed : a.ending = some .cut → ∃ later e earlier, deeds w.journal = later ++ e :: earlier ∧
    e.event = .ended .cut ∧ e.time = a.time + D ∧ began earlier = some a.time ∧
    ∃ after, later = after ++ aftermath (a.time + D) earlier ∧ ∀ x ∈ after, x.actor ≠ .task
  /-- No connection is put in place, and no frame is sent. -/
  links : ∀ event ∈ a.events, event.isLink = false
  /-- The next attempt is again one of those that fail at once, if there still is no connection to
  be had where it begins. -/
  fails : ∀ ep, w.Tracks ep a → ep.stage.Begins w.now → w.Deserted →
    ∃ works w' ep' a', w.run (List.replicate works .work) = some w' ∧ w'.Tracks ep' a' ∧
      a'.Vain ∧ a'.starts = a.starts ++ [w.now]

/-- In every run, an episode whose attempts all fail at once keeps to its timetable. -/
theorem timetable_of_reachable {w : World} {a : Account} {id : Token.Id} {D : Nat}
    {sum : Nat → Nat} (hReach : Reachable w) (hMem : a ∈ accounts w.journal)
    (hToken : a.token = some id)
    (hWhole : w.config.duration.nanos = D * Duration.nanosPerMilli)
    (hRegular : (w.config.strategy a.number).Regular sum) (hVain : a.Vain) :
    w.Timetable D sum a := by
  have hCounselled := hReach.counselled hMem hToken
  have hRhythmic := hReach.rhythmic hMem hToken
  have hSpan : w.span = D := Duration.ceilMillis_of_whole hWhole
  have hFailed : a.starts.length = a.lapses.length := by
    rw [← hVain.once, List.length_map]
  constructor
  case starts =>
    intro k start hStart
    have hTime := hVain.start_eq hCounselled hRhythmic hRegular hStart
    have hPast := hRhythmic.past start (List.mem_of_getElem? hStart)
    rw [Duration.ceilMillis_of_whole hWhole] at hPast
    exact ⟨hTime, by omega⟩
  case timely =>
    intro hEnding k hDone
    exact hVain.starts_of_upTo hRegular (hReach.upTo hMem hEnding hDone) k (Nat.le_refl _)
  case stopped =>
    intro how hEnding
    have hOwn : how.isOwn = false := by
      refine Bool.eq_false_iff.mpr fun hOwn => ?_
      have hMore := hRhythmic.own how hEnding hOwn
      omega
    cases how with
    | cut => exact .inl rfl
    | dropped => exact .inr rfl
    | _ => cases hOwn
  case ends =>
    intro hDone
    rw [← hSpan] at hDone
    exact hReach.ending_of_doneBy hMem hDone
  case complete =>
    intro hEnding k hDue
    have hUpTo := hRhythmic.cut hEnding
    rw [Duration.ceilMillis_of_whole hWhole] at hUpTo
    exact hVain.starts_of_upTo hRegular hUpTo k (by omega)
  case disposed =>
    intro hEnding
    rw [← accounts_deeds] at hMem
    obtain ⟨later, e, earlier, hSplit, hEvent, hBegan⟩ := ended_of_account hMem hEnding
    have hCut : e.event.isCut := by
      rw [hEvent]
      rfl
    obtain ⟨⟨start, hStart, hTime⟩, -, ⟨after, hLater, hAfter⟩, -⟩ :=
      World.cut_of_reachable hReach hSplit hCut
    obtain rfl : start = a.time := Option.some.inj (hStart.symm.trans hBegan)
    rw [hSpan] at hTime
    rw [hTime] at hLater
    exact ⟨later, e, earlier, hSplit, hEvent, hTime, hBegan, after, hLater, hAfter⟩
  case links => exact hRhythmic.links hFailed hVain.causes
  case fails =>
    intro ep hTracks hBegins hDeserted
    obtain ⟨works, w', ep', a', cause, hRun, hTracks', hStarts, hLapses, hCause⟩ :=
      hTracks.fails hReach hBegins hDeserted
    exact ⟨works, w', ep', a', hRun, hTracks', hVain.concat hStarts hLapses hCause, hStarts⟩

/-- A session with seven seconds for an episode, and delays of one second, two and four. -/
def World.hurried : World :=
  .initial ⟨.ofSeconds 7, fun _ => .exponentialFrom (.ofSeconds 1) (.ofSeconds 16) 2⟩ [⟨#[1]⟩] [] []

/-- The first attempt finds no supplier, the other two find one that is down. The last one is due
exactly at the deadline. -/
def World.forsaken : List Action :=
  [.bind 0, .fail .closed, .work, .work, .work, .elapse 1000, .work, .work, .work,
    .setSupplier ⟨"down", [⟨0, 0, .failed .closed⟩, ⟨0, 0, .failed .closed⟩]⟩, .elapse 2000, .work,
    .work, .work, .work, .elapse 4000, .work, .work, .work, .work, .work]

theorem timetable_of_reachable_forsaken :
    ∃ w a, World.hurried.run World.forsaken = some w ∧ a ∈ accounts w.journal ∧
      a.token = some 0 ∧ w.config.duration.nanos = 7000 * Duration.nanosPerMilli ∧ a.Vain ∧
      a.starts = [1000, 3000, 7000] ∧ a.ending = some .cut ∧
      w.Timetable 7000 (fun k => ∑ i ∈ Finset.range k, min (1000 * 2 ^ i) 16000) a := by
  have hTimes : (World.hurried.run World.forsaken).map (fun w =>
      (accounts w.journal).map fun a => (a.token, a.starts, a.ending)) =
        some [(some 0, [1000, 3000, 7000], some .cut)] := by
    decide +kernel
  have hFailures : (World.hurried.run World.forsaken).map (fun w =>
      (accounts w.journal).map Account.lapses) =
        some [[(1000, .noSupplier), (3000, .connection .closed), (7000, .connection .closed)]] := by
    decide +kernel
  obtain ⟨w, hRun, hTimes⟩ := Option.map_eq_some_iff.mp hTimes
  rw [hRun, Option.map_some, Option.some.injEq] at hFailures
  obtain ⟨a, hHead, hAccount⟩ := List.map_eq_singleton_iff.mp hTimes
  simp only [Prod.mk.injEq] at hAccount
  obtain ⟨hToken, hStarts, hEnding⟩ := hAccount
  rw [hHead, List.map_singleton, List.singleton_inj] at hFailures
  have hReach : Reachable w := ⟨_, _, _, _, World.forsaken, hRun⟩
  have hConfig := World.config_run hRun
  have hMem : a ∈ accounts w.journal := by
    rw [hHead]
    exact List.mem_singleton_self a
  have hWhole : w.config.duration.nanos = 7000 * Duration.nanosPerMilli := by
    rw [hConfig]
    decide
  have hRegular : (w.config.strategy a.number).Regular fun k =>
      ∑ i ∈ Finset.range k, min (1000 * 2 ^ i) 16000 := by
    rw [hConfig]
    exact .exponential (by decide) (by decide) (by decide) (by decide) (by decide)
  have hVain : a.Vain := by
    constructor
    · rw [hFailures, hStarts]
      rfl
    · rw [hFailures]
      decide
  exact ⟨w, a, hRun, hMem, hToken, hWhole, hVain, hStarts, hEnding,
    timetable_of_reachable hReach hMem hToken hWhole hRegular hVain⟩

end Resumption
