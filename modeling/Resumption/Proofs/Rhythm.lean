import Resumption.Proofs.Counsel
import Resumption.Proofs.Interference

/-!
# The rhythm of an episode

An attempt fails at some time, and at that very time the strategy is asked what next. So the
questions of an episode come at the times at which its attempts failed, the first one at its
beginning, and between two of them lies one attempt. Nothing that is due is left undone: what has
not been done by some time was not due by then.

* `lapses` — when attempts failed, and why
* `World.Beats` — what a step has to do with attempts; `beats_stride` finds out
* `Account.Beating` — questions, attempts and failures of an episode under way
* `Account.Rhythmic` — what holds of every episode with a token
* `Account.UpTo` — everything due up to some time has been done
-/

namespace Resumption

-- ---------------------------------------------------------------------------
-- Reading calls
-- ---------------------------------------------------------------------------

/-- When attempts failed that another one may follow, and why. -/
def lapses : List Entry → List (Nat × RecoveryError)
  | [] => []
  | e :: later =>
    ((e.event.fault? (later.head?.map Entry.event)).map fun cause => (e.time, cause)).toList ++
      lapses later

theorem snd_lapses (calls : List Entry) :
    (lapses calls).map Prod.snd = faults (calls.map Entry.event) := by
  induction calls with
  | nil => rfl
  | cons e later ih =>
    rw [lapses, List.map_append, ih, List.map_cons, faults, List.head?_map]
    cases e.event.fault? (later.head?.map Entry.event) <;> rfl

theorem lapses_append {later : List Entry} (earlier : List Entry)
    (hLater : ∀ supplier, (later.map Entry.event).head? ≠ some (.dialled supplier)) :
    lapses (earlier ++ later) = lapses earlier ++ lapses later := by
  induction earlier with
  | nil => rfl
  | cons e earlier ih =>
    have hNext : e.event.fault? ((earlier ++ later).head?.map Entry.event) =
        e.event.fault? (earlier.head?.map Entry.event) := by
      cases earlier with
      | cons next earlier => rfl
      | nil =>
        rw [List.nil_append, ← List.head?_map]
        exact e.event.fault?_eq hLater
    rw [List.cons_append, lapses, hNext, ih, lapses, List.append_assoc]

/-- What has no part in what the strategy is told is no failure. -/
theorem lapses_append_of_isSettling {more : List Entry} (calls : List Entry)
    (hMore : ∀ e ∈ more, e.event.isSettling) : lapses (calls ++ more) = lapses calls := by
  have hSettling : ∀ event ∈ more.map Entry.event, event.isSettling :=
    List.forall_mem_map.mpr hMore
  have hNone : lapses more = [] := by
    rw [← List.map_eq_nil_iff (f := Prod.snd), snd_lapses, faults_eq_nil hSettling]
  rw [lapses_append, hNone, List.append_nil]
  intro supplier hHead
  cases hSettling _ (List.mem_of_mem_head? hHead)

/-- When attempts of the episode failed that another one may follow, and why. -/
def Account.lapses (a : Account) : List (Nat × RecoveryError) :=
  Resumption.lapses a.calls

/-- Whether a connection was not to be had. -/
def RecoveryError.isVain : RecoveryError → Bool
  | .noSupplier | .connection _ => true
  | _ => false

/-- Whether a call can only be made where there is a new connection. -/
def Event.isLink : Event → Bool
  | .demultiplexed _ | .reconnected _ | .positionsRead .. | .sent .. | .listened _ | .heard _
  | .reconciling .. | .reconciled _ => true
  | _ => false

/-- When an attempt begins, if one begins at that stage. -/
def Stage.starting (now : Nat) : Stage → List Nat
  | .backingOff _ => [now]
  | _ => []

/-- How many attempts are under way. -/
def Stage.tries : Stage → Nat
  | .dialling _ | .announcing .. | .listening _ | .reconciling _ => 1
  | _ => 0

/-- Whether the attempt under way has a connection. -/
def Stage.isLinked : Stage → Bool
  | .announcing .. | .listening _ | .reconciling _ => true
  | _ => false

/-- An attempt with a connection is under way. -/
theorem Stage.isLinked_of_tries {stage : Stage} (hTries : stage.tries = 0) :
    stage.isLinked = false := by
  cases stage <;> first | rfl | cases hTries

/-- The task brings an episode to its end only in an attempt. -/
theorem Stage.Ends.tries {token : ByteArray} {stage : Stage} {how : Ending}
    (hEnds : stage.Ends token (some how)) (hOwn : how.isOwn) : stage.tries = 1 := by
  cases hEnds with
  | dropped | cut => cases hOwn
  | failed | resumed | rejected => rfl

theorem Event.isLink_of_isDisposal {event : Event} (hDisposal : event.isDisposal) :
    event.isLink = false := by
  cases event <;> first | rfl | cases hDisposal

theorem Event.not_dial_of_isSettling {event : Event} (hSettling : event.isSettling) :
    ¬ event.isDial := by
  cases event <;> first | exact Bool.false_ne_true | cases hSettling

theorem dials_eq_zero_of_isSettling {calls : List Event}
    (hSettling : ∀ event ∈ calls, event.isSettling) : dials calls = 0 :=
  List.countP_eq_zero.mpr fun event hMem => Event.not_dial_of_isSettling (hSettling event hMem)

namespace World

-- ---------------------------------------------------------------------------
-- Steps
-- ---------------------------------------------------------------------------

/-- What a step from one stage of an episode to the next has to do with attempts, with the calls it
makes. -/
structure Beats (w : World) (ep ep' : Episode) (more : List Entry) : Prop where
  /-- The strategy is asked about a failure. -/
  asks : more.filterMap Entry.asked? = ep.stage.untold.map fun _ => w.now
  starts : more.filterMap Entry.started? = ep.stage.starting w.now
  /-- What failed is to be told next. -/
  lapses : lapses more = ep'.stage.untold.map fun cause => (w.now, cause)
  head : ∀ supplier, (more.map Entry.event).head? ≠ some (.dialled supplier)
  /-- An attempt is under way from its beginning until it fails. -/
  tries : ep.stage.tries + (ep.stage.starting w.now).length =
    ep'.stage.tries + ep'.stage.untold.length
  dials : dials (more.map Entry.event) ≤ (ep.stage.starting w.now).length
  /-- An attempt that fails without a connection has not had any. -/
  links : ep'.stage.isLinked = false → (∀ cause ∈ ep'.stage.untold, cause.isVain) →
    ep.stage.isLinked = false ∧ ∀ e ∈ more, e.event.isLink = false

section

attribute [local simp] own raised Entry.isOwnCall Event.isCall Entry.asked? Entry.started?
  Stage.untold Stage.starting Stage.tries Stage.isLinked RecoveryError.isVain Event.isLink
  Event.fault? Resumption.lapses Resumption.dials Event.isDial ownEntries_arrived
  ownEntries_drained atStage

theorem beats_stride {w w' : World} {written : List Entry} {ep ep' : Episode}
    (hStride : Stride w written w') (hTask : w.task = .recovering ep)
    (hTask' : w'.task = .recovering ep') : Beats w ep ep' (ownEntries written) := by
  cases hStride with
  | stop hIdle | beginBare hIdle | begin hIdle =>
    rw [hTask] at hIdle
    cases hIdle
  | announceNothing | resume | reject | cut => simp at hTask'
  | hearNoise hSame hStage hReady hDecode | hear hSame hStage hReady hDecode =>
    cases hTask.symm.trans hSame
    cases hTask'
    constructor <;> simp [hStage, hDecode]
  | consult hSame hStage | backOff hSame hStage | dialNobody hSame hStage | dial hSame hStage
  | refuse hSame hStage | install hSame hStage | announce hSame hStage | hearNothing hSame hStage =>
    cases hTask.symm.trans hSame
    cases hTask'
    constructor <;> simp [hStage]

end

end World

-- ---------------------------------------------------------------------------
-- Episodes under way
-- ---------------------------------------------------------------------------

/-- Questions, attempts and failures of an episode under way at that time. -/
structure Account.Beating (ep : Episode) (now : Nat) (a : Account) : Prop where
  /-- The strategy is asked when the episode begins and when an attempt fails. -/
  asked : a.time :: a.lapses.map Prod.fst = a.asked ++ ep.stage.untold.map fun _ => now
  tries : a.starts.length = a.lapses.length + ep.stage.tries
  /-- Attempts fail after they began. -/
  after : ∀ (n time : Nat), (a.lapses.map Prod.fst)[n]? = some time →
    ∃ start, a.starts[n]? = some start ∧ start ≤ time
  past : ∀ start ∈ a.starts, start ≤ now
  dials : dials a.events ≤ a.starts.length
  links : ep.stage.isLinked = false → (∀ lapse ∈ a.lapses, lapse.2.isVain) →
    ∀ event ∈ a.events, event.isLink = false

namespace Account

section

variable {w : World} {ep ep' : Episode} {a : Account} {more : List Entry} {now : Nat}

theorem lapses_extend (a : Account)
    (hHead : ∀ supplier, (more.map Entry.event).head? ≠ some (.dialled supplier)) :
    (a.extend more).lapses = a.lapses ++ Resumption.lapses more :=
  lapses_append a.calls hHead

theorem lapses_of_beats (a : Account) (hBeats : w.Beats ep ep' more) :
    (a.extend more).lapses = a.lapses ++ ep'.stage.untold.map fun cause => (w.now, cause) := by
  rw [a.lapses_extend hBeats.head, hBeats.lapses]

theorem starts_of_beats (a : Account) (hBeats : w.Beats ep ep' more) :
    (a.extend more).starts = a.starts ++ ep.stage.starting w.now := by
  rw [starts_extend, hBeats.starts]

theorem Beating.advance (hBeating : a.Beating ep w.now) (hBeats : w.Beats ep ep' more) :
    (a.extend more).Beating ep' w.now := by
  have hLapses' := a.lapses_of_beats hBeats
  have hStarts' := a.starts_of_beats hBeats
  obtain ⟨hAsks, -, -, -, hTries, hDials, hLinks⟩ := hBeats
  have hTimes : (a.extend more).lapses.map Prod.fst =
      a.lapses.map Prod.fst ++ ep'.stage.untold.map fun _ => w.now := by
    rw [hLapses', List.map_append, List.map_map]
    rfl
  have hPast : ∀ start ∈ (a.extend more).starts, start ≤ w.now := by
    rw [hStarts']
    intro start hMem
    rcases List.mem_append.mp hMem with hMem | hMem
    · exact hBeating.past start hMem
    · cases hStage : ep.stage <;> simp [hStage, Stage.starting] at hMem
      exact Nat.le_of_eq hMem
  have hCount : (a.extend more).starts.length =
      (a.extend more).lapses.length + ep'.stage.tries := by
    have hBefore := hBeating.tries
    rw [hStarts', hLapses', List.length_append, List.length_append, List.length_map]
    omega
  constructor
  case asked =>
    rw [hTimes, asked_extend, hAsks, ← hBeating.asked]
    rfl
  case tries => exact hCount
  case after =>
    intro n time hTime
    have hShort : n < (a.extend more).lapses.length := by
      simpa using (List.getElem?_eq_some_iff.mp hTime).1
    rw [hTimes, List.getElem?_append] at hTime
    split at hTime
    case isTrue =>
      obtain ⟨start, hStart, hLess⟩ := hBeating.after n time hTime
      refine ⟨start, ?_, hLess⟩
      rw [hStarts', List.getElem?_append_left (List.getElem?_eq_some_iff.mp hStart).1, hStart]
    case isFalse =>
      -- the attempt that fails now began before
      obtain ⟨cause, -, rfl⟩ := List.mem_map.mp (List.mem_of_getElem? hTime)
      have hBegan : n < (a.extend more).starts.length := by omega
      exact ⟨_, List.getElem?_eq_getElem hBegan, hPast _ (List.getElem_mem hBegan)⟩
  case past => exact hPast
  case dials =>
    rw [events_extend, dials_append, hStarts', List.length_append]
    exact Nat.add_le_add hBeating.dials hDials
  case links =>
    intro hUnlinked hVain
    rw [hLapses', List.forall_mem_append, List.forall_mem_map] at hVain
    obtain ⟨hBefore, hMore⟩ := hLinks hUnlinked hVain.2
    rw [events_extend, List.forall_mem_append, List.forall_mem_map]
    exact ⟨hBeating.links hBefore hVain.1, hMore⟩

end

-- ---------------------------------------------------------------------------
-- All episodes
-- ---------------------------------------------------------------------------

/-- Everything that was due up to that time has been done, by an episode with that strategy. -/
structure UpTo (s : Strategy) (limit : Nat) (a : Account) : Prop where
  asked : ∀ (n time : Nat), (a.time :: a.lapses.map Prod.fst)[n]? = some time →
    a.asked[n]? = some time ∨ limit < time
  replied : ∀ (n start time : Nat) (reply : Except String Duration), a.asked[n]? = some start →
    (s.advice n).answer start = .due time reply → a.replies[n]? = some (time, reply) ∨ limit < time
  started : ∀ (n time : Nat), (a.replies.map attemptDue)[n]? = some time →
    a.starts[n]? = some time ∨ limit < time

/-- Questions, attempts and failures of an episode with a token. -/
structure Rhythmic (config : Config) (a : Account) : Prop where
  /-- The strategy is asked at the beginning, and then at the time of one failure after the
  other. -/
  asked : a.asked <+: a.time :: a.lapses.map Prod.fst
  /-- At most one attempt has not failed. -/
  within : a.lapses.length ≤ a.starts.length ∧ a.starts.length ≤ a.lapses.length + 1
  after : ∀ (n time : Nat), (a.lapses.map Prod.fst)[n]? = some time →
    ∃ start, a.starts[n]? = some start ∧ start ≤ time
  /-- No attempt begins after the deadline. -/
  past : ∀ start ∈ a.starts, start ≤ a.time + config.duration.ceilMillis
  /-- An attempt asks for one connection at most. -/
  dials : dials a.events ≤ a.starts.length
  /-- Only an episode whose last attempt did not fail like the others is not stopped from
  outside. -/
  own : ∀ how, a.ending = some how → how.isOwn → a.starts.length = a.lapses.length + 1
  /-- Where all attempts failed for want of a connection, nothing was done with one. -/
  links : a.starts.length = a.lapses.length → (∀ lapse ∈ a.lapses, lapse.2.isVain) →
    ∀ event ∈ a.events, event.isLink = false
  /-- An episode that was cut had done what was due by its deadline, and at it. -/
  cut : a.ending = some .cut →
    a.UpTo (config.strategy a.number) (a.time + config.duration.ceilMillis)

section

variable {config : Config} {bytes : Token.Id → ByteArray} {ep : Episode} {a : Account}
  {more : List Entry} {now limit : Nat}

/-- What an episode waits for comes after everything that it has had time for. -/
theorem Beating.upTo (hBeating : a.Beating ep now) (hAbreast : a.Abreast config bytes ep now)
    (hQuiet : limit < now ∨ limit = now ∧ ep.stage.waits ∧
      ∀ due, ep.stage.time? = some due → now < due) :
    a.UpTo (config.strategy a.number) limit := by
  have hLater : ∀ due, ep.stage.time? = some due → now ≤ due → limit < due := by
    intro due hDue hFrom
    rcases hQuiet with hPast | ⟨rfl, -, hWaits⟩
    · exact Nat.lt_of_lt_of_le hPast hFrom
    · exact hWaits due hDue
  constructor
  case asked =>
    intro n time hTime
    rw [hBeating.asked, List.getElem?_append] at hTime
    split at hTime
    case isTrue => exact .inl hTime
    case isFalse =>
      -- a question still to be asked
      obtain ⟨cause, hUntold, rfl⟩ := List.mem_map.mp (List.mem_of_getElem? hTime)
      rcases hQuiet with hPast | ⟨-, hWaits, -⟩
      · exact .inr hPast
      · rw [Stage.untold_of_waits hWaits] at hUntold
        cases hUntold
  case replied =>
    intro n start time reply hStart hAnswer
    by_cases hReplied : n < a.replies.length
    · obtain ⟨start', hStart', hAnswer'⟩ := hAbreast.answers n _ _ (List.getElem?_eq_getElem hReplied)
      cases hStart.symm.trans hStart'
      cases hAnswer.symm.trans hAnswer'
      exact .inl (List.getElem?_eq_getElem hReplied)
    · have hAsked := (List.getElem?_eq_some_iff.mp hStart).1
      have hKeeps := hAbreast.keeps
      generalize hStage : ep.stage = stage at hKeeps
      cases hKeeps with
      | backingOff hLength | between _ hLength => omega
      | @advised answer before last hBefore hLength hLast hTime =>
        -- the reply that is waited for
        have hNumber : n = a.replies.length := by
          rw [hBefore, List.length_append, List.length_singleton] at hAsked
          omega
        subst hNumber
        rw [hBefore, ← hLength, List.getElem?_concat_length, Option.some.injEq] at hStart
        subst hStart
        have hDue : answer.time? = some time := by
          rw [← hLast, hAnswer]
          rfl
        exact .inr (hLater time (by rw [hStage]; exact hDue) (hTime time hDue))
  case started =>
    intro n time hDue
    have hKeeps := hAbreast.keeps
    generalize hStage : ep.stage = stage at hKeeps
    cases hKeeps with
    | advised _ _ _ _ hStarts | between _ _ hStarts =>
      rw [hStarts]
      exact .inl hDue
    | backingOff _ hStarts hFrom =>
      rw [hStarts, List.getElem?_append] at hDue
      split at hDue
      case isTrue => exact .inl hDue
      case isFalse =>
        obtain rfl := List.mem_singleton.mp (List.mem_of_getElem? hDue)
        exact .inr (hLater _ (by rw [hStage]; rfl) hFrom)

theorem lapses_extend_of_isSettling (a : Account) (hMore : ∀ e ∈ more, e.event.isSettling) :
    (a.extend more).lapses = a.lapses :=
  lapses_append_of_isSettling a.calls hMore

/-- What is done at the end of an episode has nothing to do with the strategy. -/
theorem UpTo.extend {s : Strategy} (hUpTo : a.UpTo s limit) (ending : Option Ending)
    (hMore : ∀ e ∈ more, e.event.isSettling) : UpTo s limit { a.extend more with ending } := by
  obtain ⟨hAsked, hReplies, hStarts⟩ :=
    a.reads_plain fun e hMem => Event.isPlain_of_isSettling (hMore e hMem)
  have hLapses := a.lapses_extend_of_isSettling hMore
  constructor
  case asked =>
    show ∀ n time, (a.time :: (a.extend more).lapses.map Prod.fst)[n]? = some time →
      (a.extend more).asked[n]? = some time ∨ limit < time
    rw [hLapses, hAsked]
    exact hUpTo.asked
  case replied =>
    show ∀ n start time reply, (a.extend more).asked[n]? = some start → _ →
      (a.extend more).replies[n]? = some (time, reply) ∨ limit < time
    rw [hAsked, hReplies]
    exact hUpTo.replied
  case started =>
    show ∀ n time, ((a.extend more).replies.map attemptDue)[n]? = some time →
      (a.extend more).starts[n]? = some time ∨ limit < time
    rw [hReplies, hStarts]
    exact hUpTo.started

/-- An episode is rhythmic, and is so when it ends. -/
theorem Beating.rhythmic {ending : Option Ending} (hBeating : a.Beating ep now)
    (hMore : ∀ e ∈ more, e.event.isSettling) (hEnds : ep.stage.Ends (bytes ep.token) ending)
    (hPast : now ≤ a.time + config.duration.ceilMillis)
    (hIdle : ep.stage.tries = 0 → ∀ e ∈ more, e.event.isDisposal)
    (hCut : ending = some .cut →
      a.UpTo (config.strategy a.number) (a.time + config.duration.ceilMillis)) :
    Rhythmic config { a.extend more with ending } := by
  obtain ⟨hAsked, -, hStarts⟩ :=
    a.reads_plain fun e hMem => Event.isPlain_of_isSettling (hMore e hMem)
  have hLapses := a.lapses_extend_of_isSettling hMore
  have hTries : ep.stage.tries ≤ 1 := by
    cases ep.stage <;> simp [Stage.tries]
  have hCount := hBeating.tries
  constructor
  case asked =>
    show (a.extend more).asked <+: a.time :: (a.extend more).lapses.map Prod.fst
    rw [hAsked, hLapses, hBeating.asked]
    exact List.prefix_append _ _
  case within =>
    show (a.extend more).lapses.length ≤ (a.extend more).starts.length ∧
      (a.extend more).starts.length ≤ (a.extend more).lapses.length + 1
    rw [hLapses, hStarts]
    omega
  case after =>
    show ∀ n time, ((a.extend more).lapses.map Prod.fst)[n]? = some time →
      ∃ start, (a.extend more).starts[n]? = some start ∧ start ≤ time
    rw [hLapses, hStarts]
    exact hBeating.after
  case past =>
    show ∀ start ∈ (a.extend more).starts, start ≤ a.time + config.duration.ceilMillis
    rw [hStarts]
    exact fun start hMem => Nat.le_trans (hBeating.past start hMem) hPast
  case dials =>
    have hNone : Resumption.dials (more.map Entry.event) = 0 :=
      dials_eq_zero_of_isSettling (List.forall_mem_map.mpr hMore)
    show Resumption.dials (a.extend more).events ≤ (a.extend more).starts.length
    rw [events_extend, dials_append, hNone, hStarts]
    exact hBeating.dials
  case own =>
    rintro how rfl hOwn
    show (a.extend more).starts.length = (a.extend more).lapses.length + 1
    rw [hLapses, hStarts, hCount, hEnds.tries hOwn]
  case links =>
    show (a.extend more).starts.length = (a.extend more).lapses.length →
      (∀ lapse ∈ (a.extend more).lapses, lapse.2.isVain) →
        ∀ event ∈ (a.extend more).events, event.isLink = false
    rw [hLapses, hStarts, events_extend, List.forall_mem_append, List.forall_mem_map]
    intro hFailed hVain
    have hNone : ep.stage.tries = 0 := by omega
    refine ⟨hBeating.links (Stage.isLinked_of_tries hNone) hVain, fun e hMem => ?_⟩
    exact Event.isLink_of_isDisposal (hIdle hNone e hMem)
  case cut =>
    intro hEnding
    exact (hCut hEnding).extend ending hMore

end

/-- Whatever happens to it, an episode is rhythmic. -/
theorem rhythmic_law : Law (fun _ _ ep now a => a.Beating ep now)
    (fun config _ _ a => a.Rhythmic config) := by
  constructor
  case begins =>
    intro w error token number
    exact ⟨rfl, rfl, nofun, nofun, Nat.le_refl 0, by simp [events, World.own, Event.isLink]⟩
  case elapses =>
    intro w ep a millis hReach hTracks hMay hBeating
    -- a question is not put off
    have hStep := (World.mayReach_recovering hTracks.task hMay).1
    rw [hReach.timed.step_eq hTracks.task, Option.or_eq_none_iff] at hStep
    have hUntold := Stage.untold_of_waits (World.proceed_eq_none.mp hStep.1).1
    refine { hBeating with asked := ?_, past := fun start hMem => ?_ }
    · have hAsked := hBeating.asked
      rw [hUntold] at hAsked ⊢
      exact hAsked
    · exact Nat.le_add_right_of_le (hBeating.past start hMem)
  case advances =>
    intro w w' written ep ep' a _ hTracks hStride hTask' hBeating
    exact hBeating.advance (World.beats_stride hStride hTracks.task hTask')
  case ends =>
    intro w ep a how written hReach hTracks hConcludes hBeating
    obtain ⟨hDeadline, -, hNow⟩ := hTracks.timed hReach
    refine hBeating.rhythmic hConcludes.settling hConcludes.ends (hDeadline ▸ hNow) ?_ ?_
    · intro hTries
      refine hConcludes.idle (Bool.eq_false_iff.mpr fun hOwn => ?_)
      cases hTries.symm.trans (hConcludes.ends.tries hOwn)
    · intro hEnding
      obtain ⟨hWait, hOver⟩ := hConcludes.cut (Option.some.inj hEnding)
      have hLimit : a.time + w.span = w.now := by omega
      exact hBeating.upTo (hReach.live counselled_law hTracks)
        (.inr ⟨hLimit, World.proceed_eq_none.mp hWait⟩)

section

variable {config : Config} {bytes : Token.Id → ByteArray} {id : Token.Id} {a : Account}
  {n time start : Nat}

/-- Each question has its time from the beginning of the episode or from a failure. -/
theorem Rhythmic.asked_eq (hRhythmic : a.Rhythmic config) (hAsked : a.asked[n]? = some time) :
    (a.time :: a.lapses.map Prod.fst)[n]? = some time := by
  obtain ⟨rest, hAll⟩ := hRhythmic.asked
  rw [← hAll, List.getElem?_append_left (List.getElem?_eq_some_iff.mp hAsked).1, hAsked]

/-- Each attempt begins after a question, when the reply and the delay that it names are over. -/
theorem Counselled.start_eq (hCounselled : a.Counselled config bytes id)
    (hStart : a.starts[n]? = some start) :
    ∃ asked time reply, a.asked[n]? = some asked ∧
      ((config.strategy a.number).advice n).answer asked = .due time reply ∧
      start = attemptDue (time, reply) := by
  have hDue : (a.replies.map attemptDue)[n]? = some start := by
    obtain ⟨rest, hAll⟩ := hCounselled.starts
    rw [← hAll, List.getElem?_append_left (List.getElem?_eq_some_iff.mp hStart).1, hStart]
  rw [List.getElem?_map] at hDue
  obtain ⟨⟨time, reply⟩, hReply, rfl⟩ := Option.map_eq_some_iff.mp hDue
  obtain ⟨asked, hAsked, hAnswer⟩ := hCounselled.answers n time reply hReply
  exact ⟨asked, time, reply, hAsked, hAnswer, rfl⟩

end

end Account

namespace Reachable

variable {w : World} {a : Account}

theorem rhythmic {id : Token.Id} (hReach : Reachable w) (hMem : a ∈ accounts w.journal)
    (hToken : a.token = some id) : a.Rhythmic w.config := by
  cases hEnding : a.ending with
  | some how => exact hReach.lived Account.rhythmic_law hMem (by simp [hEnding]) hToken
  | none =>
    obtain ⟨ep, hTracks⟩ := hReach.tracks_of_open hMem hEnding
    obtain ⟨hDeadline, -, hNow⟩ := hTracks.timed hReach
    have hRhythmic : Account.Rhythmic w.config { a.extend [] with ending := none } :=
      (hReach.live Account.rhythmic_law hTracks).rhythmic (by simp)
        (.underway : ep.stage.Ends (w.pool.bytes ep.token) none) (hDeadline ▸ hNow) (by simp) nofun
    rwa [Account.extend, List.append_nil, ← hEnding] at hRhythmic

/-- What an episode under way had to do by some time it has done, once that time is over. -/
theorem upTo {limit : Nat} (hReach : Reachable w) (hMem : a ∈ accounts w.journal)
    (hEnding : a.ending = none) (hDone : w.DoneBy limit) :
    a.UpTo (w.config.strategy a.number) limit := by
  obtain ⟨ep, hTracks⟩ := hReach.tracks_of_open hMem hEnding
  refine (hReach.live Account.rhythmic_law hTracks).upTo
    (hReach.live Account.counselled_law hTracks) ?_
  rcases hDone with hPast | ⟨hNow, hStep⟩
  · exact .inl hPast
  · rw [hReach.timed.step_eq hTracks.task, Option.or_eq_none_iff] at hStep
    exact .inr ⟨hNow, World.proceed_eq_none.mp hStep.1⟩

/-- An episode is over when everything due by its deadline is done. -/
theorem ending_of_doneBy (hReach : Reachable w) (hMem : a ∈ accounts w.journal)
    (hDone : w.DoneBy (a.time + w.span)) : a.ending ≠ none := by
  intro hEnding
  obtain ⟨ep, hTracks⟩ := hReach.tracks_of_open hMem hEnding
  rw [← (hTracks.timed hReach).1] at hDone
  exact hReach.timed.not_doneBy hTracks.task hDone

end Reachable

end Resumption
