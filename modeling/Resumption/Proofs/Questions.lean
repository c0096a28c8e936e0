import Resumption.Proofs.Accounts
import Resumption.Proofs.Faults
import Resumption.Proofs.Patience

/-!
# Questions, replies and attempts

The strategy of an episode is asked before every attempt, and its reply says when the attempt
begins. The account of the episode has the times of all three. They keep step with one another, and
a reply is what that strategy has to say to the question of the same number.

* `Account.asked`, `Account.replies`, `Account.starts` — what an account says of them
* `Strategy.Answers` — the replies are those of one strategy
* `Stage.Keeps` — how far questions, replies and attempts have got at each stage
* `Dealing` — what a step has to do with the strategy; `dealing_stride` finds the case
* `Account.Abreast` — the account of an episode goes as far as the episode does; `Abreast.deal` —
  and so it does after every step
-/

namespace Resumption

-- ---------------------------------------------------------------------------
-- Reading accounts
-- ---------------------------------------------------------------------------

/-- When the strategy was asked. -/
def Entry.asked? (e : Entry) : Option Nat :=
  match e.event with
  | .consulted .. => some e.time
  | _ => none

/-- When the strategy replied, and what. -/
def Entry.replied? (e : Entry) : Option (Nat × Except String Duration) :=
  match e.event with
  | .advised reply => some (e.time, reply)
  | _ => none

/-- When an attempt began. -/
def Entry.started? (e : Entry) : Option Nat :=
  match e.event with
  | .attempted => some e.time
  | _ => none

/-- Whether a call has nothing to do with the strategy and does not begin an attempt. -/
def Event.isPlain : Event → Bool
  | .strategyMade | .consulted .. | .advised _ | .attempted => false
  | _ => true

/-- Whoever asks the strategy hands over this snapshot and this token. -/
def Event.Asks (snapshot : Snapshot) (token : ByteArray) : Event → Prop
  | .consulted _ snapshot' token' => snapshot' = snapshot ∧ token' = token
  | _ => True

/-- Why the last attempt failed, if that ended the episode. -/
def Ending.failure? : Ending → Option RecoveryError
  | .failed cause => some cause
  | _ => none

namespace Account

def asked (a : Account) : List Nat :=
  a.calls.filterMap Entry.asked?

def replies (a : Account) : List (Nat × Except String Duration) :=
  a.calls.filterMap Entry.replied?

def starts (a : Account) : List Nat :=
  a.calls.filterMap Entry.started?

/-- Why attempts failed, the last one included where no further one could mend it. -/
def failures (a : Account) : List RecoveryError :=
  faults a.events ++ (a.ending.bind Ending.failure?).toList

def extend (more : List Entry) (a : Account) : Account :=
  { a with calls := a.calls ++ more }

@[simp] theorem asked_extend (more : List Entry) (a : Account) :
    (a.extend more).asked = a.asked ++ more.filterMap Entry.asked? :=
  List.filterMap_append

@[simp] theorem replies_extend (more : List Entry) (a : Account) :
    (a.extend more).replies = a.replies ++ more.filterMap Entry.replied? :=
  List.filterMap_append

@[simp] theorem starts_extend (more : List Entry) (a : Account) :
    (a.extend more).starts = a.starts ++ more.filterMap Entry.started? :=
  List.filterMap_append

@[simp] theorem events_extend (more : List Entry) (a : Account) :
    (a.extend more).events = a.events ++ more.map Entry.event :=
  List.map_append

/-- Each question is noted with its time and with its cause. -/
theorem length_asked (a : Account) : a.asked.length = (causes a.events).length := by
  unfold asked causes events
  rw [List.filterMap_map, List.length_filterMap_eq_countP, List.length_filterMap_eq_countP]
  congr 1
  funext e
  show e.asked?.isSome = e.event.cause?.isSome
  unfold Entry.asked?
  cases e.event <;> rfl

end Account

/-- Calls that have nothing to do with the strategy change nothing of what is read. -/
theorem reads_of_isPlain {more : List Entry} (hMore : ∀ e ∈ more, e.event.isPlain) :
    more.filterMap Entry.asked? = [] ∧ more.filterMap Entry.replied? = [] ∧
      more.filterMap Entry.started? = [] ∧
      (more.map Entry.event).countP Event.makesStrategy = 0 := by
  have hEach : ∀ e ∈ more, e.asked? = none ∧ e.replied? = none ∧ e.started? = none ∧
      e.event.makesStrategy = false := by
    intro e hMem
    have hPlain := hMore e hMem
    unfold Entry.asked? Entry.replied? Entry.started?
    cases hEvent : e.event <;> simp_all [Event.isPlain, Event.makesStrategy]
  refine ⟨?_, ?_, ?_, ?_⟩
  · exact List.filterMap_eq_nil_iff.mpr fun e hMem => (hEach e hMem).1
  · exact List.filterMap_eq_nil_iff.mpr fun e hMem => (hEach e hMem).2.1
  · exact List.filterMap_eq_nil_iff.mpr fun e hMem => (hEach e hMem).2.2.1
  · rw [List.countP_map, List.countP_eq_zero]
    intro e hMem
    simp [(hEach e hMem).2.2.2]

theorem Event.asks_of_isPlain {event : Event} (hPlain : event.isPlain) (snapshot : Snapshot)
    (token : ByteArray) : event.Asks snapshot token := by
  cases event <;> trivial

theorem Event.isPlain_of_isSettling {event : Event} (hSettling : event.isSettling) :
    event.isPlain := by
  cases event <;> first | rfl | cases hSettling

-- ---------------------------------------------------------------------------
-- The replies of one strategy
-- ---------------------------------------------------------------------------

/-- When an attempt begins, by the reply before it and the time of that: after the delay, or at once
where the strategy failed. -/
def attemptDue : Nat × Except String Duration → Nat
  | (time, .ok delay) => time + delay.ceilMillis
  | (time, .error _) => time

theorem attemptDue_eq (time : Nat) (reply : Except String Duration) :
    attemptDue (time, reply) = time + (World.pause reply).ceilMillis := by
  have hZero : Duration.zero.ceilMillis = 0 := by decide
  cases reply with
  | ok delay => rfl
  | error reason => rw [attemptDue, World.pause, hZero, Nat.add_zero]

/-- What an advice says does not depend on when it is asked for. -/
theorem Advice.answer_unique {a : Advice} {start start' time time' : Nat}
    {reply reply' : Except String Duration} (hAnswer : a.answer start = .due time reply)
    (hAnswer' : a.answer start' = .due time' reply') :
    reply = reply' := by
  unfold Advice.answer at hAnswer hAnswer'
  cases hReply : a.reply <;> simp only [hReply] at hAnswer hAnswer' <;> cases hAnswer <;>
    cases hAnswer' <;> rfl

namespace Strategy

theorem after_succ (s : Strategy) (n : Nat) : s.after (n + 1) = (s.after n).consult.2 := by
  induction n generalizing s with
  | zero => rfl
  | succ n ih => exact ih s.consult.2

/-- Each reply is what the strategy says to the question of the same number, counted from the
moment of asking. -/
def Answers (s : Strategy) (asked : List Nat) (replies : List (Nat × Except String Duration)) :
    Prop :=
  ∀ n time reply, replies[n]? = some (time, reply) →
    ∃ start, asked[n]? = some start ∧ (s.advice n).answer start = .due time reply

variable {s : Strategy} {asked : List Nat} {replies : List (Nat × Except String Duration)}

theorem Answers.ask (hAnswers : s.Answers asked replies) (now : Nat) :
    s.Answers (asked ++ [now]) replies := by
  intro n time reply hReply
  obtain ⟨start, hStart, hAnswer⟩ := hAnswers n time reply hReply
  refine ⟨start, ?_, hAnswer⟩
  rw [List.getElem?_append_left (List.getElem?_eq_some_iff.mp hStart).1, hStart]

theorem Answers.reply {start time : Nat} {reply : Except String Duration}
    (hAnswers : s.Answers asked replies) (hStart : asked[replies.length]? = some start)
    (hAnswer : (s.advice replies.length).answer start = .due time reply) :
    s.Answers asked (replies ++ [(time, reply)]) := by
  intro n time' reply' hReply
  rw [List.getElem?_append] at hReply
  split at hReply
  case isTrue => exact hAnswers n time' reply' hReply
  case isFalse hFrom =>
    -- only the new reply is left
    have hLast : n = replies.length := by
      have := (List.getElem?_eq_some_iff.mp hReply).1
      simp only [List.length_cons, List.length_nil] at this
      omega
    subst hLast
    simp only [Nat.sub_self, List.getElem?_cons_zero, Option.some.injEq, Prod.mk.injEq] at hReply
    obtain ⟨rfl, rfl⟩ := hReply
    exact ⟨start, hStart, hAnswer⟩

/-- Two episodes whose strategies are the same have the same delays. -/
theorem Answers.unique {asked' : List Nat} {replies' : List (Nat × Except String Duration)}
    {n time time' : Nat} {reply reply' : Except String Duration}
    (hAnswers : s.Answers asked replies) (hAnswers' : s.Answers asked' replies')
    (hReply : replies[n]? = some (time, reply)) (hReply' : replies'[n]? = some (time', reply')) :
    reply = reply' := by
  obtain ⟨start, -, hAnswer⟩ := hAnswers n time reply hReply
  obtain ⟨start', -, hAnswer'⟩ := hAnswers' n time' reply' hReply'
  exact Advice.answer_unique hAnswer hAnswer'

end Strategy

-- ---------------------------------------------------------------------------
-- Stages
-- ---------------------------------------------------------------------------

/-- Whether neither a reply nor the time of an attempt is waited for. -/
def Stage.isBetween : Stage → Bool
  | .advised _ | .backingOff _ => false
  | _ => true

/-- How far questions, replies and attempts have got when an episode is at that stage. What it
waits for is never overdue. -/
inductive Stage.Keeps (s : Strategy) (now : Nat) (asked : List Nat)
    (replies : List (Nat × Except String Duration)) (starts : List Nat) : Stage → Prop
  | advised {answer before start} (hAsked : asked = before ++ [start])
      (hLength : before.length = replies.length)
      (hAnswer : (s.advice replies.length).answer start = answer)
      (hTime : ∀ due, answer.time? = some due → now ≤ due)
      (hStarts : starts = replies.map attemptDue) :
      Keeps s now asked replies starts (.advised answer)
  | backingOff {due} (hLength : asked.length = replies.length)
      (hStarts : replies.map attemptDue = starts ++ [due]) (hTime : now ≤ due) :
      Keeps s now asked replies starts (.backingOff due)
  | between {stage} (hStage : stage.isBetween) (hLength : asked.length = replies.length)
      (hStarts : starts = replies.map attemptDue) : Keeps s now asked replies starts stage

namespace Stage.Keeps

variable {s : Strategy} {now : Nat} {asked : List Nat}
  {replies : List (Nat × Except String Duration)} {starts : List Nat} {stage : Stage}

theorem settled (hKeeps : stage.Keeps s now asked replies starts) (hStage : stage.isBetween) :
    asked.length = replies.length ∧ starts = replies.map attemptDue := by
  cases hKeeps with
  | advised | backingOff => cases hStage
  | between _ hLength hStarts => exact ⟨hLength, hStarts⟩

/-- Attempts begin when they are due, in order. -/
theorem starts_prefix (hKeeps : stage.Keeps s now asked replies starts) :
    starts <+: replies.map attemptDue := by
  cases hKeeps with
  | advised _ _ _ _ hStarts | between _ _ hStarts => exact hStarts ▸ List.prefix_refl _
  | backingOff _ hStarts =>
    rw [hStarts]
    exact List.prefix_append _ _

/-- An attempt has begun when it was due, or is not overdue yet. -/
theorem not_overdue {n time : Nat} (hKeeps : stage.Keeps s now asked replies starts)
    (hDue : (replies.map attemptDue)[n]? = some time) : starts[n]? = some time ∨ now ≤ time := by
  cases hKeeps with
  | advised _ _ _ _ hStarts | between _ _ hStarts =>
    rw [hStarts]
    exact .inl hDue
  | backingOff _ hStarts hTime =>
    rw [hStarts, List.getElem?_append] at hDue
    split at hDue
    case isTrue => exact .inl hDue
    case isFalse =>
      have hLast := List.mem_singleton.mp (List.mem_of_getElem? hDue)
      exact .inr (hLast ▸ hTime)

/-- Time does not pass beyond what is waited for. -/
theorem elapse {later : Nat} (hKeeps : stage.Keeps s now asked replies starts)
    (hLater : ∀ due, stage.time? = some due → later ≤ due) :
    stage.Keeps s later asked replies starts := by
  cases hKeeps with
  | advised hAsked hLength hAnswer _ hStarts =>
    exact .advised hAsked hLength hAnswer hLater hStarts
  | backingOff hLength hStarts => exact .backingOff hLength hStarts (hLater _ rfl)
  | between hStage hLength hStarts => exact .between hStage hLength hStarts

end Stage.Keeps

theorem Advice.le_answer {a : Advice} {now due : Nat} (hDue : (a.answer now).time? = some due) :
    now ≤ due := by
  unfold Advice.answer at hDue
  cases hReply : a.reply <;> simp only [hReply, Pending.time?] at hDue <;> cases hDue
  all_goals exact Nat.le_add_right _ _

-- ---------------------------------------------------------------------------
-- The account of an episode under way
-- ---------------------------------------------------------------------------

/-- The account goes as far as the episode does, which is at that time. -/
structure Account.Abreast (config : Config) (bytes : Token.Id → ByteArray) (ep : Episode)
    (now : Nat) (a : Account) : Prop where
  once : a.events.countP Event.makesStrategy = 1
  asks : ∀ event ∈ a.events, event.Asks ⟨config.duration, ep.token⟩ (bytes ep.token)
  strategy : ep.strategy = (config.strategy a.number).after a.asked.length
  answers : (config.strategy a.number).Answers a.asked a.replies
  keeps : ep.stage.Keeps (config.strategy a.number) now a.asked a.replies a.starts

namespace World

/-- What a step from one stage of an episode to the next has to do with the strategy, with the calls
it makes. -/
inductive Dealing (w : World) (ep ep' : Episode) : List Entry → Prop
  | ask {cause} (hStage : ep.stage = .consulting cause)
      (hStrategy : ep'.strategy = ep.strategy.consult.2)
      (hStage' : ep'.stage = .advised (ep.strategy.consult.1.answer w.now)) :
      Dealing w ep ep' [w.own (.consulted cause ep.snapshot (w.pool.bytes ep.token))]
  | answer {time reply} (hStage : ep.stage = .advised (.due time reply)) (hDue : time ≤ w.now)
      (hStrategy : ep'.strategy = ep.strategy)
      (hStage' : ep'.stage = .backingOff (attemptDue (w.now, reply))) :
      Dealing w ep ep' [w.own (.advised reply)]
  | start {due more} (hStage : ep.stage = .backingOff due) (hDue : due ≤ w.now)
      (hStrategy : ep'.strategy = ep.strategy) (hStage' : ep'.stage.isBetween)
      (hMore : ∀ e ∈ more, e.event.isPlain) : Dealing w ep ep' (w.own .attempted :: more)
  | plain {more} (hStage : ep.stage.isBetween) (hStrategy : ep'.strategy = ep.strategy)
      (hStage' : ep'.stage.isBetween) (hMore : ∀ e ∈ more, e.event.isPlain) :
      Dealing w ep ep' more

section

attribute [local simp] own raised Entry.isOwnCall Event.isCall Event.isPlain

theorem ownEntries_own {event : Event} (hCall : event.isCall) (w : World) :
    ownEntries [w.own event] = [w.own event] := by
  have hOwn : (w.own event).isOwnCall = true := hCall
  rw [ownEntries_cons, hOwn]
  rfl

theorem ownEntries_arrived (errors : List LinkError) (w : World) :
    ownEntries (w.arrived errors) = [] :=
  ownEntries_eq_nil.mpr (ownCalls_arrived errors w)

theorem ownEntries_drained (w : World) : ownEntries w.drained = [] :=
  ownEntries_eq_nil.mpr (ownCalls_drained w)

theorem dealing_stride {w w' : World} {written : List Entry} {ep ep' : Episode}
    (hStride : Stride w written w') (hTask : w.task = .recovering ep)
    (hTask' : w'.task = .recovering ep') : Dealing w ep ep' (ownEntries written) := by
  cases hStride with
  | stop hIdle | beginBare hIdle | begin hIdle =>
    rw [hTask] at hIdle
    cases hIdle
  | announceNothing | resume | reject | cut => simp at hTask'
  | consult hSame hStage =>
    cases hTask.symm.trans hSame
    cases hTask'
    rw [ownEntries_own rfl]
    exact .ask hStage rfl rfl
  | @backOff _ answer reply hSame hStage hReady =>
    cases hTask.symm.trans hSame
    cases hTask'
    obtain ⟨time, rfl, hDue⟩ := Pending.eq_of_ready hReady
    rw [ownEntries_own rfl]
    refine .answer hStage hDue rfl ?_
    rw [attemptDue_eq]
  | dialNobody hSame hStage hDue =>
    cases hTask.symm.trans hSame
    cases hTask'
    rw [ownEntries_own rfl]
    exact .start hStage hDue rfl rfl (by simp)
  | @dial _ due supplier hSame hStage hDue =>
    cases hTask.symm.trans hSame
    cases hTask'
    have hEntries : ownEntries (w.raised (supplier.dials.headD .hanging).raises ++
        [w.own (.dialled supplier.name), w.own .attempted]) =
          [w.own .attempted, w.own (.dialled supplier.name)] := by
      simp [ownEntries_arrived]
    rw [hEntries]
    exact .start hStage hDue rfl rfl (by simp)
  | refuse hSame hStage | install hSame hStage | announce hSame hStage | hearNothing hSame hStage
  | hearNoise hSame hStage | hear hSame hStage =>
    cases hTask.symm.trans hSame
    cases hTask'
    refine .plain (by rw [hStage]; rfl) rfl rfl ?_
    simp [ownEntries_arrived, ownEntries_drained, or_imp, forall_and]

end

end World

-- ---------------------------------------------------------------------------
-- Steps of an episode
-- ---------------------------------------------------------------------------

namespace Account

section

attribute [local simp] World.own Entry.asked? Entry.replied? Entry.started?

theorem reads_consulted (a : Account) (w : World) (cause : RecoveryError) (snapshot : Snapshot)
    (token : ByteArray) :
    (a.extend [w.own (.consulted cause snapshot token)]).asked = a.asked ++ [w.now] ∧
      (a.extend [w.own (.consulted cause snapshot token)]).replies = a.replies ∧
      (a.extend [w.own (.consulted cause snapshot token)]).starts = a.starts := by
  simp

theorem reads_advised (a : Account) (w : World) (reply : Except String Duration) :
    (a.extend [w.own (.advised reply)]).asked = a.asked ∧
      (a.extend [w.own (.advised reply)]).replies = a.replies ++ [(w.now, reply)] ∧
      (a.extend [w.own (.advised reply)]).starts = a.starts := by
  simp

theorem reads_attempted {more : List Entry} (a : Account) (w : World)
    (hMore : ∀ e ∈ more, e.event.isPlain) :
    (a.extend (w.own .attempted :: more)).asked = a.asked ∧
      (a.extend (w.own .attempted :: more)).replies = a.replies ∧
      (a.extend (w.own .attempted :: more)).starts = a.starts ++ [w.now] := by
  obtain ⟨hAsked, hReplies, hStarts, -⟩ := reads_of_isPlain hMore
  simp [List.filterMap_cons, hAsked, hReplies, hStarts]

theorem reads_plain {more : List Entry} (a : Account) (hMore : ∀ e ∈ more, e.event.isPlain) :
    (a.extend more).asked = a.asked ∧ (a.extend more).replies = a.replies ∧
      (a.extend more).starts = a.starts := by
  obtain ⟨hAsked, hReplies, hStarts, -⟩ := reads_of_isPlain hMore
  simp [hAsked, hReplies, hStarts]

end

namespace Abreast

variable {w : World} {ep ep' : Episode} {a : Account} {more : List Entry}

/-- What has to be seen to when something is added to the account. -/
theorem add (hAbreast : a.Abreast w.config w.pool.bytes ep w.now) (hToken : ep'.token = ep.token)
    (hMade : (more.map Entry.event).countP Event.makesStrategy = 0)
    (hAsks : ∀ e ∈ more, e.event.Asks ⟨w.config.duration, ep.token⟩ (w.pool.bytes ep.token))
    (hStrategy : ep'.strategy = (w.config.strategy a.number).after (a.extend more).asked.length)
    (hAnswers : (w.config.strategy a.number).Answers (a.extend more).asked (a.extend more).replies)
    (hKeeps : ep'.stage.Keeps (w.config.strategy a.number) w.now (a.extend more).asked
      (a.extend more).replies (a.extend more).starts) :
    (a.extend more).Abreast w.config w.pool.bytes ep' w.now := by
  refine ⟨?_, ?_, hStrategy, hAnswers, hKeeps⟩
  · rw [events_extend, List.countP_append, hMade, hAbreast.once]
  · rw [hToken, events_extend, List.forall_mem_append, List.forall_mem_map]
    exact ⟨hAbreast.asks, hAsks⟩

theorem ask {cause : RecoveryError} (hAbreast : a.Abreast w.config w.pool.bytes ep w.now)
    (hToken : ep'.token = ep.token) (hSnapshot : ep.snapshot = ⟨w.config.duration, ep.token⟩)
    (hStage : ep.stage = .consulting cause) (hStrategy : ep'.strategy = ep.strategy.consult.2)
    (hStage' : ep'.stage = .advised (ep.strategy.consult.1.answer w.now)) :
    (a.extend [w.own (.consulted cause ep.snapshot (w.pool.bytes ep.token))]).Abreast w.config
      w.pool.bytes ep' w.now := by
  have hKeeps := hAbreast.keeps
  rw [hStage] at hKeeps
  obtain ⟨hLength, hStarts⟩ := hKeeps.settled rfl
  obtain ⟨hAsked', hReplies', hStarts'⟩ :=
    a.reads_consulted w cause ep.snapshot (w.pool.bytes ep.token)
  refine hAbreast.add hToken rfl ?_ ?_ ?_ ?_
  · exact fun e hMem => List.mem_singleton.mp hMem ▸ ⟨hSnapshot, rfl⟩
  · rw [hAsked', List.length_append, hStrategy, hAbreast.strategy]
    exact (Strategy.after_succ _ _).symm
  · rw [hAsked', hReplies']
    exact hAbreast.answers.ask w.now
  · rw [hAsked', hReplies', hStarts', hStage', hAbreast.strategy, hLength]
    exact .advised rfl hLength rfl (fun due => Advice.le_answer) hStarts

theorem answer {time : Nat} {reply : Except String Duration}
    (hAbreast : a.Abreast w.config w.pool.bytes ep w.now) (hToken : ep'.token = ep.token)
    (hStage : ep.stage = .advised (.due time reply)) (hDue : time ≤ w.now)
    (hStrategy : ep'.strategy = ep.strategy)
    (hStage' : ep'.stage = .backingOff (attemptDue (w.now, reply))) :
    (a.extend [w.own (.advised reply)]).Abreast w.config w.pool.bytes ep' w.now := by
  have hKeeps := hAbreast.keeps
  rw [hStage] at hKeeps
  cases hKeeps with
  | between hBetween => cases hBetween
  | @advised _ before start hAsked hLength hAnswer hTime hStarts =>
    -- the reply is taken at the moment it is there
    obtain rfl : time = w.now := Nat.le_antisymm hDue (hTime time rfl)
    obtain ⟨hAsked', hReplies', hStarts'⟩ := a.reads_advised w reply
    have hStart : a.asked[a.replies.length]? = some start := by
      rw [hAsked, ← hLength, List.getElem?_concat_length]
    refine hAbreast.add hToken rfl ?_ ?_ ?_ ?_
    · exact fun e hMem => List.mem_singleton.mp hMem ▸ trivial
    · rw [hAsked', hStrategy, hAbreast.strategy]
    · rw [hAsked', hReplies']
      exact hAbreast.answers.reply hStart hAnswer
    · rw [hAsked', hReplies', hStarts', hStage']
      refine .backingOff ?_ ?_ (attemptDue_eq w.now reply ▸ Nat.le_add_right _ _)
      · rw [hAsked, List.length_append, List.length_append, hLength]
        rfl
      · rw [List.map_append, hStarts]
        rfl

theorem start {due : Nat} (hAbreast : a.Abreast w.config w.pool.bytes ep w.now)
    (hToken : ep'.token = ep.token) (hStage : ep.stage = .backingOff due) (hDue : due ≤ w.now)
    (hStrategy : ep'.strategy = ep.strategy) (hStage' : ep'.stage.isBetween)
    (hMore : ∀ e ∈ more, e.event.isPlain) :
    (a.extend (w.own .attempted :: more)).Abreast w.config w.pool.bytes ep' w.now := by
  have hKeeps := hAbreast.keeps
  rw [hStage] at hKeeps
  cases hKeeps with
  | between hBetween => cases hBetween
  | backingOff hLength hStarts hTime =>
    -- the attempt begins at the moment it is due
    obtain rfl := Nat.le_antisymm hDue hTime
    obtain ⟨hAsked', hReplies', hStarts'⟩ := a.reads_attempted w hMore
    refine hAbreast.add hToken (reads_of_isPlain hMore).2.2.2 ?_ ?_ ?_ ?_
    · intro e hMem
      rcases List.mem_cons.mp hMem with rfl | hMem
      · trivial
      · exact Event.asks_of_isPlain (hMore e hMem) _ _
    · rw [hAsked', hStrategy, hAbreast.strategy]
    · rw [hAsked', hReplies']
      exact hAbreast.answers
    · rw [hAsked', hReplies', hStarts']
      exact .between hStage' hLength hStarts.symm

theorem plain (hAbreast : a.Abreast w.config w.pool.bytes ep w.now) (hToken : ep'.token = ep.token)
    (hStage : ep.stage.isBetween) (hStrategy : ep'.strategy = ep.strategy)
    (hStage' : ep'.stage.isBetween) (hMore : ∀ e ∈ more, e.event.isPlain) :
    (a.extend more).Abreast w.config w.pool.bytes ep' w.now := by
  obtain ⟨hLength, hStarts⟩ := hAbreast.keeps.settled hStage
  obtain ⟨hAsked', hReplies', hStarts'⟩ := a.reads_plain hMore
  refine hAbreast.add hToken (reads_of_isPlain hMore).2.2.2 ?_ ?_ ?_ ?_
  · exact fun e hMem => Event.asks_of_isPlain (hMore e hMem) _ _
  · rw [hAsked', hStrategy, hAbreast.strategy]
  · rw [hAsked', hReplies']
    exact hAbreast.answers
  · rw [hAsked', hReplies', hStarts']
    exact .between hStage' hLength hStarts

/-- What is done in a step goes into the account. -/
theorem deal (hAbreast : a.Abreast w.config w.pool.bytes ep w.now)
    (hDealing : w.Dealing ep ep' more)
    (hSnapshot : ep.snapshot = ⟨w.config.duration, ep.token⟩) (hToken : ep'.token = ep.token) :
    (a.extend more).Abreast w.config w.pool.bytes ep' w.now := by
  cases hDealing with
  | ask hStage hStrategy hStage' =>
    exact hAbreast.ask hToken hSnapshot hStage hStrategy hStage'
  | answer hStage hDue hStrategy hStage' =>
    exact hAbreast.answer hToken hStage hDue hStrategy hStage'
  | start hStage hDue hStrategy hStage' hMore =>
    exact hAbreast.start hToken hStage hDue hStrategy hStage' hMore
  | plain hStage hStrategy hStage' hMore =>
    exact hAbreast.plain hToken hStage hStrategy hStage' hMore

end Abreast

end Account

end Resumption
