import Resumption.Duration

/-!
# Resume strategies

A strategy is asked before every attempt to reconnect how long to wait first. It is asked afresh in
every episode and keeps what it needs to know between two questions of one episode.

* `Backoff.next` — a delay that grows by a factor until it reaches its limit
* `Strategy.consult` — the next advice and the strategy afterwards
-/

namespace Resumption

/-- What a strategy says. -/
inductive Reply where
  | wait (delay : Duration)
  | refuse (reason : String)
  /-- It never says anything. -/
  | silence
deriving DecidableEq

structure Advice where
  /-- Milliseconds until the reply. -/
  takes : Nat
  reply : Reply
deriving DecidableEq

/-! ## Growing delays -/

structure Backoff where
  first : Duration
  limit : Duration
  factor : UInt32
  /-- The delay last returned. -/
  current : Option Duration
deriving DecidableEq

namespace Backoff

def fresh (first limit : Duration) (factor : UInt32) : Backoff :=
  ⟨first, limit, factor, none⟩

/-- The first delay is returned as it is; a product too large for a duration counts as the
limit. -/
def delay (b : Backoff) : Duration :=
  match b.current with
  | none => b.first
  | some current => ((current.times? b.factor).getD b.limit).atMost b.limit

def next (b : Backoff) : Duration × Backoff :=
  (b.delay, { b with current := some b.delay })

end Backoff

/-! ## Strategies -/

inductive Strategy where
  /-- The same delay before every attempt. -/
  | periodic (period : Duration)
  | exponential (backoff : Backoff)
  /-- One advice after the other, then the last one for ever. -/
  | scripted (advices : List Advice) (last : Advice)
deriving DecidableEq

namespace Strategy

def exponentialFrom (first limit : Duration) (factor : UInt32) : Strategy :=
  .exponential (.fresh first limit factor)

def consult : Strategy → Advice × Strategy
  | .periodic period => (⟨0, .wait period⟩, .periodic period)
  | .exponential backoff => (⟨0, .wait backoff.next.1⟩, .exponential backoff.next.2)
  | .scripted [] last => (last, .scripted [] last)
  | .scripted (advice :: advices) last => (advice, .scripted advices last)

/-- The strategy after `n` questions. -/
def after (s : Strategy) : Nat → Strategy
  | 0 => s
  | n + 1 => s.consult.2.after n

/-- The answer to question `n`, counted from 0. -/
def advice (s : Strategy) (n : Nat) : Advice :=
  (s.after n).consult.1

end Strategy

end Resumption
