/-!
# Durations

Lengths of time, counted in nanoseconds and bounded by what 64 bits of whole seconds hold.

* `Duration.times?` — multiplication, which fails exactly where the bound is passed
* `Duration.ceilMillis` — the clock moves in whole milliseconds, and a pause never ends early
* `Duration.text` — the largest unit that leaves a whole part, with no zeros at the end
-/

namespace Resumption

namespace Duration

def nanosPerSecond : Nat := 1000000000

def nanosPerMilli : Nat := 1000000

def nanosPerMicro : Nat := 1000

/-- The first count of nanoseconds that is too large. -/
def bound : Nat := 18446744073709551616 * nanosPerSecond

end Duration

structure Duration where
  nanos : Nat
  nanos_lt : nanos < Duration.bound
deriving DecidableEq

namespace Duration

def ofNanos? (nanos : Nat) : Option Duration :=
  if h : nanos < bound then some ⟨nanos, h⟩ else none

def zero : Duration := ⟨0, by decide⟩

def ofSeconds (seconds : UInt64) : Duration :=
  ⟨seconds.toNat * nanosPerSecond, by
    have := seconds.toNat_lt
    simp only [bound, nanosPerSecond]
    omega⟩

def ofMillis (millis : UInt64) : Duration :=
  ⟨millis.toNat * nanosPerMilli, by
    have := millis.toNat_lt
    simp only [bound, nanosPerSecond, nanosPerMilli]
    omega⟩

/-- Whole seconds. -/
def seconds (d : Duration) : Nat :=
  d.nanos / nanosPerSecond

/-- Nanoseconds behind the whole seconds. -/
def subsecond (d : Duration) : Nat :=
  d.nanos % nanosPerSecond

/-- Whole milliseconds. -/
def millis (d : Duration) : Nat :=
  d.nanos / nanosPerMilli

/-- Milliseconds, a begun one counted in full. -/
def ceilMillis (d : Duration) : Nat :=
  (d.nanos + (nanosPerMilli - 1)) / nanosPerMilli

def times? (d : Duration) (factor : UInt32) : Option Duration :=
  ofNanos? (d.nanos * factor.toNat)

/-- The shorter of two. -/
def atMost (d limit : Duration) : Duration :=
  if d.nanos ≤ limit.nanos then d else limit

/-! ## Text -/

/-- The digits of a fraction of `places` decimal places, behind a point. -/
def fractionText (places fraction : Nat) : String :=
  let digits := Nat.toDigits 10 fraction
  let padded := List.replicate (places - digits.length) '0' ++ digits
  let kept := (padded.reverse.dropWhile (· = '0')).reverse
  if kept.isEmpty then "" else "." ++ String.ofList kept

/-- A count of nanoseconds in a unit of `size` nanoseconds, which has `places` decimal places. -/
def textIn (size places : Nat) (unit : String) (nanos : Nat) : String :=
  toString (nanos / size) ++ fractionText places (nanos % size) ++ unit

def text (d : Duration) : String :=
  if nanosPerSecond ≤ d.nanos then textIn nanosPerSecond 9 "s" d.nanos
  else if nanosPerMilli ≤ d.nanos then textIn nanosPerMilli 6 "ms" d.nanos
  else if nanosPerMicro ≤ d.nanos then textIn nanosPerMicro 3 "µs" d.nanos
  else textIn 1 0 "ns" d.nanos

end Duration

end Resumption
