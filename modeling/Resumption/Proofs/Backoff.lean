import Mathlib.Algebra.Group.Nat.Defs
import Resumption.Strategy

/-!
# The delays of a backoff

A backoff multiplies the delay before by its factor and cuts the product off at its limit. A product
that is too large for a duration counts as the limit. Multiplying and cutting off one step at a time
comes to the same as one product in exact arithmetic that is cut off once, since what has reached
the limit is there with every later power of the factor as well; only the first delay is never cut
off.

* `Duration.times?_eq_none_iff` — a product fails exactly where its whole seconds exceed 64 bits
* `Duration.nanos_capped` — a product that fails is above every limit
* `min_mul_min` — cutting off before a multiplication makes no difference after it
* `Backoff.Exact` — the delays of a backoff in closed form; `Backoff.exact_delays` — they are these
* `Backoff.Within` — a delay keeps within the limit; `Backoff.limited_iff` — all delays do just where
  the first one does
-/

namespace Resumption

-- ---------------------------------------------------------------------------
-- Products of durations
-- ---------------------------------------------------------------------------

namespace Duration

theorem ofNanos?_of_lt {nanos : Nat} (hNanos : nanos < bound) :
    ofNanos? nanos = some ⟨nanos, hNanos⟩ :=
  dif_pos hNanos

theorem ofNanos?_eq_none_iff {nanos : Nat} : ofNanos? nanos = none ↔ bound ≤ nanos := by
  unfold ofNanos?
  split
  case isTrue hNanos => simpa using hNanos
  case isFalse hNanos => simpa using hNanos

theorem times?_eq_none_iff (d : Duration) (factor : UInt32) :
    d.times? factor = none ↔ 2 ^ 64 - 1 < d.nanos * factor.toNat / nanosPerSecond := by
  unfold times?
  rw [ofNanos?_eq_none_iff, Nat.lt_div_iff_mul_lt (by decide)]
  unfold bound nanosPerSecond
  omega

@[simp] theorem nanos_atMost (d limit : Duration) :
    (d.atMost limit).nanos = min d.nanos limit.nanos := by
  unfold atMost
  split
  case isTrue hLess => exact (Nat.min_eq_left hLess).symm
  case isFalse hMore => exact (Nat.min_eq_right (Nat.le_of_not_le hMore)).symm

/-- A product that fails is above every limit, and so it counts as the limit. -/
theorem nanos_capped (d limit : Duration) (factor : UInt32) :
    (((d.times? factor).getD limit).atMost limit).nanos =
      min (d.nanos * factor.toNat) limit.nanos := by
  rw [nanos_atMost]
  by_cases hProduct : d.nanos * factor.toNat < bound
  · rw [times?, ofNanos?_of_lt hProduct, Option.getD_some]
  · have hBound : bound ≤ d.nanos * factor.toNat := Nat.le_of_not_lt hProduct
    have hLimit : limit.nanos ≤ d.nanos * factor.toNat :=
      Nat.le_of_lt (Nat.lt_of_lt_of_le limit.nanos_lt hBound)
    rw [times?, ofNanos?_eq_none_iff.mpr hBound, Option.getD_none, Nat.min_self,
      Nat.min_eq_right hLimit]

end Duration

/-- What is cut off before it is multiplied is above the limit afterwards as well, unless the factor
is zero and nothing is left of it at all. -/
theorem min_mul_min (n factor limit : Nat) :
    min (min n limit * factor) limit = min (n * factor) limit := by
  by_cases hFits : n ≤ limit
  · rw [Nat.min_eq_left hFits]
  · have hMore : limit ≤ n := Nat.le_of_not_le hFits
    rw [Nat.min_eq_right hMore]
    cases factor with
    | zero => rfl
    | succ factor =>
      have hLimit : limit ≤ limit * (factor + 1) := Nat.le_mul_of_pos_right limit factor.succ_pos
      have hProduct : limit * (factor + 1) ≤ n * (factor + 1) :=
        Nat.mul_le_mul_right (factor + 1) hMore
      rw [Nat.min_eq_right hLimit, Nat.min_eq_right (Nat.le_trans hLimit hProduct)]

-- ---------------------------------------------------------------------------
-- One question after the other
-- ---------------------------------------------------------------------------

namespace Backoff

/-- The backoff after `n` questions. -/
def after (b : Backoff) : Nat → Backoff
  | 0 => b
  | n + 1 => b.next.2.after n

/-- The delay that answers question `n`, counted from 0. -/
def nth (b : Backoff) (n : Nat) : Duration :=
  (b.after n).delay

theorem after_succ (b : Backoff) (n : Nat) : b.after (n + 1) = (b.after n).next.2 := by
  induction n generalizing b with
  | zero => rfl
  | succ n ih => exact ih b.next.2

/-- The limit and the factor stay, and the delay last returned is remembered. -/
theorem after_fresh (first limit : Duration) (factor : UInt32) (n : Nat) :
    (fresh first limit factor).after (n + 1) =
      ⟨first, limit, factor, some ((fresh first limit factor).nth n)⟩ := by
  induction n with
  | zero => rfl
  | succ n ih =>
    rw [after_succ, ih]
    unfold nth
    rw [ih]
    rfl

theorem nth_zero (first limit : Duration) (factor : UInt32) :
    (fresh first limit factor).nth 0 = first :=
  rfl

theorem nanos_nth_succ (first limit : Duration) (factor : UInt32) (n : Nat) :
    ((fresh first limit factor).nth (n + 1)).nanos =
      min (((fresh first limit factor).nth n).nanos * factor.toNat) limit.nanos := by
  have hDelay : (fresh first limit factor).nth (n + 1) =
      ((((fresh first limit factor).nth n).times? factor).getD limit).atMost limit := by
    rw [nth, after_fresh]
    rfl
  rw [hDelay, Duration.nanos_capped]

/-- The delay in one product, cut off once. -/
theorem nanos_nth (first limit : Duration) (factor : UInt32) (n : Nat) :
    ((fresh first limit factor).nth (n + 1)).nanos =
      min (first.nanos * factor.toNat ^ (n + 1)) limit.nanos := by
  induction n with
  | zero => rw [nanos_nth_succ, nth_zero, Nat.pow_one]
  | succ n ih => rw [nanos_nth_succ, ih, min_mul_min, Nat.mul_assoc, ← Nat.pow_succ]

/-- Where the first delay is within the limit, cutting it off makes no difference either. -/
theorem nanos_nth_of_le {first limit : Duration} (hFirst : first.nanos ≤ limit.nanos)
    (factor : UInt32) (n : Nat) :
    ((fresh first limit factor).nth n).nanos =
      min (first.nanos * factor.toNat ^ n) limit.nanos := by
  cases n with
  | zero => rw [nth_zero, Nat.pow_zero, Nat.mul_one, Nat.min_eq_left hFirst]
  | succ n => exact nanos_nth first limit factor n

end Backoff

theorem Strategy.after_exponential (b : Backoff) (n : Nat) :
    (exponential b).after n = exponential (b.after n) := by
  induction n generalizing b with
  | zero => rfl
  | succ n ih => exact ih b.next.2

/-- A backoff answers every question at once. -/
theorem Strategy.advice_exponential (b : Backoff) (n : Nat) :
    (exponential b).advice n = ⟨0, .wait (b.nth n)⟩ := by
  rw [advice, after_exponential]
  rfl

-- ---------------------------------------------------------------------------
-- All delays
-- ---------------------------------------------------------------------------

/-- The delays of a strategy that starts with one delay and multiplies it by a factor, up to a
limit. -/
structure Backoff.Exact (first limit : Duration) (factor : UInt32) : Prop where
  /-- Every question is answered with a delay, and at once. -/
  answers : ∀ n, (Strategy.exponentialFrom first limit factor).advice n =
    ⟨0, .wait ((fresh first limit factor).nth n)⟩
  /-- The first delay is returned as it is, even above the limit. -/
  initial : (fresh first limit factor).nth 0 = first
  /-- All others are what exact arithmetic says. -/
  later : ∀ n, 1 ≤ n → ((fresh first limit factor).nth n).nanos =
    min (first.nanos * factor.toNat ^ n) limit.nanos
  /-- A product fails exactly where its whole seconds do not fit into 64 bits. -/
  fails : ∀ d : Duration, d.times? factor = none ↔
    2 ^ 64 - 1 < d.nanos * factor.toNat / Duration.nanosPerSecond
  /-- Delays that start within the limit and are multiplied by something never decrease. -/
  grows : 1 ≤ factor.toNat → first.nanos ≤ limit.nanos → ∀ m n, m ≤ n →
    ((fresh first limit factor).nth m).nanos ≤ ((fresh first limit factor).nth n).nanos
  /-- Once they are at the limit, they stay there. -/
  stays : 1 ≤ factor.toNat → first.nanos ≤ limit.nanos → ∀ m n, m ≤ n →
    (fresh first limit factor).nth m = limit → (fresh first limit factor).nth n = limit

namespace Backoff

variable {first limit : Duration} {factor : UInt32} {m n : Nat}

theorem nth_mono (hFactor : 1 ≤ factor.toNat) (hFirst : first.nanos ≤ limit.nanos) (hLess : m ≤ n) :
    ((fresh first limit factor).nth m).nanos ≤ ((fresh first limit factor).nth n).nanos := by
  have hPower : first.nanos * factor.toNat ^ m ≤ first.nanos * factor.toNat ^ n :=
    Nat.mul_le_mul_left first.nanos (Nat.pow_le_pow_right hFactor hLess)
  rw [nanos_nth_of_le hFirst, nanos_nth_of_le hFirst]
  omega

theorem nth_le (hFirst : first.nanos ≤ limit.nanos) (factor : UInt32) (n : Nat) :
    ((fresh first limit factor).nth n).nanos ≤ limit.nanos := by
  rw [nanos_nth_of_le hFirst]
  exact Nat.min_le_right _ _

end Backoff

theorem Duration.eq_of_nanos {d d' : Duration} (hNanos : d.nanos = d'.nanos) : d = d' := by
  cases d
  cases d'
  cases hNanos
  rfl

/-- Whatever the first delay, the limit and the factor are, the delays are those of exact
arithmetic. -/
theorem Backoff.exact_delays (first limit : Duration) (factor : UInt32) :
    Exact first limit factor := by
  constructor
  · exact Strategy.advice_exponential (fresh first limit factor)
  · exact nth_zero first limit factor
  · intro n hLater
    obtain ⟨n, rfl⟩ := Nat.exists_eq_succ_of_ne_zero (Nat.ne_of_gt hLater)
    exact nanos_nth first limit factor n
  · intro d
    exact d.times?_eq_none_iff factor
  · intro hFactor hFirst m n hLess
    exact nth_mono hFactor hFirst hLess
  · intro hFactor hFirst m n hLess hLimit
    have hFrom := nth_mono hFactor hFirst hLess
    rw [hLimit] at hFrom
    exact Duration.eq_of_nanos (Nat.le_antisymm (nth_le hFirst factor n) hFrom)

-- ---------------------------------------------------------------------------
-- The limit
-- ---------------------------------------------------------------------------

namespace Backoff

/-- Question `n` of a strategy that starts afresh is answered with a delay within the limit. -/
def Within (first limit : Duration) (factor : UInt32) (n : Nat) : Prop :=
  ∃ delay, (Strategy.exponentialFrom first limit factor).advice n = ⟨0, .wait delay⟩ ∧
    delay.nanos ≤ limit.nanos

theorem within_iff_nth (first limit : Duration) (factor : UInt32) (n : Nat) :
    Within first limit factor n ↔ ((fresh first limit factor).nth n).nanos ≤ limit.nanos := by
  have hAdvice : (Strategy.exponentialFrom first limit factor).advice n =
      ⟨0, .wait ((fresh first limit factor).nth n)⟩ :=
    Strategy.advice_exponential (fresh first limit factor) n
  constructor
  · rintro ⟨delay, hDelay, hWithin⟩
    cases hAdvice.symm.trans hDelay
    exact hWithin
  · intro hWithin
    exact ⟨_, hAdvice, hWithin⟩

/-- The first delay is within the limit only if it is given so. -/
theorem within_zero_iff (first limit : Duration) (factor : UInt32) :
    Within first limit factor 0 ↔ first.nanos ≤ limit.nanos := by
  rw [within_iff_nth, nth_zero]

/-- All others have been cut off. -/
theorem within_succ (first limit : Duration) (factor : UInt32) (n : Nat) :
    Within first limit factor (n + 1) := by
  rw [within_iff_nth, nanos_nth_succ]
  exact Nat.min_le_right _ _

/-- The delays keep within the limit just where the first of them does, and whatever the first is,
all others do. -/
theorem limited_iff (first limit : Duration) (factor : UInt32) :
    ((∀ n, Within first limit factor n) ↔ first.nanos ≤ limit.nanos) ∧
      ∀ n, 1 ≤ n → Within first limit factor n := by
  have hLater : ∀ n, 1 ≤ n → Within first limit factor n := by
    intro n hLater
    obtain ⟨n, rfl⟩ := Nat.exists_eq_succ_of_ne_zero (Nat.ne_of_gt hLater)
    exact within_succ first limit factor n
  refine ⟨⟨fun hAll => (within_zero_iff first limit factor).mp (hAll 0), ?_⟩, hLater⟩
  intro hFirst n
  cases n with
  | zero => exact (within_zero_iff first limit factor).mpr hFirst
  | succ n => exact within_succ first limit factor n

/-- Two seconds are returned where one is the limit. -/
theorem not_limited : ¬ ∀ n, Within (.ofSeconds 2) (.ofSeconds 1) 2 n := by
  intro hAll
  have hFirst := (within_zero_iff _ _ _).mp (hAll 0)
  exact absurd hFirst (by decide)

end Backoff

end Resumption
