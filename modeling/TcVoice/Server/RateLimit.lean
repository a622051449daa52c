import TcVoice.Server.State
import Mathlib.Algebra.Order.Field.Rat
import Mathlib.Tactic.Linarith

/-!
# Rate limits

`crates/server/src/rate_limit.rs`: token buckets, and one of them for each IP address.

* `RateLimiter.check` — a token is taken if there is one, after the refill for the time
  since the last look.
* `IpRateLimiter.track`, `untrack`, `check`, `sweepIdle` — the buckets of the addresses,
  with how many connections each has.
* `RateLimiter.level`, `level_check` — what a bucket has at an instant, and **that a check
  takes one token or nothing**.

The numbers and the clock are parameters, as the source has them in floating point; results
are about exact ones.  A call reads the clock once.
-/

namespace TcVoice
namespace Server

/-- A clock: `duration_since`, which is zero towards a later instant, and `as_secs_f64`. -/
class Clock (T : Type) (N : outParam Type) where
  since : T → T → T
  secs : T → N

/-- Exact time in seconds. -/
instance : Clock ℚ ℚ where
  since now earlier := max 0 (now - earlier)
  secs := id

variable {T N : Type}

/-! ## Token buckets -/

/-- `RateLimiter`. -/
structure RateLimiter (T N : Type) where
  tokens : N
  maxTokens : N
  refillRate : N
  lastRefill : T
  deriving DecidableEq, Repr

namespace RateLimiter

/-- `RateLimiter::new`. -/
def new (ratePerSec burst : N) (now : T) : RateLimiter T N := ⟨burst, burst, ratePerSec, now⟩

section Check

variable [Add N] [Sub N] [Mul N] [Min N] [LE N] [DecidableLE N] [OfScientific N] [Clock T N]

/-- `refill`. -/
def refill (b : RateLimiter T N) (now : T) : RateLimiter T N :=
  let elapsed := Clock.secs (Clock.since now b.lastRefill)
  { b with tokens := min (b.tokens + elapsed * b.refillRate) b.maxTokens, lastRefill := now }

/-- `check`. -/
def check (b : RateLimiter T N) (now : T) : Bool × RateLimiter T N :=
  let b := b.refill now
  if 1.0 ≤ b.tokens then (true, { b with tokens := b.tokens - 1.0 }) else (false, b)

end Check

end RateLimiter

/-! ## A bucket for each address -/

/-- `IpEntry`. -/
structure IpEntry (T N : Type) where
  limiter : RateLimiter T N
  refcount : ℕ
  lastActive : T
  deriving DecidableEq, Repr

/-- `IpRateLimiter`. -/
structure IpRateLimiter (T N : Type) where
  ratePerSec : N
  burst : N
  map : Table IpAddr (IpEntry T N)

namespace IpRateLimiter

/-- `IpRateLimiter::new`. -/
def new (ratePerSec burst : N) : IpRateLimiter T N := ⟨ratePerSec, burst, ∅⟩

variable (l : IpRateLimiter T N)

/-- The entry of an address that has none yet. -/
def freshEntry (now : T) : IpEntry T N := ⟨.new l.ratePerSec l.burst now, 0, now⟩

/-- `track`.  The count is a `u32`. -/
def track (ip : IpAddr) (now : T) : IpRateLimiter T N :=
  let entry := (l.map.lookup ip).getD (l.freshEntry now)
  let entry := { entry with
    refcount := min (entry.refcount + 1) (2 ^ 32 - 1), lastActive := now }
  { l with map := l.map.insert ip entry }

/-- `untrack`. -/
def untrack (ip : IpAddr) (now : T) : IpRateLimiter T N :=
  { l with map := l.map.modify ip fun entry =>
      { entry with refcount := entry.refcount - 1, lastActive := now } }

section Check

variable [Add N] [Sub N] [Mul N] [Min N] [LE N] [DecidableLE N] [OfScientific N] [Clock T N]

/-- `check`.  An address that is not tracked is allowed. -/
def check (ip : IpAddr) (now : T) : Bool × IpRateLimiter T N :=
  match l.map.lookup ip with
  | some entry =>
    let (allowed, limiter) := entry.limiter.check now
    (allowed, { l with map := l.map.insert ip { entry with limiter, lastActive := now } })
  | none => (true, l)

variable [LT T] [DecidableLT T]

/-- `sweep_idle`, with how many entries were removed. -/
def sweepIdle (ttl now : T) : ℕ × IpRateLimiter T N :=
  let map := l.map.retain fun _ entry =>
    decide (0 < entry.refcount) || decide (Clock.since now entry.lastActive < ttl)
  (l.map.len - map.len, { l with map })

end Check

end IpRateLimiter

/-! ## What a bucket has -/

namespace RateLimiter

/-- The tokens that a check would find. -/
def level (b : RateLimiter ℚ ℚ) (now : ℚ) : ℚ := (b.refill now).tokens

variable {b : RateLimiter ℚ ℚ} {now : ℚ}

theorem level_eq (b : RateLimiter ℚ ℚ) (now : ℚ) :
    b.level now = min (b.tokens + max 0 (now - b.lastRefill) * b.refillRate) b.maxTokens := rfl

theorem level_le : b.level now ≤ b.maxTokens := min_le_right _ _

/-- A refill leaves what there is at its instant. -/
theorem level_refill : (b.refill now).level now = b.level now := by
  have hzero : max 0 (now - now) = 0 := by rw [sub_self, max_self]
  rw [level_eq, show (b.refill now).lastRefill = now from rfl, hzero, zero_mul, add_zero]
  exact min_eq_left level_le

theorem check_eq (b : RateLimiter ℚ ℚ) (now : ℚ) : b.check now =
    if 1 ≤ b.level now then (true, { b.refill now with tokens := b.level now - 1 })
    else (false, b.refill now) := by
  have hone : (1.0 : ℚ) = 1 := by norm_num
  unfold check
  dsimp only
  rw [hone]
  rfl

/-- A check is allowed if there is a token at its instant. -/
theorem check_fst : (b.check now).1 = decide (1 ≤ b.level now) := by
  rw [check_eq]
  split
  · exact (decide_eq_true ‹_›).symm
  · exact (decide_eq_false ‹_›).symm

/-- **A check takes one token if it is allowed, and nothing otherwise.** -/
theorem level_check : (b.check now).2.level now =
    b.level now - if (b.check now).1 then 1 else 0 := by
  rw [check_eq]
  by_cases htoken : 1 ≤ b.level now
  · have hzero : max 0 (now - now) = 0 := by rw [sub_self, max_self]
    have hmax : b.level now ≤ b.maxTokens := level_le
    have hle : b.level now - 1 ≤ b.maxTokens := by linarith
    rw [if_pos htoken, level_eq]
    show min (b.level now - 1 + max 0 (now - now) * b.refillRate) b.maxTokens = _
    rw [hzero, zero_mul, add_zero]
    exact min_eq_left hle
  · rw [if_neg htoken]
    exact level_refill.trans (sub_zero _).symm

end RateLimiter

end Server
end TcVoice
