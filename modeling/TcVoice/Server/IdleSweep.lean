import TcVoice.Server.RateLimit
import TcVoice.Lib.Machines
import Mathlib.Algebra.Order.Field.Basic

/-!
# Sweeping idle addresses

`sweep_idle` of `crates/server/src/rate_limit.rs` forgets the buckets of addresses that have
had no connection for some time; a bucket that is asked for again is a new one, and full.

* `IpRateLimiter.call`, `answers` — a run of calls, and the answers to its checks.
* `Alike` — two buckets that have the same at every later instant: that is all that checks
  can tell of them.
* `Swept` — the registry with sweeps beside the one without: where it has forgotten a
  bucket, the other has none that differs from a new one.
* `sweep_unobservable` — **sweeps change no answer, and take no bucket from an address that
  has a connection**, as long as its count of connections does not overflow;
  `saturated_count` is a run in which it does.
-/

namespace TcVoice
namespace Server

open Machines Table

/-! ## Runs of calls -/

/-- A call of the registry. -/
inductive IpCall where
  | track (ip : IpAddr)
  | untrack (ip : IpAddr)
  | check (ip : IpAddr)
  | sweepIdle
  deriving DecidableEq, Repr

/-- A call at its time, and the answer of a check. -/
def IpRateLimiter.call (ttl : ℚ) (l : IpRateLimiter ℚ ℚ) :
    IpCall × ℚ → IpRateLimiter ℚ ℚ × Option Bool
  | (.track ip, now) => (l.track ip now, none)
  | (.untrack ip, now) => (l.untrack ip now, none)
  | (.check ip, now) => ((l.check ip now).2, some (l.check ip now).1)
  | (.sweepIdle, now) => ((l.sweepIdle ttl now).2, none)

/-- The answers to the checks of a run. -/
def answers (ttl : ℚ) (l : IpRateLimiter ℚ ℚ) (calls : List (IpCall × ℚ)) : List Bool :=
  (outputs (IpRateLimiter.call ttl) l calls).reduceOption

/-- The same run without any sweep. -/
def withoutSweeps (calls : List (IpCall × ℚ)) : List (IpCall × ℚ) :=
  calls.filter fun c => decide (c.1 ≠ .sweepIdle)

/-- A registry with the connections of each address that were tracked and have not been
untracked, and with the time of the last call. -/
structure Tracking where
  limiter : IpRateLimiter ℚ ℚ
  live : IpAddr → ℕ
  now : ℚ

namespace Tracking

def new (ratePerSec burst now : ℚ) : Tracking := ⟨.new ratePerSec burst, fun _ => 0, now⟩

/-- A call, with the connections counted. -/
def step (ttl : ℚ) (t : Tracking) (c : IpCall × ℚ) : Tracking × Option Bool :=
  ({ limiter := (t.limiter.call ttl c).1
     live := match c.1 with
      | .track ip => Function.update t.live ip (t.live ip + 1)
      | .untrack ip => Function.update t.live ip (t.live ip - 1)
      | _ => t.live
     now := c.2 }, (t.limiter.call ttl c).2)

end Tracking

/-- The calls that are made: at times that do not go back, and checks for addresses that have a
connection. -/
def Timely (t : Tracking) (c : IpCall × ℚ) : Prop :=
  t.now ≤ c.2 ∧ ∀ ip, c.1 = .check ip → 0 < t.live ip

/-- A `u32` counts the connections of an address. -/
def Countable (t : Tracking) (c : IpCall × ℚ) : Prop :=
  ∀ ip, c.1 = .track ip → t.live ip + 1 < 2 ^ 32

/-- An address with a connection has its bucket, before a call and after it. -/
def Kept (ttl : ℚ) (t : Tracking) (c : IpCall × ℚ) : Prop :=
  ∀ ip, (0 < t.live ip → ip ∈ t.limiter.map) ∧
    (0 < (t.step ttl c).1.live ip → ip ∈ (t.step ttl c).1.limiter.map)

/-! ## Buckets that cannot be told apart -/

namespace RateLimiter

/-- Two buckets of one kind that have the same at every instant from `now` on. -/
structure Alike (rate burst now : ℚ) (b b' : RateLimiter ℚ ℚ) : Prop where
  maxTokens : b.maxTokens = burst
  maxTokens' : b'.maxTokens = burst
  refillRate : b.refillRate = rate
  refillRate' : b'.refillRate = rate
  level : ∀ t, now ≤ t → b.level t = b'.level t

section Alike

variable {rate burst now t : ℚ} {b b' : RateLimiter ℚ ℚ}

theorem Alike.later (h : Alike rate burst now b b') (ht : now ≤ t) : Alike rate burst t b b' :=
  ⟨h.maxTokens, h.maxTokens', h.refillRate, h.refillRate',
    fun u hu => h.level u (ht.trans hu)⟩

/-- Buckets that are alike are one bucket once they are looked at. -/
theorem Alike.check (h : Alike rate burst now b b') : b.check now = b'.check now := by
  have hrefill : b.refill now = b'.refill now := by
    have hlevel := h.level now le_rfl
    show (⟨b.level now, b.maxTokens, b.refillRate, now⟩ : RateLimiter ℚ ℚ) =
      ⟨b'.level now, b'.maxTokens, b'.refillRate, now⟩
    rw [hlevel, h.maxTokens, h.maxTokens', h.refillRate, h.refillRate']
  unfold RateLimiter.check
  rw [hrefill]

/-- A new bucket is full. -/
theorem level_new (hrate : 0 < rate) : (new rate burst now).level t = burst := by
  rw [level_eq]
  show min (burst + max 0 (t - now) * rate) burst = burst
  apply min_eq_right
  have helapsed : 0 ≤ max 0 (t - now) := le_max_left _ _
  have hfilled : 0 ≤ max 0 (t - now) * rate := mul_nonneg helapsed hrate.le
  linarith

/-- A bucket that has not been looked at for as long as it takes to fill is full. -/
theorem level_idle (hrate : 0 < rate) (hmax : b.maxTokens = burst) (hrefill : b.refillRate = rate)
    (htokens : min 0 burst ≤ b.tokens) (hidle : burst / rate ≤ t - b.lastRefill)
    (hlast : b.lastRefill ≤ t) : b.level t = burst := by
  rw [level_eq, hmax, hrefill, max_eq_right (sub_nonneg.2 hlast)]
  apply min_eq_right
  have hfilled : burst ≤ (t - b.lastRefill) * rate := (div_le_iff₀ hrate).1 hidle
  have hpos : 0 ≤ (t - b.lastRefill) * rate := mul_nonneg (sub_nonneg.2 hlast) hrate.le
  rcases min_le_iff.1 htokens with h | h <;> linarith

end Alike

end RateLimiter

/-! ## The two registries -/

/-- An entry of an address with `live` connections: its bucket has no debt, and was last looked
at before the address was last active. -/
structure EntrySound (rate burst now : ℚ) (live : ℕ) (e : IpEntry ℚ ℚ) : Prop where
  refcount : e.refcount = live
  maxTokens : e.limiter.maxTokens = burst
  refillRate : e.limiter.refillRate = rate
  noDebt : min 0 burst ≤ e.limiter.tokens
  looked : e.limiter.lastRefill ≤ e.lastActive
  active : e.lastActive ≤ now

/-- What a registry that sweeps has for an address with `live` connections: a sound entry, or
nothing if there are none. -/
def EntryFor (rate burst now : ℚ) (live : ℕ) : Option (IpEntry ℚ ℚ) → Prop
  | some e => EntrySound rate burst now live e
  | none => live = 0

/-- What is known of a registry that sweeps. -/
structure Tracking.Sound (rate burst : ℚ) (t : Tracking) : Prop where
  rates : t.limiter.ratePerSec = rate ∧ t.limiter.burst = burst
  entry : ∀ ip, EntryFor rate burst t.now (t.live ip) (t.limiter.map.lookup ip)

/-- What one registry has for an address, beside what the other has that never sweeps. -/
def EntryAlike (rate burst now : ℚ) : Option (IpEntry ℚ ℚ) → Option (IpEntry ℚ ℚ) → Prop
  | some e, some e' => e.refcount = e'.refcount ∧
      RateLimiter.Alike rate burst now e.limiter e'.limiter
  | none, some e' => e'.refcount = 0 ∧
      RateLimiter.Alike rate burst now (.new rate burst now) e'.limiter
  | none, none => True
  | some _, none => False

/-- A registry that sweeps beside one that does not. -/
structure Swept (rate burst now : ℚ) (l l' : IpRateLimiter ℚ ℚ) : Prop where
  rates : l'.ratePerSec = rate ∧ l'.burst = burst
  entry : ∀ ip, EntryAlike rate burst now (l.map.lookup ip) (l'.map.lookup ip)

section Steps

variable {rate burst ttl now : ℚ} {t : Tracking} {l l' : IpRateLimiter ℚ ℚ} {ip : IpAddr}
  {e e' : Option (IpEntry ℚ ℚ)}

theorem EntryAlike.later {u : ℚ} (hrate : 0 < rate) (h : EntryAlike rate burst now e e')
    (hu : now ≤ u) : EntryAlike rate burst u e e' := by
  cases e with
  | some e =>
    cases e' with
    | some e' => exact ⟨h.1, h.2.later hu⟩
    | none => exact h
  | none =>
    cases e' with
    | none => trivial
    | some e' =>
      obtain ⟨hcount, halike⟩ := h
      refine ⟨hcount, rfl, halike.maxTokens', rfl, halike.refillRate', fun v hv => ?_⟩
      rw [RateLimiter.level_new hrate, ← halike.level v (hu.trans hv),
        RateLimiter.level_new hrate]

/-- A check leaves no debt. -/
theorem check_tokens {b : RateLimiter ℚ ℚ} (hrate : 0 ≤ b.refillRate)
    (htokens : min 0 b.maxTokens ≤ b.tokens) (now : ℚ) :
    min 0 b.maxTokens ≤ (b.check now).2.tokens := by
  have hlevel : min 0 b.maxTokens ≤ b.level now := by
    rw [RateLimiter.level_eq]
    apply le_min _ (min_le_right _ _)
    have hfilled : 0 ≤ max 0 (now - b.lastRefill) * b.refillRate :=
      mul_nonneg (le_max_left _ _) hrate
    linarith
  rw [RateLimiter.check_eq]
  split
  · rename_i htoken
    show min 0 b.maxTokens ≤ b.level now - 1
    have hzero : min 0 b.maxTokens ≤ 0 := min_le_left _ _
    linarith
  · exact hlevel

/-- What a check leaves of a bucket's kind. -/
theorem check_kind (b : RateLimiter ℚ ℚ) (now : ℚ) : (b.check now).2.maxTokens = b.maxTokens ∧
    (b.check now).2.refillRate = b.refillRate ∧ (b.check now).2.lastRefill = now := by
  rw [RateLimiter.check_eq]
  split <;> exact ⟨rfl, rfl, rfl⟩

/-! ### What a call leaves in the table -/

theorem lookup_track (l : IpRateLimiter ℚ ℚ) (ip x : IpAddr) (now : ℚ) :
    (l.track ip now).map.lookup x = if x = ip then
      some ⟨((l.map.lookup ip).getD (l.freshEntry now)).limiter,
        min (((l.map.lookup ip).getD (l.freshEntry now)).refcount + 1) (2 ^ 32 - 1), now⟩
    else l.map.lookup x := lookup_insert_if _ _ _ _

theorem lookup_untrack (l : IpRateLimiter ℚ ℚ) (ip x : IpAddr) (now : ℚ) :
    (l.untrack ip now).map.lookup x = if x = ip then
      (l.map.lookup ip).map fun e => ⟨e.limiter, e.refcount - 1, now⟩
    else l.map.lookup x := lookup_modify _ _ _ _

theorem lookup_check (l : IpRateLimiter ℚ ℚ) (ip x : IpAddr) (now : ℚ) :
    (l.check ip now).2.map.lookup x = if x = ip then
      (l.map.lookup ip).map fun e => ⟨(e.limiter.check now).2, e.refcount, now⟩
    else l.map.lookup x := by
  unfold IpRateLimiter.check
  cases he : l.map.lookup ip with
  | some e => exact lookup_insert_if _ _ _ _
  | none =>
    by_cases hx : x = ip
    · rw [if_pos hx, hx]
      exact he
    · exact (if_neg hx).symm

theorem lookup_sweepIdle (l : IpRateLimiter ℚ ℚ) (x : IpAddr) (ttl now : ℚ) :
    (l.sweepIdle ttl now).2.map.lookup x = (l.map.lookup x).filter fun e =>
      decide (0 < e.refcount) || decide (Clock.since now e.lastActive < ttl) :=
  lookup_retain _ _ _

theorem call_rates (ttl : ℚ) (l : IpRateLimiter ℚ ℚ) (c : IpCall × ℚ) :
    (l.call ttl c).1.ratePerSec = l.ratePerSec ∧ (l.call ttl c).1.burst = l.burst := by
  obtain ⟨c, now⟩ := c
  cases c with
  | track ip => exact ⟨rfl, rfl⟩
  | untrack ip => exact ⟨rfl, rfl⟩
  | sweepIdle => exact ⟨rfl, rfl⟩
  | check ip =>
    show (l.check ip now).2.ratePerSec = _ ∧ (l.check ip now).2.burst = _
    unfold IpRateLimiter.check
    split <;> exact ⟨rfl, rfl⟩

/-! ### The registry that sweeps -/

section Entry

variable {live live' : ℕ} {e : IpEntry ℚ ℚ} {found : Option (IpEntry ℚ ℚ)}

theorem EntryFor.later {u : ℚ} (h : EntryFor rate burst now live found) (hu : now ≤ u) :
    EntryFor rate burst u live found := by
  cases found with
  | some e => exact ⟨h.refcount, h.maxTokens, h.refillRate, h.noDebt, h.looked, h.active.trans hu⟩
  | none => exact h

/-- An entry whose count changes at an instant. -/
theorem EntrySound.counted (h : EntrySound rate burst now live e) :
    EntrySound rate burst now live' ⟨e.limiter, live', now⟩ :=
  ⟨rfl, h.maxTokens, h.refillRate, h.noDebt, h.looked.trans h.active, le_rfl⟩

/-- An entry whose bucket is asked at an instant. -/
theorem EntrySound.checked (hrate : 0 < rate) (h : EntrySound rate burst now live e) :
    EntrySound rate burst now live ⟨(e.limiter.check now).2, e.refcount, now⟩ := by
  obtain ⟨hmax, hrefill, hlast⟩ := check_kind e.limiter now
  refine ⟨h.refcount, hmax.trans h.maxTokens, hrefill.trans h.refillRate, ?_, hlast.le, le_rfl⟩
  have htokens := check_tokens (b := e.limiter) (h.refillRate ▸ hrate.le)
    (h.maxTokens ▸ h.noDebt) now
  rwa [h.maxTokens] at htokens

/-- The entry that a call finds or makes for an address. -/
theorem EntryFor.getD (hrates : l.ratePerSec = rate ∧ l.burst = burst)
    (h : EntryFor rate burst now live found) :
    EntrySound rate burst now live (found.getD (l.freshEntry now)) := by
  cases found with
  | some e => exact h
  | none =>
    cases h
    exact ⟨rfl, hrates.2, hrates.1, hrates.2 ▸ min_le_right _ _, le_rfl, le_rfl⟩

theorem EntryFor.tracked (hrates : l.ratePerSec = rate ∧ l.burst = burst)
    (h : EntryFor rate burst now live found) (hfits : live + 1 < 2 ^ 32) :
    EntryFor rate burst now (live + 1) (some ⟨(found.getD (l.freshEntry now)).limiter,
      min ((found.getD (l.freshEntry now)).refcount + 1) (2 ^ 32 - 1), now⟩) := by
  have hfound := h.getD hrates
  rw [hfound.refcount, min_eq_left (by omega)]
  exact hfound.counted

theorem EntryFor.untracked (h : EntryFor rate burst now live found) :
    EntryFor rate burst now (live - 1)
      (found.map fun e => ⟨e.limiter, e.refcount - 1, now⟩) := by
  cases found with
  | none =>
    show live - 1 = 0
    rw [show live = 0 from h]
  | some e =>
    have hsound : EntrySound rate burst now live e := h
    rw [Option.map_some, hsound.refcount]
    exact hsound.counted

theorem EntryFor.checked (hrate : 0 < rate) (h : EntryFor rate burst now live found) :
    EntryFor rate burst now live
      (found.map fun e => ⟨(e.limiter.check now).2, e.refcount, now⟩) := by
  cases found with
  | none => exact h
  | some e => exact EntrySound.checked hrate h

/-- What is swept has no connections. -/
theorem EntryFor.swept (h : EntryFor rate burst now live found) :
    EntryFor rate burst now live (found.filter fun e =>
      decide (0 < e.refcount) || decide (Clock.since now e.lastActive < ttl)) := by
  cases found with
  | none => exact h
  | some e =>
    have hsound : EntrySound rate burst now live e := h
    rw [Option.filter_some]
    split
    · exact hsound
    · rename_i hidle
      show live = 0
      rw [← hsound.refcount]
      by_contra hlive
      apply hidle
      rw [decide_eq_true (Nat.pos_of_ne_zero hlive), Bool.true_or]

end Entry

theorem sound_step (ttl : ℚ) (hrate : 0 < rate) (h : t.Sound rate burst) {c : IpCall × ℚ}
    (htime : Timely t c) (hcount : Countable t c) : (t.step ttl c).1.Sound rate burst := by
  have hrates := call_rates ttl t.limiter c
  refine ⟨⟨hrates.1.trans h.rates.1, hrates.2.trans h.rates.2⟩, fun x => ?_⟩
  obtain ⟨c, now⟩ := c
  have hentry : EntryFor rate burst now (t.live x) (t.limiter.map.lookup x) :=
    (h.entry x).later htime.1
  cases c with
  | track ip =>
    show EntryFor rate burst now (Function.update t.live ip (t.live ip + 1) x)
      ((t.limiter.track ip now).map.lookup x)
    rw [lookup_track]
    by_cases hx : x = ip
    · subst hx
      rw [if_pos rfl, Function.update_self]
      exact hentry.tracked h.rates (hcount x rfl)
    · rw [if_neg hx, Function.update_of_ne hx]
      exact hentry
  | untrack ip =>
    show EntryFor rate burst now (Function.update t.live ip (t.live ip - 1) x)
      ((t.limiter.untrack ip now).map.lookup x)
    rw [lookup_untrack]
    by_cases hx : x = ip
    · subst hx
      rw [if_pos rfl, Function.update_self]
      exact hentry.untracked
    · rw [if_neg hx, Function.update_of_ne hx]
      exact hentry
  | check ip =>
    show EntryFor rate burst now (t.live x) ((t.limiter.check ip now).2.map.lookup x)
    rw [lookup_check]
    by_cases hx : x = ip
    · subst hx
      rw [if_pos rfl]
      exact hentry.checked hrate
    · rw [if_neg hx]
      exact hentry
  | sweepIdle =>
    show EntryFor rate burst now (t.live x) ((t.limiter.sweepIdle ttl now).2.map.lookup x)
    rw [lookup_sweepIdle]
    exact hentry.swept

theorem kept_step (h : t.Sound rate burst) {c : IpCall × ℚ}
    (hnext : (t.step ttl c).1.Sound rate burst) : Kept ttl t c := by
  have hpresent : ∀ {t : Tracking}, t.Sound rate burst → ∀ ip, 0 < t.live ip →
      ip ∈ t.limiter.map := by
    intro t h ip hlive
    have hentry := h.entry ip
    rw [mem_iff_lookup]
    cases hfound : t.limiter.map.lookup ip with
    | some e => exact ⟨e, rfl⟩
    | none =>
      rw [hfound] at hentry
      exact absurd hentry hlive.ne'
  exact fun ip => ⟨hpresent h ip, hpresent hnext ip⟩

/-! ### The registry that does not -/

/-- A bucket that a sweep forgets is full from then on. -/
theorem level_swept (hrate : 0 < rate) (httl : burst / rate ≤ ttl) {live : ℕ} {e : IpEntry ℚ ℚ}
    (h : EntrySound rate burst now live e) (hidle : ¬ Clock.since now e.lastActive < ttl) {u : ℚ}
    (hu : now ≤ u) : e.limiter.level u = burst := by
  have hlooked := h.looked
  have hactive := h.active
  have hsince : ttl ≤ max 0 (now - e.lastActive) := not_lt.1 hidle
  rw [max_eq_right (by linarith)] at hsince
  exact RateLimiter.level_idle hrate h.maxTokens h.refillRate h.noDebt (by linarith) (by linarith)

/-- A bucket is like itself. -/
theorem EntrySound.alike {live : ℕ} {e : IpEntry ℚ ℚ} (h : EntrySound rate burst now live e) :
    RateLimiter.Alike rate burst now e.limiter e.limiter :=
  ⟨h.maxTokens, h.maxTokens, h.refillRate, h.refillRate, fun _ _ => rfl⟩

/-- The entries that a `track` finds or makes are alike. -/
theorem EntryAlike.getD (h : EntryAlike rate burst now e e')
    (hrates : l.ratePerSec = rate ∧ l.burst = burst)
    (hrates' : l'.ratePerSec = rate ∧ l'.burst = burst) :
    (e.getD (l.freshEntry now)).refcount = (e'.getD (l'.freshEntry now)).refcount ∧
      RateLimiter.Alike rate burst now (e.getD (l.freshEntry now)).limiter
        (e'.getD (l'.freshEntry now)).limiter := by
  have hfresh : ∀ {l : IpRateLimiter ℚ ℚ}, l.ratePerSec = rate ∧ l.burst = burst →
      l.freshEntry now = ⟨.new rate burst now, 0, now⟩ := by
    rintro l ⟨rfl, rfl⟩
    rfl
  rw [hfresh hrates, hfresh hrates']
  cases e with
  | some e =>
    cases e' with
    | some e' => exact h
    | none => exact absurd h id
  | none =>
    cases e' with
    | some e' => exact ⟨h.1.symm, h.2⟩
    | none => exact ⟨rfl, rfl, rfl, rfl, rfl, fun _ _ => rfl⟩

theorem EntryAlike.untracked (h : EntryAlike rate burst now e e') :
    EntryAlike rate burst now (e.map fun e => ⟨e.limiter, e.refcount - 1, now⟩)
      (e'.map fun e => ⟨e.limiter, e.refcount - 1, now⟩) := by
  cases e with
  | none =>
    cases e' with
    | none => trivial
    | some e' => exact ⟨congrArg (· - 1) h.1, h.2⟩
  | some e =>
    cases e' with
    | none => exact h
    | some e' => exact ⟨congrArg (· - 1) h.1, h.2⟩

theorem swept_track (h : t.Sound rate burst) {x : IpAddr}
    (hentry : ∀ x, EntryAlike rate burst now (t.limiter.map.lookup x) (l'.map.lookup x))
    (hrates : l'.ratePerSec = rate ∧ l'.burst = burst) :
    EntryAlike rate burst now ((t.limiter.track ip now).map.lookup x)
      ((l'.track ip now).map.lookup x) := by
  rw [lookup_track, lookup_track]
  by_cases hx : x = ip
  · obtain ⟨hcount, halike⟩ := (hentry ip).getD h.rates hrates
    rw [if_pos hx, if_pos hx, hcount]
    exact ⟨rfl, halike⟩
  · rw [if_neg hx, if_neg hx]
    exact hentry x

theorem swept_untrack {x : IpAddr}
    (hentry : ∀ x, EntryAlike rate burst now (l.map.lookup x) (l'.map.lookup x)) :
    EntryAlike rate burst now ((l.untrack ip now).map.lookup x)
      ((l'.untrack ip now).map.lookup x) := by
  rw [lookup_untrack, lookup_untrack]
  by_cases hx : x = ip
  · rw [if_pos hx, if_pos hx]
    exact (hentry ip).untracked
  · rw [if_neg hx, if_neg hx]
    exact hentry x

/-- An address with a connection has its bucket on both sides, and gets the same answer. -/
theorem swept_check (hrate : 0 < rate)
    (hfound : EntryFor rate burst now (t.live ip) (t.limiter.map.lookup ip))
    (hentry : ∀ x, EntryAlike rate burst now (t.limiter.map.lookup x) (l'.map.lookup x))
    (hlive : 0 < t.live ip) :
    (t.limiter.check ip now).1 = (l'.check ip now).1 ∧
      ∀ x, EntryAlike rate burst now ((t.limiter.check ip now).2.map.lookup x)
        ((l'.check ip now).2.map.lookup x) := by
  have hip := hentry ip
  cases hl : t.limiter.map.lookup ip with
  | none =>
    rw [hl] at hfound
    exact absurd hfound hlive.ne'
  | some e =>
    rw [hl] at hfound hip
    cases hl' : l'.map.lookup ip with
    | none =>
      rw [hl'] at hip
      exact absurd hip id
    | some e' =>
      rw [hl'] at hip
      have hcheck := hip.2.check
      refine ⟨?_, fun x => ?_⟩
      · unfold IpRateLimiter.check
        rw [hl, hl']
        dsimp only
        rw [hcheck]
      · rw [lookup_check, lookup_check]
        by_cases hx : x = ip
        · rw [if_pos hx, if_pos hx, hl, hl']
          refine ⟨hip.1, ?_⟩
          show RateLimiter.Alike rate burst now (e.limiter.check now).2 (e'.limiter.check now).2
          rw [← hcheck]
          exact (EntrySound.checked hrate hfound).alike
        · rw [if_neg hx, if_neg hx]
          exact hentry x

/-- A call that is no sweep keeps the two registries alike, and gets the same answer. -/
theorem swept_call (ttl : ℚ) (hrate : 0 < rate) (h : t.Sound rate burst)
    (hswept : Swept rate burst t.now t.limiter l') {c : IpCall × ℚ} (htime : Timely t c)
    (hsweep : c.1 ≠ .sweepIdle) :
    (t.limiter.call ttl c).2 = (l'.call ttl c).2 ∧
      Swept rate burst c.2 (t.limiter.call ttl c).1 (l'.call ttl c).1 := by
  have hrates := call_rates ttl l' c
  have hrates' := And.intro (hrates.1.trans hswept.rates.1) (hrates.2.trans hswept.rates.2)
  obtain ⟨c, now⟩ := c
  have hentry : ∀ x, EntryAlike rate burst now (t.limiter.map.lookup x) (l'.map.lookup x) :=
    fun x => (hswept.entry x).later hrate htime.1
  cases c with
  | track ip => exact ⟨rfl, hrates', fun x => swept_track h hentry hswept.rates⟩
  | untrack ip => exact ⟨rfl, hrates', fun x => swept_untrack hentry⟩
  | check ip =>
    -- Only addresses with a connection are checked.
    obtain ⟨hanswer, halike⟩ :=
      swept_check hrate ((h.entry ip).later htime.1) hentry (htime.2 ip rfl)
    exact ⟨congrArg some hanswer, hrates', halike⟩
  | sweepIdle => exact absurd rfl hsweep

/-- A sweep keeps the two registries alike. -/
theorem swept_sweep (hrate : 0 < rate) (httl : burst / rate ≤ ttl) (h : t.Sound rate burst)
    (hswept : Swept rate burst t.now t.limiter l') (hnow : t.now ≤ now) :
    Swept rate burst now (t.limiter.sweepIdle ttl now).2 l' := by
  refine ⟨hswept.rates, fun x => ?_⟩
  have hentry := (hswept.entry x).later hrate hnow
  have hfound := (h.entry x).later hnow
  rw [lookup_sweepIdle]
  cases hl : t.limiter.map.lookup x with
  | none =>
    rw [hl] at hentry
    exact hentry
  | some e =>
    rw [hl] at hentry hfound
    rw [Option.filter_some]
    split
    · exact hentry
    · rename_i hgone
      rw [Bool.or_eq_true, not_or, decide_eq_true_eq, decide_eq_true_eq] at hgone
      cases hl' : l'.map.lookup x with
      | none => trivial
      | some e' =>
        rw [hl'] at hentry
        obtain ⟨hcount, halike⟩ := hentry
        refine ⟨?_, rfl, halike.maxTokens', rfl, halike.refillRate', fun u hu => ?_⟩
        · rw [← hcount]
          exact Nat.eq_zero_of_not_pos hgone.1
        · rw [RateLimiter.level_new hrate, ← halike.level u hu,
            level_swept hrate httl hfound hgone.2 hu]

/-- The answers with and without sweeps. -/
theorem answers_withoutSweeps (hrate : 0 < rate) (httl : burst / rate ≤ ttl)
    {calls : List (IpCall × ℚ)} (h : t.Sound rate burst)
    (hswept : Swept rate burst t.now t.limiter l')
    (htime : Along (Tracking.step ttl) Timely t calls)
    (hcount : Along (Tracking.step ttl) Countable t calls) :
    answers ttl t.limiter calls = answers ttl l' (withoutSweeps calls) := by
  induction calls generalizing t l' with
  | nil => rfl
  | cons c calls ih =>
    have hnext := sound_step ttl hrate h htime.1 hcount.1
    by_cases hsweep : c.1 = .sweepIdle
    · obtain ⟨c, now⟩ := c
      cases hsweep
      exact ih hnext (swept_sweep hrate httl h hswept htime.1.1) htime.2 hcount.2
    · obtain ⟨hanswer, hswept'⟩ := swept_call ttl hrate h hswept htime.1 hsweep
      have hfilter : withoutSweeps (c :: calls) = c :: withoutSweeps calls :=
        List.filter_cons_of_pos (decide_eq_true hsweep)
      have hrest := ih hnext hswept' htime.2 hcount.2
      rw [hfilter]
      unfold answers at hrest ⊢
      rw [outputs, outputs, ← hanswer]
      cases (t.limiter.call ttl c).2 with
      | none => exact hrest
      | some answer => exact congrArg (answer :: ·) hrest

end Steps

theorem sound_tracking_new (rate burst start : ℚ) :
    (Tracking.new rate burst start).Sound rate burst where
  rates := ⟨rfl, rfl⟩
  entry _ := rfl

/-- **Sweeps cannot be observed**: with a positive rate, and a time to live in which a bucket
fills up, every run of calls gets the same answers with its sweeps as without them; and in
every state of it, an address with a connection has its bucket. -/
theorem sweep_unobservable {rate burst ttl : ℚ} (hrate : 0 < rate) (httl : burst / rate ≤ ttl)
    (start : ℚ) {calls : List (IpCall × ℚ)}
    (htime : Along (Tracking.step ttl) Timely (.new rate burst start) calls)
    (hcount : Along (Tracking.step ttl) Countable (.new rate burst start) calls) :
    answers ttl (.new rate burst) calls = answers ttl (.new rate burst) (withoutSweeps calls) ∧
      Along (Tracking.step ttl) (Kept ttl) (.new rate burst start) calls := by
  constructor
  · refine answers_withoutSweeps (t := .new rate burst start) hrate httl
      (sound_tracking_new _ _ _) ?_
      htime hcount
    exact ⟨⟨rfl, rfl⟩, fun _ => trivial⟩
  · have hall : ∀ {t : Tracking}, t.Sound rate burst → Along (Tracking.step ttl) Timely t calls →
        Along (Tracking.step ttl) Countable t calls →
          Along (Tracking.step ttl) (Kept ttl) t calls := by
      clear htime hcount
      induction calls with
      | nil => exact fun _ _ _ => trivial
      | cons c calls ih =>
        intro t h htime hcount
        have hnext := sound_step ttl hrate h htime.1 hcount.1
        exact ⟨kept_step h hnext, ih hnext htime.2 hcount.2⟩
    exact hall (sound_tracking_new _ _ _) htime hcount

/-- With the server's own limits: an address comes back after its bucket was swept. -/
theorem sweep_unobservable_server :
    answers 300 (.new 30 60) [(.track (.v4 1), 0), (.check (.v4 1), 1), (.untrack (.v4 1), 2),
        (.sweepIdle, 400), (.track (.v4 1), 401), (.check (.v4 1), 401)] =
      answers 300 (.new 30 60) (withoutSweeps [(.track (.v4 1), 0), (.check (.v4 1), 1),
        (.untrack (.v4 1), 2), (.sweepIdle, 400), (.track (.v4 1), 401), (.check (.v4 1), 401)]) ∧
      Along (Tracking.step 300) (Kept 300) (.new 30 60 0) [(.track (.v4 1), 0),
        (.check (.v4 1), 1), (.untrack (.v4 1), 2), (.sweepIdle, 400), (.track (.v4 1), 401),
        (.check (.v4 1), 401)] := by
  refine sweep_unobservable (by norm_num) (by norm_num) 0 ?_ ?_
  · refine ⟨⟨by decide +kernel, ?_⟩, ⟨by decide +kernel, ?_⟩, ⟨by decide +kernel, ?_⟩,
      ⟨by decide +kernel, ?_⟩, ⟨by decide +kernel, ?_⟩, ⟨by decide +kernel, ?_⟩, trivial⟩ <;>
      rintro ip ⟨⟩ <;> decide +kernel
  · refine ⟨?_, ?_, ?_, ?_, ?_, ?_, trivial⟩ <;> rintro ip ⟨⟩ <;> decide +kernel

/-! ## A count that overflows -/

/-- The registry with one full bucket. -/
def oneEntry (ip : IpAddr) (refcount : ℕ) : IpRateLimiter ℚ ℚ :=
  ⟨1, 1, Finmap.insert ip ⟨.new 1 1 0, refcount, 0⟩ ∅⟩

/-- Connections of one address: some come, some of them go, and later there is a sweep and one
of the others sends two commands. -/
def churn (ip : IpAddr) (come go : ℕ) : List (IpCall × ℚ) :=
  (.track ip, 0) :: (List.replicate come (.track ip, 0) ++
    (List.replicate go (.untrack ip, 0) ++ [(.sweepIdle, 1), (.check ip, 1), (.check ip, 1)]))

section Overflow

variable {ip : IpAddr} {refcount come go : ℕ} {rest : List (IpCall × ℚ)} {t : Tracking}

theorem answers_come (hle : refcount ≤ 2 ^ 32 - 1) :
    answers 1 (oneEntry ip refcount) (List.replicate come (.track ip, 0) ++ rest) =
      answers 1 (oneEntry ip (min (refcount + come) (2 ^ 32 - 1))) rest := by
  induction come generalizing refcount with
  | zero => rw [Nat.add_zero, min_eq_left hle, List.replicate_zero, List.nil_append]
  | succ come ih =>
    have htrack : (oneEntry ip refcount).track ip 0 =
        oneEntry ip (min (refcount + 1) (2 ^ 32 - 1)) := by
      unfold IpRateLimiter.track oneEntry
      simp only [Finmap.lookup_insert, Option.getD_some, Finmap.insert_insert]
    rw [List.replicate_succ, List.cons_append]
    show answers 1 ((oneEntry ip refcount).track ip 0) _ = _
    rw [htrack, ih (min_le_right _ _)]
    congr 2
    omega

theorem answers_go : answers 1 (oneEntry ip refcount)
      (List.replicate go (.untrack ip, 0) ++ rest) =
    answers 1 (oneEntry ip (refcount - go)) rest := by
  induction go generalizing refcount with
  | zero => rfl
  | succ go ih =>
    have huntrack : (oneEntry ip refcount).untrack ip 0 = oneEntry ip (refcount - 1) := by
      unfold IpRateLimiter.untrack oneEntry Table.modify
      simp only [Finmap.lookup_insert, Finmap.insert_insert]
    rw [List.replicate_succ, List.cons_append]
    show answers 1 ((oneEntry ip refcount).untrack ip 0) _ = _
    rw [huntrack, ih]
    congr 2
    omega

/-- Calls that are no checks are timely at any time that does not go back. -/
theorem timely_replicate {c : IpCall} {n : ℕ} (hc : ∀ ip, c ≠ .check ip) (ht : t.now = 0)
    (hrest : Along (Tracking.step 1) Timely
      (after (Tracking.step 1) t (List.replicate n (c, 0))) rest) :
    Along (Tracking.step 1) Timely t (List.replicate n (c, 0) ++ rest) := by
  induction n generalizing t with
  | zero => exact hrest
  | succ n ih => exact ⟨⟨ht.le, fun ip h => absurd h (hc ip)⟩, ih rfl hrest⟩

theorem live_come : (after (Tracking.step 1) t (List.replicate come (.track ip, 0))).live ip =
    t.live ip + come := by
  induction come generalizing t with
  | zero => rfl
  | succ come ih =>
    rw [List.replicate_succ, after, ih]
    show Function.update t.live ip (t.live ip + 1) ip + come = _
    rw [Function.update_self]
    omega

theorem live_go : (after (Tracking.step 1) t (List.replicate go (.untrack ip, 0))).live ip =
    t.live ip - go := by
  induction go generalizing t with
  | zero => rfl
  | succ go ih =>
    rw [List.replicate_succ, after, ih]
    show Function.update t.live ip (t.live ip - 1) ip - go = _
    rw [Function.update_self]
    omega

theorem now_replicate {c : IpCall} {n : ℕ} (ht : t.now = 0) :
    (after (Tracking.step 1) t (List.replicate n (c, 0))).now = 0 := by
  induction n generalizing t with
  | zero => exact ht
  | succ n ih => exact ih rfl

/-- If some connection stays, its commands are timely. -/
theorem timely_churn (hstays : go ≤ come) :
    Along (Tracking.step 1) Timely (.new 1 1 0) (churn ip come go) := by
  have hzero : ((Tracking.new 1 1 0).step 1 (.track ip, 0)).1.now = 0 := rfl
  refine ⟨⟨le_rfl, fun ip h => by cases h⟩, ?_⟩
  apply timely_replicate (by simp) hzero
  apply timely_replicate (by simp) (now_replicate hzero)
  generalize hend : after (Tracking.step 1) (after (Tracking.step 1)
    ((Tracking.new 1 1 0).step 1 (.track ip, 0)).1 _) _ = t
  have hlive : t.live ip = 1 + come - go := by
    rw [← hend, live_go, live_come]
    show Function.update (fun _ => 0) ip (0 + 1) ip + come - go = _
    rw [Function.update_self]
  have hnow : t.now = 0 := by
    rw [← hend]
    exact now_replicate (now_replicate hzero)
  have hcheck : ∀ x, IpCall.check ip = .check x → 0 < t.live x := by
    rintro x ⟨⟩
    omega
  exact ⟨⟨hnow.le.trans zero_le_one, fun x h => by cases h⟩, ⟨le_rfl, hcheck⟩,
    ⟨le_rfl, hcheck⟩, trivial⟩

theorem answers_churn (ip : IpAddr) (come go : ℕ) :
    answers 1 (.new 1 1) (churn ip come go) =
      answers 1 (oneEntry ip (min (1 + come) (2 ^ 32 - 1) - go))
        [(.sweepIdle, 1), (.check ip, 1), (.check ip, 1)] := by
  show answers 1 (oneEntry ip 1) _ = _
  rw [answers_come (by decide), answers_go]

theorem answers_churn_withoutSweeps (ip : IpAddr) (come go : ℕ) :
    answers 1 (.new 1 1) (withoutSweeps (churn ip come go)) =
      answers 1 (oneEntry ip (min (1 + come) (2 ^ 32 - 1) - go))
        [(.check ip, 1), (.check ip, 1)] := by
  have hfilter : withoutSweeps (churn ip come go) = (.track ip, 0) ::
      (List.replicate come (.track ip, 0) ++
        (List.replicate go (.untrack ip, 0) ++ [(.check ip, 1), (.check ip, 1)])) := by
    unfold withoutSweeps churn
    rw [List.filter_cons_of_pos (by rfl), List.filter_append, List.filter_append,
      List.filter_replicate_of_pos (by rfl), List.filter_replicate_of_pos (by rfl)]
    rfl
  rw [hfilter]
  show answers 1 (oneEntry ip 1) _ = _
  rw [answers_come (by decide), answers_go]

end Overflow

/-- An address has one connection more than a `u32` counts, and all but one of them go: the sweep
takes the bucket of the last, which may then send as much as it likes. -/
theorem saturated_count :
    Along (Tracking.step 1) Timely (.new 1 1 0) (churn (.v4 1) (2 ^ 32 - 1) (2 ^ 32 - 1)) ∧
      answers 1 (.new 1 1) (churn (.v4 1) (2 ^ 32 - 1) (2 ^ 32 - 1)) = [true, true] ∧
        answers 1 (.new 1 1) (withoutSweeps (churn (.v4 1) (2 ^ 32 - 1) (2 ^ 32 - 1))) =
          [true, false] := by
  refine ⟨timely_churn le_rfl, ?_, ?_⟩
  · rw [answers_churn]
    decide +kernel
  · rw [answers_churn_withoutSweeps]
    decide +kernel

end Server
end TcVoice
