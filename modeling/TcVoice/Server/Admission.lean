import TcVoice.Lib.Machines
import TcVoice.Server.RateLimit

/-!
# What a bucket lets through

`RateLimiter` of `crates/server/src/rate_limit.rs` over any run of checks.

* `RateLimiter.step` — a check, as a step of a machine that answers.
* `Filled` — what holds of a bucket at all times: its tokens are between zero and the burst.
* `admitted_le_level` — from an instant on, no more is let through than the bucket has then and
  gets until the end.
* `admitted_bounded` — **in every window of every run no more than the burst and what the rate
  gives in the meantime is let through**, and who keeps to the rate is never refused.
-/

namespace TcVoice
namespace Server
namespace RateLimiter

open Machines

/-- A check at an instant. -/
def step (b : RateLimiter ℚ ℚ) (now : ℚ) : RateLimiter ℚ ℚ × Bool :=
  ((b.check now).2, (b.check now).1)

/-- How many of the calls in a window of time are let through. -/
def admitted (b : RateLimiter ℚ ℚ) (times : List ℚ) (start span : ℚ) : ℕ :=
  (times.zip (outputs step b times)).countP fun call =>
    call.2 && decide (start ≤ call.1 ∧ call.1 ≤ start + span)

/-- What holds of a bucket at all times. -/
structure Filled (rate burst : ℚ) (b : RateLimiter ℚ ℚ) : Prop where
  nonneg : 0 ≤ b.tokens
  le : b.tokens ≤ burst
  maxTokens : b.maxTokens = burst
  refillRate : b.refillRate = rate

variable {rate burst : ℚ} {b : RateLimiter ℚ ℚ} {now : ℚ}

theorem filled_new (hburst : 0 ≤ burst) (start : ℚ) : (new rate burst start).Filled rate burst :=
  ⟨hburst, le_rfl, rfl, rfl⟩

theorem Filled.level_nonneg (h : b.Filled rate burst) (hrate : 0 ≤ rate) : 0 ≤ b.level now := by
  have hgained : 0 ≤ max 0 (now - b.lastRefill) * b.refillRate :=
    mul_nonneg (le_max_left _ _) (h.refillRate ▸ hrate)
  have hmax : 0 ≤ b.maxTokens := h.maxTokens ▸ h.nonneg.trans h.le
  rw [level_eq]
  exact le_min (add_nonneg h.nonneg hgained) hmax

theorem Filled.level_le_burst (h : b.Filled rate burst) : b.level now ≤ burst :=
  h.maxTokens ▸ level_le

/-- What a bucket gets in some time. -/
theorem Filled.level_later (h : b.Filled rate burst) (hrate : 0 ≤ rate) {later : ℚ}
    (hle : now ≤ later) : b.level later ≤ b.level now + rate * (later - now) := by
  have hgained : max 0 (later - b.lastRefill) ≤ max 0 (now - b.lastRefill) + (later - now) := by
    refine max_le ?_ ?_
    · have hzero : 0 ≤ max 0 (now - b.lastRefill) := le_max_left _ _
      linarith
    · have hsince : now - b.lastRefill ≤ max 0 (now - b.lastRefill) := le_max_right _ _
      linarith
  have hmul := mul_le_mul_of_nonneg_right hgained hrate
  have hspan : 0 ≤ rate * (later - now) := mul_nonneg hrate (sub_nonneg.2 hle)
  rw [level_eq, level_eq, h.refillRate, ← min_add_add_right]
  refine min_le_min ?_ ?_
  · linarith
  · linarith

/-- A check leaves a bucket between zero and the burst. -/
theorem Filled.step (h : b.Filled rate burst) (hrate : 0 ≤ rate) (now : ℚ) :
    (b.step now).1.Filled rate burst := by
  have hnonneg : 0 ≤ b.level now := h.level_nonneg hrate
  have hle : b.level now ≤ burst := h.level_le_burst
  show (b.check now).2.Filled rate burst
  rw [check_eq]
  split
  · rename_i htoken
    refine ⟨?_, ?_, h.maxTokens, h.refillRate⟩
    · show 0 ≤ b.level now - 1
      linarith
    · show b.level now - 1 ≤ burst
      linarith
  · exact ⟨hnonneg, hle, h.maxTokens, h.refillRate⟩

/-- So does every run, by induction on the calls. -/
theorem Filled.after (h : b.Filled rate burst) (hrate : 0 ≤ rate) (times : List ℚ) :
    (after RateLimiter.step b times).Filled rate burst := by
  induction times generalizing b with
  | nil => exact h
  | cons now times ih => exact ih (h.step hrate now)

/-! ## Windows -/

theorem admitted_cons (b : RateLimiter ℚ ℚ) (now : ℚ) (times : List ℚ) (start span : ℚ) :
    b.admitted (now :: times) start span =
      (b.step now).1.admitted times start span +
        if (b.check now).1 = true ∧ start ≤ now ∧ now ≤ start + span then 1 else 0 := by
  unfold admitted
  rw [outputs, List.zip_cons_cons, List.countP_cons]
  simp [step]

/-- No call counts that comes after the window. -/
theorem admitted_after {times : List ℚ} {start span : ℚ}
    (hlater : ∀ t ∈ times, start + span < t) : b.admitted times start span = 0 := by
  induction times generalizing b with
  | nil => rfl
  | cons now times ih =>
    have hnow := hlater now List.mem_cons_self
    rw [admitted_cons, ih fun t ht => hlater t (List.mem_cons_of_mem _ ht), if_neg]
    rintro ⟨-, -, hle⟩
    exact absurd hle (not_le.2 hnow)

/-- **From an instant on**, no more is let through than the bucket has then and gets until the
end of the window. -/
theorem admitted_le_level (h : b.Filled rate burst) (hrate : 0 ≤ rate) {times : List ℚ}
    (htimes : times.Pairwise (· ≤ ·)) {since start span : ℚ} (hfrom : since ≤ start + span)
    (hlater : ∀ t ∈ times, since ≤ t) :
    b.admitted times start span ≤ b.level since + rate * (start + span - since) := by
  induction times generalizing b since with
  | nil =>
    have hnonneg : 0 ≤ b.level since := h.level_nonneg hrate
    have hspan : 0 ≤ rate * (start + span - since) := mul_nonneg hrate (sub_nonneg.2 hfrom)
    show ((0 : ℕ) : ℚ) ≤ _
    rw [Nat.cast_zero]
    linarith
  | cons now times ih =>
    obtain ⟨hhead, htail⟩ := List.pairwise_cons.1 htimes
    have hnow : since ≤ now := hlater now List.mem_cons_self
    by_cases hin : now ≤ start + span
    · have hrest := ih (h.step hrate now) htail hin hhead
      have hgot := h.level_later hrate hnow
      have hlevel : (b.step now).1.level now = b.level now - if (b.check now).1 then 1 else 0 :=
        level_check
      have hcount : (if (b.check now).1 = true ∧ start ≤ now ∧ now ≤ start + span
          then 1 else 0 : ℕ) ≤ if (b.check now).1 then 1 else 0 := by
        split_ifs <;> simp_all
      have hcast : ((if (b.check now).1 then 1 else 0 : ℕ) : ℚ) =
          if (b.check now).1 then 1 else 0 := by
        split <;> simp
      have hcount' := (Nat.cast_le (α := ℚ)).2 hcount
      rw [hcast] at hcount'
      rw [admitted_cons, Nat.cast_add]
      rw [hlevel] at hrest
      linarith
    · have hzero : b.admitted (now :: times) start span = 0 := by
        apply admitted_after
        intro t ht
        rcases List.mem_cons.1 ht with rfl | hmem
        · exact not_le.1 hin
        · exact (not_le.1 hin).trans_le (hhead t hmem)
      have hnonneg : 0 ≤ b.level since := h.level_nonneg hrate
      have hspan : 0 ≤ rate * (start + span - since) := mul_nonneg hrate (sub_nonneg.2 hfrom)
      rw [hzero, Nat.cast_zero]
      linarith

/-- What is let through in a window, by induction on the calls before it. -/
theorem admitted_le (h : b.Filled rate burst) (hrate : 0 ≤ rate) {times : List ℚ}
    (htimes : times.Pairwise (· ≤ ·)) {start span : ℚ} (hspan : 0 ≤ span) :
    b.admitted times start span ≤ burst + rate * span := by
  induction times generalizing b with
  | nil =>
    have hburst : 0 ≤ burst := h.nonneg.trans h.le
    show ((0 : ℕ) : ℚ) ≤ _
    rw [Nat.cast_zero]
    exact add_nonneg hburst (mul_nonneg hrate hspan)
  | cons now times ih =>
    obtain ⟨hhead, htail⟩ := List.pairwise_cons.1 htimes
    by_cases hbefore : now < start
    · rw [admitted_cons, if_neg fun hin => absurd hin.2.1 (not_le.2 hbefore), Nat.add_zero]
      exact ih (h.step hrate now) htail
    · have hstart : start ≤ now := not_lt.1 hbefore
      have hall := admitted_le_level h hrate htimes (le_add_of_nonneg_right hspan)
        fun t ht => (List.mem_cons.1 ht).elim (fun heq => heq ▸ hstart)
          fun hmem => hstart.trans (hhead t hmem)
      have hlevel : b.level start ≤ burst := h.level_le_burst
      rw [add_sub_cancel_left] at hall
      linarith

/-! ## Who keeps to the rate -/

/-- A bucket that has a token by some time lets through whoever calls then, and has one again
after the time that the rate gives one in. -/
theorem outputs_spaced (h : b.Filled rate burst) (hrate : 0 < rate) (hburst : 1 ≤ burst)
    {times : List ℚ} (hspaced : times.IsChain fun t u => t + 1 / rate ≤ u)
    (htoken : ∀ t ∈ times.head?, 1 ≤ b.level t) : ∀ ok ∈ outputs step b times, ok = true := by
  induction times generalizing b with
  | nil => exact fun ok hok => absurd hok List.not_mem_nil
  | cons now times ih =>
    have hnow : 1 ≤ b.level now := htoken now rfl
    have hok : (b.check now).1 = true := by
      rw [check_fst]
      exact decide_eq_true hnow
    have hnext : (b.step now).1.Filled rate burst := h.step hrate.le now
    intro ok hmem
    rcases List.mem_cons.1 hmem with rfl | hrest
    · exact hok
    · refine ih hnext hspaced.tail ?_ ok hrest
      intro next hhead
      have hwait : now + 1 / rate ≤ next := by
        cases times with
        | nil => cases hhead
        | cons t times =>
          cases hhead
          exact (List.isChain_cons_cons.1 hspaced).1
      have hlast : (b.step now).1.lastRefill = now := by
        show (b.check now).2.lastRefill = now
        rw [check_eq]
        split <;> rfl
      have hsince : 1 / rate ≤ max 0 (next - now) := (le_sub_iff_add_le'.2 hwait).trans
        (le_max_right _ _)
      have hgained : 1 ≤ max 0 (next - now) * rate := (div_le_iff₀ hrate).1 hsince
      have hnonneg := hnext.nonneg
      rw [level_eq, hlast, hnext.maxTokens, hnext.refillRate]
      exact le_min (by linarith) hburst

/-- **What a bucket lets through**: in a window of any run, no more than the burst and what the
rate gives in the length of the window; its tokens are always between zero and the burst; and
with a burst of at least one and a positive rate, calls that are no closer to each other than the
rate allows are never refused. -/
theorem admitted_bounded (hrate : 0 ≤ rate) (hburst : 0 ≤ burst) (created : ℚ) {times : List ℚ}
    (htimes : times.Pairwise (· ≤ ·)) :
    (∀ start span, 0 ≤ span →
        (new rate burst created).admitted times start span ≤ burst + rate * span) ∧
      (∀ k, let b := after step (new rate burst created) (times.take k)
        0 ≤ b.tokens ∧ b.tokens ≤ burst) ∧
      (1 ≤ burst → 0 < rate → (times.IsChain fun t u => t + 1 / rate ≤ u) →
        ∀ ok ∈ outputs step (new rate burst created) times, ok = true) := by
  have hnew : (new rate burst created).Filled rate burst := filled_new hburst created
  refine ⟨fun start span hspan => admitted_le hnew hrate htimes hspan, fun k => ?_,
    fun hone hpos hspaced => ?_⟩
  · have hfilled := hnew.after hrate (times.take k)
    exact ⟨hfilled.nonneg, hfilled.le⟩
  · refine outputs_spaced hnew hpos hone hspaced fun t _ => ?_
    have hgained : 0 ≤ max 0 (t - created) * rate := mul_nonneg (le_max_left _ _) hrate
    show 1 ≤ min (burst + max 0 (t - created) * rate) burst
    exact le_min (by linarith) hone

/-- Two at once, the second of which is refused, and a third that has waited. -/
theorem admitted_bounded_twice :
    (new 2 1 0 : RateLimiter ℚ ℚ).admitted [0, 0, 1 / 2] 0 (1 / 2) ≤ (1 + 2 * (1 / 2) : ℚ) ∧
      outputs step (new 2 1 0) [0, 1 / 2] = [true, true] := by
  refine ⟨(admitted_bounded (by norm_num) (by norm_num) 0 (by decide +kernel)).1 0 (1 / 2)
    (by norm_num), by decide +kernel⟩

end RateLimiter
end Server
end TcVoice
