import Mathlib.Algebra.Order.Field.Basic
import Mathlib.Data.List.Chain
import Mathlib.Data.List.Range
import Mathlib.Tactic.Linarith
import Mathlib.Tactic.Ring
import TcVoice.Client.Conservation

/-!
# Ramps at the edges of silence

What the output queue plays of a tone whose samples are all one, in exact numbers and on one
channel: only the ramps of `fill` can be heard.

* `height` — how loud each step of a ramp is.
* `PlaybackQueue.fill_tone` — a callback of a queue of ones, sample by sample.
* `Tone`, `Tone.step` — the queue, with the step of the ramp at which the last sample stood.
* `Tone.no_click_iff` — **when no two samples in a row are further apart than a step of the
  ramp**: a callback out of silence never is the reason, and every other one has to start within a
  step of where the last one ended.  `Tone.cut_off` is a queue that runs dry between two
  callbacks.
-/

namespace TcVoice
namespace Client

open Machines

/-! ## Steps of a ramp -/

/-- How loud a step of a ramp is: nothing before the first, and all from the last on. -/
def height (fade steps : ℕ) : ℚ := (min steps (fade + 1) : ℕ) / (fade + 1 : ℕ)

/-- Two samples that are no further apart than one step of a ramp. -/
def Close (fade : ℕ) (x y : ℚ) : Prop := |x - y| ≤ 1 / (fade + 1 : ℕ)

section Height

variable {fade : ℕ}

theorem height_zero : height fade 0 = 0 := by
  unfold height
  rw [Nat.zero_min, Nat.cast_zero, zero_div]

theorem fade_pos : (0 : ℚ) < (fade + 1 : ℕ) := Nat.cast_pos.2 (Nat.succ_pos fade)

theorem height_full {steps : ℕ} (h : fade < steps) : height fade steps = 1 := by
  unfold height
  rw [min_eq_right h]
  exact div_self fade_pos.ne'

theorem height_min (steps : ℕ) : height fade (min steps (fade + 1)) = height fade steps := by
  unfold height
  rw [min_assoc, min_self]

theorem height_nonneg (steps : ℕ) : 0 ≤ height fade steps :=
  div_nonneg (Nat.cast_nonneg _) fade_pos.le

theorem height_le_one (steps : ℕ) : height fade steps ≤ 1 :=
  (div_le_one fade_pos).2 (Nat.cast_le.2 (min_le_right _ _))

theorem ramp_eq_height [Curves] {steps : ℕ} (h : steps < fade) :
    (PlaybackQueue.ramp steps fade : ℚ) = height fade (steps + 1) := by
  unfold height
  rw [min_eq_left (by omega)]
  rfl

theorem height_mono {m n : ℕ} (h : m ≤ n) : height fade m ≤ height fade n := by
  have hmin : min m (fade + 1) ≤ min n (fade + 1) := min_le_min_right _ h
  exact div_le_div_of_nonneg_right (Nat.cast_le.2 hmin) fade_pos.le

/-- Two steps of a ramp are close if they are the same one or next to each other. -/
theorem close_height_iff {m n : ℕ} (hm : m ≤ fade + 1) (hn : n ≤ fade + 1) :
    Close fade (height fade m) (height fade n) ↔ m ≤ n + 1 ∧ n ≤ m + 1 := by
  have hpos : (0 : ℚ) < (fade + 1 : ℕ) := fade_pos
  unfold Close height
  rw [min_eq_left hm, min_eq_left hn, ← sub_div, abs_div, abs_of_pos hpos,
    div_le_div_iff_of_pos_right hpos, abs_le]
  constructor
  · rintro ⟨hlow, hhigh⟩
    constructor
    · exact_mod_cast (by linarith : (m : ℚ) ≤ n + 1)
    · exact_mod_cast (by linarith : (n : ℚ) ≤ m + 1)
  · rintro ⟨hlow, hhigh⟩
    have hlow' : (m : ℚ) ≤ n + 1 := by exact_mod_cast hlow
    have hhigh' : (n : ℚ) ≤ m + 1 := by exact_mod_cast hhigh
    constructor <;> linarith

theorem height_succ_le (steps : ℕ) :
    height fade (steps + 1) ≤ height fade steps + 1 / (fade + 1 : ℕ) := by
  unfold height
  rw [← add_div]
  refine div_le_div_of_nonneg_right ?_ fade_pos.le
  have hmin : min (steps + 1) (fade + 1) ≤ min steps (fade + 1) + 1 := by omega
  exact_mod_cast hmin

/-- A ramp in and a ramp out together change no more from one sample to the next than one of them
does. -/
theorem abs_mul_sub_mul_le {x x' y y' d : ℚ} (hx : 0 ≤ x) (hx1 : x ≤ 1) (hy' : 0 ≤ y')
    (hy1 : y' ≤ 1) (hup : x ≤ x') (hup' : x' ≤ x + d) (hdown : y' ≤ y) (hdown' : y ≤ y' + d) :
    |x * y - x' * y'| ≤ d := by
  have hd : 0 ≤ d := by linarith
  have hlost : x * (y - y') ≤ d := by
    calc x * (y - y') ≤ 1 * (y - y') := mul_le_mul_of_nonneg_right hx1 (sub_nonneg.2 hdown)
      _ ≤ d := by linarith
  have hlost0 : 0 ≤ x * (y - y') := mul_nonneg hx (sub_nonneg.2 hdown)
  have hgained : (x' - x) * y' ≤ d := by
    calc (x' - x) * y' ≤ (x' - x) * 1 := mul_le_mul_of_nonneg_left hy1 (sub_nonneg.2 hup)
      _ ≤ d := by linarith
  have hgained0 : 0 ≤ (x' - x) * y' := mul_nonneg (sub_nonneg.2 hup) hy'
  have heq : x * y - x' * y' = x * (y - y') - (x' - x) * y' := by ring
  rw [heq, abs_le]
  constructor <;> linarith

end Height

variable [Curves]

/-! ## A callback -/

namespace PlaybackQueue

/-- Only samples of the tone. -/
def Ones (q : PlaybackQueue ℚ) : Prop := ∀ s ∈ q.buf, s = 1

/-- How loud a callback of `n` samples makes the `i`-th of them. -/
def loudness (q : PlaybackQueue ℚ) (n i : ℕ) : ℚ :=
  (if q.silent then height q.fade (i + 1) else 1) *
    (if q.len < n then height q.fade (q.len - i) else 1)

variable {q : PlaybackQueue ℚ}

omit [Curves] in
theorem Ones.extend (h : q.Ones) (count : ℕ) : (q.extend (List.replicate count 1)).Ones := by
  intro s hs
  rcases List.mem_append.1 hs with hs | hs
  · exact h s hs
  · exact List.eq_of_mem_replicate hs

/-- A crossfade of ones is one. -/
theorem Ones.trimTo (h : q.Ones) (cap : ℕ) : (q.trimTo cap).1.Ones := by
  intro s hs
  obtain ⟨i, hi⟩ := List.mem_iff_getElem?.1 hs
  rw [(q.trimTo_spec cap).2.2.2.2] at hi
  split at hi
  · obtain ⟨incoming, hincoming, rfl⟩ := Option.map_eq_some_iff.1 hi
    have hlt : i < q.buf.length := by
      have := (List.getElem?_eq_some_iff.1 hincoming).1
      omega
    have houtgoing : q.buf.getD i 0 = 1 := by
      rw [List.getD_eq_getElem?_getD, List.getElem?_eq_getElem hlt]
      exact h _ (List.getElem_mem hlt)
    rw [houtgoing, h incoming (List.mem_of_getElem? hincoming)]
    ring
  · exact h s (List.mem_of_getElem? hi)

theorem Ones.fill (h : q.Ones) (dataLen channels : ℕ) : (q.fill dataLen channels).1.Ones := by
  intro s hs
  rw [(q.fill_spec dataLen channels).1] at hs
  exact h s (List.mem_of_mem_drop hs)

theorem length_fill_mono (n : ℕ) : (q.fill n 1).2.1.length = n := by
  unfold PlaybackQueue.fill
  simp only [List.length_append, List.length_replicate, List.length_take, lt_irrefl, if_false,
    List.length_mapIdx, max_self, Nat.div_one]
  have hlen : q.len = q.buf.length := rfl
  omega

omit [Curves] in
theorem loudness_of_len_le {n i : ℕ} (hlen : q.len ≤ i) (hn : i < n) : q.loudness n i = 0 := by
  unfold loudness
  rw [if_pos (hlen.trans_lt hn), Nat.sub_eq_zero_of_le hlen, height_zero, mul_zero]

/-- What a callback makes of a sample of the tone. -/
theorem ramped_one {n i : ℕ} (hi : i < min q.len n) :
    q.ramped (q.silent && decide (0 < min q.len n))
      (decide (min q.len n < n) && decide (0 < min q.len n)) (min q.len n) i 1 =
        q.loudness n i := by
  have hpos : decide (0 < min q.len n) = true := decide_eq_true (by omega)
  have hlast : min q.len n - 1 - i + 1 = min q.len n - i := by omega
  have hin : (if q.silent && decide (i < q.fade) then 1 * ramp i q.fade else 1 : ℚ) =
      if q.silent then height q.fade (i + 1) else 1 := by
    by_cases hlt : i < q.fade
    · simp only [hlt, decide_true, Bool.and_true, ramp_eq_height, one_mul]
    · simp only [hlt, decide_false, Bool.and_false, Bool.false_eq_true, if_false,
        height_full (show q.fade < i + 1 by omega), ite_self]
  unfold ramped loudness
  simp only [hpos, Bool.and_true, hin]
  by_cases hshort : q.len < n
  · rw [min_eq_left hshort.le] at hlast ⊢
    simp only [hshort, decide_true, Bool.true_and, decide_eq_true_eq, if_true]
    by_cases hlt : q.len - 1 - i < q.fade
    · rw [if_pos hlt, ramp_eq_height hlt, hlast]
    · rw [if_neg hlt, height_full (show q.fade < q.len - i by omega), mul_one]
  · rw [min_eq_right (not_lt.1 hshort)]
    simp only [hshort, lt_irrefl, decide_false, Bool.false_and, Bool.false_eq_true, if_false,
      mul_one]

/-- A callback of the tone, sample by sample. -/
theorem fill_tone (h : q.Ones) (n : ℕ) :
    (q.fill n 1).2.1 = (List.range n).map (q.loudness n) := by
  apply List.ext_getElem?
  intro i
  rw [List.getElem?_map]
  by_cases hn : i < n
  · rw [List.getElem?_range hn, Option.map_some]
    by_cases hi : i < min q.len n
    · have hone : i < q.available n 1 := by
        unfold available
        rwa [max_self, Nat.div_one]
      obtain ⟨s, hs, hdata⟩ := (q.fill_spec n 1).2.2 i hone 0 Nat.one_pos
      rw [Nat.mul_one, Nat.add_zero] at hdata
      rw [hdata, h s (List.mem_of_getElem? hs), ← ramped_one hi]
      simp only [available, max_self, Nat.div_one]
    · have hpad : (q.fill n 1).2.1[i]? = some 0 := by
        unfold PlaybackQueue.fill
        have hlen : q.len = q.buf.length := rfl
        rw [List.getElem?_append_right, List.getElem?_replicate, if_pos]
        · simp
          omega
        · simp
          omega
      rw [hpad, loudness_of_len_le (by omega) hn]
  · rw [List.getElem?_eq_none, List.getElem?_eq_none]
    · rfl
    · rw [List.length_range]
      omega
    · rw [length_fill_mono]
      omega

omit [Curves] in
/-- Inside a callback nothing clicks. -/
theorem loudness_smooth (n i : ℕ) :
    Close q.fade (q.loudness n i) (q.loudness n (i + 1)) := by
  have hstep : (0 : ℚ) ≤ 1 / (q.fade + 1 : ℕ) := div_nonneg zero_le_one fade_pos.le
  have hfall : height q.fade (q.len - i) ≤
      height q.fade (q.len - (i + 1)) + 1 / (q.fade + 1 : ℕ) :=
    (height_mono (by omega)).trans (height_succ_le _)
  unfold Close loudness
  apply abs_mul_sub_mul_le
  · split
    · exact height_nonneg _
    · exact zero_le_one
  · split
    · exact height_le_one _
    · exact le_rfl
  · split
    · exact height_nonneg _
    · exact zero_le_one
  · split
    · exact height_le_one _
    · exact le_rfl
  · split
    · exact height_mono (by omega)
    · exact le_rfl
  · split
    · exact height_succ_le _
    · exact le_add_of_nonneg_right hstep
  · split
    · exact height_mono (by omega)
    · exact le_rfl
  · split
    · exact hfall
    · exact le_add_of_nonneg_right hstep

end PlaybackQueue

/-! ## The queue of a tone -/

/-- A call of the queue, where what is put into it are ones and the device has one channel. -/
inductive ToneCall where
  | extend (count : ℕ)
  | trimTo (cap : ℕ)
  | fill (dataLen : ℕ)

/-- The queue, and the step of the ramp at which the last sample played stood. -/
structure Tone where
  queue : PlaybackQueue ℚ
  steps : ℕ

namespace Tone

/-- Before the first call, in silence. -/
def new (deviceRate : ℕ) : Tone := ⟨.new deviceRate, 0⟩

variable (t : Tone)

/-- The step of the ramp at which a callback ends: in silence if it is short, on the ramp in if
that is longer than the callback. -/
def last (n : ℕ) : ℕ :=
  if n = 0 then t.steps
  else if t.queue.len < n then 0
  else if t.queue.silent then min n (t.queue.fade + 1) else t.queue.fade + 1

/-- The step at which a callback begins that does not follow a short one: on the ramp out if it is
short itself and what is left is no longer than the ramp. -/
def first (n : ℕ) : ℕ :=
  if t.queue.len < n then min t.queue.len (t.queue.fade + 1) else t.queue.fade + 1

/-- One call, and what it plays. -/
def step : ToneCall → Tone × List ℚ
  | .extend count => ({ t with queue := t.queue.extend (.replicate count 1) }, [])
  | .trimTo cap => ({ t with queue := (t.queue.trimTo cap).1 }, [])
  | .fill n =>
    let (queue, data, _) := t.queue.fill n 1
    (⟨queue, t.last n⟩, data)

/-- A callback that does not begin more than a step of the ramp away from where the last one
ended, or that comes out of silence. -/
def Gentle : ToneCall → Prop
  | .fill n =>
    n = 0 ∨ t.queue.silent = true ∨ (t.steps ≤ t.first n + 1 ∧ t.first n ≤ t.steps + 1)
  | _ => True

/-- What is known of the queue after any calls. -/
structure Steady (fade : ℕ) (t : Tone) : Prop where
  ones : t.queue.Ones
  fade_eq : t.queue.fade = fade
  steps_le : t.steps ≤ fade + 1
  silence : t.queue.silent = true → t.steps = 0

variable {t} {fade : ℕ}

theorem Steady.step (h : Steady fade t) (call : ToneCall) : Steady fade (t.step call).1 := by
  obtain ⟨hones, rfl, hsteps, hsilence⟩ := h
  cases call with
  | extend count => exact ⟨hones.extend count, rfl, hsteps, hsilence⟩
  | trimTo cap =>
    obtain ⟨-, -, hfade, hsilent, -⟩ := t.queue.trimTo_spec cap
    exact ⟨hones.trimTo cap, hfade, hsteps, fun hs => hsilence (hsilent.symm.trans hs)⟩
  | fill n =>
    refine ⟨hones.fill n 1, rfl, ?_, fun hs => ?_⟩
    · show t.last n ≤ t.queue.fade + 1
      unfold last
      split_ifs <;> omega
    · have hshort : min t.queue.len (n / max 1 1) < n / max 1 1 := of_decide_eq_true hs
      rw [max_self, Nat.div_one] at hshort
      show t.last n = 0
      unfold last
      rw [if_neg (by omega), if_pos (by omega)]

omit [Curves] in
/-- The last sample that a callback plays. -/
theorem loudness_last (n : ℕ) :
    t.queue.loudness (n + 1) n = height t.queue.fade (t.last (n + 1)) := by
  unfold PlaybackQueue.loudness last
  rw [if_neg (Nat.succ_ne_zero n)]
  by_cases hshort : t.queue.len < n + 1
  · rw [if_pos hshort, if_pos hshort, Nat.sub_eq_zero_of_le (by omega), height_zero, mul_zero]
  · rw [if_neg hshort, if_neg hshort, mul_one]
    split
    · rw [height_min]
    · exact (height_full (Nat.lt_succ_self _)).symm

/-- The first sample that a callback plays is close to the last one before it. -/
theorem first_close_iff (h : Steady fade t) (n : ℕ) :
    Close fade (height fade t.steps) (t.queue.loudness (n + 1) 0) ↔
      t.Gentle (.fill (n + 1)) := by
  obtain ⟨-, rfl, hsteps, hsilence⟩ := h
  unfold Close Gentle PlaybackQueue.loudness
  by_cases hs : t.queue.silent
  · refine iff_of_true ?_ (.inr (.inl hs))
    rw [if_pos hs, hsilence hs, height_zero, zero_sub, abs_neg, Nat.zero_add]
    have hone : height t.queue.fade 1 = 1 / (t.queue.fade + 1 : ℕ) := by
      unfold height
      rw [min_eq_left (by omega), Nat.cast_one]
    have hrest : (if t.queue.len < n + 1 then height t.queue.fade (t.queue.len - 0) else 1) ≤ 1 ∧
        0 ≤ (if t.queue.len < n + 1 then height t.queue.fade (t.queue.len - 0) else 1) := by
      split
      · exact ⟨height_le_one _, height_nonneg _⟩
      · exact ⟨le_rfl, zero_le_one⟩
    rw [abs_of_nonneg (mul_nonneg (height_nonneg _) hrest.2), ← hone]
    exact mul_le_of_le_one_right (height_nonneg _) hrest.1
  · have hfirst : (if t.queue.len < n + 1 then height t.queue.fade (t.queue.len - 0) else 1) =
        height t.queue.fade (t.first (n + 1)) := by
      unfold first
      split
      · rw [height_min, Nat.sub_zero]
      · exact (height_full (Nat.lt_succ_self _)).symm
    have hle : t.first (n + 1) ≤ t.queue.fade + 1 := by
      unfold first
      split <;> omega
    rw [if_neg hs, one_mul, hfirst]
    refine (close_height_iff hsteps hle).trans ?_
    simp only [Nat.succ_ne_zero, hs, false_or, Bool.false_eq_true]

omit [Curves] in
/-- A stretch whose samples are all close to the next, between what is before and after it. -/
theorem isChain_stretch {R : ℚ → ℚ → Prop} {f : ℕ → ℚ} (hf : ∀ i, R (f i) (f (i + 1))) (x : ℚ)
    (n : ℕ) (rest : List ℚ) :
    (x :: ((List.range (n + 1)).map f ++ rest)).IsChain R ↔
      R x (f 0) ∧ (f n :: rest).IsChain R := by
  have hsplit : x :: ((List.range (n + 1)).map f ++ rest) =
      (x :: (List.range n).map f) ++ f n :: rest := by
    rw [List.range_succ, List.map_append, List.append_assoc]
    rfl
  have hwhole : (x :: (List.range n).map f) ++ [f n] = x :: (List.range (n + 1)).map f := by
    rw [List.range_succ, List.map_append]
    rfl
  have hinside : ((List.range (n + 1)).map f).IsChain R :=
    (List.isChain_map f).2 ((List.isChain_range _ _).2 fun i _ => hf i)
  have hhead : ((List.range (n + 1)).map f).head? = some (f 0) := by
    rw [List.range_succ_eq_map]
    rfl
  rw [hsplit, List.isChain_split, hwhole, List.isChain_cons, hhead]
  constructor
  · rintro ⟨⟨hx, -⟩, hrest⟩
    exact ⟨hx _ rfl, hrest⟩
  · rintro ⟨hx, hrest⟩
    exact ⟨⟨fun y hy => Option.mem_some.1 hy ▸ hx, hinside⟩, hrest⟩

theorem Steady.isChain_iff (h : Steady fade t) (calls : List ToneCall) :
    (height fade t.steps :: (outputs Tone.step t calls).flatten).IsChain (Close fade) ↔
      Along Tone.step Gentle t calls := by
  induction calls generalizing t with
  | nil => exact iff_of_true (List.isChain_singleton _) trivial
  | cons call calls ih =>
    have hrest := ih (h.step call)
    cases call with
    | extend count => exact hrest.trans (and_iff_right trivial).symm
    | trimTo cap => exact hrest.trans (and_iff_right trivial).symm
    | fill n =>
      have hdata : (t.step (.fill n)).2 = (List.range n).map (t.queue.loudness n) :=
        PlaybackQueue.fill_tone h.ones n
      show (height fade t.steps :: ((t.step (.fill n)).2 ++ _)).IsChain _ ↔ _ ∧ _
      rw [hdata]
      cases n with
      | zero => exact hrest.trans (and_iff_right (.inl rfl)).symm
      | succ n =>
        have hsmooth : ∀ i,
            Close fade (t.queue.loudness (n + 1) i) (t.queue.loudness (n + 1) (i + 1)) := by
          intro i
          rw [← h.fade_eq]
          exact PlaybackQueue.loudness_smooth (n + 1) i
        have hlast : t.queue.loudness (n + 1) n = height fade (t.last (n + 1)) := by
          rw [← h.fade_eq]
          exact loudness_last n
        rw [isChain_stretch hsmooth, hlast]
        exact and_congr (first_close_iff h n) hrest

omit [Curves] in
theorem steady_new (deviceRate : ℕ) : Steady (new deviceRate).queue.fade (new deviceRate) where
  ones := fun s hs => by cases hs
  fade_eq := rfl
  steps_le := Nat.zero_le _
  silence := fun _ => rfl

/-- **When nothing clicks**: from the silence before the first callback on, no two samples in a
row are further apart than one step of the ramp exactly when every callback that does not come out
of silence begins within one step of where the one before it ended. -/
theorem no_click_iff (deviceRate : ℕ) (calls : List ToneCall) :
    let fade := (new deviceRate).queue.fade
    (0 :: (outputs step (new deviceRate) calls).flatten).IsChain (Close fade) ↔
      Along step Gentle (new deviceRate) calls := by
  intro fade
  rw [← (steady_new deviceRate).isChain_iff calls]
  show _ ↔ (height fade 0 :: _).IsChain _
  rw [height_zero]

end Tone

omit [Curves] in
/-- A queue that runs dry exactly between two callbacks: it has played 241 samples at 48 kHz, the
last of them in full, and nothing is left for the next callback. -/
theorem Tone.cut_off : ¬ ∀ (_ : Curves) (deviceRate : ℕ) (calls : List ToneCall),
    (0 :: (outputs Tone.step (Tone.new deviceRate) calls).flatten).IsChain
      (Close (Tone.new deviceRate).queue.fade) := by
  intro hclaim
  let curves : Curves := ⟨id, id⟩
  have hquiet := hclaim curves 48000 [.extend 241, .fill 241, .fill 1]
  have hstart : (0 : ℚ) = height (Tone.new 48000).queue.fade (Tone.new 48000).steps :=
    height_zero.symm
  rw [hstart, (Tone.steady_new 48000).isChain_iff] at hquiet
  obtain ⟨-, -, hgentle, -⟩ := hquiet
  rcases hgentle with h | h | h
  · exact absurd h (by decide)
  · exact absurd h (by decide +kernel)
  · exact absurd h.1 (by decide +kernel)

end Client
end TcVoice
