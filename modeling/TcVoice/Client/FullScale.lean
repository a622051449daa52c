import Mathlib.Algebra.Order.Ring.Abs
import Mathlib.Tactic.Linarith
import Mathlib.Tactic.NormNum
import Mathlib.Tactic.Ring
import TcVoice.Client.Talkspurt

/-!
# Loudness that is sent

What gain, noise suppression, automatic level and limiter make of a frame, on exact numbers.  Of
the hyperbolic tangent it is used that it grows and is not negative from zero on; of the root and
of RNNoise nothing.

* `softClip_neg`, `softClip_mono`, `abs_softClip_le` — the limiter is odd, grows, and ends below
  full scale.
* `Reading.Steady` — the condition on one frame: a boosted frame that is left to the automatic
  level is not then kept from it.
* `encoded_within_full_scale` — **no sample reaches the encoder beyond full scale** in a run of
  such frames; `beyond_full_scale` is a frame whose switches are turned off midway.
* `Agc.settles` — **the automatic gain closes in on what speech wants at a fixed rate**, from above
  and from below, and learns nothing in between from silence; `Agc.range_after` — it never
  leaves its range.
-/

namespace TcVoice
namespace Client

open Machines

/-! ## The limiter -/

/-- The largest number that the limiter lets out. -/
def ceiling : ℚ := 1 - 1.1920929e-7 / 2

theorem ceiling_lt_one : ceiling < 1 := by norm_num [ceiling]

theorem knee_lt_ceiling : (4 / 5 : ℚ) < ceiling := by norm_num [ceiling]

section Exact

variable [Curves]

/-- What the limiter makes of a size above the knee. -/
def shaped (a : ℚ) : ℚ := min (4 / 5 + 1 / 5 * Curves.tanh ((a - 4 / 5) / (1 / 5))) ceiling

theorem softClip_eq (x : ℚ) : softClip x =
    if |x| ≤ 4 / 5 then x else if x < 0 then -shaped |x| else shaped |x| := by
  unfold softClip shaped ceiling
  norm_num
  rfl

section Limiter

variable (hpos : ∀ x : ℚ, 0 ≤ x → 0 ≤ Curves.tanh x)

include hpos

/-- Above the knee the limiter stays above it. -/
theorem knee_le_shaped {a : ℚ} (ha : 4 / 5 ≤ a) : 4 / 5 ≤ shaped a := by
  have htanh := hpos ((a - 4 / 5) / (1 / 5)) (div_nonneg (by linarith) (by norm_num))
  exact le_min (by linarith) knee_lt_ceiling.le

theorem abs_softClip_le (x : ℚ) : |softClip x| ≤ ceiling := by
  rw [softClip_eq]
  split
  · rename_i hx
    exact hx.trans knee_lt_ceiling.le
  · rename_i hx
    have hlow := knee_le_shaped hpos (not_le.1 hx).le
    have hhigh : shaped |x| ≤ ceiling := min_le_right _ _
    have habs : abs (shaped |x|) = shaped |x| := abs_of_nonneg (by linarith)
    split
    · rwa [abs_neg, habs]
    · rwa [habs]

omit hpos in
theorem softClip_neg (x : ℚ) : softClip (-x) = -softClip x := by
  rw [softClip_eq, softClip_eq, abs_neg]
  split
  · rfl
  · rename_i hx
    have hne : x ≠ 0 := by
      rintro rfl
      exact hx (by norm_num)
    rcases hne.lt_or_gt with hneg | hgt
    · rw [if_neg (by linarith), if_pos hneg, neg_neg]
    · rw [if_pos (by linarith), if_neg (by linarith)]

/-- The limiter grows. -/
theorem softClip_mono (hmono : Monotone (Curves.tanh : ℚ → ℚ)) : Monotone (softClip : ℚ → ℚ) := by
  have hshaped : ∀ a b : ℚ, a ≤ b → shaped a ≤ shaped b := by
    intro a b hab
    have htanh : (Curves.tanh ((a - 4 / 5) / (1 / 5)) : ℚ) ≤ Curves.tanh ((b - 4 / 5) / (1 / 5)) :=
      hmono (div_le_div_of_nonneg_right (by linarith) (by norm_num))
    exact min_le_min (by linarith) le_rfl
  have hknee : ∀ x : ℚ, 4 / 5 < |x| → 4 / 5 ≤ shaped |x| := fun x hx => knee_le_shaped hpos hx.le
  intro x y hxy
  rw [softClip_eq, softClip_eq]
  by_cases hx : |x| ≤ 4 / 5 <;> by_cases hy : |y| ≤ 4 / 5
  · rwa [if_pos hx, if_pos hy]
  · -- what lies above is a sample above the knee
    have hupper := (abs_le.1 hx).1
    have hy0 : ¬ y < 0 := by
      intro hneg
      rw [abs_of_neg hneg] at hy
      linarith
    rw [if_pos hx, if_neg hy, if_neg hy0]
    exact (abs_le.1 hx).2.trans (hknee y (not_le.1 hy))
  · -- what lies below is a sample below the negative knee
    have hlower := (abs_le.1 hy).2
    have hx0 : x < 0 := by
      by_contra hpos'
      rw [abs_of_nonneg (not_lt.1 hpos')] at hx
      linarith
    rw [if_neg hx, if_pos hy, if_pos hx0]
    have := hknee x (not_le.1 hx)
    linarith [(abs_le.1 hy).1]
  · rw [if_neg hx, if_neg hy]
    by_cases hx0 : x < 0 <;> by_cases hy0 : y < 0
    · rw [if_pos hx0, if_pos hy0]
      exact neg_le_neg (hshaped _ _ (by rw [abs_of_neg hx0, abs_of_neg hy0]; linarith))
    · rw [if_pos hx0, if_neg hy0]
      have := hknee x (not_le.1 hx)
      have := hknee y (not_le.1 hy)
      linarith
    · exact absurd (hxy.trans_lt hy0) hx0
    · rw [if_neg hx0, if_neg hy0]
      exact hshaped _ _ (by rwa [abs_of_nonneg (not_lt.1 hx0), abs_of_nonneg (not_lt.1 hy0)])

end Limiter
end Exact

/-! ## Frames -/

/-- No sample is beyond full scale. -/
def InScale {n : ℕ} (frame : Vector ℚ n) : Prop := ∀ s ∈ frame, |s| ≤ 1

/-- A boosted frame that is let past the limiter, for the automatic level to bring down, is not
kept from it by a switch that is turned off in between. -/
def Reading.Steady (r : Reading ℚ) : Prop :=
  1 < r.inputGain → r.denoiseAtGain = false → r.agcAtGain = true →
    r.denoise = true ∨ r.agc = true

theorem inScale_map {n : ℕ} {frame : Vector ℚ n} {f : ℚ → ℚ} (h : ∀ s ∈ frame, |f s| ≤ 1) :
    InScale (frame.map f) := by
  intro s hs
  obtain ⟨t, ht, rfl⟩ := Vector.mem_map.1 hs
  exact h t ht

theorem inScale_replicate (n : ℕ) : InScale (Vector.replicate n (0 : ℚ)) := by
  intro s hs
  rw [(Vector.mem_replicate.1 hs).2]
  norm_num

theorem inScale_append {m n : ℕ} {a : Vector ℚ m} {b : Vector ℚ n} (ha : InScale a)
    (hb : InScale b) : InScale (a ++ b) := by
  intro s hs
  exact (Vector.mem_append.1 hs).elim (ha s) (hb s)

section Chain

variable [Curves]

theorem abs_clamp_le (x : ℚ) : |clamp x (-1) 1| ≤ 1 := by
  unfold clamp
  split
  · norm_num
  · rename_i hlo
    split
    · norm_num
    · rename_i hhi
      exact abs_le.2 ⟨not_lt.1 hlo, not_lt.1 hhi⟩

/-- RNNoise is cut off at full scale, whatever it answers. -/
theorem inScale_denoised {D : Type} (rnn : Rnn ℚ D) (state : D) (pcm : Frame ℚ) :
    InScale (rnn.process state pcm).2 :=
  inScale_append (inScale_map fun _ _ => abs_clamp_le _) (inScale_map fun _ _ => abs_clamp_le _)

variable (hpos : ∀ x : ℚ, 0 ≤ x → 0 ≤ Curves.tanh x)

include hpos

theorem abs_softClip_le_one (x : ℚ) : |softClip x| ≤ 1 :=
  (abs_softClip_le hpos x).trans ceiling_lt_one.le

theorem inScale_leveled (agc : Agc ℚ) (frame : Frame ℚ) : InScale (agc.process frame).2 :=
  inScale_map fun _ _ => abs_softClip_le_one hpos _

theorem inScale_limited (buf : Frame ℚ) : InScale (limitInPlace buf).1 := by
  refine inScale_map fun s _ => ?_
  split
  · exact abs_softClip_le_one hpos s
  · rename_i hquiet
    have hle : |s| ≤ 0.8 := not_lt.1 fun hlt => hquiet (decide_eq_true hlt)
    exact hle.trans (by norm_num)

/-- The gain itself keeps a frame in scale unless it boosts one that is not limited. -/
theorem inScale_gained {frame : Frame ℚ} {gain : ℚ} {limit : Bool} (h : InScale frame)
    (hgain : 0 ≤ gain) (hlimit : 1 < gain → limit = true) :
    InScale (applyInputGain frame gain limit).1 := by
  unfold applyInputGain
  split
  · exact h
  · split
    · exact inScale_limited hpos _
    · rename_i hnot
      have hle : gain ≤ 1 := by
        by_contra hboost
        exact hnot (by simp [hlimit (not_le.1 hboost), not_le.1 hboost])
      refine inScale_map fun s hs => ?_
      rw [abs_mul, abs_of_nonneg hgain]
      exact mul_le_one₀ (h s hs) hgain hle

/-! ## The loop -/

variable {E D : Type} {cfg : CaptureCfg ℚ E D} {c : Capture ℚ E D} {r : Reading ℚ}

/-- What is promised of a reading. -/
structure Reading.Sound (r : Reading ℚ) : Prop where
  pcm : InScale r.pcm
  gain : 0 ≤ r.inputGain
  steady : r.Steady

omit [Curves] hpos in
theorem sendOne_pcm {F : Type} [F32 F] (cfg : CaptureCfg F E D) (c : Capture F E D)
    (source : Option ℕ) (frame : Frame F) : (sendOne cfg c source frame).2.pcm = frame := by
  unfold sendOne
  split
  · rfl
  · split <;> rfl

omit [Curves] hpos in
theorem sendAll_pcm {F : Type} [F32 F] (cfg : CaptureCfg F E D) (c : Capture F E D)
    (frames : List (Captured F)) :
    (sendAll cfg c frames).2.map (·.pcm) = frames.map (·.pcm) := by
  induction frames generalizing c with
  | nil => rfl
  | cons frame frames ih =>
    unfold sendAll
    simp only [List.map_cons, ih, sendOne_pcm]

/-- The frames in the pre-roll are in scale. -/
def Capture.Held (c : Capture ℚ E D) : Prop := ∀ f ∈ c.preroll.toList, InScale f.pcm

theorem inScale_processed (hc : InScale c.pcmFrame) (hgain : 0 ≤ r.inputGain) (hr : r.Steady) :
    InScale (c.processed cfg r).pcmFrame := by
  unfold Capture.processed
  cases hagc : r.agc with
  | true => exact inScale_leveled hpos _ _
  | false =>
    cases hdenoise : r.denoise with
    | true => exact inScale_denoised _ _ _
    | false =>
      refine inScale_gained hpos hc hgain fun hboost => ?_
      cases hd : r.denoiseAtGain with
      | true => rfl
      | false =>
        cases ha : r.agcAtGain with
        | false => rfl
        | true => simpa [hagc, hdenoise] using hr hboost hd ha

theorem inScale_ready (hr : r.Sound) : InScale (c.ready cfg r).pcmFrame := by
  obtain ⟨encoder, hchecked⟩ := checked_state ((c.popped r).processed cfg r) r
  obtain ⟨encoder', hpopped⟩ := popped_state c r
  have hsame : (c.ready cfg r).pcmFrame = ((c.popped r).processed cfg r).pcmFrame := by
    unfold Capture.ready
    rw [hchecked]
  rw [hsame]
  refine inScale_processed hpos ?_ hr.gain hr.steady
  rw [hpopped]
  exact hr.pcm

omit hpos in
/-- A call for a single frame leaves the pre-roll alone. -/
theorem held_sendAlone {source : Option ℕ} {frame : Frame ℚ} (hc : c.Held)
    (hframe : InScale frame) :
    (sendAlone cfg c source frame).1.Held ∧
      ∀ a ∈ (sendAlone cfg c source frame).2, InScale a.pcm := by
  obtain ⟨state, packetBuf, sequence, drawn, hone⟩ := sendOne_state cfg c source frame
  constructor
  · show (sendOne cfg c source frame).1.Held
    rw [hone]
    exact hc
  · intro a ha
    rw [List.mem_singleton.1 ha, sendOne_pcm]
    exact hframe

omit hpos in
/-- A frame that passes the gate, with the frames that were held back before it. -/
theorem held_flush {number : ℕ} (hc : c.Held) (hframe : InScale c.pcmFrame) :
    (c.flush cfg number).1.Held ∧ ∀ a ∈ (c.flush cfg number).2, InScale a.pcm := by
  obtain ⟨state, packetBuf, sequence, drawn, hflush⟩ := flush_state cfg c number
  obtain ⟨state', packetBuf', sequence', drawn', hall⟩ := sendAll_state cfg c c.preroll.toList
  constructor
  · rw [hflush]
    intro f hf
    rw [Ring.toList_reset] at hf
    cases hf
  · intro a ha
    rcases List.mem_append.1 ha with hflushed | hlast
    · have hmem : a.pcm ∈ (sendAll cfg c c.preroll.toList).2.map (·.pcm) :=
        List.mem_map_of_mem hflushed
      rw [sendAll_pcm] at hmem
      obtain ⟨f, hf, hpcm⟩ := List.mem_map.1 hmem
      exact hpcm ▸ hc f hf
    · rw [List.mem_singleton.1 hlast, sendOne_pcm, hall]
      exact hframe

/-- What a frame sends is in scale, and what it holds back. -/
theorem held_captureFrame (hc : c.Held) (hr : r.Sound) :
    (captureFrame cfg c r).1.Held ∧ ∀ a ∈ (captureFrame cfg c r).2, InScale a.pcm := by
  have hframe : InScale (c.ready cfg r).pcmFrame := inScale_ready hpos hr
  have hready : (c.ready cfg r).Held := by
    unfold Capture.Held
    rw [ready_preroll.1]
    exact hc
  have hpopped : (c.popped r).Held := by
    obtain ⟨encoder, hstate⟩ := popped_state c r
    rw [hstate]
    exact hc
  rw [captureFrame_eq]
  split
  · split
    · exact held_sendAlone hpopped (inScale_replicate _)
    · exact ⟨hpopped, fun a ha => absurd ha List.not_mem_nil⟩
  · split
    · exact held_sendAlone hready hframe
    · split
      · refine ⟨fun f hf => ?_, fun a ha => absurd ha List.not_mem_nil⟩
        have hpush : f ∈
            (c.gated cfg r).preroll.toList ++ [⟨c.captured, (c.gated cfg r).pcmFrame⟩] :=
          List.mem_of_mem_drop (Ring.toList_push ▸ hf)
        rcases List.mem_append.1 hpush with hold | hnew
        · exact hready f hold
        · rw [List.mem_singleton.1 hnew]
          exact hframe
      · exact held_flush hready hframe

/-- Whatever is switched while the loop runs, and however quiet or loud the room is: as long as
the samples of the device are in scale and every frame is a steady one, so are all samples that
the encoder is given, now or from the pre-roll. -/
theorem encoded_within_full_scale (cfg : CaptureCfg ℚ E D) (lossPercent : UInt8)
    (readings : List (Reading ℚ)) (h : ∀ r ∈ readings, r.Sound) :
    ∀ attempts ∈ outputs (captureFrame cfg) (cfg.start lossPercent) readings,
      ∀ a ∈ attempts, InScale a.pcm := by
  have hstart : (cfg.start lossPercent).Held := fun f hf => absurd hf List.not_mem_nil
  generalize cfg.start lossPercent = c at hstart
  induction readings generalizing c with
  | nil => exact fun attempts ha => absurd ha List.not_mem_nil
  | cons r readings ih =>
    have hframe : (captureFrame cfg c r).1.Held ∧ ∀ a ∈ (captureFrame cfg c r).2, InScale a.pcm :=
      held_captureFrame hpos hstart (h r List.mem_cons_self)
    obtain ⟨hnext, hsent⟩ := hframe
    intro attempts hattempts
    rcases List.mem_cons.1 hattempts with rfl | hrest
    · exact hsent
    · exact ih (fun r' hr' => h r' (List.mem_cons_of_mem _ hr')) _ hnext attempts hrest

end Chain

/-! ### Two boosted frames -/

/-- Curves for frames that reach neither of them. -/
abbrev straight : Curves := ⟨id, id⟩

/-- A codec and a denoiser that do as little as possible. -/
def plainCfg : CaptureCfg ℚ Unit Unit where
  codec := ⟨(⟨true, true, 0, 9, false, 0⟩, ()), fun _ _ _ => ((), some [])⟩
  rnn := ⟨(), fun _ chunk => ((), chunk)⟩
  cipher := .sample
  channelId := "a"
  senderName := "ann"
  nonces := fun _ => sampleNonce

/-- A boosted frame of one level, with the automatic level off. -/
def boosted (level : ℚ) : Reading ℚ where
  pcm := Vector.replicate _ level
  paranoid := false
  muted := false
  inputGain := 3 / 2
  denoiseAtGain := false
  agcAtGain := false
  denoise := false
  agc := false
  vadThreshold := 0
  currentTier := .high
  lossPercent := 0

theorem encoded_within_full_scale_boosted : letI := straight
    ∃ attempts, outputs (captureFrame plainCfg) (plainCfg.start 0) [boosted (1 / 2)] = [attempts] ∧
      ∀ a ∈ attempts, InScale a.pcm := by
  let _ := straight
  refine ⟨_, rfl, encoded_within_full_scale (fun x hx => hx) plainCfg 0 [boosted (1 / 2)]
    (fun r hr => ?_) _ List.mem_cons_self⟩
  rw [List.mem_singleton.1 hr]
  refine ⟨fun s hs => ?_, by norm_num [boosted], fun _ _ hagc => by cases hagc⟩
  rw [(Vector.mem_replicate.1 hs).2]
  norm_num

/-- The automatic level is on when the limiter is left out for it, and off when its turn comes. -/
def switchedOff : Reading ℚ := { boosted 1 with agcAtGain := true }

/-- **Beyond full scale**: a frame at full scale that is boosted, and neither limited nor brought
down. -/
theorem beyond_full_scale : letI := straight
    InScale switchedOff.pcm ∧ ¬ switchedOff.Steady ∧
      ¬ InScale ((plainCfg.start 0).ready plainCfg switchedOff).pcmFrame := by
  let _ := straight
  have hmem : (1 : ℚ) ∈ switchedOff.pcm := Vector.mem_replicate.2 ⟨by decide, rfl⟩
  have hgained : ((plainCfg.start 0).ready plainCfg switchedOff).pcmFrame =
      (applyInputGain switchedOff.pcm (3 / 2 : ℚ) false).1 := rfl
  refine ⟨fun s hs => ?_, fun hsteady => ?_, fun hscale => ?_⟩
  · rw [(Vector.mem_replicate.1 hs).2]
    norm_num
  · rcases hsteady (by norm_num [switchedOff, boosted]) rfl rfl with h | h <;> cases h
  · rw [hgained] at hscale
    have hloud := hscale (1 * (3 / 2)) (by
      unfold applyInputGain
      rw [if_neg (by norm_num)]
      exact Vector.mem_map.2 ⟨1, hmem, rfl⟩)
    norm_num at hloud

/-! ## The automatic level -/

section Level

variable [Curves]

/-- The gain that a frame wants. -/
def Agc.want (frame : Frame ℚ) : ℚ := clamp (0.09 / rms frame) 0.25 8.0

/-- A frame that the automatic level learns from. -/
def Agc.Teaches (frame : Frame ℚ) : Prop := (0.004 : ℚ) < rms frame

instance Agc.decidableTeaches (frame : Frame ℚ) : Decidable (Agc.Teaches frame) :=
  inferInstanceAs (Decidable ((0.004 : ℚ) < rms frame))

/-- The share of the way that is left after a frame that teaches. -/
def Agc.left (gain want : ℚ) : ℚ := if want < gain then 13 / 20 else 97 / 100

/-- The gain after some frames. -/
def Agc.after (agc : Agc ℚ) (frames : List (Frame ℚ)) : Agc ℚ :=
  frames.foldl (fun agc frame => (agc.process frame).1) agc

variable {agc : Agc ℚ} {frame : Frame ℚ} {want : ℚ}

theorem Agc.gain_process (agc : Agc ℚ) (frame : Frame ℚ) : (agc.process frame).1.gain =
    if Agc.Teaches frame then
      Agc.want frame + Agc.left agc.gain (Agc.want frame) * (agc.gain - Agc.want frame)
    else agc.gain := by
  have hgain : (agc.process frame).1.gain = if Agc.Teaches frame then
      agc.gain + (Agc.want frame - agc.gain) * (if Agc.want frame < agc.gain then 0.35 else 0.03)
      else agc.gain := rfl
  rw [hgain]
  split
  · unfold Agc.left
    split <;> linarith
  · rfl

/-- A frame never takes the gain to or beyond what it wants. -/
theorem Agc.left_process (h : Agc.Teaches frame) :
    Agc.left (agc.process frame).1.gain (Agc.want frame) = Agc.left agc.gain (Agc.want frame) := by
  rw [Agc.gain_process, if_pos h]
  unfold Agc.left
  by_cases hdown : Agc.want frame < agc.gain
  · rw [if_pos hdown, if_pos (by linarith)]
  · rw [if_neg hdown, if_neg (by linarith)]

theorem Agc.want_range (frame : Frame ℚ) : 1 / 4 ≤ Agc.want frame ∧ Agc.want frame ≤ 8 := by
  unfold Agc.want clamp
  split
  · norm_num
  · rename_i hlo
    split
    · norm_num
    · rename_i hhi
      exact ⟨by linarith [not_lt.1 hlo], by linarith [not_lt.1 hhi]⟩

/-- The gain never leaves its range. -/
theorem Agc.range_after (h : 1 / 4 ≤ agc.gain ∧ agc.gain ≤ 8) (frames : List (Frame ℚ)) :
    1 / 4 ≤ (agc.after frames).gain ∧ (agc.after frames).gain ≤ 8 := by
  induction frames generalizing agc with
  | nil => exact h
  | cons frame frames ih =>
    apply ih
    rw [Agc.gain_process]
    split
    · obtain ⟨hlo, hhi⟩ := Agc.want_range frame
      unfold Agc.left
      split <;> constructor <;> linarith
    · exact h

/-- While all speech wants the same gain, each frame of it leaves a fixed share of the distance,
65 hundredths from above and 97 from below; the gain does not overshoot, and frames that are too
quiet to teach anything, wherever they come, make no difference. -/
theorem Agc.settles (agc : Agc ℚ) (want : ℚ) (frames : List (Frame ℚ))
    (h : ∀ frame ∈ frames, Agc.Teaches frame → Agc.want frame = want) :
    (agc.after frames).gain - want =
      Agc.left agc.gain want ^ frames.countP (fun frame => decide (Agc.Teaches frame)) *
        (agc.gain - want) := by
  induction frames generalizing agc with
  | nil => simp [Agc.after]
  | cons frame frames ih =>
    have hrest := ih (agc.process frame).1 fun f hf => h f (List.mem_cons_of_mem _ hf)
    show ((agc.process frame).1.after frames).gain - want = _
    rw [hrest]
    by_cases hteach : Agc.Teaches frame
    · have hwant := h frame List.mem_cons_self hteach
      have hleft : Agc.left (agc.process frame).1.gain (Agc.want frame) = _ :=
        Agc.left_process hteach
      have hgain := Agc.gain_process agc frame
      rw [if_pos hteach] at hgain
      rw [hwant] at hleft hgain
      rw [List.countP_cons_of_pos (by simpa using hteach), hleft, hgain, pow_succ]
      ring
    · have hgain := Agc.gain_process agc frame
      rw [if_neg hteach] at hgain
      rw [List.countP_cons_of_neg (by simpa using hteach), hgain]

/-- Two frames at full scale with a silent one in between. -/
def loudFrames : List (Frame ℚ) :=
  [Vector.replicate _ 1, Vector.replicate _ 0, Vector.replicate _ 1]

end Level

theorem foldl_add_replicate (n : ℕ) (a x : ℚ) :
    (List.replicate n x).foldl (· + ·) a = a + n * x := by
  induction n generalizing a with
  | zero => simp
  | succ n ih =>
    rw [List.replicate_succ, List.foldl_cons, ih]
    push_cast
    ring

theorem rms_replicate (x : ℚ) : letI := straight
    rms (Vector.replicate Config.frameSize x) = x * x := by
  let _ := straight
  show ((Vector.replicate Config.frameSize x).toList.map fun s => s * s).foldl (· + ·) 0 /
    ((Config.frameSize : ℕ) : ℚ) = x * x
  rw [Vector.toList_replicate, List.map_replicate, foldl_add_replicate]
  norm_num [Config.frameSize]

theorem Agc.settles_loudFrames : letI := straight
    ((⟨1⟩ : Agc ℚ).after loudFrames).gain - 1 / 4 =
      Agc.left 1 (1 / 4) ^ loudFrames.countP (fun frame => decide (Agc.Teaches frame)) *
        (1 - 1 / 4) := by
  let _ := straight
  refine Agc.settles ⟨1⟩ (1 / 4) loudFrames fun frame hframe hteach => ?_
  simp only [loudFrames, List.mem_cons, List.not_mem_nil, or_false] at hframe
  unfold Agc.want
  rcases hframe with rfl | rfl | rfl
  · rw [rms_replicate]
    norm_num [clamp]
  · unfold Agc.Teaches at hteach
    rw [rms_replicate] at hteach
    norm_num at hteach
  · rw [rms_replicate]
    norm_num [clamp]

end Client
end TcVoice
