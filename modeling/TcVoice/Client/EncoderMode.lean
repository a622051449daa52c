import TcVoice.Client.Accounting
import TcVoice.Client.Privacy

/-!
# The settings of the encoder

What a run of the capture loop sets of the encoder, in two places that know nothing of each other:
the paranoid switch sets the mode, and the statistics set the tier.

* `lookedAt`, `Taken.next` — the frames at which the statistics are looked at, and what they make of
  the tier.
* `Capture.InMode` — the encoder has the settings of one tier, of the loss that has led to it, and
  of one mode.
* `Reading.Fair` — the tier and the loss are read from one measurement window.
* `encoder_in_mode` — **after every run the encoder is in the mode of the last frame and in the
  tier last taken over**, with redundancy for the loss that has led to it.
-/

namespace TcVoice
namespace Client

open Machines

variable {F E D : Type}

/-- A tier, with the loss at which it was taken over. -/
structure Taken where
  tier : QualityTier
  loss : UInt8
  deriving DecidableEq, Repr

/-- Another tier is taken over; within a tier the loss does not matter. -/
def Taken.next (t : Taken) (r : Reading F) : Taken :=
  if r.currentTier = t.tier then t else ⟨r.currentTier, r.lossPercent⟩

/-- The frames at which the statistics are looked at, where `since` frames have come since they
were last: of those that are not muted, the last one of each window. -/
def lookedAt (since : ℕ) : List (Reading F) → List (Reading F)
  | [] => []
  | r :: readings =>
    if r.muted then lookedAt since readings
    else if Config.statsWindowPackets ≤ since + 1 then r :: lookedAt 0 readings
    else lookedAt (since + 1) readings

/-- Variable bitrate and discontinuous transmission are on unless the last frame was a paranoid
one; the bitrate and the complexity are those of the tier, with redundancy for the loss that has
led to it, as far as that is less than the floor allows. -/
structure Capture.InMode (c : Capture F E D) (taken : Taken) : Prop where
  vbr : c.encoder.settings.vbr = !c.lastParanoid
  dtx : c.encoder.settings.dtx = !c.lastParanoid
  tier : c.currentTier = taken.tier
  bitrate : c.encoder.settings.bitrate = taken.tier.bitrate
  complexity : c.encoder.settings.complexity = taken.tier.complexity
  fec : c.encoder.settings.inbandFec = true
  hint : c.encoder.settings.packetLossPerc = fecLossHint taken.loss
  origin : taken.tier = .fromLoss taken.loss

/-- The tier and the loss are of one window, and the loss is a share. -/
structure Reading.Fair (r : Reading F) : Prop where
  tier : r.currentTier = .fromLoss r.lossPercent
  share : r.lossPercent.toNat ≤ 100

variable {cfg : CaptureCfg F E D} {c c' : Capture F E D} {r : Reading F} {taken : Taken}

theorem fecLossHint_le {loss : UInt8} (h : loss.toNat ≤ 100) : fecLossHint loss ≤ 100 :=
  max_le h (by decide)

/-- What leaves the settings, the mode and the tier alone keeps the encoder in its mode. -/
theorem Capture.InMode.congr (h : c.InMode taken)
    (hsettings : c'.encoder.settings = c.encoder.settings)
    (hparanoid : c'.lastParanoid = c.lastParanoid) (htier : c'.currentTier = c.currentTier) :
    c'.InMode taken := by
  constructor
  · rw [hsettings, hparanoid]
    exact h.vbr
  · rw [hsettings, hparanoid]
    exact h.dtx
  · rw [htier]
    exact h.tier
  · rw [hsettings]
    exact h.bitrate
  · rw [hsettings]
    exact h.complexity
  · rw [hsettings]
    exact h.fec
  · rw [hsettings]
    exact h.hint
  · exact h.origin

theorem Capture.InMode.popped (h : c.InMode taken) : (c.popped r).InMode taken := by
  unfold Capture.popped Capture.reconfigure
  split
  · exact { h with vbr := rfl, dtx := rfl }
  · exact h.congr rfl rfl rfl

/-- The last frame of a window takes its tier over. -/
theorem Capture.InMode.adapted (h : c.InMode taken) (hr : r.Fair) :
    (c.maybeAdaptEncoder r).InMode (taken.next r) := by
  unfold Capture.maybeAdaptEncoder Taken.next
  rw [h.tier]
  split
  · exact h
  · have hle := fecLossHint_le hr.share
    have happly := apply_settings c.encoder r.currentTier r.lossPercent
    constructor
    · rw [happly]
      exact h.vbr
    · rw [happly]
      exact h.dtx
    · rfl
    · rw [happly]
      rfl
    · rw [happly]
      rfl
    · rw [happly]
      rfl
    · rw [happly]
      exact if_neg (not_lt.2 hle)
    · exact hr.tier

theorem Capture.InMode.checked (h : c.InMode taken) (hr : r.Fair) :
    (c.checked r).InMode
      (if Config.statsWindowPackets ≤ c.framesSinceCheck + 1 then taken.next r else taken) := by
  unfold Capture.checked
  split
  · exact (h.congr rfl rfl rfl : Capture.InMode { c with framesSinceCheck := 0 } taken).adapted hr
  · exact h.congr rfl rfl rfl

theorem Capture.InMode.sendOne (h : c.InMode taken) (source : Option ℕ) (frame : Frame F) :
    (sendOne cfg c source frame).1.InMode taken := by
  obtain ⟨state, packetBuf, sequence, drawn, hone⟩ := sendOne_state cfg c source frame
  rw [hone]
  exact h.congr rfl rfl rfl

theorem Capture.InMode.flush (h : c.InMode taken) (number : ℕ) :
    (c.flush cfg number).1.InMode taken := by
  obtain ⟨state, packetBuf, sequence, drawn, hflush⟩ := flush_state cfg c number
  rw [hflush]
  exact h.congr rfl rfl rfl

section Run

variable [F32 F]

/-- The statistics are not looked at while muted. -/
theorem Capture.InMode.captureFrame_muted (h : c.InMode taken) (hmuted : r.muted = true) :
    (captureFrame cfg c r).1.InMode taken ∧
      (captureFrame cfg c r).1.framesSinceCheck = c.framesSinceCheck := by
  obtain ⟨encoder, hpopped⟩ := popped_state c r
  rw [TcVoice.Client.captureFrame_muted hmuted]
  split
  · obtain ⟨_, _, _, _, hone⟩ := sendOne_state cfg (c.popped r) none (Vector.replicate _ 0)
    refine ⟨h.popped.sendOne _ _, ?_⟩
    show (TcVoice.Client.sendOne cfg _ _ _).1.framesSinceCheck = _
    rw [hone, hpopped]
  · refine ⟨h.popped, ?_⟩
    rw [hpopped]

/-- Otherwise they are looked at once in a window. -/
theorem Capture.InMode.captureFrame_unmuted (h : c.InMode taken) (hr : r.Fair)
    (hmuted : ¬ r.muted = true) :
    (captureFrame cfg c r).1.InMode
        (if Config.statsWindowPackets ≤ c.framesSinceCheck + 1 then taken.next r else taken) ∧
      (captureFrame cfg c r).1.framesSinceCheck =
        if Config.statsWindowPackets ≤ c.framesSinceCheck + 1 then 0
        else c.framesSinceCheck + 1 := by
  obtain ⟨encoder, hpopped⟩ := popped_state c r
  have hsince : ((c.popped r).processed cfg r).framesSinceCheck = c.framesSinceCheck := by
    show (c.popped r).framesSinceCheck = _
    rw [hpopped]
  have hprocessed : ((c.popped r).processed cfg r).InMode taken := h.popped.congr rfl rfl rfl
  have hready := hprocessed.checked hr
  rw [hsince] at hready
  obtain ⟨encoder', pcmFrame, denoiser, autoLevel, hstate⟩ := ready_state cfg c r
  have hcount : (c.ready cfg r).framesSinceCheck =
      if Config.statsWindowPackets ≤ c.framesSinceCheck + 1 then 0
      else c.framesSinceCheck + 1 := by
    rw [hstate]
  have hgated : (c.gated cfg r).InMode _ := hready.congr rfl rfl rfl
  rw [captureFrame_eq, if_neg hmuted]
  split
  · obtain ⟨_, _, _, _, hone⟩ := sendOne_state cfg (c.ready cfg r) (some c.captured)
      (c.ready cfg r).pcmFrame
    refine ⟨hready.sendOne _ _, ?_⟩
    show (TcVoice.Client.sendOne cfg _ _ _).1.framesSinceCheck = _
    rw [hone]
    exact hcount
  · split
    · exact ⟨hgated.congr rfl rfl rfl, hcount⟩
    · obtain ⟨_, _, _, _, hflush⟩ := flush_state cfg (c.gated cfg r) c.captured
      refine ⟨hgated.flush _, ?_⟩
      rw [hflush]
      exact hcount

/-- After any frames the encoder has the tier that the last of them looked at leave it. -/
theorem Capture.InMode.run (h : c.InMode taken) (readings : List (Reading F))
    (hr : ∀ r ∈ readings, r.Fair) :
    (after (captureFrame cfg) c readings).InMode
      ((lookedAt c.framesSinceCheck readings).foldl Taken.next taken) := by
  induction readings generalizing c taken with
  | nil => exact h
  | cons r readings ih =>
    have hfair := hr r List.mem_cons_self
    have hrest : ∀ r' ∈ readings, r'.Fair := fun r' hr' => hr r' (List.mem_cons_of_mem _ hr')
    by_cases hmuted : r.muted = true
    · obtain ⟨hmode, hsince⟩ : (captureFrame cfg c r).1.InMode taken ∧ _ :=
        h.captureFrame_muted hmuted
      rw [lookedAt, if_pos hmuted, ← hsince]
      exact ih hmode hrest
    · obtain ⟨hmode, hsince⟩ : (captureFrame cfg c r).1.InMode _ ∧ _ :=
        h.captureFrame_unmuted hfair hmuted
      have hdone := ih hmode hrest
      rw [hsince] at hdone
      rw [lookedAt, if_neg hmuted]
      split
      · rename_i hfull
        rw [if_pos hfull, if_pos hfull] at hdone
        exact hdone
      · rename_i hfull
        rw [if_neg hfull, if_neg hfull] at hdone
        exact hdone

theorem lastParanoid_captureFrame (cfg : CaptureCfg F E D) (c : Capture F E D) (r : Reading F) :
    (captureFrame cfg c r).1.lastParanoid = r.paranoid := by
  obtain ⟨encoder, hpopped⟩ := popped_state c r
  obtain ⟨encoder', pcmFrame, denoiser, autoLevel, hready⟩ := ready_state cfg c r
  have hgated : (c.gated cfg r).lastParanoid = r.paranoid := by
    show (c.ready cfg r).lastParanoid = _
    rw [hready]
  rw [captureFrame_eq]
  split
  · split
    · obtain ⟨_, _, _, _, hone⟩ := sendOne_state cfg (c.popped r) none (Vector.replicate _ 0)
      show (TcVoice.Client.sendOne cfg _ _ _).1.lastParanoid = _
      rw [hone, hpopped]
    · rw [hpopped]
  · split
    · obtain ⟨_, _, _, _, hone⟩ := sendOne_state cfg (c.ready cfg r) (some c.captured)
        (c.ready cfg r).pcmFrame
      show (TcVoice.Client.sendOne cfg _ _ _).1.lastParanoid = _
      rw [hone, hready]
    · split
      · exact hgated
      · obtain ⟨_, _, _, _, hflush⟩ := flush_state cfg (c.gated cfg r) c.captured
        rw [hflush]
        exact hgated

/-- The encoder of a call that has just begun. -/
theorem inMode_start (cfg : CaptureCfg F E D) (hvbr : cfg.codec.new.1.vbr = true)
    {lossPercent : UInt8} (hloss : QualityTier.fromLoss lossPercent = .high) :
    (cfg.start lossPercent).InMode ⟨.high, lossPercent⟩ := by
  have hle : fecLossHint lossPercent ≤ 100 := by
    refine fecLossHint_le ?_
    by_contra hmany
    have hmin : Config.lossThreshMinimum ≤ lossPercent.toNat :=
      le_trans (by decide) (not_le.1 hmany).le
    rw [QualityTier.fromLoss, if_pos hmin] at hloss
    cases hloss
  have hsettings : (cfg.start lossPercent : Capture F E D).encoder.settings =
      (OpusEncoder.new cfg.codec).settings.adapted .high lossPercent := apply_settings _ _ _
  constructor
  · rw [hsettings]
    exact hvbr
  · rw [hsettings]
    rfl
  · rfl
  · rw [hsettings]
    rfl
  · rw [hsettings]
    rfl
  · rw [hsettings]
    rfl
  · rw [hsettings]
    exact if_neg (not_lt.2 hle)
  · exact hloss.symm

/-- However the switches and the network go: after every frame the encoder is in the mode of that
frame, and in the tier last taken over, which is the one read at the last look at the statistics,
with redundancy for the loss that was read when it was taken over. -/
theorem encoder_in_mode (cfg : CaptureCfg F E D) (hvbr : cfg.codec.new.1.vbr = true)
    {lossPercent : UInt8} (hloss : QualityTier.fromLoss lossPercent = .high)
    (readings : List (Reading F)) (r : Reading F) (hr : ∀ r' ∈ readings ++ [r], r'.Fair) :
    (after (captureFrame cfg) (cfg.start lossPercent) (readings ++ [r])).InMode
        ((lookedAt 0 (readings ++ [r])).foldl Taken.next ⟨.high, lossPercent⟩) ∧
      (after (captureFrame cfg) (cfg.start lossPercent) (readings ++ [r])).lastParanoid =
        r.paranoid := by
  refine ⟨(inMode_start cfg hvbr hloss).run _ hr, ?_⟩
  rw [after_append]
  exact lastParanoid_captureFrame cfg _ r

end Run

/-- A frame while one packet in ten is lost. -/
def lossyReading : Reading Whole :=
  { sampleReading 1 with currentTier := .fromLoss 10, lossPercent := 10 }

theorem takenOver_lossy :
    (lookedAt 0 (List.replicate Config.statsWindowPackets lossyReading ++
      [{ sampleReading 1 with paranoid := true }])).foldl Taken.next ⟨.high, 3⟩ =
        ⟨.fromLoss 10, 10⟩ := by
  decide +kernel

/-- A window with losses, and a paranoid frame after it. -/
theorem encoder_in_mode_lossy :
    (after (captureFrame sampleCfg) (sampleCfg.start 3)
        (List.replicate Config.statsWindowPackets lossyReading ++
          [{ sampleReading 1 with paranoid := true }])).InMode ⟨.fromLoss 10, 10⟩ ∧
      (after (captureFrame sampleCfg) (sampleCfg.start 3)
        (List.replicate Config.statsWindowPackets lossyReading ++
          [{ sampleReading 1 with paranoid := true }])).lastParanoid = true := by
  rw [← takenOver_lossy]
  refine encoder_in_mode sampleCfg rfl (by decide)
    (List.replicate Config.statsWindowPackets lossyReading)
    { sampleReading 1 with paranoid := true } fun r hr => ?_
  rcases List.mem_append.1 hr with hr | hr
  · rw [List.eq_of_mem_replicate hr]
    exact ⟨rfl, by decide⟩
  · rw [List.mem_singleton.1 hr]
    exact ⟨rfl, by decide⟩

end Client
end TcVoice
