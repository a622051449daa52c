import TcVoice.Client.Capture

/-!
# What the capture loop gives away

Two runs of the capture loop, and what tells them apart from outside.

* `mute_complete` — **samples captured while muted influence nothing**: neither what
  the encoder is given nor what is sent, then or later.
* `Window` — the tier in use and the count of frames since it was looked at, which only
  unmuted frames advance.
* `paranoid_sizes_iff` — **in paranoid mode the sizes of the packets hide speech and mute
  exactly while no tier change is taken up by one run and not by the other**;
  `mute_shows` is a mute of one frame that shows.
-/

namespace TcVoice
namespace Client

open Machines

variable {F E D : Type}

/-! ## Mute -/

/-- Two readings that are the same but for the samples of a frame captured while muted. -/
def SameUnmuted (r r' : Reading F) : Prop :=
  r' = { r with pcm := r'.pcm } ∧ (r.muted = false → r'.pcm = r.pcm)

section Mute

variable {cfg : CaptureCfg F E D} {c : Capture F E D} {r r' : Reading F}

/-- The state with other samples in the frame buffer. -/
def Capture.withBuffer (c : Capture F E D) (pcm : Frame F) : Capture F E D :=
  { c with pcmFrame := pcm }

theorem withBuffer_self (c : Capture F E D) : c.withBuffer c.pcmFrame = c := rfl

theorem popped_withBuffer (pcm pcm' : Frame F) :
    (c.withBuffer pcm).popped { r with pcm := pcm' } = (c.popped r).withBuffer pcm' := by
  unfold Capture.popped Capture.reconfigure
  show (if r.paranoid ≠ c.lastParanoid then _ else _) =
    Capture.withBuffer (if r.paranoid ≠ c.lastParanoid then _ else _) pcm'
  split <;> rfl

/-- The buffer is not what `send_one` sends. -/
theorem sendOne_withBuffer (pcm : Frame F) (source : Option ℕ) (frame : Frame F) :
    sendOne cfg (c.withBuffer pcm) source frame =
      ((sendOne cfg c source frame).1.withBuffer pcm, (sendOne cfg c source frame).2) := by
  unfold sendOne Capture.withBuffer
  simp only
  split
  · rfl
  · split <;> rfl

/-- One frame: the answers are the same, and the states differ at most in the buffer, which
the next frame overwrites. -/
theorem captureFrame_sameUnmuted [F32 F] (h : SameUnmuted r r') (pcm : Frame F) :
    (captureFrame cfg (c.withBuffer pcm) r').2 = (captureFrame cfg c r).2 ∧
      ∃ pcm', (captureFrame cfg (c.withBuffer pcm) r').1 =
        (captureFrame cfg c r).1.withBuffer pcm' := by
  obtain ⟨heq, hsame⟩ := h
  cases hm : r.muted with
  | false =>
    rw [hsame hm] at heq
    subst heq
    have hpop : captureFrame cfg (c.withBuffer pcm) r = captureFrame cfg c r := rfl
    rw [hpop]
    exact ⟨rfl, (captureFrame cfg c r).1.pcmFrame, (withBuffer_self _).symm⟩
  | true =>
    rw [heq, captureFrame_muted hm, captureFrame_muted (show Reading.muted { r with pcm := r'.pcm }
      = true from hm), popped_withBuffer]
    cases r.paranoid with
    | false => exact ⟨rfl, _, rfl⟩
    | true =>
      simp only [if_true, sendAlone, sendOne_withBuffer]
      exact ⟨trivial, r'.pcm, rfl⟩

/-- **Mute is complete.**  In two runs that read the same but for the samples of frames
captured while muted, the encoder is given the same samples and the same packets are sent,
frame by frame, whatever the modes are and however they change. -/
theorem mute_complete [F32 F] (cfg : CaptureCfg F E D) (c : Capture F E D)
    (rs rs' : List (Reading F)) (h : List.Forall₂ SameUnmuted rs rs') :
    outputs (captureFrame cfg) c rs = outputs (captureFrame cfg) c rs' := by
  have hrun : (outputs (captureFrame cfg) c rs).map id =
      (outputs (captureFrame cfg) c rs').map id := by
    apply outputs_eq (R := fun c c' => ∃ pcm, c' = c.withBuffer pcm) _ _ h ⟨c.pcmFrame, rfl⟩
    · rintro c _ r r' ⟨pcm, rfl⟩ hr
      exact (captureFrame_sameUnmuted hr pcm).1.symm
    · rintro c _ r r' ⟨pcm, rfl⟩ hr
      exact (captureFrame_sameUnmuted hr pcm).2
  rwa [List.map_id, List.map_id] at hrun

/-- A loud frame and a silent one, both captured while muted. -/
theorem mute_complete_sample :
    outputs (captureFrame sampleCfg) (sampleCfg.start 0)
        [{ sampleReading 1 with muted := true }, sampleReading 1] =
      outputs (captureFrame sampleCfg) (sampleCfg.start 0)
        [{ sampleReading 0 with muted := true }, sampleReading 1] :=
  mute_complete sampleCfg (sampleCfg.start 0) _ _
    (.cons ⟨rfl, fun h => absurd h (by decide)⟩ (.cons ⟨rfl, fun _ => rfl⟩ .nil))

end Mute

/-! ## Windows -/

/-- Where the adaptation to the network stands: the tier in use, and the frames that were
counted since the statistics were last looked at. -/
structure Window where
  tier : QualityTier
  framesSinceCheck : ℕ
  deriving DecidableEq, Repr

/-- The frame completes a window: the statistics are looked at.  Muted frames do not count. -/
def Window.Completes (w : Window) (r : Reading F) : Prop :=
  r.muted = false ∧ Config.statsWindowPackets ≤ w.framesSinceCheck + 1

instance (w : Window) (r : Reading F) : Decidable (w.Completes r) :=
  inferInstanceAs (Decidable (_ ∧ _))

theorem Window.not_completes {w : Window} {r : Reading F} (hm : r.muted = true) :
    ¬ w.Completes r := by
  intro h
  rw [h.1] at hm
  cases hm

theorem Window.completes_iff {w : Window} {r : Reading F} (hm : r.muted = false) :
    w.Completes r ↔ Config.statsWindowPackets ≤ w.framesSinceCheck + 1 := and_iff_right hm

/-- What a frame makes of a window. -/
def Window.next (w : Window) (r : Reading F) : Window × Unit :=
  (if r.muted then w
    else if Config.statsWindowPackets ≤ w.framesSinceCheck + 1 then ⟨r.currentTier, 0⟩
    else { w with framesSinceCheck := w.framesSinceCheck + 1 }, ())

/-- The window of the capture thread. -/
def Capture.window (c : Capture F E D) : Window := ⟨c.currentTier, c.framesSinceCheck⟩

section Windows

variable {cfg : CaptureCfg F E D} {c : Capture F E D} {r : Reading F}

theorem popped_window : (c.popped r).window = c.window := by
  obtain ⟨encoder, heq⟩ := popped_state c r
  rw [heq]
  rfl

theorem sendOne_window (source : Option ℕ) (frame : Frame F) :
    (sendOne cfg c source frame).1.window = c.window := by
  obtain ⟨state, packetBuf, sequence, drawn, heq⟩ := sendOne_state cfg c source frame
  rw [heq]
  rfl

theorem flush_window (number : ℕ) : (c.flush cfg number).1.window = c.window := by
  obtain ⟨state, packetBuf, sequence, drawn, heq⟩ := flush_state cfg c number
  rw [heq]
  rfl

variable [F32 F]

theorem ready_window (hm : r.muted = false) : (c.ready cfg r).window = (c.window.next r).1 := by
  obtain ⟨encoder, pcmFrame, denoiser, autoLevel, heq⟩ := ready_state cfg c r
  rw [heq]
  unfold Window.next Capture.window
  rw [hm, if_neg Bool.false_ne_true]
  split <;> rfl

/-- Only the mute flag and the tier of the statistics move a window on. -/
theorem captureFrame_window (cfg : CaptureCfg F E D) (c : Capture F E D) (r : Reading F) :
    (captureFrame cfg c r).1.window = (c.window.next r).1 := by
  cases hm : r.muted with
  | true =>
    have hstay : (c.window.next r).1 = c.window := by
      unfold Window.next
      rw [hm, if_pos rfl]
    rw [captureFrame_muted hm, hstay]
    split
    · exact (sendOne_window _ _).trans popped_window
    · exact popped_window
  | false =>
    rw [← ready_window (r := r) hm, captureFrame_eq, hm, if_neg Bool.false_ne_true]
    split
    · exact sendOne_window _ _
    · split
      · rfl
      · exact flush_window _

end Windows

/-! ## Paranoid mode -/

/-- In constant-bitrate mode encoding succeeds, with a size that depends on the settings only. -/
def Codec.ConstantBitrate (codec : Codec F E) (size : EncoderSettings → ℕ) : Prop :=
  ∀ settings state pcm, settings.vbr = false → settings.dtx = false →
    ∃ opus, (codec.encodeFloat settings state pcm).2 = some opus ∧ opus.length = size settings

/-- Two readings in paranoid mode with the same statistics. -/
def ParanoidAlike (r r' : Reading F) : Prop :=
  r.paranoid = true ∧ r'.paranoid = true ∧ r.currentTier = r'.currentTier ∧
    r.lossPercent = r'.lossPercent

/-- Of two runs at one frame: the tier of the statistics is the one in use, or both take it up
now, or neither does. -/
def TierAlike (w : Window) (r : Reading F) (w' : Window) (r' : Reading F) : Prop :=
  r.currentTier = w.tier ∨ (w.Completes r ↔ w'.Completes r')

instance (w : Window) (r : Reading F) (w' : Window) (r' : Reading F) :
    Decidable (TierAlike w r w' r') := inferInstanceAs (Decidable (_ ∨ _))

/-- Settings in constant-bitrate mode. -/
def EncoderSettings.constant (settings : EncoderSettings) : EncoderSettings :=
  { settings with vbr := false, dtx := false }

/-- The settings of a tier over others. -/
def EncoderSettings.adapted (settings : EncoderSettings) (tier : QualityTier)
    (lossPercent : UInt8) : EncoderSettings :=
  { settings with
    bitrate := tier.bitrate, complexity := tier.complexity, inbandFec := true,
    packetLossPerc := if 100 < fecLossHint lossPercent then settings.packetLossPerc
      else fecLossHint lossPercent }

theorem apply_settings (encoder : OpusEncoder E) (tier : QualityTier) (lossPercent : UInt8) :
    (tier.apply encoder lossPercent).1.settings = encoder.settings.adapted tier lossPercent := by
  unfold QualityTier.apply OpusEncoder.applyQualitySettings EncoderSettings.adapted
  by_cases hloss : 100 < fecLossHint lossPercent
  · simp only [if_pos hloss]
  · simp only [if_neg hloss]

/-- The settings that a frame in paranoid mode is encoded with. -/
def Capture.paranoidSettings (c : Capture F E D) (r : Reading F) : EncoderSettings :=
  if c.window.Completes r ∧ r.currentTier ≠ c.currentTier then
    c.encoder.settings.constant.adapted r.currentTier r.lossPercent
  else c.encoder.settings.constant

/-- The encoder is in the mode of the last frame, and at the bitrate of the tier. -/
structure Capture.Settled (c : Capture F E D) : Prop where
  constant : c.lastParanoid = true → c.encoder.settings.constant = c.encoder.settings
  bitrate : c.encoder.settings.bitrate = c.currentTier.bitrate

section Paranoid

variable {cfg : CaptureCfg F E D} {c : Capture F E D} {r : Reading F}

theorem popped_settings (hc : c.Settled) (hp : r.paranoid = true) :
    (c.popped r).encoder.settings = c.encoder.settings.constant ∧
      (c.popped r).lastParanoid = true := by
  unfold Capture.popped Capture.reconfigure
  rw [hp]
  split
  · exact ⟨rfl, rfl⟩
  · rename_i hlast
    have hlast' : c.lastParanoid = true := (not_not.1 hlast).symm
    exact ⟨(hc.constant hlast').symm, hlast'⟩

theorem checked_settings : (c.checked r).lastParanoid = c.lastParanoid ∧
    (c.checked r).encoder.settings =
      if Config.statsWindowPackets ≤ c.framesSinceCheck + 1 ∧ r.currentTier ≠ c.currentTier then
        c.encoder.settings.adapted r.currentTier r.lossPercent
      else c.encoder.settings := by
  unfold Capture.checked Capture.maybeAdaptEncoder
  by_cases hfull : Config.statsWindowPackets ≤ c.framesSinceCheck + 1
  · by_cases htier : r.currentTier = c.currentTier
    · rw [if_pos hfull, if_pos htier, if_neg fun h => h.2 htier]
      exact ⟨rfl, rfl⟩
    · rw [if_pos hfull, if_neg htier, if_pos ⟨hfull, htier⟩]
      exact ⟨rfl, apply_settings _ _ _⟩
  · rw [if_neg hfull, if_neg fun h => hfull h.1]
    exact ⟨rfl, rfl⟩

variable [F32 F]

/-- In paranoid mode every frame is one call of the encoder, in the mode for it. -/
theorem captureFrame_alone (cfg : CaptureCfg F E D) (hc : c.Settled) (hp : r.paranoid = true) :
    ∃ c' source frame, captureFrame cfg c r = sendAlone cfg c' source frame ∧
      c'.encoder.settings = c.paranoidSettings r ∧ c'.lastParanoid = true := by
  obtain ⟨hsettings, hlast⟩ := popped_settings hc hp
  unfold Capture.paranoidSettings
  cases hm : r.muted with
  | true =>
    refine ⟨c.popped r, none, Vector.replicate _ 0, ?_, ?_, hlast⟩
    · rw [captureFrame_muted hm, if_pos hp]
    · rw [hsettings, if_neg fun h => Window.not_completes hm h.1]
  | false =>
    have hcount : ((c.popped r).processed cfg r).framesSinceCheck = c.framesSinceCheck :=
      congrArg Window.framesSinceCheck popped_window
    have htier : ((c.popped r).processed cfg r).currentTier = c.currentTier :=
      congrArg Window.tier popped_window
    have hprocessed : ((c.popped r).processed cfg r).encoder.settings =
        c.encoder.settings.constant := hsettings
    obtain ⟨hmode, hadapted⟩ := checked_settings (c := (c.popped r).processed cfg r) (r := r)
    refine ⟨_, _, _, captureFrame_paranoid hm hp, ?_, hmode.trans hlast⟩
    unfold Capture.ready
    rw [hadapted, hcount, htier, hprocessed]
    simp only [Window.completes_iff hm]
    rfl

omit [F32 F] in
/-- The tier after a frame. -/
theorem next_tier (w : Window) (r : Reading F) :
    (w.next r).1.tier = if w.Completes r then r.currentTier else w.tier := by
  unfold Window.next
  cases hm : r.muted with
  | true =>
    rw [if_neg (Window.not_completes hm)]
    rfl
  | false =>
    simp only [Bool.false_eq_true, if_false, Window.completes_iff hm]
    split <;> rfl

omit [F32 F] in
theorem paranoidSettings_constant :
    (c.paranoidSettings r).constant = c.paranoidSettings r := by
  unfold Capture.paranoidSettings
  split <;> rfl

omit [F32 F] in
/-- The bitrate of a frame in paranoid mode is that of the tier after it. -/
theorem paranoidSettings_bitrate (hc : c.Settled) :
    (c.paranoidSettings r).bitrate = (c.window.next r).1.tier.bitrate := by
  have hkept : c.encoder.settings.constant.bitrate = c.currentTier.bitrate := hc.bitrate
  rw [next_tier]
  unfold Capture.paranoidSettings
  by_cases hfull : c.window.Completes r
  · by_cases htier : r.currentTier = c.currentTier
    · rw [if_pos hfull, if_neg fun h => h.2 htier, hkept, htier]
    · rw [if_pos hfull, if_pos ⟨hfull, htier⟩]
      rfl
  · rw [if_neg hfull, if_neg fun h => hfull h.1]
    exact hkept

theorem settled_next (cfg : CaptureCfg F E D) (hc : c.Settled) (hp : r.paranoid = true) :
    (captureFrame cfg c r).1.Settled ∧
      (captureFrame cfg c r).1.encoder.settings = c.paranoidSettings r := by
  obtain ⟨c', source, frame, heq, hsettings, -⟩ := captureFrame_alone cfg hc hp
  obtain ⟨state, packetBuf, sequence, drawn, hsent⟩ := sendOne_state cfg c' source frame
  have hafter : (captureFrame cfg c r).1.encoder.settings = c.paranoidSettings r := by
    rw [heq, sendAlone, hsent]
    exact hsettings
  have htier := congrArg Window.tier (captureFrame_window cfg c r)
  refine ⟨⟨fun _ => ?_, ?_⟩, hafter⟩
  · rw [hafter, paranoidSettings_constant]
  · rw [hafter, paranoidSettings_bitrate hc, ← htier]
    rfl

end Paranoid

/-! ## The sizes of two runs -/

/-- The size of the packet that was sent. -/
def Attempt.size (attempt : Attempt F) : Option ℕ := attempt.packet.map List.length

/-- The bytes of a packet besides the audio. -/
def CaptureCfg.overhead (cfg : CaptureCfg F E D) : ℕ :=
  4 + 1 + byteLen cfg.channelId + Config.xchacha20NonceSize + 1 +
    (nameBytes cfg.senderName).length + Config.poly1305TagSize

/-- The same thread, which draws other nonces. -/
def CaptureCfg.redrawn (cfg : CaptureCfg F E D) (nonces : ℕ → Nonce) : CaptureCfg F E D :=
  { cfg with nonces }

/-- What is assumed of the encoder and the cipher: both succeed, the size of a frame in
constant-bitrate mode depends on the settings only, and the bitrates of two tiers give two
sizes. -/
structure CaptureCfg.Steady (cfg : CaptureCfg F E D) (size : EncoderSettings → ℕ) : Prop where
  codec : cfg.codec.ConstantBitrate size
  bitrate : ∀ (settings settings' : EncoderSettings) (tier tier' : QualityTier),
    settings.bitrate = tier.bitrate → settings'.bitrate = tier'.bitrate → tier ≠ tier' →
      size settings ≠ size settings'
  encrypts : cfg.cipher.Encrypts
  keepsLength : cfg.cipher.KeepsLength

/-- Two states that encode alike from now on, as long as they adapt alike. -/
structure Together (c c' : Capture F E D) : Prop where
  settled : c.Settled
  settled' : c'.Settled
  settings : c.encoder.settings = c'.encoder.settings
  tier : c.currentTier = c'.currentTier

section Sizes

variable {cfg : CaptureCfg F E D} {c c' : Capture F E D} {r r' : Reading F}
  {size : EncoderSettings → ℕ}

theorem sendOne_size (hcfg : cfg.Steady size)
    (hconstant : c.encoder.settings.constant = c.encoder.settings) (source : Option ℕ)
    (frame : Frame F) :
    (sendOne cfg c source frame).2.size = some (cfg.overhead + size c.encoder.settings) := by
  have hvbr : c.encoder.settings.vbr = false := by rw [← hconstant]; rfl
  have hdtx : c.encoder.settings.dtx = false := by rw [← hconstant]; rfl
  obtain ⟨opus, hopus, hlen⟩ := hcfg.codec _ c.encoder.state frame hvbr hdtx
  obtain ⟨packet, hbuild⟩ := buildPacket_built hcfg.encrypts (cfg.nonces c.drawn) c.packetBuf
    c.sequence cfg.channelId (nameBytes cfg.senderName) opus
  have hpacket := length_packet hcfg.keepsLength hbuild
  unfold sendOne OpusEncoder.encode
  simp only [hopus, hbuild, Attempt.size, Option.map_some, CaptureCfg.overhead, Option.some.injEq]
  omega

variable [F32 F]

/-- What one frame in paranoid mode shows. -/
theorem captureFrame_size (hcfg : cfg.Steady size) (hc : c.Settled) (hp : r.paranoid = true) :
    (captureFrame cfg c r).2.map Attempt.size =
      [some (cfg.overhead + size (c.paranoidSettings r))] := by
  obtain ⟨c', source, frame, heq, hsettings, -⟩ := captureFrame_alone cfg hc hp
  have hconstant : c'.encoder.settings.constant = c'.encoder.settings := by
    rw [hsettings, paranoidSettings_constant]
  rw [heq, sendAlone, List.map_singleton, sendOne_size hcfg hconstant, hsettings]

omit [F32 F] in
/-- With the same tier in use and the same statistics, the tier after the frame is the same
exactly when both runs take it up or neither does. -/
theorem next_tier_eq_iff (hc : Together c c') (hr : ParanoidAlike r r') :
    (c.window.next r).1.tier = (c'.window.next r').1.tier ↔
      TierAlike c.window r c'.window r' := by
  have htier : c'.window.tier = c.window.tier := hc.tier.symm
  unfold TierAlike
  rw [next_tier, next_tier, htier, ← hr.2.2.1]
  by_cases hsame : r.currentTier = c.window.tier
  · rw [hsame, ite_self, ite_self]
    exact iff_of_true rfl (.inl rfl)
  · by_cases h : c.window.Completes r <;> by_cases h' : c'.window.Completes r' <;>
      simp [h, h', hsame, Ne.symm hsame]

omit [F32 F] in
/-- Then the settings are the same too. -/
theorem paranoidSettings_eq (hc : Together c c') (hr : ParanoidAlike r r')
    (h : TierAlike c.window r c'.window r') : c.paranoidSettings r = c'.paranoidSettings r' := by
  unfold Capture.paranoidSettings
  rw [← hc.settings, ← hc.tier, ← hr.2.2.1, ← hr.2.2.2]
  rcases h with hsame | hiff
  · have hsame' : r.currentTier = c.currentTier := hsame
    rw [if_neg fun h => h.2 hsame', if_neg fun h => h.2 hsame']
  · simp only [hiff]

/-- The frames of two runs have one size exactly when the runs adapt alike. -/
theorem captureFrame_sizes_iff {nonces' : ℕ → Nonce} (hcfg : cfg.Steady size)
    (hc : Together c c') (hr : ParanoidAlike r r') :
    (captureFrame cfg c r).2.map Attempt.size =
        (captureFrame (cfg.redrawn nonces') c' r').2.map Attempt.size ↔
      TierAlike c.window r c'.window r' := by
  have hcfg' : (cfg.redrawn nonces').Steady size :=
    ⟨hcfg.codec, hcfg.bitrate, hcfg.encrypts, hcfg.keepsLength⟩
  rw [captureFrame_size hcfg hc.settled hr.1, captureFrame_size hcfg' hc.settled' hr.2.1]
  constructor
  · intro h
    have hsize : size (c.paranoidSettings r) = size (c'.paranoidSettings r') := by
      have hsum := Option.some.inj (List.singleton_inj.1 h)
      have hsame : (cfg.redrawn nonces').overhead = cfg.overhead := rfl
      omega
    rw [← next_tier_eq_iff hc hr]
    by_contra hne
    exact hcfg.bitrate _ _ _ _ (paranoidSettings_bitrate hc.settled)
      (paranoidSettings_bitrate hc.settled') hne hsize
  · intro h
    rw [paranoidSettings_eq hc hr h]
    rfl

theorem together_next {nonces' : ℕ → Nonce} (hc : Together c c') (hr : ParanoidAlike r r')
    (h : TierAlike c.window r c'.window r') : Together (captureFrame cfg c r).1
      (captureFrame (cfg.redrawn nonces') c' r').1 := by
  obtain ⟨hsettled, hsettings⟩ := settled_next cfg hc.settled hr.1
  obtain ⟨hsettled', hsettings'⟩ := settled_next (cfg.redrawn nonces') hc.settled' hr.2.1
  refine ⟨hsettled, hsettled', ?_, ?_⟩
  · rw [hsettings, hsettings', paranoidSettings_eq hc hr h]
  · have htier := congrArg Window.tier (captureFrame_window cfg c r)
    have htier' := congrArg Window.tier
      (captureFrame_window (cfg.redrawn nonces') c' r')
    exact htier.trans (((next_tier_eq_iff hc hr).2 h).trans htier'.symm)

theorem settled_start (lossPercent : UInt8) : (cfg.start lossPercent).Settled := by
  refine ⟨fun h => absurd h Bool.false_ne_true, ?_⟩
  unfold CaptureCfg.start
  rw [apply_settings]
  rfl

/-- Two runs that start together show the same sizes exactly while they adapt alike. -/
theorem sizes_eq_iff (hcfg : cfg.Steady size) (nonces' : ℕ → Nonce) (lossPercent : UInt8)
    {rs rs' : List (Reading F)} (h : List.Forall₂ ParanoidAlike rs rs') :
    (outputs (captureFrame cfg) (cfg.start lossPercent) rs).map (List.map Attempt.size) =
        (outputs (captureFrame (cfg.redrawn nonces'))
          ((cfg.redrawn nonces').start lossPercent) rs').map
            (List.map Attempt.size) ↔
      Lockstep Window.next Window.next TierAlike ⟨.high, 0⟩ ⟨.high, 0⟩ rs rs' := by
  have hstart : Together (cfg.start lossPercent)
      ((cfg.redrawn nonces').start lossPercent) :=
    ⟨settled_start lossPercent, settled_start lossPercent, rfl, rfl⟩
  have hview : Lockstep (captureFrame cfg) (captureFrame (cfg.redrawn nonces'))
      (fun c r c' r' => TierAlike c.window r c'.window r') (cfg.start lossPercent)
      ((cfg.redrawn nonces').start lossPercent) rs rs' ↔
        Lockstep Window.next Window.next TierAlike ⟨.high, 0⟩ ⟨.high, 0⟩ rs rs' :=
    lockstep_view (fun c r _ _ => captureFrame_window cfg c r)
      (fun c _ r _ => captureFrame_window (cfg.redrawn nonces') c r) h _ _
  rw [← hview]
  apply outputs_eq_iff _ _ h hstart
  · intro c c' r r' hc hr
    exact captureFrame_sizes_iff hcfg hc hr
  · intro c c' r r' hc hr htier
    exact together_next hc hr htier

/-- **Paranoid mode and mute.**  For two runs in paranoid mode with the same statistics at each
frame, whatever is said, how loud, at which threshold and when muted: the packets sent for
each captured frame are the same in number and in size exactly when, at each frame, the tier of
the statistics is the one in use, or both runs complete a window of unmuted frames with it,
or neither does. -/
theorem paranoid_sizes_iff (cfg : CaptureCfg F E D) (size : EncoderSettings → ℕ)
    (hcfg : cfg.Steady size) (nonces' : ℕ → Nonce) (lossPercent : UInt8)
    (rs rs' : List (Reading F)) (h : List.Forall₂ ParanoidAlike rs rs') :
    (outputs (captureFrame cfg) (cfg.start lossPercent) rs).map (List.map Attempt.size) =
        (outputs (captureFrame (cfg.redrawn nonces')) ((cfg.redrawn nonces').start lossPercent)
          rs').map (List.map Attempt.size) ↔
      Lockstep Window.next Window.next TierAlike ⟨.high, 0⟩ ⟨.high, 0⟩ rs rs' :=
  sizes_eq_iff hcfg nonces' lossPercent h

end Sizes

theorem sampleCfg_steady : sampleCfg.Steady fun settings => settings.bitrate / 400 := by
  refine ⟨?_, ?_, ?_, Cipher.sample_keepsLength⟩
  · intro settings state pcm _ _
    exact ⟨List.replicate (settings.bitrate / 400) 0, rfl, List.length_replicate⟩
  · intro settings settings' tier tier' h h' hne
    rw [h, h']
    cases tier <;> cases tier' <;> first | exact absurd rfl hne | decide
  · intro nonce message
    rfl

/-- A window and a half in paranoid mode, over which the network gets worse; muted or not at
the first frame. -/
def worsening (firstMuted : Bool) : List (Reading Whole) :=
  { sampleReading 0 with paranoid := true, muted := firstMuted } ::
    (List.replicate 148 { sampleReading 0 with paranoid := true } ++
      [{ sampleReading 0 with paranoid := true, currentTier := .medium, lossPercent := 5 }])

theorem worsening_alike (firstMuted firstMuted' : Bool) :
    List.Forall₂ ParanoidAlike (worsening firstMuted) (worsening firstMuted') := by
  have hsame : ∀ rs : List (Reading Whole), (∀ r ∈ rs, r.paranoid = true) →
      List.Forall₂ ParanoidAlike rs rs := by
    intro rs hrs
    exact List.forall₂_same.2 fun r hr => ⟨hrs r hr, hrs r hr, rfl, rfl⟩
  refine .cons ⟨rfl, rfl, rfl, rfl⟩ (hsame _ ?_)
  intro r hr
  rcases List.mem_append.1 hr with h | h
  · rw [List.eq_of_mem_replicate h]
  · rw [List.mem_singleton.1 h]

/-- Two runs with the same mute toggles. -/
theorem paranoid_sizes_iff_sample :
    (outputs (captureFrame sampleCfg) (sampleCfg.start 0) (worsening true)).map
        (List.map Attempt.size) =
      (outputs (captureFrame (sampleCfg.redrawn fun _ => sampleNonce))
        ((sampleCfg.redrawn fun _ => sampleNonce).start 0) (worsening true)).map
          (List.map Attempt.size) :=
  (paranoid_sizes_iff sampleCfg _ sampleCfg_steady (fun _ => sampleNonce) 0 (worsening true)
    (worsening true) (worsening_alike true true)).2 (by decide +kernel)

/-- **A mute of one frame shows**: the run that was not muted takes up the lower bitrate at
the 150th frame, the other one a frame later. -/
theorem mute_shows :
    List.Forall₂ ParanoidAlike (worsening false) (worsening true) ∧
      (outputs (captureFrame sampleCfg) (sampleCfg.start 0) (worsening false)).map
          (List.map Attempt.size) ≠
        (outputs (captureFrame sampleCfg) (sampleCfg.start 0) (worsening true)).map
          (List.map Attempt.size) := by
  refine ⟨worsening_alike false true, ?_⟩
  intro h
  have hlockstep := (sizes_eq_iff sampleCfg_steady sampleCfg.nonces 0
    (worsening_alike false true)).1 h
  revert hlockstep
  decide +kernel

end Client
end TcVoice
