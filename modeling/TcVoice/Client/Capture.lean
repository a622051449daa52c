import TcVoice.Client.Packet
import TcVoice.Lib.Machines
import TcVoice.Lib.Ring
import Mathlib.Data.Nat.Sqrt
import Mathlib.Algebra.Order.Field.Rat

/-!
# The capture loop

`spawn_capture_thread` of `crates/client/src/voice.rs`: a captured frame goes through
gain, noise suppression and automatic level, past the voice gate, into the encoder and
into a packet.  With `limiter.rs`, `agc.rs` and the encoder and denoiser of `codec.rs`.

* `F32` — the operations of `f32` that the code uses; nothing is assumed of them.
* `Codec`, `Rnn` — Opus and RNNoise, which are not part of the repository.
* `Capture`, `captureFrame` — the state of the thread, and what it does with one frame:
  the encoder calls it makes and the packets it sends.
* `captureFrame_muted`, `captureFrame_paranoid`, `captureFrame_held`,
  `captureFrame_passed` — the four things that can become of a frame.
-/

namespace TcVoice
namespace Client

/-! ## Samples -/

/-- What the audio code does with `f32`. -/
class F32 (F : Type) extends Zero F, One F, Neg F, Add F, Sub F, Mul F, Div F, NatCast F,
    OfScientific F, LT F, LE F, BEq F where
  sqrt : F → F
  tanh : F → F
  abs : F → F
  min : F → F → F
  decLt : ∀ a b : F, Decidable (a < b)
  decLe : ∀ a b : F, Decidable (a ≤ b)

/-- The type of the source. -/
instance : F32 Float32 where
  natCast := .ofNat
  sqrt := .sqrt
  tanh := .tanh
  abs := .abs
  min := Min.min
  decLt := Float32.decLt
  decLe := Float32.decLe

/-- The functions of `f32` that exact numbers do not have. -/
class Curves where
  sqrt : ℚ → ℚ
  tanh : ℚ → ℚ

/-- Exact numbers. -/
instance [Curves] : F32 ℚ where
  sqrt := Curves.sqrt
  tanh := Curves.tanh
  abs x := |x|
  min := Min.min
  decLt := inferInstance
  decLe := inferInstance

section Signal

variable {F : Type} [F32 F]

instance decidableLt (a b : F) : Decidable (a < b) := F32.decLt a b

instance decidableLe (a b : F) : Decidable (a ≤ b) := F32.decLe a b

/-- `f32::clamp`. -/
def clamp (x lo hi : F) : F := if x < lo then lo else if hi < x then hi else x

/-- A frame of samples. -/
abbrev Frame (F : Type) := Vector F Config.frameSize

/-- The root of the mean of the squares. -/
def rms (frame : Frame F) : F :=
  F32.sqrt ((frame.toList.map fun s => s * s).foldl (· + ·) 0 / (Config.frameSize : F))

/-- `soft_clip` of `limiter.rs`. -/
def softClip (x : F) : F :=
  let knee : F := 0.8
  let a := F32.abs x
  if a ≤ knee then x
  else
    let overKnee := (a - knee) / (1 - knee)
    let shaped := F32.min (knee + (1 - knee) * F32.tanh overKnee) (1 - 1.1920929e-7 / 2.0)
    if x < 0 then -shaped else shaped

/-- `limit_in_place`: the frame, and whether a sample had reached full scale. -/
def limitInPlace (buf : Frame F) : Frame F × Bool :=
  let loud : F → Bool := fun s => (0.8 : F) < F32.abs s
  (buf.map fun s => if loud s then softClip s else s,
    buf.toList.any fun s => loud s && decide (1 ≤ F32.abs s))

/-- `apply_input_gain`: the frame, and whether the limiter avoided a clip. -/
def applyInputGain (frame : Frame F) (gain : F) (limit : Bool) : Frame F × Bool :=
  if gain == 1 then (frame, false)
  else
    let frame := frame.map (· * gain)
    if limit && decide (1 < gain) then limitInPlace frame else (frame, false)

/-- `Agc`. -/
structure Agc (F : Type) where
  gain : F

/-- `Agc::process`. -/
def Agc.process (agc : Agc F) (frame : Frame F) : Agc F × Frame F :=
  let rms := rms frame
  let gain :=
    if (0.004 : F) < rms then
      let want := clamp (0.09 / rms) 0.25 8.0
      let rate : F := if want < agc.gain then 0.35 else 0.03
      agc.gain + (want - agc.gain) * rate
    else agc.gain
  (⟨gain⟩, frame.map fun s => softClip (s * gain))

/-- RNNoise: a model that cleans chunks of 480 samples, one after another. -/
structure Rnn (F D : Type) where
  new : D
  processFrame : D → Vector F 480 → D × Vector F 480

variable {D : Type}

/-- One chunk through the model, in the range of 16-bit samples. -/
def Rnn.processChunk (rnn : Rnn F D) (state : D) (chunk : Vector F 480) : D × Vector F 480 :=
  let (state, out) := rnn.processFrame state (chunk.map (· * 32768.0))
  (state, out.map fun s => clamp (s / 32768.0) (-1) 1)

/-- `Denoiser::process`: the two chunks of a frame. -/
def Rnn.process (rnn : Rnn F D) (state : D) (pcm : Frame F) : D × Frame F :=
  have hsize : Config.frameSize = 960 := rfl
  let (state, first) := rnn.processChunk state (.ofFn fun i => pcm[i.1])
  let (state, second) := rnn.processChunk state (.ofFn fun i => pcm[480 + i.1])
  (state, first ++ second)

end Signal

/-! ## The encoder -/

/-- The settings of an encoder that change while it runs. -/
structure EncoderSettings where
  vbr : Bool
  dtx : Bool
  bitrate : ℕ
  complexity : ℕ
  inbandFec : Bool
  packetLossPerc : ℕ
  deriving DecidableEq, Repr

/-- Opus: the settings of a fresh encoder with the rest of its state, and what it encodes. -/
structure Codec (F E : Type) where
  new : EncoderSettings × E
  encodeFloat : EncoderSettings → E → Frame F → E × Option Bytes

/-- `OpusEncoder`. -/
structure OpusEncoder (E : Type) where
  settings : EncoderSettings
  state : E

namespace OpusEncoder

variable {F E : Type} (encoder : OpusEncoder E)

/-- `OpusEncoder::new`. -/
def new (codec : Codec F E) : OpusEncoder E := ⟨{ codec.new.1 with dtx := true }, codec.new.2⟩

/-- `apply_quality_settings`, and whether the encoder took them all: it refuses a loss of
more than a hundred percent. -/
def applyQualitySettings (bitrate complexity : ℕ) (fec : Bool) (lossPercent : ℕ) :
    OpusEncoder E × Bool :=
  let settings := { encoder.settings with bitrate, complexity, inbandFec := fec }
  if 100 < lossPercent then ({ encoder with settings }, false)
  else ({ encoder with settings := { settings with packetLossPerc := lossPercent } }, true)

/-- `set_constant_bitrate`. -/
def setConstantBitrate (on : Bool) : OpusEncoder E :=
  { encoder with settings := { encoder.settings with vbr := !on, dtx := !on } }

/-- `encode`. -/
def encode (codec : Codec F E) (pcm : Frame F) : OpusEncoder E × Option Bytes :=
  let (state, opus) := codec.encodeFloat encoder.settings encoder.state pcm
  ({ encoder with state }, opus)

end OpusEncoder

/-- `QualityTier`. -/
inductive QualityTier where
  | high
  | medium
  | low
  | minimum
  deriving DecidableEq, Repr

/-- `fec_loss_hint`. -/
def fecLossHint (measuredLoss : UInt8) : ℕ := max measuredLoss.toNat Config.fecMinLossPerc

namespace QualityTier

/-- `bitrate`. -/
def bitrate : QualityTier → ℕ
  | high => Config.bitrateHigh
  | medium => Config.bitrateMedium
  | low => Config.bitrateLow
  | minimum => Config.bitrateMinimum

/-- `complexity`. -/
def complexity : QualityTier → ℕ
  | high => Config.complexityHigh
  | medium => Config.complexityMedium
  | low => Config.complexityLow
  | minimum => Config.complexityMinimum

/-- `apply`: the encoder, and the loss hint if it took the settings. -/
def apply {E : Type} (tier : QualityTier) (encoder : OpusEncoder E) (measuredLoss : UInt8) :
    OpusEncoder E × Option ℕ :=
  let lossHint := fecLossHint measuredLoss
  match encoder.applyQualitySettings tier.bitrate tier.complexity true lossHint with
  | (encoder, true) => (encoder, some lossHint)
  | (encoder, false) => (encoder, none)

end QualityTier

/-! ## The gate -/

/-- A processed frame, with the number of the captured frame that it came from.  The number
is not in the source: the loop never looks at it. -/
structure Captured (F : Type) where
  number : ℕ
  pcm : Frame F

/-- `VadPreroll`: a ring of gated frames. -/
abbrev VadPreroll (F : Type) := Ring (Captured F) Config.vadPrerollFrames

/-- `VadPreroll::new`. -/
def VadPreroll.new {F : Type} [F32 F] : VadPreroll F :=
  Ring.new Config.vadPrerollFrames_pos ⟨0, Vector.replicate _ 0⟩

/-- `pass_vad`: whether the frame is sent, and the frames of hangover that remain. -/
def passVad {F : Type} [F32 F] (pcm : Frame F) (vadThreshold : F) (hangoverRemaining : ℕ) :
    Bool × ℕ :=
  if vadThreshold ≤ 0 then (true, hangoverRemaining)
  else if vadThreshold ≤ rms pcm then (true, Config.vadHangoverFrames)
  else if 0 < hangoverRemaining then (true, hangoverRemaining - 1)
  else (false, hangoverRemaining)

/-! ## The loop -/

/-- What the capture thread is started with, the libraries it runs on, and the nonces it is
going to draw. -/
structure CaptureCfg (F E D : Type) where
  codec : Codec F E
  rnn : Rnn F D
  cipher : Cipher
  channelId : ChannelId
  senderName : String
  nonces : ℕ → Nonce

/-- What the loop reads while it handles a frame: the samples, and each flag as often as it
is loaded. -/
structure Reading (F : Type) where
  pcm : Frame F
  paranoid : Bool
  muted : Bool
  inputGain : F
  /-- `denoise` and `agc` as they are read for the limiter. -/
  denoiseAtGain : Bool
  agcAtGain : Bool
  denoise : Bool
  agc : Bool
  vadThreshold : F
  /-- `NetworkStats::current_tier` and `NetworkStats::loss_percent`. -/
  currentTier : QualityTier
  lossPercent : UInt8

/-- The variables of the capture thread, with the number of frames captured and of nonces
drawn so far. -/
structure Capture (F E D : Type) where
  encoder : OpusEncoder E
  currentTier : QualityTier
  sequence : UInt32
  framesSinceCheck : ℕ
  hangoverRemaining : ℕ
  packetBuf : Bytes
  pcmFrame : Frame F
  preroll : VadPreroll F
  lastParanoid : Bool
  denoiser : D
  autoLevel : Agc F
  captured : ℕ
  drawn : ℕ

/-- A call of the encoder: the captured frame it is for, if it is not for comfort silence; the
samples; and the packet that was sent, if encoding and encryption succeeded. -/
structure Attempt (F : Type) where
  source : Option ℕ
  pcm : Frame F
  packet : Option Bytes

section Loop

variable {F E D : Type} [F32 F] (cfg : CaptureCfg F E D)

/-- The variables before the loop; the loss is read once for the initial settings. -/
def CaptureCfg.start (lossPercent : UInt8) : Capture F E D where
  encoder := (QualityTier.high.apply (OpusEncoder.new cfg.codec) lossPercent).1
  currentTier := .high
  sequence := 1
  framesSinceCheck := 0
  hangoverRemaining := 0
  packetBuf := []
  pcmFrame := Vector.replicate _ 0
  preroll := VadPreroll.new
  lastParanoid := false
  denoiser := cfg.rnn.new
  autoLevel := ⟨1⟩
  captured := 0
  drawn := 0

variable (c : Capture F E D)

/-- `pop_slice`: a whole frame was there to be popped, so all of the buffer is written. -/
def Capture.popSlice (pcm : Frame F) : Capture F E D :=
  { c with pcmFrame := pcm, captured := c.captured + 1 }

/-- The encoder is reconfigured when the toggle flips. -/
def Capture.reconfigure (paranoid : Bool) : Capture F E D :=
  if paranoid ≠ c.lastParanoid then
    { c with encoder := c.encoder.setConstantBitrate paranoid, lastParanoid := paranoid }
  else c

/-- `send_one`, and the same three steps where they stand in the loop: encode, encrypt, send. -/
def sendOne (source : Option ℕ) (frame : Frame F) : Capture F E D × Attempt F :=
  match c.encoder.encode cfg.codec frame with
  | (encoder, none) => ({ c with encoder }, ⟨source, frame, none⟩)
  | (encoder, some opus) =>
    match buildPacket cfg.cipher (cfg.nonces c.drawn) c.packetBuf c.sequence cfg.channelId
        (nameBytes cfg.senderName) opus with
    | (false, packetBuf) =>
      ({ c with encoder, packetBuf, drawn := c.drawn + 1 }, ⟨source, frame, none⟩)
    | (true, packetBuf) =>
      ({ c with encoder, packetBuf := [], drawn := c.drawn + 1, sequence := c.sequence + 1 },
        ⟨source, frame, some packetBuf⟩)

/-- The frames of the pre-roll, one after the other. -/
def sendAll : Capture F E D → List (Captured F) → Capture F E D × List (Attempt F)
  | c, [] => (c, [])
  | c, frame :: frames =>
    let (c, attempt) := sendOne cfg c (some frame.number) frame.pcm
    let (c, attempts) := sendAll c frames
    (c, attempt :: attempts)

/-- Gain, noise suppression and automatic level. -/
def Capture.processed (r : Reading F) : Capture F E D :=
  let limit := r.denoiseAtGain || !r.agcAtGain
  let pcm := (applyInputGain c.pcmFrame r.inputGain limit).1
  let (denoiser, pcm) :=
    if r.denoise then cfg.rnn.process c.denoiser pcm else (c.denoiser, pcm)
  let (autoLevel, pcm) :=
    if r.agc then c.autoLevel.process pcm else (c.autoLevel, pcm)
  { c with pcmFrame := pcm, denoiser, autoLevel }

/-- `maybe_adapt_encoder`. -/
def Capture.maybeAdaptEncoder (r : Reading F) : Capture F E D :=
  if r.currentTier = c.currentTier then c
  else
    { c with
      currentTier := r.currentTier, encoder := (r.currentTier.apply c.encoder r.lossPercent).1 }

/-- The adaptation is looked at once per measurement window. -/
def Capture.checked (r : Reading F) : Capture F E D :=
  if Config.statsWindowPackets ≤ c.framesSinceCheck + 1 then
    Capture.maybeAdaptEncoder { c with framesSinceCheck := 0 } r
  else { c with framesSinceCheck := c.framesSinceCheck + 1 }

/-- The loop from the popped frame to its end. -/
def captureFrame (r : Reading F) : Capture F E D × List (Attempt F) :=
  let number := c.captured
  let c := c.popSlice r.pcm
  let c := c.reconfigure r.paranoid
  if r.muted then
    if r.paranoid then
      -- The real samples never leave while muted: silence is sent in their place.
      let (c, attempt) := sendOne cfg c none (Vector.replicate _ 0)
      (c, [attempt])
    else (c, [])
  else
    let c := c.processed cfg r
    let c := c.checked r
    if r.paranoid then
      let (c, attempt) := sendOne cfg c (some number) c.pcmFrame
      (c, [attempt])
    else
      let (sent, hangoverRemaining) := passVad c.pcmFrame r.vadThreshold c.hangoverRemaining
      let c := { c with hangoverRemaining }
      if !sent then ({ c with preroll := c.preroll.push ⟨number, c.pcmFrame⟩ }, [])
      else
        let (c, flushed) := sendAll cfg c c.preroll.toList
        let c := { c with preroll := c.preroll.reset }
        let (c, attempt) := sendOne cfg c (some number) c.pcmFrame
        (c, flushed ++ [attempt])

/-! ## What becomes of a frame -/

/-- The state with the frame popped and the encoder in the mode it is for. -/
def Capture.popped (r : Reading F) : Capture F E D :=
  (c.popSlice r.pcm).reconfigure r.paranoid

/-- The state with a frame that is ready for the gate. -/
def Capture.ready (r : Reading F) : Capture F E D := ((c.popped r).processed cfg r).checked r

/-- The four ways of a frame through the loop. -/
inductive Fate where
  | muted
  | paranoid
  | held
  | passed
  deriving DecidableEq, Repr

/-- Whether the gate lets a frame pass. -/
def Capture.passes (r : Reading F) : Bool :=
  let ready := c.ready cfg r
  (passVad ready.pcmFrame r.vadThreshold ready.hangoverRemaining).1

/-- The way of a frame. -/
def Capture.fate (r : Reading F) : Fate :=
  if r.muted then .muted
  else if r.paranoid then .paranoid
  else if c.passes cfg r then .passed else .held

/-- The state of a frame that has been at the gate, with the hangover it leaves. -/
def Capture.gated (r : Reading F) : Capture F E D :=
  let ready := c.ready cfg r
  { ready with
    hangoverRemaining := (passVad ready.pcmFrame r.vadThreshold ready.hangoverRemaining).2 }

/-- A frame that is held back. -/
def Capture.hold (number : ℕ) : Capture F E D :=
  { c with preroll := c.preroll.push ⟨number, c.pcmFrame⟩ }

/-- A frame that passes the gate, behind what the pre-roll holds. -/
def Capture.flush (number : ℕ) : Capture F E D × List (Attempt F) :=
  let flushed := sendAll cfg c c.preroll.toList
  let sent := sendOne cfg { flushed.1 with preroll := flushed.1.preroll.reset } (some number)
    flushed.1.pcmFrame
  (sent.1, flushed.2 ++ [sent.2])

/-- `send_one` as the only call for a frame. -/
def sendAlone (source : Option ℕ) (frame : Frame F) : Capture F E D × List (Attempt F) :=
  ((sendOne cfg c source frame).1, [(sendOne cfg c source frame).2])

variable {cfg c} {r : Reading F}

/-- What the loop does, by the way of the frame. -/
theorem captureFrame_eq : captureFrame cfg c r =
    if r.muted then
      if r.paranoid then sendAlone cfg (c.popped r) none (Vector.replicate _ 0)
      else (c.popped r, [])
    else if r.paranoid then
      sendAlone cfg (c.ready cfg r) (some c.captured) (c.ready cfg r).pcmFrame
    else if !c.passes cfg r then ((c.gated cfg r).hold c.captured, [])
    else (c.gated cfg r).flush cfg c.captured := rfl

theorem captureFrame_muted (h : r.muted = true) : captureFrame cfg c r =
    if r.paranoid then sendAlone cfg (c.popped r) none (Vector.replicate _ 0)
    else (c.popped r, []) := by
  rw [captureFrame_eq, if_pos h]

theorem captureFrame_paranoid (hm : r.muted = false) (hp : r.paranoid = true) :
    captureFrame cfg c r =
      sendAlone cfg (c.ready cfg r) (some c.captured) (c.ready cfg r).pcmFrame := by
  rw [captureFrame_eq, hm, if_neg Bool.false_ne_true, if_pos hp]

/-- The way of a frame in terms of the flags and the gate. -/
theorem fate_cases (cfg : CaptureCfg F E D) (c : Capture F E D) (r : Reading F) :
    match c.fate cfg r with
    | .muted => r.muted = true
    | .paranoid => r.muted = false ∧ r.paranoid = true
    | .held => r.muted = false ∧ r.paranoid = false ∧ c.passes cfg r = false
    | .passed => r.muted = false ∧ r.paranoid = false ∧ c.passes cfg r = true := by
  unfold Capture.fate
  cases hm : r.muted <;> cases hp : r.paranoid <;> cases hg : c.passes cfg r <;> simp

theorem captureFrame_held (h : c.fate cfg r = .held) :
    captureFrame cfg c r = ((c.gated cfg r).hold c.captured, []) := by
  have hcases := fate_cases cfg c r
  rw [h] at hcases
  obtain ⟨hm, hp, hg⟩ := hcases
  rw [captureFrame_eq, hm, hp, hg]
  rfl

theorem captureFrame_passed (h : c.fate cfg r = .passed) :
    captureFrame cfg c r = (c.gated cfg r).flush cfg c.captured := by
  have hcases := fate_cases cfg c r
  rw [h] at hcases
  obtain ⟨hm, hp, hg⟩ := hcases
  rw [captureFrame_eq, hm, hp, hg]
  rfl

/-! ## What each step changes -/

omit [F32 F]

/-- The popped frame is in the buffer, and the encoder in the mode for it. -/
theorem popped_state (c : Capture F E D) (r : Reading F) : ∃ encoder, c.popped r =
    { c with
      encoder, lastParanoid := r.paranoid, pcmFrame := r.pcm, captured := c.captured + 1 } := by
  unfold Capture.popped Capture.reconfigure
  split
  · exact ⟨_, rfl⟩
  · rename_i hmode
    refine ⟨c.encoder, ?_⟩
    rw [not_not.1 hmode]
    rfl

/-- A full window brings in the tier of the statistics. -/
theorem checked_state (c : Capture F E D) (r : Reading F) : ∃ encoder, c.checked r =
    { c with
      encoder
      currentTier := if Config.statsWindowPackets ≤ c.framesSinceCheck + 1 then r.currentTier
        else c.currentTier
      framesSinceCheck := if Config.statsWindowPackets ≤ c.framesSinceCheck + 1 then 0
        else c.framesSinceCheck + 1 } := by
  unfold Capture.checked Capture.maybeAdaptEncoder
  by_cases hfull : Config.statsWindowPackets ≤ c.framesSinceCheck + 1
  · simp only [if_pos hfull]
    split
    · rename_i htier
      refine ⟨c.encoder, ?_⟩
      rw [htier]
    · exact ⟨_, rfl⟩
  · simp only [if_neg hfull]
    exact ⟨_, rfl⟩

/-- A call of the encoder moves on the encoder itself, the buffer, the nonces and the sequence
number. -/
theorem sendOne_state (cfg : CaptureCfg F E D) (c : Capture F E D) (source : Option ℕ)
    (frame : Frame F) : ∃ state packetBuf sequence drawn, (sendOne cfg c source frame).1 =
      { c with encoder := { c.encoder with state }, packetBuf, sequence, drawn } := by
  unfold sendOne OpusEncoder.encode
  cases cfg.codec.encodeFloat c.encoder.settings c.encoder.state frame with
  | mk state opus =>
    cases opus with
    | none => exact ⟨_, _, _, _, rfl⟩
    | some opus =>
      simp only
      split <;> exact ⟨_, _, _, _, rfl⟩

theorem sendOne_source (source : Option ℕ) (frame : Frame F) :
    (sendOne cfg c source frame).2.source = source := by
  unfold sendOne
  split
  · rfl
  · split <;> rfl

/-- So do the calls for the pre-roll. -/
theorem sendAll_state (cfg : CaptureCfg F E D) (c : Capture F E D)
    (frames : List (Captured F)) : ∃ state packetBuf sequence drawn, (sendAll cfg c frames).1 =
      { c with encoder := { c.encoder with state }, packetBuf, sequence, drawn } := by
  induction frames generalizing c with
  | nil => exact ⟨_, _, _, _, rfl⟩
  | cons frame frames ih =>
    obtain ⟨state, packetBuf, sequence, drawn, hone⟩ :=
      sendOne_state cfg c (some frame.number) frame.pcm
    unfold sendAll
    simp only [hone]
    exact ih _

/-- A frame that passes the gate empties the pre-roll besides. -/
theorem flush_state (cfg : CaptureCfg F E D) (c : Capture F E D) (number : ℕ) :
    ∃ state packetBuf sequence drawn, (c.flush cfg number).1 =
      { c with
        encoder := { c.encoder with state }, packetBuf, sequence, drawn,
        preroll := c.preroll.reset } := by
  obtain ⟨state, packetBuf, sequence, drawn, hall⟩ := sendAll_state cfg c c.preroll.toList
  obtain ⟨state', packetBuf', sequence', drawn', hone⟩ := sendOne_state cfg
    { (sendAll cfg c c.preroll.toList).1 with
      preroll := (sendAll cfg c c.preroll.toList).1.preroll.reset }
    (some number) (sendAll cfg c c.preroll.toList).1.pcmFrame
  refine ⟨state', packetBuf', sequence', drawn', hone.trans ?_⟩
  rw [hall]

/-- What a frame that is ready for the gate, or sent without it, has changed. -/
theorem ready_state [F32 F] (cfg : CaptureCfg F E D) (c : Capture F E D) (r : Reading F) :
    ∃ encoder pcmFrame denoiser autoLevel, c.ready cfg r =
      { c with
        encoder, pcmFrame, denoiser, autoLevel
        lastParanoid := r.paranoid
        captured := c.captured + 1
        currentTier := if Config.statsWindowPackets ≤ c.framesSinceCheck + 1 then r.currentTier
          else c.currentTier
        framesSinceCheck := if Config.statsWindowPackets ≤ c.framesSinceCheck + 1 then 0
          else c.framesSinceCheck + 1 } := by
  obtain ⟨encoder, hpopped⟩ := popped_state c r
  obtain ⟨encoder', hchecked⟩ := checked_state ((c.popped r).processed cfg r) r
  unfold Capture.ready
  rw [hchecked, hpopped]
  exact ⟨_, _, _, _, rfl⟩

theorem sendAll_sources (frames : List (Captured F)) :
    (sendAll cfg c frames).2.map (·.source) = frames.map fun frame => some frame.number := by
  induction frames generalizing c with
  | nil => rfl
  | cons frame frames ih =>
    unfold sendAll
    simp only [List.map_cons, ih, sendOne_source]

end Loop

/-! ## Whole numbers for samples -/

/-- Numbers to try the loop on: they add, multiply, divide and compare as `f32` does on the
values that are zero and one. -/
def Whole := ℤ

instance : F32 Whole where
  zero := (0 : ℤ)
  one := (1 : ℤ)
  neg := Int.neg
  add := Int.add
  sub := Int.sub
  mul := Int.mul
  div := Int.tdiv
  natCast := Int.ofNat
  ofScientific m s e := if s then Int.ofNat (m / 10 ^ e) else Int.ofNat (m * 10 ^ e)
  lt := Int.lt
  le := Int.le
  beq a b := Int.instDecidableEq a b |>.decide
  sqrt x := Int.ofNat (Nat.sqrt (Int.toNat x))
  tanh x := @max ℤ _ (-1) (@min ℤ _ 1 x)
  abs x := Int.ofNat (Int.natAbs x)
  min := @min ℤ _
  decLt := Int.decLt
  decLe := Int.decLe

/-- A codec of constant bitrate, with frames of the size that the bitrate comes to. -/
def sampleCodec : Codec Whole Unit where
  new := (⟨true, true, 0, 9, false, 0⟩, ())
  encodeFloat settings _ _ := ((), some (List.replicate (settings.bitrate / 400) 0))

def sampleCfg : CaptureCfg Whole Unit Unit where
  codec := sampleCodec
  rnn := ⟨(), fun _ chunk => ((), chunk)⟩
  cipher := .sample
  channelId := "a"
  senderName := "ann"
  nonces := fun _ => sampleNonce

/-- A frame of one level throughout, read with no processing and no loss. -/
def sampleReading (level : Whole) : Reading Whole where
  pcm := Vector.replicate _ level
  paranoid := false
  muted := false
  inputGain := 1
  denoiseAtGain := false
  agcAtGain := false
  denoise := false
  agc := false
  vadThreshold := 1
  currentTier := .high
  lossPercent := 0

end Client
end TcVoice
