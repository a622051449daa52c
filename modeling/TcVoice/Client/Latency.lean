import TcVoice.Client.Isolation
import TcVoice.Client.PlayoutPump

/-!
# How much sound can pile up

The receive task pumps frames into the ring while the output callback takes samples out
of its queue; each sees of the other only what it has published.

* `Speaker`, `Speaker.step` — the two sides, and a turn of either.
* `mark` — the low-water mark for the largest request so far.
* `Speaker.Level` — the invariant of every turn: less than a frame above the mark,
  nothing trimmed, and the published levels are the true ones.
* `latency_capped` — **in every order of pumps and callbacks the output stays within a
  frame of its mark**, and the cap is never reached.
-/

namespace TcVoice
namespace Client

open Machines

variable {F D S : Type}

/-- The pump, the ring, the callback, and what they share. -/
structure Speaker (F D S : Type) where
  pump : Pump F D
  ring : AudioRing F
  renderer : PlaybackRenderer F S
  signals : PlayoutSignals
  diag : OutputDiagnostics

/-- A turn of one side: a packet, a pump, or a callback with a buffer of a length. -/
inductive SpeakerEvent (F : Type) where
  | packet (name : String) (seq : UInt32) (packet : Bytes) (now : ℕ)
  | pump (call : PumpCall F)
  | render (vol : F) (dataLen : ℕ)

/-- What a turn asks of the output, in mono samples. -/
def SpeakerEvent.request (channels : ℕ) : SpeakerEvent F → ℕ
  | .render _ dataLen => dataLen / max channels 1
  | _ => 0

/-- The largest request of some turns. -/
def largestRequest (channels : ℕ) (es : List (SpeakerEvent F)) : ℕ :=
  (es.map (SpeakerEvent.request channels)).foldl max 0

/-- How much the output is kept filled with: two frames, or the largest request and one. -/
def mark (request : ℕ) : ℕ :=
  max Config.playoutOutputLowWater (request + Config.frameSize)

namespace Speaker

/-- Everything that has been rendered and not been played. -/
def level (s : Speaker F D S) : ℕ := s.ring.occupiedLen + s.renderer.queue.len

/-- What the pump takes for it. -/
def accounted (s : Speaker F D S) : ℕ :=
  (Output.new (s.ring.occupiedLen + s.signals.queued) s.signals.request).level

variable [F32 F] (opus : OpusDecoder F D) (resampler : Resampler F S)

/-- An output device is opened in the middle of a call: a new ring and a new callback, for the
pump and the counters that there are. -/
def opened (deviceRate channels : ℕ) (pump : Pump F D) (signals : PlayoutSignals)
    (diag : OutputDiagnostics) : Speaker F D S :=
  ⟨pump, .new, .new resampler deviceRate channels, signals.reset, diag⟩

/-- One turn, with what the callback has written into its buffer. -/
def step (s : Speaker F D S) : SpeakerEvent F → Speaker F D S × List F
  | .packet name seq packet now =>
    ({ s with pump := (s.pump.onPacket opus name seq packet now).1 }, [])
  | .pump call =>
    let (pump, ring, signals, diag) := s.pump.pump opus (some s.ring) call s.signals s.diag
    ({ s with pump, ring := ring.getD s.ring, signals, diag }, [])
  | .render vol dataLen =>
    let done := s.renderer.render resampler s.ring vol dataLen s.diag s.signals
    ({ s with
      ring := done.ring, renderer := done.renderer, signals := done.signals, diag := done.diag },
      done.data)

/-- The invariant: what the output holds, for the largest request so far. -/
structure Level (trimmed channels request : ℕ) (s : Speaker F D S) : Prop where
  rate : s.renderer.deviceRate = Config.sampleRate
  channels : s.renderer.channels = channels
  level : s.level ≤ mark request + Config.frameSize - 1
  queued : s.signals.queued = s.renderer.queue.len
  request : s.signals.request = request
  trimmed : s.diag.playbackTrimmedSamples = trimmed

variable {opus} {resampler} {s : Speaker F D S} {trimmed channels request : ℕ}

/-- A pump fills up to the mark. -/
theorem Level.pump (h : s.Level trimmed channels request) (call : PumpCall F) :
    (s.step opus resampler (.pump call)).1.Level trimmed channels request := by
  obtain ⟨-, hbound⟩ := Pump.pumpDevice_level opus call s.signals.queued s.signals.request 0
    { s.pump with virtualUntil := call.now } s.ring
  have hlevel := h.level
  refine ⟨h.rate, h.channels, ?_, h.queued, h.request, h.trimmed⟩
  have hmark : max (s.ring.occupiedLen + s.signals.queued)
      (mark s.signals.request + Config.frameSize - 1) ≤
        mark request + Config.frameSize - 1 := by
    rw [h.queued, h.request]
    exact Nat.max_le.2 ⟨hlevel, Nat.le_refl _⟩
  have hafter : (s.step opus resampler (.pump call)).1.level =
      (Pump.pumpDevice opus call s.signals.queued s.signals.request 0
        { s.pump with virtualUntil := call.now } s.ring).ring.occupiedLen +
          s.renderer.queue.len := rfl
  rw [hafter, ← h.queued]
  exact Nat.le_trans hbound hmark

/-- What is kept for a request that the cap has room for stays below the cap. -/
theorem mark_le (h : request ≤ Config.playbackSafetyCap - 2 * Config.frameSize) :
    mark request + Config.frameSize - 1 ≤ Config.playbackSafetyCap := by
  simp only [mark, Config.playoutOutputLowWater, Config.playbackSafetyCap, Config.frameSize] at *
  omega

theorem mark_mono {request request' : ℕ} (h : request ≤ request') :
    mark request ≤ mark request' := by
  unfold mark
  omega

/-- A callback takes out what it delivers, and the request it makes may raise the mark. -/
theorem Level.render (h : s.Level trimmed channels request)
    (hrequest : request ≤ Config.playbackSafetyCap - 2 * Config.frameSize) (vol : F)
    (dataLen : ℕ) (hsmall : dataLen / max channels 1 ≤
      Config.playbackSafetyCap - 2 * Config.frameSize) :
    (s.step opus resampler (.render vol dataLen)).1.Level trimmed channels
      (max request (dataLen / max channels 1)) := by
  have hcap : s.ring.occupiedLen + s.renderer.queue.len ≤ Config.playbackSafetyCap :=
    Nat.le_trans h.level (mark_le hrequest)
  have hfits : dataLen / max s.renderer.channels 1 < 2 ^ 32 := by
    have hconst : Config.playbackSafetyCap - 2 * Config.frameSize < 2 ^ 32 := by decide
    rw [h.channels]
    omega
  obtain ⟨hless, hqueued, hlargest, htrim, hrate, hchannels⟩ :=
    PlaybackRenderer.render_level resampler h.rate s.ring vol dataLen s.diag s.signals hcap hfits
  have hlevel := h.level
  have hmark := mark_mono (Nat.le_max_left request (dataLen / max channels 1))
  refine ⟨hrate, hchannels.trans h.channels, ?_, hqueued, ?_, htrim.trans h.trimmed⟩
  · unfold Speaker.level at hlevel ⊢
    refine Nat.le_trans hless ?_
    omega
  · rw [← h.channels, ← h.request]
    exact hlargest

/-- **Each turn keeps the invariant**, one case for each kind of turn. -/
theorem Level.step (h : s.Level trimmed channels request)
    (hrequest : request ≤ Config.playbackSafetyCap - 2 * Config.frameSize)
    (e : SpeakerEvent F)
    (he : e.request channels ≤ Config.playbackSafetyCap - 2 * Config.frameSize) :
    (s.step opus resampler e).1.Level trimmed channels (max request (e.request channels)) := by
  cases e with
  | packet name seq packet now =>
    have hsame : max request ((SpeakerEvent.packet name seq packet now : SpeakerEvent F).request
        channels) = request := Nat.max_zero request
    rw [hsame]
    exact ⟨h.rate, h.channels, h.level, h.queued, h.request, h.trimmed⟩
  | pump call =>
    have hsame : max request ((SpeakerEvent.pump call).request channels) = request :=
      Nat.max_zero request
    rw [hsame]
    exact h.pump call
  | render vol dataLen => exact h.render hrequest vol dataLen he

/-- A whole run, by induction on its turns. -/
theorem Level.after (h : s.Level trimmed channels request)
    (hrequest : request ≤ Config.playbackSafetyCap - 2 * Config.frameSize)
    {es : List (SpeakerEvent F)} (hes : ∀ e ∈ es,
      e.request channels ≤ Config.playbackSafetyCap - 2 * Config.frameSize) :
    (after (Speaker.step opus resampler) s es).Level trimmed channels
      ((es.map (SpeakerEvent.request channels)).foldl max request) := by
  induction es generalizing s request with
  | nil => exact h
  | cons e es ih =>
    have he := hes e List.mem_cons_self
    have hnext : (Speaker.step opus resampler s e).1.Level trimmed channels
        (max request (e.request channels)) := h.step hrequest e he
    exact ih hnext (Nat.max_le.2 ⟨hrequest, he⟩)
      fun e' he' => hes e' (List.mem_cons_of_mem _ he')

omit [F32 F] in
/-- A device that has just been opened. -/
theorem Level.opened (channels : ℕ) (pump : Pump F D) (signals : PlayoutSignals)
    (diag : OutputDiagnostics) :
    (Speaker.opened resampler Config.sampleRate channels pump signals diag).Level
      diag.playbackTrimmedSamples channels 0 where
  rate := rfl
  channels := rfl
  level := Nat.zero_le _
  queued := rfl
  request := rfl
  trimmed := rfl

end Speaker

variable [F32 F]

/-- **The cap on latency.**  Whatever the state of the pump when a device of 48 kHz is opened,
and in whatever order packets, pumps and callbacks come, as long as no request is larger than
the safety cap less two frames: ring and queue hold less than a frame above the mark for the
largest request so far, the safety cap has trimmed nothing, and what the pump takes for the
level of the output is the level of the output. -/
theorem latency_capped (opus : OpusDecoder F D) (resampler : Resampler F S) (channels : ℕ)
    (pump : Pump F D) (signals : PlayoutSignals) (diag : OutputDiagnostics)
    (es : List (SpeakerEvent F)) (hes : ∀ e ∈ es, e.request channels ≤
      Config.playbackSafetyCap - 2 * Config.frameSize) :
    let s := after (Speaker.step opus resampler)
      (.opened resampler Config.sampleRate channels pump signals diag) es
    s.level ≤ max Config.playoutOutputLowWater (largestRequest channels es + Config.frameSize) +
        Config.frameSize - 1 ∧
      s.diag.playbackTrimmedSamples = diag.playbackTrimmedSamples ∧ s.accounted = s.level := by
  intro s
  have h : s.Level diag.playbackTrimmedSamples channels (largestRequest channels es) :=
    (Speaker.Level.opened channels pump signals diag).after (Nat.zero_le _) hes
  refine ⟨h.level, h.trimmed, ?_⟩
  show s.ring.occupiedLen + s.signals.queued = s.ring.occupiedLen + s.renderer.queue.len
  rw [h.queued]

/-- Two callbacks of a stereo device that ask for half a frame each, and a pump between them. -/
def topUp : List (SpeakerEvent Whole) :=
  [.render 1 960, .pump ⟨0, byName, fun _ _ => 1⟩, .render 1 960]

/-- A device that needs no other rate. -/
def plain : Resampler Whole Unit := ⟨fun _ => (), fun _ frame => ((), frame)⟩

theorem latency_capped_topUp :
    let s := after (Speaker.step silent plain)
      (.opened plain Config.sampleRate 2 (.new 0) ⟨0, 0, 0⟩ ⟨0, 0, 0, 0, 0⟩) topUp
    s.accounted = s.level := by
  refine (latency_capped silent plain 2 (.new 0) ⟨0, 0, 0⟩ ⟨0, 0, 0, 0, 0⟩ topUp ?_).2.2
  intro e he
  simp only [topUp, List.mem_cons, List.not_mem_nil, or_false] at he
  rcases he with rfl | rfl | rfl <;> decide

end Client
end TcVoice
