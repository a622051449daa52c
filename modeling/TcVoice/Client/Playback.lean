import TcVoice.Client.Playout

/-!
# The output callback

What stands between playout and the output device, in `crates/client/src/audio.rs`: the
ring that the receive task fills, the queue of the callback at the rate of the device, and
the counters by which the two tell each other how they are doing.

* `AudioRing` — the ring, with `pushSlice` and `popSlice`.
* `PlaybackQueue` — `extend`, `trimTo` and `fill`, with ramps at every edge.
* `PlaybackRenderer.render` — one callback.
* `PlaybackRenderer.render_level` — **at the rate of the ring and below the cap, a callback
  takes out of ring and queue what it delivers, and nothing else**.
-/

namespace TcVoice
namespace Client

variable {F : Type}

/-! ## The ring -/

/-- `RING_BUF_FRAMES`. -/
def ringBufFrames : ℕ := 8

/-- The samples that a ring has room for. -/
def ringCapacity : ℕ := Config.frameSize * ringBufFrames

/-- The samples between the two halves of a ring. -/
structure AudioRing (F : Type) where
  samples : List F
  len_le : samples.length ≤ ringCapacity

namespace AudioRing

variable (ring : AudioRing F)

/-- A ring with nothing in it. -/
def new : AudioRing F := ⟨[], Nat.zero_le _⟩

/-- `occupied_len`. -/
def occupiedLen : ℕ := ring.samples.length

/-- `vacant_len`. -/
def vacantLen : ℕ := ringCapacity - ring.occupiedLen

/-- `push_slice`: as much as there is room for, and how much that was. -/
def pushSlice (samples : List F) : AudioRing F × ℕ :=
  (⟨ring.samples ++ samples.take ring.vacantLen, by
    have h := ring.len_le
    simp only [vacantLen, occupiedLen, List.length_append, List.length_take]
    omega⟩, min samples.length ring.vacantLen)

/-- `pop_slice`. -/
def popSlice (n : ℕ) : AudioRing F × List F :=
  (⟨ring.samples.drop n, Nat.le_trans (List.length_drop ▸ Nat.sub_le _ _) ring.len_le⟩,
    ring.samples.take n)

@[simp] theorem occupiedLen_new : (new : AudioRing F).occupiedLen = 0 := rfl

theorem occupiedLen_pushSlice (samples : List F) :
    (ring.pushSlice samples).1.occupiedLen =
      ring.occupiedLen + min samples.length ring.vacantLen := by
  simp only [pushSlice, occupiedLen, List.length_append, List.length_take]
  omega

theorem occupiedLen_popSlice (n : ℕ) :
    (ring.popSlice n).1.occupiedLen = ring.occupiedLen - n := List.length_drop

theorem length_popSlice (n : ℕ) : (ring.popSlice n).2.length = min n ring.occupiedLen :=
  List.length_take

end AudioRing

/-! ## What the two sides tell each other -/

/-- `PlayoutSignals`: samples left in the queue, the largest request, and how many senders
are playing. -/
structure PlayoutSignals where
  queued : ℕ
  request : ℕ
  playing : ℕ
  deriving DecidableEq, Repr

/-- What `start_playback` resets them to; the senders play on. -/
def PlayoutSignals.reset (signals : PlayoutSignals) : PlayoutSignals :=
  { signals with queued := 0, request := 0 }

/-- `as u32`. -/
def asU32 (n : ℕ) : ℕ := n % 2 ^ 32

theorem asU32_eq {n : ℕ} (h : n < 2 ^ 32) : asU32 n = n := Nat.mod_eq_of_lt h

/-- The counters of `AudioDiagnostics` on the way to the device. -/
structure OutputDiagnostics where
  playbackRingOverflow : ℕ
  playbackTrimmedSamples : ℕ
  playbackDry : ℕ
  outputStarved : ℕ
  limiterPlayback : ℕ
  deriving DecidableEq, Repr

/-! ## The queue -/

/-- `PlaybackQueue`. -/
structure PlaybackQueue (F : Type) where
  buf : List F
  fade : ℕ
  silent : Bool

namespace PlaybackQueue

variable (q : PlaybackQueue F)

/-- `PlaybackQueue::new`. -/
def new (deviceRate : ℕ) : PlaybackQueue F where
  buf := []
  fade := max (deviceRate * Config.playbackFadeMs / 1000) 1
  silent := true

/-- `extend`. -/
def extend (samples : List F) : PlaybackQueue F := { q with buf := q.buf ++ samples }

/-- `len`. -/
def len : ℕ := q.buf.length

section Ramps

variable [F32 F]

/-- The share of the sound at the `i`-th sample of a ramp over `n` of them. -/
def ramp (i n : ℕ) : F := ((i + 1 : ℕ) : F) / ((n + 1 : ℕ) : F)

/-- One turn of the loop of `trim_to`, in place. -/
def crossfadeAt (excess f : ℕ) (buf : List F) (i : ℕ) : List F :=
  let t : F := ramp i f
  let outgoing := buf.getD i 0
  let incoming := buf.getD (excess + i) 0
  buf.set (excess + i) (outgoing * (1 - t) + incoming * t)

/-- `trim_to`: the oldest samples are dropped, with a crossfade over the splice; and how many
were dropped. -/
def trimTo (cap : ℕ) : PlaybackQueue F × ℕ :=
  if q.len ≤ cap then (q, 0)
  else
    let excess := q.len - cap
    let f := min (min q.fade excess) cap
    ({ q with buf := ((List.range f).foldl (crossfadeAt excess f) q.buf).drop excess }, excess)

/-- A sample on its way out of the queue, with the ramps in and out of silence. -/
def ramped (fadeIn fadeOut : Bool) (available i : ℕ) (sample : F) : F :=
  let s := if fadeIn && decide (i < q.fade) then sample * ramp i q.fade else sample
  let remaining := available - 1 - i
  if fadeOut && decide (remaining < q.fade) then s * ramp remaining q.fade else s

/-- `fill` of a buffer: what is in it after the call, and whether the queue ran dry. -/
def fill (dataLen channels : ℕ) : PlaybackQueue F × List F × Bool :=
  let needed := dataLen / max channels 1
  let available := min q.len needed
  let fadeIn := q.silent && decide (0 < available)
  let fadeOut := decide (available < needed) && decide (0 < available)
  let samples := (q.buf.take available).mapIdx (q.ramped fadeIn fadeOut available)
  let written := if 1 < channels then samples.flatMap (List.replicate channels) else samples
  -- with no channels at all, the padding begins over what has just been written
  let data := written.take (available * channels) ++
    List.replicate (dataLen - available * channels) 0
  let dry := decide (available < needed) && (decide (0 < available) || !q.silent)
  ({ q with buf := q.buf.drop available, silent := decide (available < needed) }, data, dry)

end Ramps

@[simp] theorem len_extend (samples : List F) : (q.extend samples).len = q.len + samples.length :=
  List.length_append

theorem len_fill [F32 F] (dataLen channels : ℕ) :
    (q.fill dataLen channels).1.len = q.len - dataLen / max channels 1 := by
  simp only [fill, len, List.length_drop]
  omega

/-- A queue within the cap is not trimmed. -/
theorem trimTo_of_le [F32 F] {cap : ℕ} (h : q.len ≤ cap) : q.trimTo cap = (q, 0) := by
  rw [trimTo, if_pos h]

end PlaybackQueue

/-! ## The callback -/

/-- A converter from the rate of the ring to that of the device: the sinc filter, which is not
part of the repository, or the linear fallback. -/
structure Resampler (F S : Type) where
  new : ℕ → S
  process : S → List F → S × List F

/-- `limit_in_place` of a buffer of any length. -/
def limitBuffer [F32 F] (buf : List F) : List F × Bool :=
  let loud : F → Bool := fun s => (0.8 : F) < F32.abs s
  (buf.map fun s => if loud s then softClip s else s,
    buf.any fun s => loud s && decide (1 ≤ F32.abs s))

/-- `PlaybackRenderer`. -/
structure PlaybackRenderer (F S : Type) where
  queue : PlaybackQueue F
  resampler : S
  deviceRate : ℕ
  channels : ℕ

namespace PlaybackRenderer

variable {S : Type} (resampler : Resampler F S)

/-- `PlaybackRenderer::new`. -/
def new (deviceRate channels : ℕ) : PlaybackRenderer F S :=
  ⟨.new deviceRate, resampler.new deviceRate, deviceRate, channels⟩

variable (r : PlaybackRenderer F S)

/-- `need_resample`. -/
def needResample : Bool := r.deviceRate != Config.sampleRate

/-- `to_device`. -/
def toDevice (samples48 : ℕ) : ℕ :=
  if r.needResample then samples48 * r.deviceRate / Config.sampleRate else samples48

/-- `to_48k`. -/
def to48k (deviceSamples : ℕ) : ℕ :=
  if r.needResample then deviceSamples * Config.sampleRate / r.deviceRate else deviceSamples

variable [F32 F]

/-- A frame out of the ring: at the volume and the rate of the device, into the queue. -/
def enqueue (vol : F) (frame : List F) : PlaybackRenderer F S :=
  let frame := if vol == 1 then frame else frame.map (· * vol)
  if r.needResample then
    let (state, out) := resampler.process r.resampler frame
    { r with resampler := state, queue := r.queue.extend out }
  else { r with queue := r.queue.extend frame }

/-- The loop of `render`: the ring is drained in whole frames. -/
def drain (vol : F) (ring : AudioRing F) (r : PlaybackRenderer F S) :
    AudioRing F × PlaybackRenderer F S :=
  if Config.frameSize ≤ ring.occupiedLen then
    let popped := ring.popSlice Config.frameSize
    drain vol popped.1 (r.enqueue resampler vol popped.2)
  else (ring, r)
termination_by ring.occupiedLen
decreasing_by
  rename_i h
  have hpos : 0 < Config.frameSize := by decide
  rw [AudioRing.occupiedLen_popSlice]
  omega

/-- What a callback leaves behind. -/
structure Callback (F S : Type) where
  ring : AudioRing F
  renderer : PlaybackRenderer F S
  signals : PlayoutSignals
  diag : OutputDiagnostics
  data : List F

/-- `render`: one callback with a buffer of a length. -/
def render (ring : AudioRing F) (vol : F) (dataLen : ℕ) (diag : OutputDiagnostics)
    (signals : PlayoutSignals) : Callback F S :=
  let (ring, r) := drain resampler vol ring r
  let (queue, trimmed) := r.queue.trimTo (r.toDevice Config.playbackSafetyCap)
  let (queue, data, dry) := queue.fill dataLen r.channels
  let request := dataLen / max r.channels 1
  let (data, limited) := limitBuffer data
  { ring
    renderer := { r with queue }
    signals :=
      { signals with
        queued := asU32 (r.to48k queue.len)
        request := max signals.request (asU32 (r.to48k request)) }
    diag :=
      { diag with
        playbackTrimmedSamples := diag.playbackTrimmedSamples + trimmed
        playbackDry := diag.playbackDry + dry.toNat
        outputStarved :=
          diag.outputStarved + (dry && decide (0 < signals.playing)).toNat
        limiterPlayback := diag.limiterPlayback + limited.toNat }
    data }

/-! ## At the rate of the ring -/

variable {r}

/-- A frame goes from the ring into the queue as it is. -/
theorem enqueue_queue (hrate : r.deviceRate = Config.sampleRate) (vol : F) (frame : List F) :
    (r.enqueue resampler vol frame).queue.len = r.queue.len + frame.length ∧
      (r.enqueue resampler vol frame).deviceRate = Config.sampleRate ∧
      (r.enqueue resampler vol frame).channels = r.channels := by
  have hno : r.needResample = false := by simp [needResample, hrate]
  unfold enqueue
  simp only [hno, Bool.false_eq_true, if_false, PlaybackQueue.len_extend, hrate, and_true]
  split <;> simp

/-- Draining moves samples and loses none, by induction along the loop. -/
theorem drain_level (hrate : r.deviceRate = Config.sampleRate) (vol : F) (ring : AudioRing F) :
    (drain resampler vol ring r).1.occupiedLen + (drain resampler vol ring r).2.queue.len =
        ring.occupiedLen + r.queue.len ∧
      (drain resampler vol ring r).2.deviceRate = Config.sampleRate ∧
      (drain resampler vol ring r).2.channels = r.channels := by
  fun_induction drain resampler vol ring r with
  | case1 ring r hwhole popped ih =>
    obtain ⟨hlen, hrate', hchannels⟩ := enqueue_queue resampler hrate vol popped.2
    obtain ⟨hlevel, hdone, hkept⟩ := ih hrate'
    have hring : popped.1.occupiedLen = ring.occupiedLen - Config.frameSize :=
      ring.occupiedLen_popSlice Config.frameSize
    have hframe : popped.2.length = min Config.frameSize ring.occupiedLen :=
      ring.length_popSlice Config.frameSize
    refine ⟨?_, hdone, hkept.trans hchannels⟩
    rw [hlevel, hlen]
    omega
  | case2 ring r => exact ⟨rfl, hrate, rfl⟩

/-- **A callback at the rate of the ring** that finds no more than the cap trims nothing, takes
what is asked for, and publishes what is left. -/
theorem render_level (hrate : r.deviceRate = Config.sampleRate) (ring : AudioRing F) (vol : F)
    (dataLen : ℕ) (diag : OutputDiagnostics) (signals : PlayoutSignals)
    (hcap : ring.occupiedLen + r.queue.len ≤ Config.playbackSafetyCap)
    (hrequest : dataLen / max r.channels 1 < 2 ^ 32) :
    let done := r.render resampler ring vol dataLen diag signals
    done.ring.occupiedLen + done.renderer.queue.len ≤ ring.occupiedLen + r.queue.len ∧
      done.signals.queued = done.renderer.queue.len ∧
      done.signals.request = max signals.request (dataLen / max r.channels 1) ∧
      done.diag.playbackTrimmedSamples = diag.playbackTrimmedSamples ∧
      done.renderer.deviceRate = Config.sampleRate ∧ done.renderer.channels = r.channels := by
  intro done
  obtain ⟨hlevel, hrate', hchannels⟩ := drain_level resampler hrate vol ring
  have hno : (drain resampler vol ring r).2.needResample = false := by
    simp [needResample, hrate']
  have hdone : done = r.render resampler ring vol dataLen diag signals := rfl
  have hsmall : Config.playbackSafetyCap < 2 ^ 32 := by decide
  unfold render at hdone
  simp only [toDevice, to48k, hno, Bool.false_eq_true, if_false, hchannels] at hdone
  rw [PlaybackQueue.trimTo_of_le _ (by omega)] at hdone
  have hlen := (drain resampler vol ring r).2.queue.len_fill dataLen r.channels
  have hleft := Nat.sub_le (drain resampler vol ring r).2.queue.len (dataLen / max r.channels 1)
  rw [hdone]
  simp only [hlen, asU32_eq hrequest, Nat.add_zero, hrate', and_true]
  exact ⟨by omega, asU32_eq (by omega)⟩

end PlaybackRenderer

end Client
end TcVoice
