import TcVoice.Client.Playback

/-!
# The playout pump

The receive task's half of the playout loop in `crates/client/src/playout.rs`: it renders
frames into the ring until the output holds its low-water mark.

* `Output` — the output as the loop sees it, with the mark.
* `Pump.pump` — with a device, and with the virtual output that stands in for one.
* `length_renderFrame` — a frame is mixed in place.
* `Pump.pumpDevice_level` — **a pump fills the output to less than a frame above the mark
  and never takes anything from it**.
-/

namespace TcVoice
namespace Client

variable {F D : Type}

/-! ## The output -/

/-- `Output`. -/
structure Output where
  level : ℕ
  lowWater : ℕ
  deriving DecidableEq, Repr

namespace Output

/-- `Output::new`. -/
def new (level deviceRequest : ℕ) : Output :=
  ⟨level, max Config.playoutOutputLowWater (deviceRequest + Config.frameSize)⟩

variable (output : Output)

/-- `wants_frame`. -/
def wantsFrame : Bool := output.level < output.lowWater

theorem wantsFrame_new {level deviceRequest : ℕ} (h : (new level deviceRequest).wantsFrame) :
    level < max Config.playoutOutputLowWater (deviceRequest + Config.frameSize) :=
  of_decide_eq_true h

/-- Without a request, the mark is that of the configuration. -/
theorem wantsFrame_idle {level : ℕ} (h : (new level 0).wantsFrame) :
    level < Config.playoutOutputLowWater := by
  have hmark : max Config.playoutOutputLowWater (0 + Config.frameSize) =
      Config.playoutOutputLowWater := by
    rw [Nat.zero_add]
    exact Nat.max_eq_left (by decide)
  rw [← hmark]
  exact wantsFrame_new h

/-- `pull`: frames that the output takes back to back before it is full. -/
def pull : ℕ :=
  (output.lowWater - output.level + (Config.frameSize - 1)) / Config.frameSize

end Output

/-! ## A frame of the mix -/

section Mix

variable [F32 F] (opus : OpusDecoder F D)

/-- A stream is mixed into the frame in place. -/
theorem length_renderOne (now pull n : ℕ) (gains : String → F) (m : Mixing F D) (name : String)
    (hn : n ≤ Config.frameSize) (hout : n ≤ m.out.length) :
    (m.renderOne opus now pull n gains name).out.length = m.out.length := by
  unfold Mixing.renderOne
  split
  · rfl
  · rename_i s _
    simp only
    split
    · have hframe : ((s.render opus now pull m.scratch).scratch.frame.toList.take n).length =
          n := by
        rw [List.length_take, Vector.length_toList, Nat.min_eq_left hn]
      rw [List.length_append, List.length_drop]
      unfold mixIn
      simp only
      split <;> simp only [hframe, List.length_map, List.length_zipWith, List.length_take] <;>
        omega
    · split <;> rfl

/-- So are all of them. -/
theorem length_renderFrame (e : Engine F D) (now pull : ℕ) (order : HashOrder String)
    (gains : String → F) (out : List F) :
    (e.renderFrame opus now pull order gains out).2.2.1.length = out.length := by
  have hfold : ∀ (names : List String) (m : Mixing F D), m.out.length = out.length →
      (names.foldl (Mixing.renderOne opus now pull (min Config.frameSize out.length) gains)
        m).out.length = out.length := by
    intro names
    induction names with
    | nil => exact fun m hm => hm
    | cons name names ih =>
      intro m hm
      refine ih _ ?_
      rw [length_renderOne opus now pull _ gains m name (Nat.min_le_left _ _)
        (hm ▸ Nat.min_le_right _ _), hm]
  exact hfold _ _ rfl

/-- The length that is answered is that of the frame. -/
theorem renderFrame_length (e : Engine F D) (now pull : ℕ) (order : HashOrder String)
    (gains : String → F) {out : List F} {n : ℕ}
    (h : (e.renderFrame opus now pull order gains out).2.1 = some n) :
    n = min Config.frameSize out.length := by
  unfold Engine.renderFrame at h
  simp only at h
  split at h
  · cases h
  · exact (Option.some.inj h).symm

end Mix

/-! ## The pump -/

/-- `PlayoutPump`: the engine, the buffer that it mixes into, and how far the virtual output
is covered. -/
structure Pump (F D : Type) where
  engine : Engine F D
  mix : List F
  virtualUntil : ℕ
  mix_len : mix.length = Config.frameSize

/-- What a call of `pump` reads: the clock, the order of the streams, and the gains, which are
looked up for each frame. -/
structure PumpCall (F : Type) where
  now : ℕ
  order : HashOrder String
  gains : ℕ → String → F

/-- What it leaves behind: the pump, the ring, the samples the ring had no room for, and what
was done for the streams, frame by frame. -/
structure Pumped (F D : Type) where
  pump : Pump F D
  ring : AudioRing F
  overflow : ℕ
  frames : List (List (String × Done))

/-- `playing`. -/
def Engine.playing (e : Engine F D) : ℕ :=
  (e.streams.entries.filter fun entry => entry.2.state = .playing).card

namespace Pump

variable [F32 F] (opus : OpusDecoder F D)

/-- `PlayoutPump::new`. -/
def new (now : ℕ) : Pump F D := ⟨.new, List.replicate _ 0, now, List.length_replicate⟩

/-- `on_packet`. -/
def onPacket (p : Pump F D) (name : String) (seq : UInt32) (packet : Bytes) (now : ℕ) :
    Pump F D × Bool :=
  let (engine, late) := p.engine.onPacket opus name seq packet now
  ({ p with engine }, late)

/-- `render`: the pump, the length of the frame, and what was done for it. -/
def render (p : Pump F D) (now pull : ℕ) (order : HashOrder String) (gains : String → F) :
    Pump F D × Option ℕ × List (String × Done) :=
  let r := p.engine.renderFrame opus now pull order gains p.mix
  ({ p with
    engine := r.1
    mix := r.2.2.1
    mix_len := (length_renderFrame opus _ _ _ _ _ _).trans p.mix_len }, r.2.1, r.2.2.2)

/-- A frame that is rendered is a whole one. -/
theorem length_frame {p : Pump F D} {now pull n : ℕ} {order : HashOrder String}
    {gains : String → F} (h : (p.render opus now pull order gains).2.1 = some n) :
    n = Config.frameSize := by
  rw [renderFrame_length opus _ _ _ _ _ h, p.mix_len, Nat.min_self]

omit [F32 F] in
/-- A frame is pushed until the ring is full. -/
theorem length_pushed {p : Pump F D} {n : ℕ} (hn : n = Config.frameSize) (ring : AudioRing F) :
    (ring.pushSlice (p.mix.take n)).1.occupiedLen =
      ring.occupiedLen + min n ring.vacantLen := by
  rw [ring.occupiedLen_pushSlice, hn, ← p.mix_len, List.take_length]

/-- The loop of `pump` with a device, from its `k`-th frame on. -/
def pumpDevice (call : PumpCall F) (queued request : ℕ) (k : ℕ) (p : Pump F D)
    (ring : AudioRing F) : Pumped F D :=
  let output := Output.new (ring.occupiedLen + queued) request
  if output.wantsFrame then
    let rendered := p.render opus call.now output.pull call.order (call.gains k)
    match h : rendered.2.1 with
    | none => ⟨rendered.1, ring, 0, [rendered.2.2]⟩
    | some n =>
      let room := ring.vacantLen
      let pushed := ring.pushSlice (rendered.1.mix.take n)
      let overflow := n - pushed.2
      -- A full ring: the device has stopped pulling.
      if room < n then ⟨rendered.1, pushed.1, overflow, [rendered.2.2]⟩
      else
        let rest := pumpDevice call queued request (k + 1) rendered.1 pushed.1
        { rest with overflow := overflow + rest.overflow, frames := rendered.2.2 :: rest.frames }
  else ⟨p, ring, 0, []⟩
termination_by Config.playoutOutputLowWater + request + Config.frameSize - ring.occupiedLen
decreasing_by
  rename_i hwants hroom
  have hn : n = Config.frameSize := length_frame opus h
  have hpos : 0 < Config.frameSize := by decide
  have hlevel := Output.wantsFrame_new hwants
  rw [length_pushed hn]
  omega

/-- How far the virtual output is covered, in samples. -/
def virtualLevel (virtualUntil now : ℕ) : ℕ :=
  (virtualUntil - now) / 1000 * Config.sampleRate / 1000000

theorem lt_of_virtualLevel {virtualUntil now : ℕ}
    (h : virtualLevel virtualUntil now < Config.playoutOutputLowWater) :
    virtualUntil < now + 2 * frameDuration := by
  have hduration : frameDuration = 20000000 := by decide
  have hmark : Config.playoutOutputLowWater = 1920 := by decide
  rw [hmark] at h
  unfold virtualLevel Config.sampleRate at h
  rw [hduration]
  omega

/-- The virtual output has taken a frame. -/
def cover (p : Pump F D) : Pump F D := { p with virtualUntil := p.virtualUntil + frameDuration }

/-- What the virtual output still has to be covered for. -/
def lag (p : Pump F D) (now : ℕ) : ℕ := now + 2 * frameDuration - p.virtualUntil

/-- A frame that the virtual output wants takes it closer to being covered. -/
theorem lag_cover {p : Pump F D} {now pull : ℕ} {order : HashOrder String} {gains : String → F}
    (h : virtualLevel p.virtualUntil now < Config.playoutOutputLowWater) :
    (p.render opus now pull order gains).1.cover.lag now < p.lag now := by
  have hahead := lt_of_virtualLevel h
  have hpos : 0 < frameDuration := by decide
  have hkept : (p.render opus now pull order gains).1.virtualUntil = p.virtualUntil := rfl
  unfold lag cover
  simp only [hkept]
  omega

/-- The loop of `pump` without a device, from its `k`-th frame on. -/
def pumpVirtual (call : PumpCall F) (k : ℕ) (p : Pump F D) :
    Pump F D × List (List (String × Done)) :=
  let output := Output.new (virtualLevel p.virtualUntil call.now) 0
  if output.wantsFrame then
    let rendered := p.render opus call.now output.pull call.order (call.gains k)
    if rendered.2.1.isSome then
      let rest := pumpVirtual call (k + 1) rendered.1.cover
      (rest.1, rendered.2.2 :: rest.2)
    -- Nothing playing: the virtual output has run dry.
    else ({ rendered.1 with virtualUntil := call.now }, [rendered.2.2])
  else (p, [])
-- a pair, as the kernel would count nanoseconds in a plain number
termination_by (p.lag call.now, 0)
decreasing_by
  rename_i hwants _
  exact Prod.Lex.left _ _ (lag_cover opus (Output.wantsFrame_idle hwants))

/-- `pump`: with the ring of a device, or without one; then the playing count is published. -/
def pump (p : Pump F D) (prod : Option (AudioRing F)) (call : PumpCall F)
    (signals : PlayoutSignals) (diag : OutputDiagnostics) :
    Pump F D × Option (AudioRing F) × PlayoutSignals × OutputDiagnostics :=
  match prod with
  | some ring =>
    let done := pumpDevice opus call signals.queued signals.request 0
      { p with virtualUntil := call.now } ring
    (done.pump, some done.ring,
      { signals with playing := asU32 done.pump.engine.playing },
      { diag with playbackRingOverflow := diag.playbackRingOverflow + done.overflow })
  | none =>
    let maxLag := frameDuration * Config.jitterBufMax
    let p := if maxLag < call.now - p.virtualUntil then { p with virtualUntil := call.now } else p
    let done := pumpVirtual opus call 0 p
    (done.1, none, { signals with playing := asU32 done.1.engine.playing }, diag)

/-! ## What a pump does to the output -/

/-- **A pump only adds to the output**, and to less than a frame above the mark. -/
theorem pumpDevice_level (call : PumpCall F) (queued request k : ℕ) (p : Pump F D)
    (ring : AudioRing F) :
    ring.occupiedLen ≤ (pumpDevice opus call queued request k p ring).ring.occupiedLen ∧
      (pumpDevice opus call queued request k p ring).ring.occupiedLen + queued ≤
        max (ring.occupiedLen + queued)
          (max Config.playoutOutputLowWater (request + Config.frameSize) +
            Config.frameSize - 1) := by
  fun_induction pumpDevice opus call queued request k p ring with
  | case1 k p ring output hwants rendered hnone =>
    exact ⟨Nat.le_refl _, Nat.le_max_left _ _⟩
  | case2 k p ring output hwants rendered n h room pushed overflow hroom =>
    have hlevel := Output.wantsFrame_new hwants
    have hn : n = Config.frameSize := length_frame opus h
    have hpushed : pushed.1.occupiedLen = ring.occupiedLen + min n ring.vacantLen :=
      length_pushed hn ring
    refine ⟨?_, ?_⟩
    · show ring.occupiedLen ≤ pushed.1.occupiedLen
      omega
    · show pushed.1.occupiedLen + queued ≤ _
      omega
  | case3 k p ring output hwants rendered n h room pushed overflow hroom rest ih =>
    have hlevel := Output.wantsFrame_new hwants
    have hn : n = Config.frameSize := length_frame opus h
    have hpushed : pushed.1.occupiedLen = ring.occupiedLen + min n ring.vacantLen :=
      length_pushed hn ring
    obtain ⟨hmore, hbound⟩ : pushed.1.occupiedLen ≤ rest.ring.occupiedLen ∧
        rest.ring.occupiedLen + queued ≤ max (pushed.1.occupiedLen + queued)
          (max Config.playoutOutputLowWater (request + Config.frameSize) +
            Config.frameSize - 1) := ih
    refine ⟨?_, ?_⟩
    · show ring.occupiedLen ≤ rest.ring.occupiedLen
      omega
    · show rest.ring.occupiedLen + queued ≤ _
      omega
  | case4 k p ring output hfull => exact ⟨Nat.le_refl _, Nat.le_max_left _ _⟩

end Pump

end Client
end TcVoice
