import TcVoice.Client.Capture
import TcVoice.Client.Jitter
import TcVoice.Lib.Table

/-!
# Playout

`crates/client/src/playout.rs`: the stream of each sender, rendered frame by frame, and
the engine that mixes the streams.

* `OpusDecoder` — Opus, which is not part of the repository.
* `SenderStream.receive`, `SenderStream.render` — a packet into a stream, and the next
  frame out of it: what is played, and what the decoder is handed for it.
* `Engine.onPacket`, `Engine.renderFrame` — all senders, who share scratch buffers, a prune
  counter and a hash table.
-/

namespace TcVoice
namespace Client

/-- Opus: a fresh decoder, if there is one to be had, and its three ways to a frame. -/
structure OpusDecoder (F D : Type) where
  new : Option D
  decode : D → Bytes → D × Option (List F)
  decodePlc : D → D × Option (List F)
  decodeFec : D → Bytes → D × Option (List F)

/-- A decoder that makes silence of every packet. -/
def silent : OpusDecoder Whole Unit where
  new := some ()
  decode _ _ := ((), some (.replicate Config.frameSize 0))
  decodePlc _ := ((), some (.replicate Config.frameSize 0))
  decodeFec _ _ := ((), some (.replicate Config.frameSize 0))

/-- A call of a decoder, with the packet that it is handed. -/
inductive DecoderCall where
  | decode (opus : Bytes)
  | plc
  | fec (next : Bytes)
  deriving DecidableEq, Repr

/-- `FRAME_DURATION`, in nanoseconds. -/
def frameDuration : ℕ := Config.frameSize * 1000000 / Config.sampleRate * 1000

/-- `CELT_ONLY_TOC_CONFIG`. -/
def celtOnlyTocConfig : ℕ := 16

/-- Samples of a crossfade. -/
def fadeSamples : ℕ :=
  max 1 (min (Config.sampleRate * Config.playbackFadeMs / 1000) Config.frameSize)

/-- `ceil` and the cast to `usize`, by the whole part, for all numbers that are not negative. -/
@[irreducible] def ceilToNat (x : Float) : ℕ :=
  let n := x.toUInt64
  if n.toFloat < x then n.toNat + 1 else n.toNat

/-- `target_frames`: the depth to aim at for a jitter estimate. -/
def targetFrames (jitterMs : Float) : ℕ :=
  max Config.playoutTargetMinFrames (min Config.playoutTargetMaxFrames
    (ceilToNat ((2.0 * jitterMs + frameMs) / frameMs)))

theorem targetFrames_le (jitterMs : Float) :
    targetFrames jitterMs ≤ Config.playoutTargetMaxFrames :=
  max_le (by decide) (min_le_left _ _)

/-! ## The depths of the last frames -/

/-- `DepthWindow`. -/
structure DepthWindow where
  ring : Vector ℕ Config.playoutAccelWindowFrames
  next : ℕ
  len : ℕ
  next_lt : next < Config.playoutAccelWindowFrames

namespace DepthWindow

/-- `DepthWindow::new`. -/
def new : DepthWindow := ⟨.replicate _ 0, 0, 0, by decide⟩

/-- `push`.  The entries are bytes. -/
def push (w : DepthWindow) (depth : ℕ) : DepthWindow where
  ring := w.ring.set w.next (min depth 255) w.next_lt
  next := (w.next + 1) % Config.playoutAccelWindowFrames
  len := min (w.len + 1) Config.playoutAccelWindowFrames
  next_lt := Nat.mod_lt _ (by decide)

/-- `min`. -/
def min (w : DepthWindow) : ℕ := ((w.ring.toList.take w.len).min?).getD 0

/-- `reset`. -/
def reset (w : DepthWindow) : DepthWindow := ⟨w.ring, 0, 0, by decide⟩

end DepthWindow

/-! ## The stream of one sender -/

/-- `StreamState`. -/
inductive StreamState where
  | idle
  | playing
  deriving DecidableEq, Repr

/-- `FrameOp`. -/
inductive FrameOp where
  | packet (seq : UInt32)
  | accelerated (dropped played : UInt32)
  | fec (next : UInt32)
  | plc
  | expand
  deriving DecidableEq, Repr

/-- A call of the network statistics; each is followed by `maybe_finalize_window`. -/
inductive Report where
  | received
  | lost
  deriving DecidableEq, Repr

/-- What is added to the counters of `AudioDiagnostics`. -/
structure Diagnostics where
  expandFrames : ℕ
  accelerateDrops : ℕ
  fecRecovered : ℕ
  plcFrames : ℕ
  deriving DecidableEq, Repr

def Diagnostics.zero : Diagnostics := ⟨0, 0, 0, 0⟩

variable {F D : Type}

/-- `SenderStream`.  Instants are in nanoseconds. -/
structure SenderStream (F D : Type) where
  jitter : JitterBuffer
  decoder : D
  lastPacket : ℕ
  state : StreamState
  firstIdleArrival : Option ℕ
  hold : ℕ
  pendingExpand : ℕ
  depths : DepthWindow
  frameRms : F

/-- `Scratch`: the buffers that all streams render through. -/
structure Scratch (F : Type) where
  opus : Bytes
  frame : Frame F
  head : Vector F fadeSamples

/-- What rendering a frame of a stream did: what was played, if anything, the calls of the
decoder and of the statistics for it, and what was counted. -/
structure Done where
  op : Option FrameOp
  calls : List DecoderCall
  reports : List Report
  diag : Diagnostics
  deriving DecidableEq, Repr

/-- A rendered stream. -/
structure Rendered (F D : Type) where
  stream : SenderStream F D
  scratch : Scratch F
  done : Done

section Render

variable [F32 F] (opus : OpusDecoder F D)

/-- `rms` of `level.rs`. -/
def levelRms (samples : List F) : F :=
  F32.sqrt ((samples.map fun s => s * s).foldl (· + ·) 0 / ((max samples.length 1 : ℕ) : F))

/-- `copy_frame`: all of the frame is written, with zeros behind a short one. -/
def copyFrame (pcm : List F) : Frame F := .ofFn fun i => pcm.getD i 0

/-- `conceal_into`. -/
def concealInto (decoder : D) : D × Frame F × List DecoderCall :=
  match opus.decodePlc decoder with
  | (decoder, some pcm) => (decoder, copyFrame pcm, [.plc])
  | (decoder, none) => (decoder, .replicate _ 0, [.plc])

/-- `decode_into`. -/
def decodeInto (decoder : D) (packet : Bytes) : D × Frame F × List DecoderCall :=
  match opus.decode decoder packet with
  | (decoder, some pcm) => (decoder, copyFrame pcm, [.decode packet])
  | (decoder, none) =>
    let (decoder, frame, calls) := concealInto opus decoder
    (decoder, frame, .decode packet :: calls)

/-- The crossfade from the head of a dropped frame into the frame played in its place. -/
def crossfade (head : Vector F fadeSamples) (frame : Frame F) : Frame F :=
  .ofFn fun i =>
    if h : i.1 < fadeSamples then
      let t : F := ((i.1 + 1 : ℕ) : F) / ((fadeSamples + 1 : ℕ) : F)
      head[i.1] * (1 - t) + frame[i.1] * t
    else frame[i.1]

namespace SenderStream

/-- `SenderStream::new`. -/
def new (decoder : D) (now : ℕ) : SenderStream F D where
  jitter := .new
  decoder := decoder
  lastPacket := now
  state := .idle
  firstIdleArrival := none
  hold := 0
  pendingExpand := 0
  depths := .new
  frameRms := 0

variable (s : SenderStream F D)

/-- `target`. -/
def target : ℕ := targetFrames s.jitter.jitterMs

/-- `go_idle`. -/
def goIdle : SenderStream F D :=
  { s with
    state := .idle, hold := 0, pendingExpand := 0, firstIdleArrival := none
    depths := s.depths.reset, jitter := s.jitter.endTalkspurt }

/-- `should_accelerate`. -/
def shouldAccelerate (target : ℕ) (frame : Frame F) : Bool :=
  if s.depths.len < Config.playoutAccelMinObserved then false
  else
    let least := s.depths.min
    if least ≤ target + 1 then false
    else
      let force := min (target + 1 + Config.playoutAccelForceExcess) (Config.jitterBufMax - 2)
      decide (force < least) || decide (levelRms frame.toList < 0.015)

/-- An idle stream's part of `render`: it stays idle, or starts to play after the packets that
are missing in front of the first one. -/
def wake (now pull : ℕ) : SenderStream F D × Option (List Report) :=
  match s.state with
  | .playing => (s, some [])
  | .idle =>
    let buffered := s.jitter.countBuffered
    if buffered = 0 then ({ s with firstIdleArrival := none }, none)
    else
      let arrived := s.firstIdleArrival.getD now
      let lead := s.target + pull
      let waited := decide (frameDuration * (lead % 2 ^ 32) ≤ now - arrived)
      if decide (buffered < lead) && !waited then
        ({ s with firstIdleArrival := some arrived }, none)
      else
        let (jitter, skipped) := s.jitter.skipToOldest
        ({ s with
          jitter, state := .playing, firstIdleArrival := none, hold := 0
          depths := s.depths.reset }, some (.replicate skipped .lost))

/-- The packet that `pop` has answered with, and the next one in its place if the buffer is
deeper than it has to be. -/
def playPacket (target : ℕ) (seq : UInt32) (scratch : Scratch F) (reports : List Report) :
    Rendered F D :=
  let diag := { Diagnostics.zero with expandFrames := s.pendingExpand }
  let (decoder, frame, calls) := decodeInto opus s.decoder scratch.opus
  let s := { s with decoder, hold := 0, pendingExpand := 0 }
  let played := s.jitter.nextSeq
  if s.shouldAccelerate target frame && (s.jitter.peek played).isSome then
    have hfade : fadeSamples ≤ Config.frameSize := by decide
    let head : Vector F fadeSamples := .ofFn fun i => frame[i.1]
    let (jitter, packet, _) := s.jitter.pop scratch.opus
    let (decoder, frame, calls') := decodeInto opus s.decoder packet
    { stream := { s with jitter, decoder, depths := s.depths.reset }
      scratch := { opus := packet, frame := crossfade head frame, head }
      done :=
        { op := some (.accelerated seq played)
          calls := calls ++ calls'
          reports := reports ++ [.received, .received]
          diag := { diag with accelerateDrops := 1 } } }
  else
    { stream := s
      scratch := { scratch with frame }
      done := { op := some (.packet seq), calls, reports := reports ++ [.received], diag } }

/-- A packet that is missing: recovered from the next one, or concealed. -/
def playMissing (scratch : Scratch F) (reports : List Report) : Rendered F D :=
  let s := { s with hold := 0 }
  let next := s.jitter.nextSeq
  let reports := reports ++ [.lost]
  let conceal (decoder : D) (tried : List DecoderCall) : Rendered F D :=
    let (decoder, frame, calls) := concealInto opus decoder
    { stream := { s with decoder }
      scratch := { scratch with frame }
      done :=
        { op := some .plc, calls := tried ++ calls, reports
          diag := { Diagnostics.zero with plcFrames := 1 } } }
  let fec := (s.jitter.peek next).filter fun packet =>
    packet.head?.any fun toc => decide (toc.toNat >>> 3 < celtOnlyTocConfig)
  match fec with
  | none => conceal s.decoder []
  | some packet =>
    match opus.decodeFec s.decoder packet with
    | (decoder, none) => conceal decoder [.fec packet]
    | (decoder, some pcm) =>
      { stream := { s with decoder }
        scratch := { scratch with frame := copyFrame pcm }
        done :=
          { op := some (.fec next), calls := [.fec packet], reports
            diag := { Diagnostics.zero with fecRecovered := 1 } } }

/-- An underrun: concealed for some frames, then the end of the talkspurt. -/
def playEmpty (scratch : Scratch F) (reports : List Report) : Rendered F D :=
  let s := { s with hold := s.hold + 1 }
  if Config.playoutHoldFrames < s.hold then
    { stream := s.goIdle, scratch
      done := { op := none, calls := [], reports, diag := .zero } }
  else
    let (decoder, frame, calls) := concealInto opus s.decoder
    { stream := { s with decoder, pendingExpand := s.pendingExpand + 1 }
      scratch := { scratch with frame }
      done := { op := some .expand, calls, reports, diag := .zero } }

/-- A playing stream's part of `render`. -/
def play (target : ℕ) (scratch : Scratch F) (reports : List Report) : Rendered F D :=
  let s := { s with depths := s.depths.push s.jitter.countBuffered }
  let seq := s.jitter.nextSeq
  match s.jitter.pop scratch.opus with
  | (jitter, packet, .packet) =>
    { s with jitter }.playPacket opus target seq { scratch with opus := packet } reports
  | (jitter, packet, .missing) =>
    { s with jitter }.playMissing opus { scratch with opus := packet } reports
  | (jitter, packet, .empty) =>
    { s with jitter }.playEmpty opus { scratch with opus := packet } reports

/-- `render`. -/
def render (now pull : ℕ) (scratch : Scratch F) : Rendered F D :=
  match s.wake now pull with
  | (s', none) => ⟨s', scratch, ⟨none, [], [], .zero⟩⟩
  | (s', some reports) => s'.play opus s.target scratch reports

/-- A stream's part of `on_packet`. -/
def receive (seq : UInt32) (packet : Bytes) (now : ℕ) : SenderStream F D × Bool :=
  let (jitter, late) := s.jitter.push seq packet now
  let waiting := !late && decide (s.state = .idle)
  ({ s with
    lastPacket := now, jitter
    firstIdleArrival :=
      if waiting then some (s.firstIdleArrival.getD now) else s.firstIdleArrival }, late)

end SenderStream

end Render

/-! ## The engine -/

/-- `SENDER_STREAM_TTL_SECS` in nanoseconds. -/
def senderStreamTtl : ℕ := Config.senderStreamTtlSecs * 10 ^ 9

/-- `PlayoutEngine`. -/
structure Engine (F D : Type) where
  streams : Table String (SenderStream F D)
  scratch : Scratch F
  packetsSincePrune : ℕ
  levelsEpoch : UInt64

/-- A frame while it is mixed: the streams, and what was done for each, in order. -/
structure Mixing (F D : Type) where
  streams : Table String (SenderStream F D)
  scratch : Scratch F
  out : List F
  contributors : ℕ
  levelsWritten : Bool
  done : List (String × Done)

section Engine

variable [F32 F] (opus : OpusDecoder F D)

/-- The buffers of a new engine. -/
def Scratch.new : Scratch F := ⟨[], .replicate _ 0, .replicate _ 0⟩

/-- One stream's frame into the mix, by one of four ways. -/
def mixIn (first : Bool) (gain : F) (frame out : List F) : List F :=
  let unity := decide (F32.abs (gain - 1) < 1.1920929e-7)
  match first, unity with
  | true, true => frame
  | true, false => frame.map (· * gain)
  | false, true => List.zipWith (· + ·) out frame
  | false, false => List.zipWith (fun m s => m + s * gain) out frame

/-- One turn of the loop of `render_frame`. -/
def Mixing.renderOne (now pull n : ℕ) (gains : String → F) (m : Mixing F D) (name : String) :
    Mixing F D :=
  match m.streams.lookup name with
  | none => m
  | some s =>
    let r := s.render opus now pull m.scratch
    let done := m.done ++ [(name, r.done)]
    if r.done.op.isSome then
      let frame := r.scratch.frame.toList.take n
      { streams := m.streams.insert name { r.stream with frameRms := levelRms frame }
        scratch := r.scratch
        out := mixIn (m.contributors == 0) (gains name) frame (m.out.take n) ++ m.out.drop n
        contributors := m.contributors + 1
        levelsWritten := true
        done }
    else if s.state = .playing then
      { m with
        streams := m.streams.insert name { r.stream with frameRms := 0 }
        scratch := r.scratch, levelsWritten := true, done }
    else { m with streams := m.streams.insert name r.stream, scratch := r.scratch, done }

namespace Engine

/-- `PlayoutEngine::new`. -/
def new : Engine F D := ⟨∅, .new, 0, 0⟩

variable (e : Engine F D)

/-- `prune`. -/
def prune (now : ℕ) : Engine F D :=
  { e with streams := e.streams.retain fun _ s =>
      decide (now - s.lastPacket < senderStreamTtl) }

/-- The prune that `on_packet` makes every so many packets. -/
def prunePeriodically (now : ℕ) : Engine F D :=
  if Config.statsWindowPackets ≤ e.packetsSincePrune + 1 then
    { e with packetsSincePrune := 0 }.prune now
  else { e with packetsSincePrune := e.packetsSincePrune + 1 }

/-- The stream of a sender: the one in the table, or a new one if there is room. -/
def ensure (name : String) (now : ℕ) : Engine F D × Option (SenderStream F D) :=
  match e.streams.lookup name with
  | some s => (e, some s)
  | none =>
    let e := if Config.maxSenderStreams ≤ e.streams.len then e.prune now else e
    if Config.maxSenderStreams ≤ e.streams.len then (e, none)
    else (e, opus.new.map fun decoder => .new decoder now)

/-- `on_packet`, and whether the packet came too late. -/
def onPacket (name : String) (seq : UInt32) (packet : Bytes) (now : ℕ) : Engine F D × Bool :=
  match (e.prunePeriodically now).ensure opus name now with
  | (e, none) => (e, false)
  | (e, some s) =>
    let (s, late) := s.receive seq packet now
    ({ e with streams := e.streams.insert name s }, late)

/-- The streams of a frame, in the order in which the table is visited. -/
def mix (now pull : ℕ) (order : HashOrder String) (gains : String → F) (out : List F) :
    Mixing F D :=
  (order.toList e.streams.keys.val).foldl
    (Mixing.renderOne opus now pull (min Config.frameSize out.length) gains)
    ⟨e.streams, e.scratch, out, 0, false, []⟩

/-- `render_frame`: the length of the frame, if any stream is in it, and the mix. -/
def renderFrame (now pull : ℕ) (order : HashOrder String) (gains : String → F) (out : List F) :
    Engine F D × Option ℕ × List F × List (String × Done) :=
  let m := e.mix opus now pull order gains out
  ({ e with
    streams := m.streams, scratch := m.scratch
    levelsEpoch := if m.levelsWritten then e.levelsEpoch + 1 else e.levelsEpoch },
    if m.contributors = 0 then none else some (min Config.frameSize out.length), m.out, m.done)

end Engine

/-- What happens to an engine: a packet of a sender, or the output asks for a frame. -/
inductive EngineEvent (F : Type) where
  | packet (name : String) (seq : UInt32) (packet : Bytes) (now : ℕ)
  | frame (now pull : ℕ) (order : HashOrder String) (gains : String → F) (out : List F)

/-- What it answers: whether a packet was late; or the length of a frame, the mix, and what was
done for each stream. -/
inductive EngineAnswer (F : Type) where
  | late (late : Bool)
  | frame (length : Option ℕ) (out : List F) (done : List (String × Done))

/-- One event. -/
def Engine.step (e : Engine F D) : EngineEvent F → Engine F D × EngineAnswer F
  | .packet name seq packet now =>
    let (e, late) := e.onPacket opus name seq packet now
    (e, .late late)
  | .frame now pull order gains out =>
    let (e, length, out, done) := e.renderFrame opus now pull order gains out
    (e, .frame length out done)

end Engine

end Client
end TcVoice
