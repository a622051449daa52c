import TcVoice.Client.Alike
import TcVoice.Lib.Machines

/-!
# What a frame does to a stream

`SenderStream::render` of `crates/client/src/playout.rs`, by its outcomes, and any schedule of
packets and frames of one stream.

* `Wakes` — how a stream comes to play: it plays already, or it starts at its first packet.
* `Plays` — what a playing stream does for a frame: a packet, two of them, a concealed loss, an
  underrun that is concealed or that ends the talkspurt.
* `Renders`, `render_renders` — **every rendering is one of these**, with its effect on the
  stream.
* `StreamEvent`, `SenderStream.step` — packets and frames in any order; other streams may have
  left anything in the scratch buffers.
-/

namespace TcVoice
namespace Client

variable {F D : Type}

/-! ## What a buffer consumes -/

section Buffers

variable {b b' : JitterBuffer} {out data : Bytes} {answer : PopResult}

/-- A pop that answers with anything is of a buffer that has started, and stays so. -/
theorem started_of_pop (hpop : b.pop out = (b', data, answer)) (hanswer : answer ≠ .empty) :
    b.started = true ∧ b'.started = true := by
  cases hstarted : b.started with
  | false =>
    rw [pop_of_not_started hstarted] at hpop
    cases hpop
    exact absurd rfl hanswer
  | true =>
    refine ⟨rfl, ?_⟩
    rcases pop_cases hstarted out with ⟨-, heq⟩ | ⟨-, ⟨-, heq⟩ | heq⟩ <;> rw [heq] at hpop <;>
      cases hpop <;> exact hstarted

/-- The next packet is what a pop answers with, if it is there. -/
theorem pop_of_buffered (hstarted : b.started = true) (hbuf : b.buffered b.nextSeq = true)
    (out : Bytes) : b.pop out =
      ({ b with
        slots := Function.update b.slots (slotOf b.nextSeq) ⟨0, out⟩
        nextSeq := b.nextSeq + 1, provisional := false },
        (b.slots (slotOf b.nextSeq)).data, .packet) := by
  rw [pop_of_started hstarted, if_pos (buffered_iff.1 hbuf).1]

/-- An underrun changes nothing. -/
theorem pop_empty (hpop : b.pop out = (b', data, .empty)) : b' = b := by
  cases hstarted : b.started with
  | false =>
    rw [pop_of_not_started hstarted] at hpop
    cases hpop
    rfl
  | true =>
    rcases pop_cases hstarted out with ⟨-, heq⟩ | ⟨-, ⟨-, heq⟩ | heq⟩ <;> rw [heq] at hpop <;>
      cases hpop
    rfl

/-- Any other pop is one step. -/
theorem pop_nextSeq (h : b.Low) (hpop : b.pop out = (b', data, answer))
    (hanswer : answer ≠ .empty) :
    b'.nextSeq.toNat = b.nextSeq.toNat + 1 := by
  have hstarted := (started_of_pop hpop hanswer).1
  have hlow := (h.next hstarted).2
  have hstep : (b.nextSeq + 1).toNat = (b.nextSeq.toNat + 1) % 2 ^ 32 := by
    rw [UInt32.toNat_add]
    rfl
  have hnext : b'.nextSeq = b.nextSeq + 1 := by
    rcases pop_cases hstarted out with ⟨-, heq⟩ | ⟨-, ⟨-, heq⟩ | heq⟩ <;> rw [heq] at hpop <;>
      cases hpop
    · rfl
    · rfl
    · exact absurd rfl hanswer
  rw [hnext]
  omega

/-- A skip is as many steps as it says. -/
theorem skipToOldest_nextSeq (h : b.Low) (hstarted : b.started = true) :
    b.skipToOldest.1.nextSeq.toNat = b.nextSeq.toNat + b.skipToOldest.2 := by
  have hlow := (h.next hstarted).2
  have hcap : Config.jitterBufMax = 15 := rfl
  have hlt : b.skipToOldest.2 < Config.jitterBufMax := by
    unfold JitterBuffer.skipToOldest
    dsimp only
    cases hfind : (List.range Config.jitterBufMax).find? fun offset =>
      (b.peek (b.ahead offset)).isSome with
    | none => exact Nat.succ_pos 14
    | some offset => exact List.mem_range.1 (List.mem_of_find?_eq_some hfind)
  show (b.nextSeq + .ofNat b.skipToOldest.2).toNat = _
  rw [UInt32.toNat_add, UInt32.toNat_ofNat']
  omega

/-- A buffer with something in it has started. -/
theorem started_of_countBuffered (hfirst : b.started = false → ∀ i, (b.slots i).seq = 0)
    (hcount : b.countBuffered ≠ 0) : b.started = true := by
  by_contra hstarted
  apply hcount
  rw [Bool.not_eq_true] at hstarted
  unfold JitterBuffer.countBuffered
  rw [List.length_eq_zero_iff, List.filter_eq_nil_iff]
  intro offset _ hbuf
  obtain ⟨hslot, hpos⟩ := buffered_iff.1 hbuf
  exact hpos (hslot.symm.trans (hfirst hstarted _))

/-- After a skip the next packet is there, if there is any. -/
theorem buffered_skipToOldest (hcount : b.countBuffered ≠ 0) :
    b.skipToOldest.1.buffered b.skipToOldest.1.nextSeq = true := by
  obtain ⟨offset, hmem⟩ := List.exists_mem_of_length_pos (Nat.pos_of_ne_zero hcount)
  rw [List.mem_filter] at hmem
  have hsome : (b.peek (b.ahead offset)).isSome = true := peek_isSome_iff.2 hmem.2
  cases hfind : (List.range Config.jitterBufMax).find? fun offset =>
    (b.peek (b.ahead offset)).isSome with
  | none => exact absurd hsome (List.find?_eq_none.1 hfind offset hmem.1)
  | some first =>
    have hfound := (List.find?_range_eq_some.1 hfind).1
    have hskip : b.skipToOldest.2 = first := by
      unfold JitterBuffer.skipToOldest
      rw [hfind]
      rfl
    show b.buffered (b.ahead b.skipToOldest.2) = true
    rw [hskip]
    exact peek_isSome_iff.1 hfound

end Buffers

/-! ## Waking up -/

/-- How an idle stream starts to play. -/
def SenderStream.started (s : SenderStream F D) : SenderStream F D :=
  { s with
    jitter := s.jitter.skipToOldest.1, state := .playing, firstIdleArrival := none, hold := 0
    depths := s.depths.reset }

/-- A stream is about to play, after some numbers that it has skipped. -/
inductive Wakes (s : SenderStream F D) : ℕ → SenderStream F D → Prop where
  | playing (hstate : s.state = .playing) : Wakes s 0 s
  | starts (hstate : s.state = .idle) (hbuffered : s.jitter.countBuffered ≠ 0) :
      Wakes s s.jitter.skipToOldest.2 s.started

/-! ## Playing -/

/-- The calls that hand a packet to the decoder. -/
def handed (calls : List DecoderCall) : List DecoderCall := calls.filter fun call => call != .plc

/-- A stream with its present depth among the last ones. -/
def SenderStream.looked (s : SenderStream F D) : SenderStream F D :=
  { s with depths := s.depths.push s.jitter.countBuffered }

section Render

variable [F32 F]

/-- What a playing stream does for a frame. -/
inductive Plays (s : SenderStream F D) (target : ℕ) : Done → SenderStream F D → Prop where
  /-- The next packet is played. -/
  | packet {out data : Bytes} {jitter : JitterBuffer} {calls : List DecoderCall} {decoder : D}
      (hpop : s.jitter.pop out = (jitter, data, .packet)) (hcalls : handed calls = [.decode data]) :
      Plays s target
        ⟨some (.packet s.jitter.nextSeq), calls, [.received], ⟨s.pendingExpand, 0, 0, 0⟩⟩
        { s.looked with jitter, decoder, hold := 0, pendingExpand := 0 }
  /-- The buffer is too deep: the next two packets are decoded, and one is played. -/
  | accelerated {out data out' data' : Bytes} {jitter jitter' : JitterBuffer}
      {answer : PopResult} {calls : List DecoderCall} {decoder : D} {frame : Frame F}
      (hpop : s.jitter.pop out = (jitter, data, .packet))
      (hdeep : s.looked.shouldAccelerate target frame = true)
      (hpeek : (jitter.peek jitter.nextSeq).isSome = true)
      (hpop' : jitter.pop out' = (jitter', data', answer))
      (hcalls : handed calls = [.decode data, .decode data']) :
      Plays s target
        ⟨some (.accelerated s.jitter.nextSeq jitter.nextSeq), calls, [.received, .received],
          ⟨s.pendingExpand, 1, 0, 0⟩⟩
        { s.looked with
          jitter := jitter', decoder, hold := 0, pendingExpand := 0
          depths := s.looked.depths.reset }
  /-- The next packet is missing. -/
  | concealed {out data : Bytes} {jitter : JitterBuffer} {op : FrameOp}
      {calls : List DecoderCall} {diag : Diagnostics} {decoder : D}
      (hpop : s.jitter.pop out = (jitter, data, .missing))
      (hop : op = .plc ∨ op = .fec jitter.nextSeq) (hdiag : diag.expandFrames = 0) :
      Plays s target ⟨some op, calls, [.lost], diag⟩ { s.looked with jitter, decoder, hold := 0 }
  /-- There is nothing in the buffer, for too long: the talkspurt is over. -/
  | ended {out data : Bytes} {jitter : JitterBuffer}
      (hpop : s.jitter.pop out = (jitter, data, .empty))
      (hhold : Config.playoutHoldFrames < s.hold + 1) :
      Plays s target ⟨none, [], [], .zero⟩
        ({ s.looked with jitter, hold := s.hold + 1 }).goIdle
  /-- There is nothing in the buffer. -/
  | expanded {out data : Bytes} {jitter : JitterBuffer} {calls : List DecoderCall} {decoder : D}
      (hpop : s.jitter.pop out = (jitter, data, .empty))
      (hhold : s.hold + 1 ≤ Config.playoutHoldFrames) :
      Plays s target ⟨some .expand, calls, [], .zero⟩
        { s.looked with
          jitter, decoder, hold := s.hold + 1, pendingExpand := s.pendingExpand + 1 }

/-- What rendering a frame does to a stream. -/
inductive Renders (s : SenderStream F D) : Done → SenderStream F D → Prop where
  | waits {first : Option ℕ} (hstate : s.state = .idle) :
      Renders s ⟨none, [], [], .zero⟩ { s with firstIdleArrival := first }
  | plays {skipped : ℕ} {woken s' : SenderStream F D} {done : Done} (hwake : Wakes s skipped woken)
      (hplay : Plays woken s.target done s') :
      Renders s { done with reports := .replicate skipped .lost ++ done.reports } s'

/-! ## Rendering -/

variable (opus : OpusDecoder F D)

theorem handed_decodeInto (decoder : D) (packet : Bytes) :
    handed (decodeInto opus decoder packet).2.2 = [.decode packet] := by
  have hconceal : handed (concealInto opus (opus.decode decoder packet).1).2.2 = [] := by
    unfold concealInto
    split <;> rfl
  unfold decodeInto
  split
  · rfl
  · rename_i heq
    rw [heq] at hconceal
    exact congrArg (.decode packet :: ·) hconceal

theorem handed_append (calls calls' : List DecoderCall) :
    handed (calls ++ calls') = handed calls ++ handed calls' := List.filter_append ..

variable {opus} {s : SenderStream F D} {now pull : ℕ} {scratch : Scratch F}

/-- A packet that is played, alone or with the next one. -/
theorem playPacket_plays {jitter : JitterBuffer} {data : Bytes} (target : ℕ)
    (hpop : s.jitter.pop scratch.opus = (jitter, data, .packet)) (reports : List Report) :
    let r := ({ s.looked with jitter } : SenderStream F D).playPacket opus target s.jitter.nextSeq
      { scratch with opus := data } reports
    ∃ done, Plays s target done r.stream ∧
      r.done = { done with reports := reports ++ done.reports } := by
  have hcalls := handed_decodeInto opus s.decoder data
  unfold SenderStream.playPacket
  generalize hdecode : decodeInto opus s.decoder data = result at hcalls
  obtain ⟨decoder, frame, calls⟩ := result
  simp only [SenderStream.looked, hdecode]
  split
  · rename_i hdeep
    rw [Bool.and_eq_true] at hdeep
    generalize hpop' : jitter.pop data = popped
    obtain ⟨jitter', data', answer⟩ := popped
    have hcalls' := handed_decodeInto opus decoder data'
    generalize decodeInto opus decoder data' = result at hcalls'
    obtain ⟨decoder', frame', calls'⟩ := result
    refine ⟨_, .accelerated hpop hdeep.1 hdeep.2 hpop' ?_, rfl⟩
    rw [handed_append, hcalls, hcalls']
    rfl
  · exact ⟨_, .packet hpop hcalls, rfl⟩

/-- A packet that is missing is concealed. -/
theorem playMissing_plays {jitter : JitterBuffer} {data : Bytes} (target : ℕ)
    (hpop : s.jitter.pop scratch.opus = (jitter, data, .missing)) (reports : List Report) :
    let r := ({ s.looked with jitter } : SenderStream F D).playMissing opus
      { scratch with opus := data } reports
    ∃ done, Plays s target done r.stream ∧
      r.done = { done with reports := reports ++ done.reports } := by
  unfold SenderStream.playMissing
  dsimp only
  split
  · exact ⟨_, .concealed hpop (.inl rfl) rfl, rfl⟩
  · split
    · exact ⟨_, .concealed hpop (.inl rfl) rfl, rfl⟩
    · exact ⟨_, .concealed hpop (.inr rfl) rfl, rfl⟩

/-- An underrun is concealed, or ends the talkspurt. -/
theorem playEmpty_plays {jitter : JitterBuffer} {data : Bytes} (target : ℕ)
    (hpop : s.jitter.pop scratch.opus = (jitter, data, .empty)) (reports : List Report) :
    let r := ({ s.looked with jitter } : SenderStream F D).playEmpty opus
      { scratch with opus := data } reports
    ∃ done, Plays s target done r.stream ∧
      r.done = { done with reports := reports ++ done.reports } := by
  unfold SenderStream.playEmpty
  dsimp only
  split
  · rename_i hhold
    exact ⟨_, .ended hpop hhold, by rw [List.append_nil]⟩
  · rename_i hhold
    exact ⟨_, .expanded hpop (not_lt.1 hhold), by rw [List.append_nil]⟩

variable (opus) in
theorem play_plays (s : SenderStream F D) (target : ℕ) (scratch : Scratch F)
    (reports : List Report) :
    ∃ done, Plays s target done (s.play opus target scratch reports).stream ∧
      (s.play opus target scratch reports).done =
        { done with reports := reports ++ done.reports } := by
  unfold SenderStream.play
  dsimp only
  split <;> rename_i hpop
  · exact playPacket_plays target hpop reports
  · exact playMissing_plays target hpop reports
  · exact playEmpty_plays target hpop reports

omit [F32 F] in
/-- A stream stays idle, or is about to play. -/
theorem wake_wakes (s : SenderStream F D) (now pull : ℕ) :
    (s.state = .idle ∧ ∃ first, s.wake now pull = ({ s with firstIdleArrival := first }, none)) ∨
      ∃ skipped woken, Wakes s skipped woken ∧
        s.wake now pull = (woken, some (.replicate skipped .lost)) := by
  unfold SenderStream.wake
  cases hstate : s.state with
  | playing => exact .inr ⟨0, s, .playing hstate, rfl⟩
  | idle =>
    dsimp only
    split
    · exact .inl ⟨rfl, none, rfl⟩
    · rename_i hbuffered
      split
      · exact .inl ⟨rfl, _, rfl⟩
      · exact .inr ⟨_, _, .starts hstate hbuffered, rfl⟩

variable (opus) in
/-- **Every rendering does one of these things.** -/
theorem render_renders (s : SenderStream F D) (now pull : ℕ) (scratch : Scratch F) :
    Renders s (s.render opus now pull scratch).done (s.render opus now pull scratch).stream := by
  unfold SenderStream.render
  rcases wake_wakes s now pull with ⟨hstate, first, hwake⟩ | ⟨skipped, woken, hwakes, hwake⟩
  · rw [hwake]
    exact .waits hstate
  · rw [hwake]
    obtain ⟨done, hplays, hdone⟩ := play_plays opus woken s.target scratch
      (.replicate skipped .lost)
    dsimp only
    rw [hdone]
    exact .plays hwakes hplays

end Render

/-! ## Schedules -/

/-- What happens to a stream: a packet of its sender, or the output asks for a frame. -/
inductive StreamEvent (F : Type) where
  | packet (seq : UInt32) (packet : Bytes) (now : ℕ)
  | frame (now pull : ℕ) (scratch : Scratch F)

/-- What it answers: whether the packet was late, or what was done for the frame. -/
inductive StreamAnswer where
  | late (late : Bool)
  | frame (done : Done)
  deriving DecidableEq, Repr

/-- The numbers of packets are those of the first half of the counter, without zero. -/
def StreamEvent.Numbered : StreamEvent F → Prop
  | .packet seq _ _ => seq ≠ 0 ∧ seq.toNat < 2 ^ 31
  | .frame .. => True

section Step

variable [F32 F] (opus : OpusDecoder F D)

/-- One event. -/
def SenderStream.step (s : SenderStream F D) : StreamEvent F → SenderStream F D × StreamAnswer
  | .packet seq packet now =>
    let (s, late) := s.receive seq packet now
    (s, .late late)
  | .frame now pull scratch =>
    let r := s.render opus now pull scratch
    (r.stream, .frame r.done)

/-- What was done for each frame of a run. -/
def framesDone (s : SenderStream F D) (events : List (StreamEvent F)) : List Done :=
  (Machines.outputs (SenderStream.step opus) s events).filterMap fun
    | .late _ => none
    | .frame done => some done

end Step

end Client
end TcVoice
