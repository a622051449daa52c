import TcVoice.Client.Capture

/-!
# Packet numbers

The sequence number that the capture thread puts in front of each packet: one counter,
moved on by `send_one`, by the pre-roll and by the frame behind it.

* `wireSequence` — the number in the first four bytes of a packet.
* `handedOver` — the packets of a run, in the order of the send queue.
* `Counts` — what every part of the loop does to the counter: the packets carry what
  it counts through, modulo `2 ^ 32`, and a frame without a packet leaves it alone.
* `Capture.accepts`, `accepted` — whether encoder and cipher get a frame through, and how
  many they get through in a run.
* `numbered_iff` — **the packets are numbered from one, without gap, repeat or zero,
  exactly as long as fewer than `2 ^ 32` frames are got through**; `numbered_wraps` is the
  run whose last packet carries the number of a hello.
-/

namespace TcVoice
namespace Client

open Machines

variable {F E D : Type}

/-- The number in the first four bytes. -/
def wireSequence : Bytes → Option ℕ
  | b₀ :: b₁ :: b₂ :: b₃ :: _ => some (fromBeBytes b₀ b₁ b₂ b₃)
  | _ => none

/-- What the calls of the encoder handed to the send queue. -/
def packets (attempts : List (Attempt F)) : List Bytes := attempts.filterMap (·.packet)

/-- What a run of the loop hands to the send queue. -/
def handedOver [F32 F] (cfg : CaptureCfg F E D) (lossPercent : UInt8) (rs : List (Reading F)) :
    List Bytes :=
  packets (outputs (captureFrame cfg) (cfg.start lossPercent) rs).flatten

/-- Consecutive numbers from one, and never the zero that stands for a hello. -/
def NumberedFromOne (packets : List Bytes) : Prop :=
  packets.map wireSequence = (List.range' 1 packets.length).map some ∧
    ∀ packet ∈ packets, wireSequence packet ≠ some 0

theorem wireSequence_encode (p : VoicePacket) :
    wireSequence p.encode = some p.sequence.toNat := by
  obtain ⟨b₀, b₁, b₂, b₃, hseq, hval⟩ := toBeBytes_eq p.sequence.toNat
  rw [Nat.mod_eq_of_lt (UInt32.toNat_lt _)] at hval
  simp only [VoicePacket.encode, hseq, List.cons_append, wireSequence, hval]

theorem packets_append (first second : List (Attempt F)) :
    packets (first ++ second) = packets first ++ packets second :=
  List.filterMap_append

/-! ## The counter -/

/-- The packets carry what the counter goes through, and it ends behind them. -/
def Counts (c : Capture F E D) (result : Capture F E D × List (Attempt F)) : Prop :=
  ∀ n, c.sequence = .ofNat n →
    (packets result.2).map wireSequence =
      (List.range' n (packets result.2).length).map (fun k => some (k % 2 ^ 32)) ∧
    result.1.sequence = .ofNat (n + (packets result.2).length)

/-- Nothing was sent, and the counter was left alone. -/
theorem Counts.silent {c c' : Capture F E D} (h : c'.sequence = c.sequence) :
    Counts c (c', []) := by
  intro n hn
  exact ⟨rfl, h.trans hn⟩

/-- Two parts of the loop count on from each other. -/
theorem Counts.append {c c' d : Capture F E D} {first second : List (Attempt F)}
    (hfirst : Counts c (d, first)) (hsecond : Counts d (c', second)) :
    Counts c (c', first ++ second) := by
  intro n hn
  obtain ⟨hwire, hd⟩ := hfirst n hn
  obtain ⟨hwire', hend⟩ := hsecond _ hd
  simp only [packets_append, List.map_append, List.length_append]
  rw [hwire, hwire', ← List.map_append, hend]
  refine ⟨?_, by rw [Nat.add_assoc]⟩
  rw [← List.range'_append_1]

/-- Only the counter of the state matters. -/
theorem Counts.of_sequence {c d : Capture F E D} {result : Capture F E D × List (Attempt F)}
    (h : c.sequence = d.sequence) (hd : Counts d result) : Counts c result :=
  fun n hn => hd n (h.symm.trans hn)

/-- A packet takes the number that the counter stands at; a frame that the encoder or the
cipher fails on takes none. -/
theorem counts_sendOne [F32 F] (cfg : CaptureCfg F E D) (c : Capture F E D) (source : Option ℕ)
    (frame : Frame F) : Counts c (sendAlone cfg c source frame) := by
  intro n hn
  unfold sendAlone sendOne
  cases c.encoder.encode cfg.codec frame with
  | mk encoder opus =>
    cases opus with
    | none => exact ⟨rfl, hn⟩
    | some opus =>
      simp only
      cases hbuild : buildPacket cfg.cipher (cfg.nonces c.drawn) c.packetBuf c.sequence
          cfg.channelId (nameBytes cfg.senderName) opus with
      | mk built packet =>
        cases built with
        | false => exact ⟨rfl, hn⟩
        | true =>
          obtain ⟨encrypted, tag, -, rfl⟩ := buildPacket_eq hbuild
          have hmod : c.sequence.toNat = n % 2 ^ 32 := by rw [hn, UInt32.toNat_ofNat']
          refine ⟨?_, ?_⟩
          · simp [packets, wireSequence_encode, hmod]
          · simp [packets, hn, UInt32.ofNat_add]

section Loop

variable [F32 F] {cfg : CaptureCfg F E D} {c : Capture F E D}

/-- The pre-roll, by induction on the frames in it. -/
theorem counts_sendAll (frames : List (Captured F)) : Counts c (sendAll cfg c frames) := by
  induction frames generalizing c with
  | nil => exact .silent rfl
  | cons frame frames ih =>
    exact Counts.append (counts_sendOne cfg c (some frame.number) frame.pcm) ih

/-- The frames of the pre-roll come before the frame that opened the gate. -/
theorem counts_flush (number : ℕ) : Counts c (c.flush cfg number) := by
  have hflushed : Counts c (sendAll cfg c c.preroll.toList) := counts_sendAll c.preroll.toList
  refine Counts.append hflushed (Counts.of_sequence ?_ (counts_sendOne cfg _ (some number) _))
  rfl

omit [F32 F] in
/-- What comes before the encoder does not touch the counter. -/
theorem sequence_popped (c : Capture F E D) (r : Reading F) :
    (c.popped r).sequence = c.sequence := by
  obtain ⟨encoder, h⟩ := popped_state c r
  rw [h]

theorem sequence_ready (cfg : CaptureCfg F E D) (c : Capture F E D) (r : Reading F) :
    (c.ready cfg r).sequence = c.sequence := by
  obtain ⟨encoder, pcmFrame, denoiser, autoLevel, h⟩ := ready_state cfg c r
  rw [h]

theorem sequence_gated (cfg : CaptureCfg F E D) (c : Capture F E D) (r : Reading F) :
    (c.gated cfg r).sequence = c.sequence := by
  unfold Capture.gated
  exact sequence_ready cfg c r

/-- Each of the ways of a frame through the loop. -/
theorem counts_captureFrame (r : Reading F) : Counts c (captureFrame cfg c r) := by
  rw [captureFrame_eq]
  split
  · split
    · exact Counts.of_sequence (sequence_popped c r).symm (counts_sendOne cfg _ none _)
    · exact .silent (sequence_popped c r)
  · split
    · exact Counts.of_sequence (sequence_ready cfg c r).symm (counts_sendOne cfg _ _ _)
    · split
      · exact .silent (sequence_gated cfg c r)
      · exact Counts.of_sequence (sequence_gated cfg c r).symm (counts_flush _)

/-- The whole run, by induction on the frames that are read. -/
theorem counts_run (rs : List (Reading F)) :
    Counts c (after (captureFrame cfg) c rs, (outputs (captureFrame cfg) c rs).flatten) := by
  induction rs generalizing c with
  | nil => exact .silent rfl
  | cons r rs ih => exact Counts.append (counts_captureFrame r) ih

/-- The numbers of a run, whatever fails on the way. -/
theorem handedOver_numbers (cfg : CaptureCfg F E D) (lossPercent : UInt8)
    (rs : List (Reading F)) :
    (handedOver cfg lossPercent rs).map wireSequence =
      (List.range' 1 (handedOver cfg lossPercent rs).length).map
        fun k => some (k % 2 ^ 32) :=
  have hcounts : Counts (cfg.start lossPercent)
      (after (captureFrame cfg) (cfg.start lossPercent) rs,
        (outputs (captureFrame cfg) (cfg.start lossPercent) rs).flatten) := counts_run rs
  (hcounts 1 rfl).1

/-! ## What encoder and cipher get through -/

variable (cfg c)

/-- Whether encoder and cipher get a frame through. -/
def Capture.accepts (frame : Frame F) : Bool :=
  match (c.encoder.encode cfg.codec frame).2 with
  | none => false
  | some opus =>
    (cfg.cipher.encryptInPlaceDetached (cfg.nonces c.drawn)
      (plaintext (nameBytes cfg.senderName) opus)).isSome

/-- How many frames of the pre-roll they get through, one after the other. -/
def acceptedOf : Capture F E D → List (Captured F) → ℕ
  | _, [] => 0
  | c, frame :: frames =>
    (c.accepts cfg frame.pcm).toNat + acceptedOf (sendOne cfg c (some frame.number) frame.pcm).1
      frames

/-- The state in which a frame that passed the gate is encoded, behind the pre-roll. -/
def Capture.flushed (r : Reading F) : Capture F E D :=
  let sent := (sendAll cfg (c.gated cfg r) (c.gated cfg r).preroll.toList).1
  { sent with preroll := sent.preroll.reset }

/-- How many frames they get through for a frame that is read. -/
def Capture.acceptedFor (r : Reading F) : ℕ :=
  if r.muted then
    if r.paranoid then ((c.popped r).accepts cfg (Vector.replicate _ 0)).toNat else 0
  else if r.paranoid then ((c.ready cfg r).accepts cfg (c.ready cfg r).pcmFrame).toNat
  else if !c.passes cfg r then 0
  else
    acceptedOf cfg (c.gated cfg r) (c.gated cfg r).preroll.toList +
      ((c.flushed cfg r).accepts cfg (c.flushed cfg r).pcmFrame).toNat

/-- How many frames they get through in a run. -/
def accepted : Capture F E D → List (Reading F) → ℕ
  | _, [] => 0
  | c, r :: rs => c.acceptedFor cfg r + accepted (captureFrame cfg c r).1 rs

variable {cfg c}

omit [F32 F] in
/-- A frame that they get through is a packet, and no other is. -/
theorem length_sendAlone (source : Option ℕ) (frame : Frame F) :
    (packets (sendAlone cfg c source frame).2).length = (c.accepts cfg frame).toNat := by
  unfold sendAlone sendOne Capture.accepts
  cases c.encoder.encode cfg.codec frame with
  | mk encoder opus =>
    cases opus with
    | none => rfl
    | some opus =>
      simp only [buildPacket_unfold]
      cases cfg.cipher.encryptInPlaceDetached (cfg.nonces c.drawn)
          (plaintext (nameBytes cfg.senderName) opus) with
      | none => rfl
      | some sealed => rfl

omit [F32 F] in
/-- The pre-roll, by induction on the frames in it. -/
theorem length_sendAll (frames : List (Captured F)) :
    (packets (sendAll cfg c frames).2).length = acceptedOf cfg c frames := by
  induction frames generalizing c with
  | nil => rfl
  | cons frame frames ih =>
    have hfirst : (packets (sendAlone cfg c (some frame.number) frame.pcm).2).length =
        (c.accepts cfg frame.pcm).toNat := length_sendAlone (some frame.number) frame.pcm
    rw [acceptedOf, ← ih, ← hfirst, ← List.length_append, ← packets_append]
    rfl

/-- One packet for each frame that they get through, whatever becomes of the frame read. -/
theorem length_captureFrame (r : Reading F) :
    (packets (captureFrame cfg c r).2).length = c.acceptedFor cfg r := by
  rw [captureFrame_eq]
  unfold Capture.acceptedFor
  split
  · split
    · exact length_sendAlone none _
    · rfl
  · split
    · exact length_sendAlone _ _
    · split
      · rfl
      · rw [← length_sendAll, ← length_sendAlone (some c.captured), ← List.length_append,
          ← packets_append]
        rfl

/-- The whole run, by induction on the frames that are read. -/
theorem length_run (rs : List (Reading F)) :
    (packets (outputs (captureFrame cfg) c rs).flatten).length = accepted cfg c rs := by
  induction rs generalizing c with
  | nil => rfl
  | cons r rs ih =>
    rw [outputs, List.flatten_cons, packets_append, List.length_append, length_captureFrame, ih]
    rfl

/-- **Packets are numbered from one, without gap or repeat, and none carries the zero of a
hello, exactly as long as encoder and cipher get fewer than `2 ^ 32` frames through**: whatever
the modes, the flushes of the pre-roll and the frames that they fail on. -/
theorem numbered_iff (cfg : CaptureCfg F E D) (lossPercent : UInt8) (rs : List (Reading F)) :
    NumberedFromOne (handedOver cfg lossPercent rs) ↔
      accepted cfg (cfg.start lossPercent) rs < 2 ^ 32 := by
  have hlength : (handedOver cfg lossPercent rs).length =
      accepted cfg (cfg.start lossPercent) rs := length_run rs
  rw [← hlength]
  have hnumbers := handedOver_numbers cfg lossPercent rs
  generalize handedOver cfg lossPercent rs = sent at hnumbers ⊢
  constructor
  · rintro ⟨-, hzero⟩
    by_contra hmany
    -- the packet with the number of the whole range carries zero
    have hmem : some 0 ∈ sent.map wireSequence := by
      rw [hnumbers, List.mem_map]
      exact ⟨2 ^ 32, by simp only [List.mem_range'_1]; omega, by rw [Nat.mod_self]⟩
    obtain ⟨packet, hpacket, hcarries⟩ := List.mem_map.1 hmem
    exact hzero packet hpacket hcarries
  · intro hfew
    have hexact : sent.map wireSequence = (List.range' 1 sent.length).map some := by
      rw [hnumbers]
      apply List.map_congr_left
      intro k hk
      rw [List.mem_range'_1] at hk
      rw [Nat.mod_eq_of_lt (by omega)]
    refine ⟨hexact, fun packet hpacket hcarries => ?_⟩
    have hmem : some 0 ∈ sent.map wireSequence := List.mem_map.2 ⟨packet, hpacket, hcarries⟩
    rw [hexact, List.mem_map] at hmem
    obtain ⟨k, hk, h0⟩ := hmem
    rw [List.mem_range'_1, Option.some.inj h0] at hk
    omega

/-! ## A run that is too long -/

/-- With a codec and a cipher that never fail, each frame of a paranoid call is got through. -/
theorem accepted_paranoid (hcodec : ∀ settings state frame,
      (cfg.codec.encodeFloat settings state frame).2.isSome = true)
    (hcipher : cfg.cipher.Encrypts) {rs : List (Reading F)}
    (hparanoid : ∀ r ∈ rs, r.paranoid = true) : accepted cfg c rs = rs.length := by
  have haccepts : ∀ (c : Capture F E D) frame, c.accepts cfg frame = true := by
    intro c frame
    obtain ⟨opus, hopus⟩ := Option.isSome_iff_exists.1
      (hcodec c.encoder.settings c.encoder.state frame)
    have hencode : (c.encoder.encode cfg.codec frame).2 = some opus := hopus
    rw [Capture.accepts, hencode]
    exact hcipher _ _
  induction rs generalizing c with
  | nil => rfl
  | cons r rs ih =>
    have hr : r.paranoid = true := hparanoid r List.mem_cons_self
    have hone : c.acceptedFor cfg r = 1 := by
      unfold Capture.acceptedFor
      rw [hr]
      split
      · exact congrArg Bool.toNat (haccepts _ _)
      · exact congrArg Bool.toNat (haccepts _ _)
    rw [accepted, hone, ih fun r' hr' => hparanoid r' (List.mem_cons_of_mem _ hr'),
      List.length_cons, Nat.add_comm]

end Loop

/-- A call in paranoid mode that lasts for `2 ^ 32` frames. -/
def endlessCall : List (Reading Whole) :=
  List.replicate (2 ^ 32) { sampleReading 2 with paranoid := true }

theorem length_endlessCall : (handedOver sampleCfg 0 endlessCall).length = 2 ^ 32 := by
  have hparanoid : ∀ r ∈ endlessCall, r.paranoid = true := by
    intro r hr
    rw [List.eq_of_mem_replicate hr]
  have hlen : endlessCall.length = 2 ^ 32 := List.length_replicate
  rw [← hlen]
  refine (length_run endlessCall).trans (accepted_paranoid ?_ (fun _ _ => rfl) hparanoid)
  intro settings state frame
  rfl

/-- **The number wraps**: the last packet of a call of `2 ^ 32` frames carries zero. -/
theorem numbered_wraps : ¬ NumberedFromOne (handedOver sampleCfg 0 endlessCall) ∧
    some 0 ∈ (handedOver sampleCfg 0 endlessCall).map wireSequence := by
  have hmem : some 0 ∈ (handedOver sampleCfg 0 endlessCall).map wireSequence := by
    rw [handedOver_numbers, length_endlessCall, List.mem_map]
    exact ⟨2 ^ 32, by simp only [List.mem_range'_1]; omega, by rw [Nat.mod_self]⟩
  refine ⟨fun h => ?_, hmem⟩
  obtain ⟨packet, hpacket, hcarries⟩ := List.mem_map.1 hmem
  exact h.2 packet hpacket hcarries

end Client
end TcVoice
