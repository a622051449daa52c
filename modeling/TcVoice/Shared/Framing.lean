import TcVoice.Shared.Protocol
import Mathlib.Data.List.TakeDrop

/-!
# TCP frames

The length-prefixed framing of `crates/shared/src/protocol.rs`, with the reader
loop of `crates/client/src/network.rs` over it.

* `encodeTcpFrame`, `tryDecodeFrame`, `extractFrames` — one frame out, one frame
  in, and all the complete frames of a buffer.
* `tryDecodeFrame_frame` — **a payload within the size limit comes back whole**;
  `tryDecodeFrame_tooLarge` — one beyond it is refused from its first four bytes on.
* `extractFrames_prefix` — a buffer that is the beginning of a stream of frames gives
  the frames that are complete in it, and keeps the rest.
* `readerTask_receives` — **however the stream is cut into reads, the reader receives
  its frames in order and does not disconnect**; `readerTask_disconnects` — one frame
  that is too large, and it does.
-/

namespace TcVoice

/-! ## Encoding -/

/-- `u32::to_be_bytes` of a length, `as u32`. -/
def toBeBytes (n : ℕ) : Bytes :=
  [.ofNat (n / 2 ^ 24), .ofNat (n / 2 ^ 16), .ofNat (n / 2 ^ 8), .ofNat n]

/-- `u32::from_be_bytes`. -/
def fromBeBytes (b₀ b₁ b₂ b₃ : UInt8) : ℕ :=
  b₀.toNat * 2 ^ 24 + b₁.toNat * 2 ^ 16 + b₂.toNat * 2 ^ 8 + b₃.toNat

/-- A payload behind its length. -/
def frame (payload : Bytes) : Bytes := toBeBytes payload.length ++ payload

/-- `encode_tcp_frame`. -/
def encodeTcpFrame {T : Type} (serialize : T → Bytes) (msg : T) : Bytes :=
  let payload := serialize msg
  frame payload

/-! ## Decoding -/

inductive FrameError where
  /-- `frame too large`. -/
  | tooLarge (len : ℕ)
  deriving DecidableEq, Repr

/-- `try_decode_frame`: the payload of the first frame and the bytes it takes, if the
buffer holds it whole. -/
def tryDecodeFrame : Bytes → Except FrameError (Option (Bytes × ℕ))
  | b₀ :: b₁ :: b₂ :: b₃ :: data =>
    let len := fromBeBytes b₀ b₁ b₂ b₃
    if Config.maxFrameSize < len then .error (.tooLarge len)
    else if data.length < len then .ok none
    else .ok (some (data.take len, 4 + len))
  | _ => .ok none

theorem tryDecodeFrame_some {buf data : Bytes} {consumed : ℕ}
    (h : tryDecodeFrame buf = .ok (some (data, consumed))) :
    0 < consumed ∧ consumed ≤ buf.length := by
  unfold tryDecodeFrame at h
  split at h
  · simp only at h
    split at h
    · cases h
    · split at h
      · cases h
      · rename_i hlen
        cases h
        simp only [List.length_cons]
        omega
  · cases h

/-- `extract_frames`: all complete frames, and what is left of the buffer. -/
def extractFrames (pending : Bytes) : Except FrameError (List Bytes × Bytes) :=
  match _h : tryDecodeFrame pending with
  | .error e => .error e
  | .ok none => .ok ([], pending)
  | .ok (some (data, consumed)) =>
    (extractFrames (pending.drop consumed)).map fun r => (data :: r.1, r.2)
termination_by pending.length
decreasing_by
  obtain ⟨hpos, hle⟩ := tryDecodeFrame_some _h
  rw [List.length_drop]
  omega

/-! ## Reading a stream -/

/-- One read of the reader loop: the frames it completes and what stays pending; `none`
when the reader disconnects. -/
def readChunk (pending chunk : Bytes) : Option (List Bytes × Bytes) :=
  let pending := pending ++ chunk
  if Config.maxPendingBuf < pending.length then none
  else
    match extractFrames pending with
    | .ok r => some r
    | .error _ => none

/-- `reader_task`, up to the messages it hands on: the frames received in a list of reads
and what is pending after them; `none` when the reader has disconnected.  A queue without room
ends the reader as well; the reader with its queue is `Link` of `TcVoice.Client.Disconnect`. -/
def readerTask (pending : Bytes) : List Bytes → Option (List Bytes × Bytes)
  | [] => some ([], pending)
  | chunk :: chunks =>
    (readChunk pending chunk).bind fun r =>
      (readerTask r.2 chunks).map fun r' => (r.1 ++ r'.1, r'.2)

/-! ## One frame -/

section Laws

variable {payload buf later tail : Bytes} {payloads chunks : List Bytes}

theorem length_frame (payload : Bytes) : (frame payload).length = 4 + payload.length := by
  simp only [frame, toBeBytes, List.length_append, List.length_cons, List.length_nil]

theorem toBeBytes_eq (n : ℕ) : ∃ b₀ b₁ b₂ b₃, toBeBytes n = [b₀, b₁, b₂, b₃] ∧
    fromBeBytes b₀ b₁ b₂ b₃ = n % 2 ^ 32 := by
  refine ⟨_, _, _, _, rfl, ?_⟩
  simp only [fromBeBytes, UInt8.toNat_ofNat']
  omega

/-- The four bytes of a length are read back as the length. -/
theorem tryDecodeFrame_header {n : ℕ} (hn : n < 2 ^ 32) (data : Bytes) :
    tryDecodeFrame (toBeBytes n ++ data) =
      if Config.maxFrameSize < n then .error (.tooLarge n)
      else if data.length < n then .ok none else .ok (some (data.take n, 4 + n)) := by
  obtain ⟨b₀, b₁, b₂, b₃, heq, hlen⟩ := toBeBytes_eq n
  rw [Nat.mod_eq_of_lt hn] at hlen
  simp only [heq, List.cons_append, List.nil_append, tryDecodeFrame, hlen]

theorem lt_of_le_maxFrameSize {n : ℕ} (h : n ≤ Config.maxFrameSize) : n < 2 ^ 32 :=
  lt_of_le_of_lt h (by decide)

/-- A payload within the limit comes back whole, with the bytes of its frame. -/
theorem tryDecodeFrame_frame (h : payload.length ≤ Config.maxFrameSize) (later : Bytes) :
    tryDecodeFrame (frame payload ++ later) = .ok (some (payload, (frame payload).length)) := by
  rw [length_frame, frame, List.append_assoc, tryDecodeFrame_header (lt_of_le_maxFrameSize h),
    if_neg (not_lt.2 h), if_neg (by simp), List.take_left]

theorem tryDecodeFrame_short (h : buf.length < 4) : tryDecodeFrame buf = .ok none := by
  match buf, h with
  | [], _ | [_], _ | [_, _], _ | [_, _, _], _ => rfl

/-- What is shorter than the frame it begins is kept for later. -/
theorem tryDecodeFrame_incomplete (h : payload.length ≤ Config.maxFrameSize)
    (hbuf : buf <+: frame payload) (hlt : buf.length < (frame payload).length) :
    tryDecodeFrame buf = .ok none := by
  by_cases h4 : buf.length < 4
  · exact tryDecodeFrame_short h4
  obtain ⟨tail, htail⟩ := hbuf
  have hsplit : buf = toBeBytes payload.length ++ buf.drop 4 := by
    have htake := congrArg (List.take 4) htail
    rw [List.take_append_of_le_length (not_lt.1 h4), frame] at htake
    rw [← List.take_append_drop 4 buf, htake]
    simp [toBeBytes]
  rw [hsplit, tryDecodeFrame_header (lt_of_le_maxFrameSize h), if_neg (not_lt.2 h), if_pos]
  rw [length_frame] at hlt
  rw [List.length_drop]
  omega

/-- A length beyond the limit is refused as soon as its four bytes have arrived. -/
theorem tryDecodeFrame_badHeader {n : ℕ} (h : Config.maxFrameSize < n) (h32 : n < 2 ^ 32)
    (hpre : buf ++ later = toBeBytes n ++ tail) (h4 : 4 ≤ buf.length) :
    tryDecodeFrame buf = .error (.tooLarge n) := by
  have hsplit : buf = toBeBytes n ++ buf.drop 4 := by
    have htake := congrArg (List.take 4) hpre
    rw [List.take_append_of_le_length h4] at htake
    rw [← List.take_append_drop 4 buf, htake]
    simp [toBeBytes]
  rw [hsplit, tryDecodeFrame_header h32, if_pos h]

/-- A payload beyond the limit is refused as soon as its length has arrived. -/
theorem tryDecodeFrame_tooLarge (h : Config.maxFrameSize < payload.length)
    (h32 : payload.length < 2 ^ 32) (hpre : buf ++ later = frame payload ++ tail)
    (h4 : 4 ≤ buf.length) : tryDecodeFrame buf = .error (.tooLarge payload.length) := by
  rw [frame, List.append_assoc] at hpre
  exact tryDecodeFrame_badHeader h h32 hpre h4

/-! ## Many frames -/

/-- The stream of some payloads. -/
def stream (payloads : List Bytes) : Bytes := payloads.flatMap frame

theorem stream_cons : stream (payload :: payloads) = frame payload ++ stream payloads := rfl

theorem extractFrames_none (h : tryDecodeFrame buf = .ok none) :
    extractFrames buf = .ok ([], buf) := by
  rw [extractFrames]
  split <;> simp_all

theorem extractFrames_error {e : FrameError} (h : tryDecodeFrame buf = .error e) :
    extractFrames buf = .error e := by
  rw [extractFrames]
  split <;> simp_all

theorem extractFrames_some {data : Bytes} {consumed : ℕ}
    (h : tryDecodeFrame buf = .ok (some (data, consumed))) :
    extractFrames buf = (extractFrames (buf.drop consumed)).map fun r => (data :: r.1, r.2) := by
  rw [extractFrames]
  split <;> simp_all

theorem extractFrames_frame (h : payload.length ≤ Config.maxFrameSize) (later : Bytes) :
    extractFrames (frame payload ++ later) =
      (extractFrames later).map fun r => (payload :: r.1, r.2) := by
  rw [extractFrames_some (tryDecodeFrame_frame h later), List.drop_left]

/-- What a buffer comes to that is the beginning of a stream of frames within the limit, with
`tail` after them: the frames that are complete in it and the rest, which is the beginning
of what follows and decodes to nothing yet; or an error, out of what follows all the frames. -/
theorem extractFrames_prefix (hfit : ∀ p ∈ payloads, p.length ≤ Config.maxFrameSize)
    (htail : ∀ b l : Bytes, b ++ l = tail →
      tryDecodeFrame b = .ok none ∨ ∃ e, tryDecodeFrame b = .error e)
    (hpre : buf ++ later = stream payloads ++ tail) :
    (∃ got left rest, payloads = got ++ left ∧ extractFrames buf = .ok (got, rest) ∧
        tryDecodeFrame rest = .ok none ∧ rest ++ later = stream left ++ tail) ∨
      ∃ b e, b ++ later = tail ∧ tryDecodeFrame b = .error e ∧ extractFrames buf = .error e := by
  induction payloads generalizing buf with
  | nil =>
    rcases htail buf later hpre with hnone | ⟨e, he⟩
    · exact .inl ⟨[], [], buf, rfl, extractFrames_none hnone, hnone, hpre⟩
    · exact .inr ⟨buf, e, hpre, he, extractFrames_error he⟩
  | cons payload payloads ih =>
    have hp := hfit payload List.mem_cons_self
    rw [stream_cons, List.append_assoc] at hpre
    have hframe : frame payload <+: frame payload ++ (stream payloads ++ tail) := ⟨_, rfl⟩
    have hbuf : buf <+: frame payload ++ (stream payloads ++ tail) := ⟨later, hpre⟩
    by_cases hlen : (frame payload).length ≤ buf.length
    · obtain ⟨buf', rfl⟩ := List.prefix_of_prefix_length_le hframe hbuf hlen
      rw [List.append_assoc, List.append_cancel_left_eq] at hpre
      rcases ih (fun p hp => hfit p (List.mem_cons_of_mem _ hp)) hpre with
        ⟨got, left, rest, rfl, hex, hnone, hrest⟩ | ⟨b, e, hb, he, hex⟩
      · refine .inl ⟨payload :: got, left, rest, rfl, ?_, hnone, hrest⟩
        rw [extractFrames_frame hp, hex]
        rfl
      · refine .inr ⟨b, e, hb, he, ?_⟩
        rw [extractFrames_frame hp, hex]
        rfl
    · have hnone := tryDecodeFrame_incomplete hp
        (List.prefix_of_prefix_length_le hbuf hframe (le_of_not_ge hlen)) (not_le.1 hlen)
      refine .inl ⟨[], payload :: payloads, buf, rfl, extractFrames_none hnone, hnone, ?_⟩
      rw [stream_cons, List.append_assoc]
      exact hpre

/-- A buffer that decodes to nothing yet is shorter than a frame can be. -/
theorem length_lt_of_incomplete (h : tryDecodeFrame buf = .ok none) :
    buf.length < 4 + Config.maxFrameSize := by
  unfold tryDecodeFrame at h
  split at h
  · simp only at h
    split at h
    · cases h
    · split at h
      · simp only [List.length_cons]
        omega
      · cases h
  · rename_i hshort
    by_contra hlen
    match buf, hlen, hshort with
    | b₀ :: b₁ :: b₂ :: b₃ :: data, _, hshort => exact hshort b₀ b₁ b₂ b₃ data rfl
    | [], hlen, _ | [_], hlen, _ | [_, _], hlen, _ | [_, _, _], hlen, _ =>
      exact hlen (by simp [Config.maxFrameSize])

/-! ## The reader -/

/-- **The reader receives its frames.**  Whatever reads the stream of some payloads within
the limit has been cut into so far, the reader has handed on the payloads that are complete,
in order, and has not disconnected. -/
theorem readerTask_receives (hfit : ∀ p ∈ payloads, p.length ≤ Config.maxFrameSize)
    (hchunks : ∀ chunk ∈ chunks, chunk.length ≤ Config.tcpReadBuf)
    {pending : Bytes} (hpending : pending.length < 4 + Config.maxFrameSize)
    (hpre : pending ++ chunks.flatten ++ later = stream payloads) :
    ∃ got left rest, payloads = got ++ left ∧ readerTask pending chunks = some (got, rest) ∧
      rest ++ later = stream left := by
  induction chunks generalizing pending payloads with
  | nil => exact ⟨[], payloads, pending, rfl, rfl, by simpa using hpre⟩
  | cons chunk chunks ih =>
    have hbuf : (pending ++ chunk) ++ (chunks.flatten ++ later) = stream payloads ++ [] := by
      simpa using hpre
    have hroom : ¬ Config.maxPendingBuf < (pending ++ chunk).length := by
      have hread := hchunks chunk List.mem_cons_self
      simp only [Config.tcpReadBuf, Config.maxFrameSize] at hread hpending
      simp only [Config.maxPendingBuf, Config.maxFrameSize, List.length_append]
      omega
    have hempty : ∀ b l : Bytes, b ++ l = [] → tryDecodeFrame b = .ok none := by
      intro b l hb
      rw [(List.append_eq_nil_iff.1 hb).1]
      rfl
    rcases extractFrames_prefix hfit (fun b l hb => .inl (hempty b l hb)) hbuf with
      ⟨got, left, rest, rfl, hex, hnone, hrest⟩ | ⟨b, e, hb, he, -⟩
    swap
    · rw [hempty b _ hb] at he
      cases he
    obtain ⟨got', left', rest', rfl, hread, hrest'⟩ :=
      ih (fun p hp => hfit p (List.mem_append_right _ hp))
        (fun c hc => hchunks c (List.mem_cons_of_mem _ hc)) (length_lt_of_incomplete hnone)
        (by simpa using hrest)
    refine ⟨got ++ got', left', rest', by rw [List.append_assoc], ?_, hrest'⟩
    simp only [readerTask, readChunk, if_neg hroom, hex, Option.bind_some, hread, Option.map_some]

/-- A stream with a frame in it that is too large does not decode to nothing. -/
theorem tryDecodeFrame_stream_ne_none (hfit : ∀ p ∈ payloads, p.length ≤ Config.maxFrameSize)
    (h : Config.maxFrameSize < payload.length) (h32 : payload.length < 2 ^ 32) :
    tryDecodeFrame (stream payloads ++ (frame payload ++ tail)) ≠ .ok none := by
  cases payloads with
  | nil =>
    have h4 : 4 ≤ (frame payload ++ tail).length := by
      simp only [List.length_append, length_frame]
      omega
    rw [stream, List.flatMap_nil, List.nil_append,
      tryDecodeFrame_tooLarge h h32 (List.append_nil _) h4]
    simp
  | cons p payloads =>
    rw [stream_cons, List.append_assoc, tryDecodeFrame_frame (hfit p List.mem_cons_self)]
    simp

/-- **One frame beyond the limit disconnects the reader**, however the stream is cut into
reads. -/
theorem readerTask_disconnects (hfit : ∀ p ∈ payloads, p.length ≤ Config.maxFrameSize)
    (h : Config.maxFrameSize < payload.length) (h32 : payload.length < 2 ^ 32)
    {pending : Bytes} (hpending : tryDecodeFrame pending = .ok none)
    (hpre : pending ++ chunks.flatten = stream payloads ++ (frame payload ++ tail)) :
    readerTask pending chunks = none := by
  induction chunks generalizing pending payloads with
  | nil =>
    rw [List.flatten_nil, List.append_nil] at hpre
    rw [hpre] at hpending
    exact absurd hpending (tryDecodeFrame_stream_ne_none hfit h h32)
  | cons chunk chunks ih =>
    rw [readerTask, readChunk]
    split
    · rfl
    have hbuf : (pending ++ chunk) ++ chunks.flatten =
        stream payloads ++ (frame payload ++ tail) := by
      simpa using hpre
    have htail : ∀ b l : Bytes, b ++ l = frame payload ++ tail →
        tryDecodeFrame b = .ok none ∨ ∃ e, tryDecodeFrame b = .error e := by
      intro b l hb
      by_cases h4 : b.length < 4
      · exact .inl (tryDecodeFrame_short h4)
      · exact .inr ⟨_, tryDecodeFrame_tooLarge h h32 hb (not_lt.1 h4)⟩
    rcases extractFrames_prefix hfit htail hbuf with
      ⟨got, left, rest, rfl, hex, hnone, hrest⟩ | ⟨b, e, -, -, hex⟩
    · have hdisc := ih (fun p hp => hfit p (List.mem_append_right _ hp)) hnone
        hrest
      simp only [hex, Option.bind_some, hdisc, Option.map_none]
    · simp only [hex, Option.bind_none]

end Laws
end TcVoice
