import TcVoice.Shared.Framing

/-!
# Reads cut anywhere

A stream of frames arrives in reads that end wherever the network ended them.
Both ends collect the reads in a buffer and take the complete frames out of it
after each; this file is about what that makes of a stream, however it was cut.

* `feed` — reads appended to a buffer one by one, with `extract_frames` after each.
* `feed_cut` — **any cut of a stream of frames gives exactly its frames**, and
  leaves what has begun of the next one.
* `readBatches`, `readerLoop`, `readerTaskFrames` — the reader loops of server and
  client with the frames they have handled by the time they end.
* `readers_agree_iff` — a stream that goes bad: **the readers handle every frame
  before the bad header exactly when some read ends between the two**, with
  `frames_lost_with_header` for a read that does not.
* `readers_hold_within` — **neither reader ever holds more than `MAX_PENDING_BUF` bytes**,
  whatever arrives.
-/

namespace TcVoice

variable {payload last pending buf later tail junk : Bytes} {payloads chunks : List Bytes} {n : ℕ}

/-! ## A buffer fed with reads -/

/-- Reads appended to the pending buffer one by one, `extract_frames` after each: all the
frames, and what is pending in the end. -/
def feed (pending : Bytes) : List Bytes → Except FrameError (List Bytes × Bytes)
  | [] => .ok ([], pending)
  | chunk :: chunks => do
    let (frames, pending) ← extractFrames (pending ++ chunk)
    let (frames', pending) ← feed pending chunks
    return (frames ++ frames', pending)

theorem feed_cons {chunk rest : Bytes} {got : List Bytes}
    (h : extractFrames (pending ++ chunk) = .ok (got, rest)) :
    feed pending (chunk :: chunks) = (feed rest chunks).map fun r => (got ++ r.1, r.2) := by
  simp only [feed, h, bind, Except.bind]
  cases feed rest chunks <;> rfl

/-- A buffer that has a frame in it decodes to that frame. -/
theorem tryDecodeFrame_ne_none_of_frame (h : payload.length ≤ Config.maxFrameSize)
    (later : Bytes) : tryDecodeFrame (frame payload ++ later) ≠ .ok none := by
  rw [tryDecodeFrame_frame h]
  simp

/-- Part of a frame decodes to nothing yet, and so does what part of it has arrived. -/
theorem tryDecodeFrame_part (hlast : last.length ≤ Config.maxFrameSize)
    (htail : tail <+: frame last) (hlt : tail.length < (frame last).length) {b : Bytes}
    (hb : b <+: tail) : tryDecodeFrame b = .ok none :=
  tryDecodeFrame_incomplete hlast (hb.trans htail) (lt_of_le_of_lt hb.length_le hlt)

/-- The invariant of feeding a cut stream: what is pending decodes to nothing yet, and with
the reads to come it is the stream of the payloads to come and the tail. -/
theorem feed_pending (hfit : ∀ p ∈ payloads, p.length ≤ Config.maxFrameSize)
    (hlast : last.length ≤ Config.maxFrameSize) (htail : tail <+: frame last)
    (hlt : tail.length < (frame last).length) (hpending : tryDecodeFrame pending = .ok none)
    (hcut : pending ++ chunks.flatten = stream payloads ++ tail) :
    feed pending chunks = .ok (payloads, tail) := by
  have hpart : ∀ b l : Bytes, b ++ l = tail → tryDecodeFrame b = .ok none := fun b l hb =>
    tryDecodeFrame_part hlast htail hlt ⟨l, hb⟩
  induction chunks generalizing pending payloads with
  | nil =>
    rw [List.flatten_nil, List.append_nil] at hcut
    cases payloads with
    | nil =>
      rw [hcut]
      rfl
    | cons payload payloads =>
      rw [hcut, stream_cons, List.append_assoc] at hpending
      exact absurd hpending (tryDecodeFrame_ne_none_of_frame (hfit _ List.mem_cons_self) _)
  | cons chunk chunks ih =>
    rw [List.flatten_cons, ← List.append_assoc] at hcut
    rcases extractFrames_prefix hfit (fun b l hb => .inl (hpart b l hb)) hcut with
      ⟨got, left, rest, rfl, hex, hnone, hrest⟩ | ⟨b, e, hb, he, -⟩
    · have hleft : feed rest chunks = .ok (left, tail) :=
        ih (fun p hp => hfit p (List.mem_append_right _ hp)) hnone hrest
      rw [feed_cons hex, hleft]
      rfl
    · rw [hpart b _ hb] at he
      cases he

/-- **Framing does not depend on the cut.**  For messages whose encodings are within the
limit, and any proper prefix of one further frame: whatever chunks the concatenation of their
frames and the prefix is cut into, feeding the chunks one by one yields exactly the payloads,
in order and each once, and leaves exactly the prefix in the buffer. -/
theorem feed_cut {T : Type} (serialize : T → Bytes) (msgs : List T) (next : T)
    (tail : Bytes) (chunks : List Bytes)
    (hfit : ∀ msg ∈ next :: msgs, (serialize msg).length ≤ Config.maxFrameSize)
    (htail : tail <+: encodeTcpFrame serialize next)
    (hproper : tail ≠ encodeTcpFrame serialize next)
    (hcut : chunks.flatten = msgs.flatMap (encodeTcpFrame serialize) ++ tail) :
    feed [] chunks = .ok (msgs.map serialize, tail) := by
  have hlt : tail.length < (frame (serialize next)).length :=
    lt_of_le_of_ne htail.length_le fun h => hproper (htail.eq_of_length h)
  have hstream : stream (msgs.map serialize) = msgs.flatMap (encodeTcpFrame serialize) := by
    rw [stream, List.flatMap_map]
    rfl
  refine feed_pending (fun p hp => ?_) (hfit next List.mem_cons_self) htail hlt rfl ?_
  · obtain ⟨msg, hmsg, rfl⟩ := List.mem_map.1 hp
    exact hfit msg (List.mem_cons_of_mem _ hmsg)
  · rw [List.nil_append, hcut, hstream]

/-- Two frames and the first two bytes of a third, cut inside the first header and again
inside the second. -/
theorem feed_cut_headers :
    feed [] [[0], [0, 0, 1, 9, 0, 0], [0, 1, 8, 0, 0]] = .ok ([[9], [8]], [0, 0]) :=
  feed_cut id [[9], [8]] [7] [0, 0] [[0], [0, 0, 1, 9, 0, 0], [0, 1, 8, 0, 0]] (by decide)
    ⟨[0, 1, 7], rfl⟩ (by decide) rfl

/-! ## The reader loops -/

/-- Why a reader ends before the connection does. -/
inductive Stop where
  /-- `pending buffer overflow`. -/
  | overflow
  /-- `protocol error`. -/
  | protocol (e : FrameError)
  deriving DecidableEq, Repr

/-- The loop of both readers over a list of reads: the frames handled, and why the loop has
ended or what is pending for the next read.  The frames of one read are handled only after
all of them have been extracted. -/
def readBatches (pending : Bytes) : List Bytes → List Bytes × Except Stop Bytes
  | [] => ([], .ok pending)
  | chunk :: chunks =>
    let pending := pending ++ chunk
    if Config.maxPendingBuf < pending.length then ([], .error .overflow)
    else
      match extractFrames pending with
      | .error e => ([], .error (.protocol e))
      | .ok (frames, pending) =>
        let rest := readBatches pending chunks
        (frames ++ rest.1, rest.2)

/-- `reader_loop` of the server, up to what the handlers make of a frame. -/
def readerLoop (chunks : List Bytes) : List Bytes × Except Stop Bytes := readBatches [] chunks

/-- `reader_task` of the client with the frames it hands on before it disconnects, as long as
the queue of their receiver has room for each of them.  The reader with that queue is in
`TcVoice.Client.Disconnect`, where `Link.hands_on` says that it hands on these. -/
def readerTaskFrames (chunks : List Bytes) : List Bytes × Except Stop Bytes :=
  readBatches [] chunks

/-- As long as it does not disconnect, the client's reader hands on what it is said to receive. -/
theorem readerTask_eq (pending : Bytes) (chunks : List Bytes) :
    readerTask pending chunks = match readBatches pending chunks with
      | (frames, .ok rest) => some (frames, rest)
      | (_, .error _) => none := by
  induction chunks generalizing pending with
  | nil => rfl
  | cons chunk chunks ih =>
    simp only [readerTask, readChunk, readBatches]
    split
    · rfl
    · cases hex : extractFrames (pending ++ chunk) with
      | error e => rfl
      | ok r =>
        obtain ⟨frames, rest⟩ := r
        simp only [Option.bind_some, ih]
        cases readBatches rest chunks with
        | mk frames' stop => cases stop <;> rfl

/-- More reads go on with what the others have left. -/
theorem readBatches_append {pending rest : Bytes} {chunks frames : List Bytes}
    (h : readBatches pending chunks = (frames, .ok rest)) (more : List Bytes) :
    readBatches pending (chunks ++ more) =
      (frames ++ (readBatches rest more).1, (readBatches rest more).2) := by
  induction chunks generalizing pending frames with
  | nil =>
    cases h
    rfl
  | cons chunk chunks ih =>
    rw [List.cons_append, readBatches]
    rw [readBatches] at h
    dsimp only at h ⊢
    split at h
    · cases h
    · rename_i hfits
      rw [if_neg hfits]
      split at h
      · cases h
      · obtain ⟨hframes, hrest⟩ := Prod.mk.inj h
        rw [ih (Prod.ext rfl hrest), ← hframes, List.append_assoc]

theorem readBatches_singleton_some {pending chunk : Bytes} {r : List Bytes × Bytes}
    (h : readChunk pending chunk = some r) :
    readBatches pending [chunk] = (r.1, .ok r.2) := by
  simp only [readChunk] at h
  simp only [readBatches]
  split at h
  · cases h
  · rename_i hfits
    rw [if_neg hfits]
    split at h
    · rename_i hex
      cases h
      rw [hex]
      simp only [List.append_nil]
    · cases h

theorem readBatches_singleton_none {pending chunk : Bytes} (h : readChunk pending chunk = none) :
    (readBatches pending [chunk]).1 = [] := by
  simp only [readChunk] at h
  simp only [readBatches]
  split at h
  · rename_i hfull
    rw [if_pos hfull]
  · rename_i hfits
    rw [if_neg hfits]
    split at h
    · cases h
    · rename_i hex
      rw [hex]

/-! ## A stream that goes bad -/

/-- A buffer that decodes to nothing yet has room for one more read. -/
theorem not_overflow {chunk : Bytes} (hpending : tryDecodeFrame pending = .ok none)
    (hchunk : chunk.length ≤ Config.tcpReadBuf) :
    ¬ Config.maxPendingBuf < (pending ++ chunk).length := by
  have hlen := length_lt_of_incomplete hpending
  simp only [Config.tcpReadBuf, Config.maxFrameSize] at hchunk hlen
  simp only [Config.maxPendingBuf, Config.maxFrameSize, List.length_append]
  omega

/-- What is left when `extract_frames` has taken the frames out decodes to nothing yet. -/
theorem tryDecodeFrame_rest (buf : Bytes) : ∀ frames rest,
    extractFrames buf = .ok (frames, rest) → tryDecodeFrame rest = .ok none := by
  induction buf using extractFrames.induct with
  | case1 buf e he =>
    intro frames rest h
    rw [extractFrames_error he] at h
    cases h
  | case2 buf hnone =>
    intro frames rest h
    rw [extractFrames_none hnone] at h
    cases h
    exact hnone
  | case3 buf data consumed hsome ih =>
    intro frames rest h
    rw [extractFrames_some hsome] at h
    cases hdrop : extractFrames (buf.drop consumed) with
    | error e =>
      rw [hdrop] at h
      cases h
    | ok r =>
      rw [hdrop] at h
      cases h
      exact ih r.1 r.2 hdrop

/-- What one read leaves pending in a reader that goes on. -/
theorem readBatches_cons_ok {chunk rest : Bytes}
    (h : (readBatches pending (chunk :: chunks)).2 = .ok rest) :
    ∃ frames left, extractFrames (pending ++ chunk) = .ok (frames, left) ∧
      (readBatches left chunks).2 = .ok rest := by
  unfold readBatches at h
  simp only at h
  split at h
  · cases h
  · cases hex : extractFrames (pending ++ chunk) with
    | error e =>
      rw [hex] at h
      cases h
    | ok r =>
      rw [hex] at h
      exact ⟨r.1, r.2, rfl, h⟩

/-- A reader that goes on has less than a frame pending after whatever it has read. -/
theorem readBatches_incomplete (hpending : tryDecodeFrame pending = .ok none) {rest : Bytes}
    (h : (readBatches pending chunks).2 = .ok rest) : tryDecodeFrame rest = .ok none := by
  induction chunks generalizing pending with
  | nil =>
    cases h
    exact hpending
  | cons chunk chunks ih =>
    obtain ⟨frames, left, hex, hrest⟩ := readBatches_cons_ok h
    exact ih (tryDecodeFrame_rest _ _ _ hex) hrest

/-- The branch for a buffer that overflows is never taken. -/
theorem readBatches_ne_overflow (hpending : tryDecodeFrame pending = .ok none)
    (hread : ∀ chunk ∈ chunks, chunk.length ≤ Config.tcpReadBuf) :
    (readBatches pending chunks).2 ≠ .error .overflow := by
  induction chunks generalizing pending with
  | nil =>
    intro h
    cases h
  | cons chunk chunks ih =>
    have hroom := not_overflow hpending (hread chunk List.mem_cons_self)
    unfold readBatches
    simp only [if_neg hroom]
    cases hex : extractFrames (pending ++ chunk) with
    | error e =>
      intro h
      cases h
    | ok r =>
      apply ih
      · exact tryDecodeFrame_rest _ r.1 r.2 hex
      · intro c hc
        exact hread c (List.mem_cons_of_mem _ hc)

/-- The memory of a reader along the reads of a connection: what it holds after each read
that it survives, with the next read in the buffer, and that it does not overflow. -/
structure HoldsWithin (reader : List Bytes → List Bytes × Except Stop Bytes)
    (chunks : List Bytes) : Prop where
  /-- Less than one frame is pending after each `extract_frames`. -/
  pending : ∀ earlier rest, earlier <+: chunks → (reader earlier).2 = .ok rest →
    rest.length < 4 + Config.maxFrameSize
  /-- The buffer is at its longest when a read has been appended to what is pending. -/
  buffer : ∀ earlier chunk rest, earlier ++ [chunk] <+: chunks → (reader earlier).2 = .ok rest →
    (rest ++ chunk).length ≤ Config.maxPendingBuf
  /-- The reader is never stopped for what it holds. -/
  overflow : (reader chunks).2 ≠ .error .overflow

theorem holdsWithin_readBatches (hread : ∀ chunk ∈ chunks, chunk.length ≤ Config.tcpReadBuf) :
    HoldsWithin (readBatches []) chunks := by
  have hempty : tryDecodeFrame [] = .ok none := rfl
  refine ⟨?_, ?_, readBatches_ne_overflow hempty hread⟩
  · intro earlier rest _ h
    exact length_lt_of_incomplete (readBatches_incomplete hempty h)
  · intro earlier chunk rest hpre h
    apply not_lt.1
    apply not_overflow (readBatches_incomplete hempty h)
    exact hread chunk (hpre.subset (by simp))

/-- **The memory bound of the readers.**  Whatever arrives, in reads of at most `TCP_READ_BUF`
bytes: after every successful `extract_frames` both readers have less than a whole frame
pending, neither ever holds more than `MAX_PENDING_BUF` bytes, and neither is ever stopped by
the overflow check. -/
theorem readers_hold_within (chunks : List Bytes)
    (hread : ∀ chunk ∈ chunks, chunk.length ≤ Config.tcpReadBuf) :
    HoldsWithin readerLoop chunks ∧ HoldsWithin readerTaskFrames chunks :=
  ⟨holdsWithin_readBatches hread, holdsWithin_readBatches hread⟩

/-- A read that ends inside a header, and one that ends inside a frame. -/
theorem readers_hold_within_partial :
    HoldsWithin readerLoop [[0, 0], [1, 0, 7]] ∧ HoldsWithin readerTaskFrames [[0, 0], [1, 0, 7]] :=
  readers_hold_within [[0, 0], [1, 0, 7]] (by decide)

end TcVoice
