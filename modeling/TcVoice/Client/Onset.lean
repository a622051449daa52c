import TcVoice.Client.Acceleration
import TcVoice.Client.PlayoutPump
import TcVoice.Client.Underrun

/-!
# The start of a talkspurt

Packets that arrive in order and on time at a stream that is idle, until it plays them.

* `JitterBuffer.Row` — a buffer with the packets of a row from one to another and no others;
  `row_push`, `row_full`, `row_pop` — what a packet and a frame make of it.
* `plays_row` — a stream that plays from a row plays the next of it, in order.
* `Spurt`, `Spurt.Whole` — a stream while a talkspurt arrives, and what is asked of every event.
* `arrivals`, `opensAt` — the packets, one every 20 ms, with the frames that the output asks for
  after each; and when such a frame starts the stream.
* `played_whole_iff` — **when a talkspurt is played whole**: it fits into the ring, or the stream
  starts before the ring is full.
-/

namespace TcVoice
namespace Client

open Machines

/-! ## Rows of packets -/

/-- A buffer that has the packets of a row, from the one numbered `played` to the one before
`arrived`, counted from the first, and no others. -/
structure JitterBuffer.Row (b : JitterBuffer) (first : UInt32) (played arrived : ℕ) : Prop where
  sane : b.Sane
  started : 0 < arrived → b.started = true ∧ b.outOfWindow = 0
  next : b.started = true → b.nextSeq.toNat = first.toNat + played
  le : played ≤ arrived
  numbers : 0 < first.toNat ∧ first.toNat + arrived < 2 ^ 32
  there : ∀ seq, b.buffered seq = true ↔
    first.toNat + played ≤ seq.toNat ∧ seq.toNat < first.toNat + arrived

section Rows

variable {b b' : JitterBuffer} {first seq : UInt32} {played arrived : ℕ} {out data : Bytes}
  {answer : PopResult}

/-- The next of a row is there, unless all of it has been played. -/
theorem row_head (h : b.Row first played arrived) (hlt : played < arrived) :
    b.started = true ∧ b.buffered b.nextSeq = true := by
  have hstarted := (h.started (Nat.zero_lt_of_lt hlt)).1
  have hnext := h.next hstarted
  refine ⟨hstarted, (h.there _).2 ⟨hnext.ge, ?_⟩⟩
  omega

/-- A row is no longer than the ring. -/
theorem row_length (h : b.Row first played arrived) : arrived ≤ played + 15 := by
  by_contra hlong
  have hlt : played < arrived := by omega
  have hnumbers := h.numbers
  have hnext := h.next (row_head h hlt).1
  have hbuf : b.buffered (.ofNat (first.toNat + arrived - 1)) = true := by
    rw [h.there, UInt32.toNat_ofNat']
    omega
  obtain ⟨hslot, hpos⟩ := buffered_iff.1 hbuf
  have hwin := (h.sane.inWindow _ (by rwa [hslot])).2
  have hcap : Config.jitterBufMax = 15 := rfl
  have hlow := UInt32.toNat_lt b.nextSeq
  rw [hslot, UInt32.toNat_sub, UInt32.toNat_ofNat'] at hwin
  omega

/-- What is counted is the row. -/
theorem row_count (h : b.Row first played arrived) : b.countBuffered = arrived - played := by
  have hlength := row_length h
  have hle := h.le
  have hnumbers := h.numbers
  have hbuf : ∀ offset ∈ List.range Config.jitterBufMax,
      b.buffered (b.ahead offset) = decide (offset < arrived - played) := by
    intro offset hmem
    have hlt : offset < 15 := List.mem_range.1 hmem
    rw [Bool.eq_iff_iff, h.there, decide_eq_true_eq]
    by_cases harrived : 0 < arrived
    · have hnext := h.next (h.started harrived).1
      unfold JitterBuffer.ahead
      rw [UInt32.toNat_add, UInt32.toNat_ofNat']
      omega
    · omega
  have hfilter : ∀ k < 16,
      ((List.range 15).filter fun offset => decide (offset < k)).length = k := by decide
  unfold JitterBuffer.countBuffered
  rw [List.filter_congr hbuf]
  exact hfilter _ (by omega)

/-- The next packet of a row is stored. -/
theorem row_outcome (h : b.Row first played arrived) (hseq : seq.toNat = first.toNat + arrived)
    (hroom : arrived < played + 15) (hlast : seq.toNat + 1 < 2 ^ 32) : b.outcome seq = .store := by
  have hle := h.le
  cases hstarted : b.started with
  | false =>
    unfold JitterBuffer.outcome JitterBuffer.beyond
    rw [hstarted]
    rfl
  | true =>
    have hnext := h.next hstarted
    have hbefore : seqBefore seq b.nextSeq = false := by
      rw [← Bool.not_eq_true, seqBefore_iff, UInt32.toNat_sub]
      omega
    have hnear : ¬ Config.jitterBufMax ≤ (seq - b.nextSeq).toNat := by
      show ¬ 15 ≤ (seq - b.nextSeq).toNat
      rw [UInt32.toNat_sub]
      omega
    unfold JitterBuffer.outcome JitterBuffer.beyond
    rw [hstarted, hbefore, decide_eq_false hnear]
    rfl

/-- The window that it is stored in. -/
theorem row_moved (h : b.Row first played arrived) (hseq : seq.toNat = first.toNat + arrived)
    (hway : b.outcome seq = .store) :
    (b.moved seq).slots = b.slots ∧ (b.moved seq).started = true ∧
      (b.moved seq).nextSeq.toNat = first.toNat + played := by
  have hle := h.le
  unfold JitterBuffer.moved
  rw [hway]
  cases hstarted : b.started with
  | false =>
    have hzero : arrived = 0 := by
      by_contra hne
      have hyes := (h.started (Nat.pos_of_ne_zero hne)).1
      rw [hstarted] at hyes
      cases hyes
    refine ⟨rfl, rfl, ?_⟩
    show seq.toNat = _
    omega
  | true => exact ⟨rfl, rfl, h.next hstarted⟩

/-- The next packet of a row finds its place, and takes none from the others. -/
theorem row_push (h : b.Row first played arrived) (hseq : seq.toNat = first.toNat + arrived)
    (hroom : arrived < played + 15) (hlast : seq.toNat + 1 < 2 ^ 32) (opusData : Bytes) (now : ℕ) :
    (b.push seq opusData now).1.Row first played (arrived + 1) ∧
      (b.push seq opusData now).2 = false ∧
      (b.push seq opusData now).1.peek seq = some opusData ∧
      (∀ n, b.buffered n = true → (b.push seq opusData now).1.peek n = b.peek n) ∧
      b.outcome seq = .store := by
  have hle := h.le
  have hnumbers := h.numbers
  have hpos : seq ≠ 0 := by
    rintro rfl
    have hzero : (0 : UInt32).toNat = 0 := rfl
    omega
  have hway : b.outcome seq = .store := row_outcome h hseq hroom hlast
  obtain ⟨hslots, hstarted, hnext⟩ := row_moved h hseq hway
  have hpush : b.push seq opusData now = ((b.moved seq).store seq opusData now, false) := by
    rw [push_eq, hway]
  have hwin : (seq - (b.moved seq).nextSeq).toNat < Config.jitterBufMax := by
    show _ < 15
    rw [UInt32.toNat_sub]
    omega
  have hsane : (b.push seq opusData now).1.Sane := sane_push h.sane opusData now
  have hself : ((b.moved seq).store seq opusData now).peek seq = some opusData :=
    peek_store_self hpos
  rw [hpush] at hsane ⊢
  have hother : ∀ n, n ≠ seq → (n - (b.moved seq).nextSeq).toNat < Config.jitterBufMax →
      ((b.moved seq).store seq opusData now).peek n = b.peek n := by
    intro n hne hn
    rw [peek_store_of_ne hpos hne hn hwin, peek_congr hslots]
  have hstore : ((b.moved seq).store seq opusData now).started = true ∧
      ((b.moved seq).store seq opusData now).nextSeq = (b.moved seq).nextSeq ∧
      ((b.moved seq).store seq opusData now).outOfWindow = 0 := by
    unfold JitterBuffer.store
    exact ⟨observe_started.trans hstarted, observe_nextSeq,
      observe_outOfWindow.trans moved_outOfWindow⟩
  refine ⟨⟨hsane, fun _ => ⟨hstore.1, hstore.2.2⟩, fun _ => ?_, by omega, by omega, fun n => ?_⟩,
    rfl, hself, fun n hn => ?_, hway⟩
  · rw [hstore.2.1, hnext]
  · have hlt := UInt32.toNat_lt n
    by_cases hn : n = seq
    · subst hn
      rw [← peek_isSome_iff, hself]
      exact iff_of_true rfl (by omega)
    · have hne : n.toNat ≠ seq.toNat := fun heq => hn (UInt32.toNat_inj.1 heq)
      by_cases hin : (n - (b.moved seq).nextSeq).toNat < Config.jitterBufMax
      · rw [← peek_isSome_iff, hother n hn hin, peek_isSome_iff, h.there]
        omega
      · refine iff_of_false (fun hbuf => hin ?_) fun hrow => hin ?_
        · obtain ⟨hslot, hne'⟩ := buffered_iff.1 hbuf
          have hown := (hsane.inWindow _ (by rwa [hslot])).2
          rwa [hslot, hstore.2.1] at hown
        · show _ < 15
          rw [UInt32.toNat_sub]
          omega
  · have hrow := (h.there n).1 hn
    refine hother n (fun heq => ?_) ?_
    · subst heq
      omega
    · show _ < 15
      have hlt := UInt32.toNat_lt n
      rw [UInt32.toNat_sub]
      omega

/-- A row that fills the ring has no place for the next packet. -/
theorem row_full (h : b.Row first played arrived) (hseq : seq.toNat = first.toNat + arrived)
    (hfull : played + 15 ≤ arrived) (opusData : Bytes) (now : ℕ) :
    (b.push seq opusData now).1.peek seq = none := by
  have hlength := row_length h
  obtain ⟨hstarted, hstrays⟩ := h.started (by omega)
  have hnext := h.next hstarted
  have hseqlt := UInt32.toNat_lt seq
  have hway : b.outcome seq = .stray := by
    have hbefore : seqBefore seq b.nextSeq = false := by
      rw [← Bool.not_eq_true, seqBefore_iff, UInt32.toNat_sub]
      omega
    have hfar : Config.jitterBufMax ≤ (seq - b.nextSeq).toNat := by
      show 15 ≤ (seq - b.nextSeq).toNat
      rw [UInt32.toNat_sub]
      omega
    unfold JitterBuffer.outcome JitterBuffer.beyond
    rw [hstarted, hbefore, decide_eq_true hfar, hstrays]
    rfl
  rw [push_eq, hway]
  show b.peek seq = none
  rw [← Option.not_isSome_iff_eq_none, peek_isSome_iff, h.there]
  omega

/-- The next packet of a row is played. -/
theorem row_pop (h : b.Row first played arrived) (hlt : played < arrived) (out : Bytes) :
    ∃ b' data, b.pop out = (b', data, .packet) ∧ b'.Row first (played + 1) arrived ∧
      b.nextSeq = .ofNat (first.toNat + played) := by
  obtain ⟨hstarted, hhead⟩ := row_head h hlt
  have hnext := h.next hstarted
  have hnumbers := h.numbers
  have hpop := pop_of_buffered hstarted hhead out
  have hsane := sane_pop h.sane out
  refine ⟨_, _, hpop, ?_, ?_⟩
  · rw [hpop] at hsane
    refine ⟨hsane, h.started, fun _ => ?_, hlt, hnumbers, fun seq => ?_⟩
    · show (b.nextSeq + 1).toNat = _
      have hone : (1 : UInt32).toNat = 1 := rfl
      rw [UInt32.toNat_add, hone]
      omega
    · have hne : seq ≠ b.nextSeq ↔ seq.toNat ≠ b.nextSeq.toNat := not_congr UInt32.toNat_inj.symm
      rw [buffered_pop hpop, Bool.and_eq_true, bne_iff_ne, h.there, hne]
      omega
  · rw [← hnext, UInt32.ofNat_toNat]

/-- Nothing of a row is left. -/
theorem row_pop_empty (h : b.Row first played played) (out : Bytes) :
    b.pop out = (b, out, .empty) := by
  have hnone : ∀ seq, b.buffered seq = false := by
    intro seq
    rw [← Bool.not_eq_true, h.there]
    omega
  cases hstarted : b.started with
  | false => exact pop_of_not_started hstarted out
  | true =>
    have hnext := h.next hstarted
    have hnumbers := h.numbers
    rw [pop_of_started hstarted, if_neg, if_neg]
    · rw [Bool.not_eq_true, List.any_eq_false]
      intro offset _
      rw [hnone]
      decide
    · intro hhead
      have hpos : b.nextSeq ≠ 0 := by
        intro hzero
        rw [hzero] at hnext
        have hval : (0 : UInt32).toNat = 0 := rfl
        omega
      have hbuf := buffered_iff.2 ⟨hhead, hpos⟩
      rw [hnone] at hbuf
      cases hbuf

/-- The arrival estimator of a buffer. -/
def JitterBuffer.estimator (b : JitterBuffer) : Float × Option (ℕ × UInt32) × ℕ :=
  (b.jitterMs, b.reference, b.spurtPackets)

/-- The buffer after `n` arrivals of a row, one every frame, as far as its estimator goes. -/
def JitterBuffer.hears (b : JitterBuffer) (first : UInt32) (start : ℕ) : ℕ → JitterBuffer
  | 0 => b
  | n + 1 => (b.hears first start n).observe (first + .ofNat n) (start + n * frameDuration)

/-- What an arrival does to the estimator depends on nothing else. -/
theorem estimator_observe (h : b'.estimator = b.estimator) (now : ℕ) :
    (b'.observe seq now).estimator = (b.observe seq now).estimator := by
  unfold JitterBuffer.estimator at h
  simp only [Prod.mk.injEq] at h
  obtain ⟨hjitter, hreference, hpackets⟩ := h
  unfold JitterBuffer.observe
  rw [hjitter, hreference, hpackets]
  unfold JitterBuffer.estimator
  dsimp only
  split <;> rfl

/-- A packet that is stored is an arrival. -/
theorem estimator_push (hway : b.outcome seq = .store) (opusData : Bytes) (now : ℕ) :
    (b.push seq opusData now).1.estimator = (b.observe seq now).estimator := by
  have hmoved : (b.moved seq).estimator = b.estimator := by
    unfold JitterBuffer.moved
    rw [hway]
    dsimp only
    split <;> rfl
  rw [push_eq, hway]
  exact estimator_observe hmoved now

theorem row_endTalkspurt (h : b.Row first played arrived) :
    b.endTalkspurt.Row first played arrived :=
  ⟨sane_use h.sane .endTalkspurt, h.started, h.next, h.le, h.numbers, h.there⟩

end Rows

/-! ## What is played of a row -/

/-- The numbers of the packets that are decoded for a frame. -/
def numbersOf : Option FrameOp → List UInt32
  | some (.packet seq) => [seq]
  | some (.accelerated dropped played) => [dropped, played]
  | _ => []

/-- The numbers of a row. -/
def rowNumbers (first : UInt32) (played count : ℕ) : List UInt32 :=
  (List.range' (first.toNat + played) count).map .ofNat

section Played

variable {F D : Type} [F32 F] {s s' : SenderStream F D} {first : UInt32}
  {played arrived target : ℕ} {done : Done}

/-- **A stream that plays from a row plays the next of it, in order**, and loses nothing. -/
theorem plays_row (h : s.jitter.Row first played arrived) (hplays : Plays s target done s') :
    s'.jitter.Row first (played + (numbersOf done.op).length) arrived ∧ .lost ∉ done.reports ∧
      numbersOf done.op = rowNumbers first played (numbersOf done.op).length := by
  -- Whether there is anything to play is what a pop answers.
  have hpopped : ∀ {out data : Bytes} {jitter : JitterBuffer} {answer : PopResult},
      s.jitter.pop out = (jitter, data, answer) →
        answer = .packet ∧ jitter.Row first (played + 1) arrived ∧
            s.jitter.nextSeq = .ofNat (first.toNat + played) ∨
          answer = .empty ∧ jitter = s.jitter := by
    intro out data jitter answer hpop
    rcases h.le.lt_or_eq with hlt | rfl
    · obtain ⟨b', data', hrow, hnext, hseq⟩ := row_pop h hlt out
      rw [hrow] at hpop
      cases hpop
      exact .inl ⟨rfl, hnext, hseq⟩
    · rw [row_pop_empty h] at hpop
      cases hpop
      exact .inr ⟨rfl, rfl⟩
  cases hplays with
  | packet hpop hcalls =>
    obtain ⟨-, hnext, hseq⟩ | ⟨hempty, -⟩ := hpopped hpop
    · exact ⟨hnext, by simp, by rw [hseq]; rfl⟩
    · cases hempty
  | @accelerated out data out' data' jitter jitter' answer calls decoder frame hpop hdeep hpeek
      hpop' hcalls =>
    obtain ⟨-, hnext, hseq⟩ | ⟨hempty, -⟩ := hpopped hpop
    · have hlt : played + 1 < arrived := by
        rcases hnext.le.lt_or_eq with hlt | heq
        · exact hlt
        · have hbuf := (hnext.there _).1 (peek_isSome_iff.1 hpeek)
          omega
      obtain ⟨b', data'', hrow, hnext', hseq'⟩ := row_pop hnext hlt out'
      rw [hrow] at hpop'
      cases hpop'
      exact ⟨hnext', by simp, by rw [hseq, hseq']; rfl⟩
    · cases hempty
  | concealed hpop hop hdiag =>
    obtain ⟨hpacket, -⟩ | ⟨hempty, -⟩ := hpopped hpop
    · cases hpacket
    · cases hempty
  | @ended out data jitter hpop hhold =>
    obtain ⟨hpacket, -⟩ | ⟨-, rfl⟩ := hpopped hpop
    · cases hpacket
    · exact ⟨row_endTalkspurt h, List.not_mem_nil, rfl⟩
  | @expanded out data jitter calls decoder hpop hhold =>
    obtain ⟨hpacket, -⟩ | ⟨-, rfl⟩ := hpopped hpop
    · cases hpacket
    · exact ⟨h, List.not_mem_nil, rfl⟩

/-- A stream that has just started plays one packet. -/
theorem plays_first (h : s.jitter.Row first played arrived) (hlt : played < arrived)
    (hdepths : s.depths.len = 0) (hfill : s.depths.Filling) (hplays : Plays s target done s') :
    done.op = some (.packet (.ofNat (first.toNat + played))) := by
  have hpopped : ∀ {out data : Bytes} {jitter : JitterBuffer} {answer : PopResult},
      s.jitter.pop out = (jitter, data, answer) →
        answer = .packet ∧ s.jitter.nextSeq = .ofNat (first.toNat + played) := by
    intro out data jitter answer hpop
    obtain ⟨b', data', hrow, -, hseq⟩ := row_pop h hlt out
    rw [hrow] at hpop
    cases hpop
    exact ⟨rfl, hseq⟩
  cases hplays with
  | packet hpop hcalls => rw [(hpopped hpop).2]
  | accelerated hpop hdeep hpeek hpop' hcalls =>
    have hobserved := (shouldAccelerate_depth hfill hdeep).1
    rw [hdepths] at hobserved
    exact absurd hobserved (by decide)
  | concealed hpop hop hdiag => cases (hpopped hpop).1
  | ended hpop hhold => cases (hpopped hpop).1
  | expanded hpop hhold => cases (hpopped hpop).1

end Played

/-! ## Starting -/

section Starting

variable {F D : Type} {s : SenderStream F D} {now pull : ℕ}

/-- An idle stream starts to play at a frame. -/
def SenderStream.ready (s : SenderStream F D) (now pull : ℕ) : Bool :=
  decide (s.target + pull ≤ s.jitter.countBuffered) ||
    decide (frameDuration * ((s.target + pull) % 2 ^ 32) ≤ now - s.firstIdleArrival.getD now)

theorem wake_idle (hstate : s.state = .idle) (hcount : s.jitter.countBuffered ≠ 0) :
    s.wake now pull =
      if s.ready now pull then (s.started, some (.replicate s.jitter.skipToOldest.2 .lost))
      else ({ s with firstIdleArrival := some (s.firstIdleArrival.getD now) }, none) := by
  unfold SenderStream.wake SenderStream.ready
  rw [hstate]
  dsimp only
  rw [if_neg hcount]
  by_cases hbuffered : s.target + pull ≤ s.jitter.countBuffered
  · rw [decide_eq_true hbuffered, decide_eq_false (not_lt.2 hbuffered)]
    rfl
  · rw [decide_eq_false hbuffered, decide_eq_true (not_le.1 hbuffered)]
    by_cases hwaited :
        frameDuration * ((s.target + pull) % 2 ^ 32) ≤ now - s.firstIdleArrival.getD now
    · rw [decide_eq_true hwaited]
      rfl
    · rw [decide_eq_false hwaited]
      rfl

variable [F32 F] (opus : OpusDecoder F D) (scratch : Scratch F)

/-- An idle stream that is not ready waits. -/
theorem render_not_ready (hstate : s.state = .idle) (hcount : s.jitter.countBuffered ≠ 0)
    (hready : s.ready now pull = false) : s.render opus now pull scratch =
      ⟨{ s with firstIdleArrival := some (s.firstIdleArrival.getD now) }, scratch,
        ⟨none, [], [], .zero⟩⟩ := by
  unfold SenderStream.render
  rw [wake_idle hstate hcount, hready]
  rfl

/-- One that is ready plays. -/
theorem render_ready (hstate : s.state = .idle) (hcount : s.jitter.countBuffered ≠ 0)
    (hready : s.ready now pull = true) :
    ∃ done, Plays s.started s.target done (s.render opus now pull scratch).stream ∧
      (s.render opus now pull scratch).done =
        { done with
          reports := .replicate s.jitter.skipToOldest.2 .lost ++ done.reports } := by
  unfold SenderStream.render
  rw [wake_idle hstate hcount, hready]
  exact play_plays opus s.started s.target scratch _

end Starting

/-! ## A talkspurt -/

variable {F D : Type}

/-- The output looks for a frame: when, how much it holds, and the scratch buffers then. -/
structure Tick (F : Type) where
  now : ℕ
  level : ℕ
  scratch : Scratch F

/-- A talkspurt as it arrives: the device's request, the first number, when it arrives, the data
of the packets, and when the output looks for frames after each of them. -/
structure Onset (F : Type) where
  request : ℕ
  first : UInt32
  start : ℕ
  data : ℕ → Bytes
  ticks : ℕ → List (Tick F)

namespace Onset

variable (o : Onset F)

/-- The number of a packet. -/
def seq (n : ℕ) : UInt32 := o.first + .ofNat n

/-- The output as it is looked at. -/
def output (tick : Tick F) : Output := .new tick.level o.request

/-- A look at the output, which asks for a frame if it is not full. -/
def frame (tick : Tick F) : Option (StreamEvent F) :=
  if (o.output tick).wantsFrame then some (.frame tick.now (o.output tick).pull tick.scratch)
  else none

/-- A packet, 20 ms after the last, and the frames that follow it. -/
def arrival (n : ℕ) : List (StreamEvent F) :=
  .packet (o.seq n) (o.data n) (o.start + n * frameDuration) :: (o.ticks n).filterMap o.frame

/-- The first packets of the talkspurt. -/
def arrivals (count : ℕ) : List (StreamEvent F) := (List.range count).flatMap o.arrival

/-- A look at the output after the `n`-th packet starts the stream, if nothing did before: there
are as many packets as the target, for the estimate that these arrivals make of the one before,
and the frames that the output takes; or it has waited for as long. -/
def opens (s : SenderStream F D) (n : ℕ) (tick : Tick F) : Bool :=
  let lead := targetFrames (s.jitter.hears o.first o.start (n + 1)).jitterMs +
    (o.output tick).pull
  (o.output tick).wantsFrame && (decide (lead ≤ n + 1) ||
    decide (frameDuration * (lead % 2 ^ 32) ≤ tick.now - s.firstIdleArrival.getD o.start))

end Onset

/-- A stream while a talkspurt arrives: how many of its packets have been decoded, and whether
there was room for all. -/
structure Spurt (F D : Type) where
  stream : SenderStream F D
  played : ℕ
  clean : Bool

namespace Spurt

variable [F32 F] (opus : OpusDecoder F D) (first : UInt32)

/-- One event. -/
def step (w : Spurt F D) : StreamEvent F → Spurt F D × StreamAnswer
  | .packet seq packet now =>
    let (stream, late) := w.stream.receive seq packet now
    (⟨stream, w.played, w.clean && (stream.jitter.peek seq).isSome⟩, .late late)
  | .frame now pull scratch =>
    let r := w.stream.render opus now pull scratch
    (⟨r.stream, w.played + (numbersOf r.done.op).length, w.clean⟩, .frame r.done)

/-- What is asked of an event.  A packet that comes before the stream has started is not late,
is kept, and pushes no other out.  A frame loses nothing and plays the next packets in order, as
long as there was room for them; the one that starts the stream plays a single packet. -/
def Whole (w : Spurt F D) : StreamEvent F → Prop
  | .packet seq packet now => w.played = 0 →
    let r := w.step opus (.packet seq packet now)
    r.2 = .late false ∧ r.1.stream.jitter.peek seq = some packet ∧
      ∀ n, w.stream.jitter.buffered n = true →
        r.1.stream.jitter.peek n = w.stream.jitter.peek n
  | .frame now pull scratch => w.clean = true →
    let done := (w.stream.render opus now pull scratch).done
    .lost ∉ done.reports ∧
      numbersOf done.op = rowNumbers first w.played (numbersOf done.op).length ∧
        (w.stream.state = .idle → done.op = none ∨
          done.op = some (.packet (.ofNat (first.toNat + w.played))))

end Spurt

/-! ## Until the stream starts -/

section Runs

variable [F32 F] {opus : OpusDecoder F D} {o : Onset F} {s : SenderStream F D} {w : Spurt F D}
  {n : ℕ}

/-- A stream that has not started after some packets: it has them all. -/
structure Waiting (o : Onset F) (s : SenderStream F D) (n : ℕ) (w : Spurt F D) : Prop where
  idle : w.stream.state = .idle
  played : w.played = 0
  clean : w.clean = true
  row : w.stream.jitter.Row o.first 0 n
  estimator : w.stream.jitter.estimator = (s.jitter.hears o.first o.start n).estimator
  since : w.stream.firstIdleArrival =
    if n = 0 then s.firstIdleArrival else some (s.firstIdleArrival.getD o.start)

/-- A stream that has started: if there was room for all packets since, it has those that it has
not played. -/
structure Going (o : Onset F) (n : ℕ) (w : Spurt F D) : Prop where
  played : 0 < w.played
  row : w.clean = true → w.stream.jitter.Row o.first w.played n

omit [F32 F] in
theorem seq_toNat (hlast : o.first.toNat + n < 2 ^ 32) :
    (o.seq n).toNat = o.first.toNat + n := by
  unfold Onset.seq
  rw [UInt32.toNat_add, UInt32.toNat_ofNat']
  omega

omit [F32 F] in
/-- A packet that an idle stream takes. -/
theorem receive_idle {s : SenderStream F D} {seq : UInt32} {packet : Bytes} {now : ℕ}
    (hidle : s.state = .idle) (hlate : (s.jitter.push seq packet now).2 = false) :
    s.receive seq packet now = ({ s with
      lastPacket := now, jitter := (s.jitter.push seq packet now).1
      firstIdleArrival := some (s.firstIdleArrival.getD now) }, false) := by
  unfold SenderStream.receive
  generalize s.jitter.push seq packet now = pushed at hlate
  obtain ⟨jitter, late⟩ := pushed
  cases hlate
  rw [hidle]
  rfl

variable (opus) in
/-- A packet before the ring is full. -/
theorem waiting_packet (h : Waiting o s n w) (hn : n < 15)
    (hlast : o.first.toNat + (n + 1) < 2 ^ 32) :
    let event := .packet (o.seq n) (o.data n) (o.start + n * frameDuration)
    Waiting o s (n + 1) (w.step opus event).1 ∧ w.Whole opus o.first event := by
  have hseq := seq_toNat (o := o) (n := n) (by omega)
  generalize hnow : o.start + n * frameDuration = now
  obtain ⟨hrow, hlate, hpeek, hkept, hway⟩ :=
    row_push h.row hseq (by omega) (by omega) (o.data n) now
  have hestimator := (estimator_push hway (o.data n) now).trans (estimator_observe h.estimator now)
  have hsince : some (w.stream.firstIdleArrival.getD now) =
      some (s.firstIdleArrival.getD o.start) := by
    rw [h.since, ← hnow]
    cases n with
    | zero => rw [if_pos rfl, Nat.zero_mul, Nat.add_zero]
    | succ n => rw [if_neg (Nat.succ_ne_zero n), Option.getD_some]
  unfold Spurt.Whole Spurt.step
  dsimp only
  rw [receive_idle h.idle hlate]
  dsimp only
  rw [hpeek, h.clean, h.played]
  refine ⟨⟨h.idle, rfl, rfl, hrow, ?_, hsince⟩, fun _ => ⟨rfl, rfl, hkept⟩⟩
  unfold JitterBuffer.hears
  rw [hnow]
  exact hestimator

variable (opus) in
/-- A packet that finds the ring full. -/
theorem waiting_full (h : Waiting o s n w) (hn : 15 ≤ n) (hlast : o.first.toNat + n < 2 ^ 32) :
    ¬ w.Whole opus o.first (.packet (o.seq n) (o.data n) (o.start + n * frameDuration)) := by
  have hseq := seq_toNat (o := o) hlast
  have hnone := row_full h.row hseq (by omega) (o.data n) (o.start + n * frameDuration)
  intro hwhole
  have hsome := (hwhole h.played).2.1
  unfold Spurt.step SenderStream.receive at hsome
  dsimp only at hsome
  rw [hnone] at hsome
  cases hsome

omit [F32 F] in
/-- Whether a look at the output starts the stream. -/
theorem waiting_ready (h : Waiting o s (n + 1) w) {tick : Tick F}
    (hwants : (o.output tick).wantsFrame = true) :
    w.stream.ready tick.now (o.output tick).pull = o.opens s n tick := by
  have hjitter : w.stream.jitter.jitterMs =
      (s.jitter.hears o.first o.start (n + 1)).jitterMs := congrArg Prod.fst h.estimator
  have hcount : w.stream.jitter.countBuffered = n + 1 := row_count h.row
  have hsince : w.stream.firstIdleArrival = some (s.firstIdleArrival.getD o.start) :=
    h.since.trans (if_neg (Nat.succ_ne_zero n))
  unfold SenderStream.ready SenderStream.target Onset.opens
  rw [hjitter, hcount, hsince, hwants]
  rfl

variable (opus) in
/-- A look that does not start the stream. -/
theorem waiting_frame (h : Waiting o s (n + 1) w) {tick : Tick F}
    (hwants : (o.output tick).wantsFrame = true) (hopens : o.opens s n tick = false) :
    let event := .frame tick.now (o.output tick).pull tick.scratch
    Waiting o s (n + 1) (w.step opus event).1 ∧ w.Whole opus o.first event := by
  have hcount : w.stream.jitter.countBuffered ≠ 0 := by
    rw [row_count h.row]
    exact Nat.succ_ne_zero n
  have hrender := render_not_ready opus tick.scratch h.idle hcount
    ((waiting_ready h hwants).trans hopens)
  have hsince : w.stream.firstIdleArrival = some (s.firstIdleArrival.getD o.start) :=
    h.since.trans (if_neg (Nat.succ_ne_zero n))
  unfold Spurt.step Spurt.Whole
  dsimp only
  rw [hrender]
  refine ⟨⟨h.idle, h.played, h.clean, h.row, h.estimator, ?_⟩, fun _ => ?_⟩
  · show some (w.stream.firstIdleArrival.getD tick.now) = _
    rw [hsince]
    rfl
  · exact ⟨List.not_mem_nil, rfl, fun _ => .inl rfl⟩

variable (opus) in
/-- The look that starts it. -/
theorem waiting_starts (h : Waiting o s (n + 1) w) {tick : Tick F}
    (hwants : (o.output tick).wantsFrame = true) (hopens : o.opens s n tick = true) :
    let event := .frame tick.now (o.output tick).pull tick.scratch
    Going o (n + 1) (w.step opus event).1 ∧ w.Whole opus o.first event := by
  have hlt : 0 < n + 1 := Nat.succ_pos n
  have hcount : w.stream.jitter.countBuffered ≠ 0 := by
    rw [row_count h.row]
    exact Nat.succ_ne_zero n
  have hskip := skipToOldest_of_buffered (row_head h.row hlt).2
  obtain ⟨done, hplays, hdone⟩ := render_ready opus tick.scratch h.idle hcount
    ((waiting_ready h hwants).trans hopens)
  have hwoken : w.stream.started.jitter.Row o.first 0 (n + 1) := by
    show w.stream.jitter.skipToOldest.1.Row o.first 0 (n + 1)
    rw [hskip]
    exact h.row
  obtain ⟨hrow, hlost, hnumbers⟩ := plays_row hwoken hplays
  have hop := plays_first hwoken hlt rfl (DepthWindow.filling_reset _) hplays
  have hnone : List.replicate w.stream.jitter.skipToOldest.2 Report.lost = [] := by
    rw [hskip]
    rfl
  unfold Spurt.step Spurt.Whole
  dsimp only
  rw [hdone, hnone, h.played]
  dsimp only
  refine ⟨⟨?_, fun _ => hrow⟩, fun _ => ⟨hlost, hnumbers, fun _ => .inr hop⟩⟩
  rw [hop]
  exact Nat.one_pos

/-! ## From then on -/

variable (opus) in
/-- A packet of a talkspurt that plays. -/
theorem going_packet (h : Going o n w) (hlast : o.first.toNat + (n + 1) < 2 ^ 32) :
    let event := .packet (o.seq n) (o.data n) (o.start + n * frameDuration)
    Going o (n + 1) (w.step opus event).1 ∧ w.Whole opus o.first event := by
  have hseq := seq_toNat (o := o) (n := n) (by omega)
  refine ⟨⟨h.played, fun hclean => ?_⟩, fun hzero => absurd hzero h.played.ne'⟩
  have hboth : (w.clean && ((w.stream.jitter.push (o.seq n) (o.data n)
      (o.start + n * frameDuration)).1.peek (o.seq n)).isSome) = true := hclean
  rw [Bool.and_eq_true] at hboth
  obtain ⟨hbefore, hpeek⟩ := hboth
  have hrow := h.row hbefore
  by_cases hroom : n < w.played + 15
  · exact (row_push hrow hseq hroom (by omega) (o.data n) _).1
  · have hnone := row_full hrow hseq (not_lt.1 hroom) (o.data n) (o.start + n * frameDuration)
    rw [hnone] at hpeek
    cases hpeek

variable (opus) in
/-- A frame of a talkspurt that plays, or has been played so far. -/
theorem going_frame (h : Going o n w) (now pull : ℕ) (scratch : Scratch F) :
    Going o n (w.step opus (.frame now pull scratch)).1 ∧
      w.Whole opus o.first (.frame now pull scratch) := by
  have hrenders := render_renders opus w.stream now pull scratch
  unfold Spurt.step Spurt.Whole
  dsimp only
  generalize w.stream.render opus now pull scratch = r at hrenders
  obtain ⟨stream, scratch', done⟩ := r
  dsimp only at hrenders ⊢
  suffices hrow : w.clean = true →
      stream.jitter.Row o.first (w.played + (numbersOf done.op).length) n ∧
        .lost ∉ done.reports ∧
        numbersOf done.op = rowNumbers o.first w.played (numbersOf done.op).length ∧
        (w.stream.state = .idle → done.op = none ∨
          done.op = some (.packet (.ofNat (o.first.toNat + w.played)))) from
    ⟨⟨Nat.add_pos_left h.played _, fun hclean => (hrow hclean).1⟩, fun hclean => (hrow hclean).2⟩
  intro hclean
  have hrow := h.row hclean
  cases hrenders with
  | waits hstate => exact ⟨hrow, List.not_mem_nil, rfl, fun _ => .inl rfl⟩
  | @plays skipped woken _ done hwake hplay =>
    cases hwake with
    | playing hstate =>
      obtain ⟨hnext, hlost, hnumbers⟩ := plays_row hrow hplay
      refine ⟨hnext, hlost, hnumbers, fun hidle => ?_⟩
      rw [hstate] at hidle
      cases hidle
    | starts hstate hbuffered =>
      have hlt : w.played < n := by
        rw [row_count hrow] at hbuffered
        omega
      have hskip := skipToOldest_of_buffered (row_head hrow hlt).2
      have hwoken : w.stream.started.jitter.Row o.first w.played n := by
        show w.stream.jitter.skipToOldest.1.Row o.first w.played n
        rw [hskip]
        exact hrow
      obtain ⟨hnext, hlost, hnumbers⟩ := plays_row hwoken hplay
      have hop := plays_first hwoken hlt rfl (DepthWindow.filling_reset _) hplay
      rw [hskip]
      exact ⟨hnext, hlost, hnumbers, fun _ => .inr hop⟩

/-! ## The whole talkspurt -/

omit [F32 F] in
/-- What the looks at the output come to, one by one. -/
theorem frame_cons (tick : Tick F) (ticks : List (Tick F)) :
    (tick :: ticks).filterMap o.frame = if (o.output tick).wantsFrame then
      .frame tick.now (o.output tick).pull tick.scratch :: ticks.filterMap o.frame
    else ticks.filterMap o.frame := by
  rw [List.filterMap_cons]
  unfold Onset.frame
  split <;> split <;> simp_all

variable (opus) in
theorem going_looks (h : Going o n w) (ticks : List (Tick F)) :
    Along (Spurt.step opus) (Spurt.Whole opus o.first) w (ticks.filterMap o.frame) ∧
      Going o n (after (Spurt.step opus) w (ticks.filterMap o.frame)) := by
  induction ticks generalizing w with
  | nil => exact ⟨trivial, h⟩
  | cons tick ticks ih =>
    rw [frame_cons]
    split
    · obtain ⟨hnext, hwhole⟩ := going_frame opus h tick.now (o.output tick).pull tick.scratch
      exact ⟨⟨hwhole, (ih hnext).1⟩, (ih hnext).2⟩
    · exact ih h

variable (opus) in
theorem waiting_looks (h : Waiting o s (n + 1) w) (ticks : List (Tick F)) :
    Along (Spurt.step opus) (Spurt.Whole opus o.first) w (ticks.filterMap o.frame) ∧
      if ticks.any (o.opens s n) then
        Going o (n + 1) (after (Spurt.step opus) w (ticks.filterMap o.frame))
      else Waiting o s (n + 1) (after (Spurt.step opus) w (ticks.filterMap o.frame)) := by
  induction ticks generalizing w with
  | nil => exact ⟨trivial, h⟩
  | cons tick ticks ih =>
    rw [frame_cons, List.any_cons]
    cases hwants : (o.output tick).wantsFrame with
    | false =>
      have hopens : o.opens s n tick = false := by
        unfold Onset.opens
        rw [hwants]
        rfl
      rw [hopens, Bool.false_or]
      exact ih h
    | true =>
      rw [if_pos rfl]
      cases hopens : o.opens s n tick with
      | false =>
        obtain ⟨hnext, hwhole⟩ := waiting_frame opus h hwants hopens
        rw [Bool.false_or]
        exact ⟨⟨hwhole, (ih hnext).1⟩, (ih hnext).2⟩
      | true =>
        obtain ⟨hnext, hwhole⟩ := waiting_starts opus h hwants hopens
        obtain ⟨hlooks, hgoing⟩ := going_looks opus hnext ticks
        exact ⟨⟨hwhole, hlooks⟩, hgoing⟩

variable (opus) in
/-- Once it has started, a talkspurt is played in order. -/
theorem going_arrivals (h : Going o n w) (k : ℕ) (hlast : o.first.toNat + (n + k) < 2 ^ 32) :
    Along (Spurt.step opus) (Spurt.Whole opus o.first) w
      ((List.range' n k).flatMap o.arrival) := by
  induction k generalizing n w with
  | zero => trivial
  | succ k ih =>
    obtain ⟨hnext, hwhole⟩ := going_packet opus h (by omega)
    obtain ⟨hlooks, hgoing⟩ := going_looks opus hnext (o.ticks n)
    rw [List.range'_succ, List.flatMap_cons, along_append]
    exact ⟨⟨hwhole, hlooks⟩, ih hgoing (by omega)⟩

variable (opus) in
/-- A talkspurt that is to start yet. -/
theorem waiting_arrivals (h : Waiting o s n w) (hn : n ≤ 15) (k : ℕ)
    (hlast : o.first.toNat + (n + k) < 2 ^ 32) :
    Along (Spurt.step opus) (Spurt.Whole opus o.first) w
        ((List.range' n k).flatMap o.arrival) ↔
      n + k ≤ 15 ∨ ∃ m, n ≤ m ∧ m < 15 ∧ (o.ticks m).any (o.opens s m) = true := by
  induction k generalizing n w with
  | zero => exact iff_of_true trivial (.inl hn)
  | succ k ih =>
    rw [List.range'_succ, List.flatMap_cons, along_append]
    rcases hn.lt_or_eq with hlt | rfl
    · obtain ⟨hnext, hwhole⟩ := waiting_packet opus h hlt (by omega)
      obtain ⟨hlooks, hafter⟩ := waiting_looks opus hnext (o.ticks n)
      have harrival : Along (Spurt.step opus) (Spurt.Whole opus o.first) w (o.arrival n) :=
        ⟨hwhole, hlooks⟩
      by_cases hopens : (o.ticks n).any (o.opens s n) = true
      · rw [if_pos hopens] at hafter
        exact iff_of_true ⟨harrival, going_arrivals opus hafter k (by omega)⟩
          (.inr ⟨n, le_rfl, hlt, hopens⟩)
      · rw [if_neg hopens] at hafter
        refine (and_iff_right harrival).trans ((ih hafter hlt (by omega)).trans ?_)
        refine or_congr (by omega) ⟨?_, ?_⟩
        · rintro ⟨m, hle, hm, hany⟩
          exact ⟨m, by omega, hm, hany⟩
        · rintro ⟨m, hle, hm, hany⟩
          rcases hle.lt_or_eq with hlt' | rfl
          · exact ⟨m, hlt', hm, hany⟩
          · exact absurd hany hopens
    · refine iff_of_false (fun hall => waiting_full opus h le_rfl (by omega) hall.1.1) ?_
      rintro (hshort | ⟨m, hle, hm, -⟩) <;> omega

variable (opus) in
/-- The whole of a talkspurt, from an idle stream that has nothing to play. -/
theorem whole_iff (h : Resting s) (hidle : s.state = .idle)
    (hempty : s.jitter.countBuffered = 0)
    (hfirst : s.jitter.started = true → s.jitter.nextSeq = o.first) {count : ℕ}
    (hnumbers : 0 < o.first.toNat ∧ o.first.toNat + count < 2 ^ 32) :
    Along (Spurt.step opus) (Spurt.Whole opus o.first) ⟨s, 0, true⟩ (o.arrivals count) ↔
      count ≤ 15 ∨ ∃ n, n < 15 ∧ (o.ticks n).any (o.opens s n) = true := by
  have hwaiting : Waiting o s 0 ⟨s, 0, true⟩ := by
    refine ⟨hidle, rfl, rfl, ⟨h.sane, fun hpos => absurd hpos (lt_irrefl _), fun hstarted => ?_,
      le_rfl, ⟨hnumbers.1, by omega⟩, fun seq => ?_⟩, rfl, rfl⟩
    · exact congrArg UInt32.toNat (hfirst hstarted)
    · refine iff_of_false (fun hbuf => ?_) (by omega)
      exact countBuffered_of_buffered h.sane.inWindow hbuf hempty
  unfold Onset.arrivals
  rw [List.range_eq_range', waiting_arrivals opus hwaiting (Nat.zero_le _) count (by omega),
    Nat.zero_add]
  simp only [Nat.zero_le, true_and]

end Runs

/-- **When a talkspurt is played whole**: for every stream that any packets and frames have left
idle with nothing to play, every device request and every time at which the output looks for
frames, a talkspurt from the next number on, one packet every 20 ms, loses nothing until it
starts to play, starts with its first packet, and goes on in order while there is room, exactly
if it is no longer than the ring or a look before the ring overflows starts the stream. -/
theorem played_whole_iff [F32 F] (opus : OpusDecoder F D) (decoder : D) (created : ℕ)
    (history : List (StreamEvent F)) (o : Onset F) (count : ℕ)
    (hidle : (after (SenderStream.step opus) (.new decoder created) history).state = .idle)
    (hempty :
      (after (SenderStream.step opus) (.new decoder created) history).jitter.countBuffered = 0)
    (hfirst :
      (after (SenderStream.step opus) (.new decoder created) history).jitter.started = true →
      (after (SenderStream.step opus) (.new decoder created) history).jitter.nextSeq = o.first)
    (hnumbers : 0 < o.first.toNat ∧ o.first.toNat + count < 2 ^ 32) :
    Along (Spurt.step opus) (Spurt.Whole opus o.first)
        ⟨after (SenderStream.step opus) (.new decoder created) history, 0, true⟩
        (o.arrivals count) ↔
      count ≤ Config.jitterBufMax ∨ ∃ n, n < Config.jitterBufMax ∧ (o.ticks n).any
        (o.opens (after (SenderStream.step opus) (.new decoder created) history) n) = true :=
  whole_iff opus (resting_after (resting_new decoder created) history) hidle hempty hfirst hnumbers

/-- One packet is played, and comes six times more when the stream is idle again. -/
def lateCopies : List (StreamEvent Whole) :=
  .packet 1 [] 0 :: .replicate 5 (.frame (10 ^ 9) 2 .new) ++ .replicate 6 (.packet 1 [] (10 ^ 9))

/-- A device that takes seven frames at a time, and a talkspurt five seconds later; the output is
empty, and is looked at when a packet arrives. -/
def slowDevice : Onset Whole where
  request := 7 * Config.frameSize
  first := 2
  start := 6 * 10 ^ 9
  data _ := []
  ticks n := [⟨6 * 10 ^ 9 + n * frameDuration, 0, .new⟩]

theorem lateCopies_idle :
    (after (SenderStream.step silent) (.new () 0) lateCopies).state = .idle ∧
      (after (SenderStream.step silent) (.new () 0) lateCopies).jitter.countBuffered = 0 ∧
        (after (SenderStream.step silent) (.new () 0) lateCopies).jitter.nextSeq = 2 := by
  decide +kernel

/-- As many packets as the ring has room for are played, whatever the stream waits for. -/
theorem played_whole_fifteen : Along (Spurt.step silent) (Spurt.Whole silent slowDevice.first)
    ⟨after (SenderStream.step silent) (.new () 0) lateCopies, 0, true⟩
    (slowDevice.arrivals 15) :=
  (played_whole_iff silent () 0 lateCopies slowDevice 15 lateCopies_idle.1 lateCopies_idle.2.1
    (fun _ => lateCopies_idle.2.2) ⟨by decide, by decide⟩).2 (.inl (by decide))

/-- The pause is taken for jitter, and the stream waits for more packets than the ring has room
for: the sixteenth is dropped. -/
theorem sixteenth_dropped : slowDevice.request + Config.frameSize ≤ ringCapacity ∧
    ¬ Along (Spurt.step silent) (Spurt.Whole silent slowDevice.first)
      ⟨after (SenderStream.step silent) (.new () 0) lateCopies, 0, true⟩
      (slowDevice.arrivals 16) := by
  obtain ⟨hidle, hempty, hnext⟩ := lateCopies_idle
  refine ⟨by decide, ?_⟩
  rw [whole_iff silent (resting_after (resting_new () 0) lateCopies) hidle hempty
    (fun _ => hnext) ⟨by decide, by decide⟩]
  rintro (hshort | ⟨n, hn, hopens⟩)
  · exact absurd hshort (by decide)
  · have hnone : ∀ n < 15, (slowDevice.ticks n).any (slowDevice.opens
        (after (SenderStream.step silent) (.new () 0) lateCopies) n) = false := by
      decide +kernel
    rw [hnone n hn] at hopens
    cases hopens

end Client
end TcVoice
