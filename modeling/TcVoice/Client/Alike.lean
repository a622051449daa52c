import TcVoice.Client.Playout
import Mathlib.Logic.Function.Basic

/-!
# Streams that cannot be told apart

Two streams of one sender that differ in nothing that is ever read.

* `JitterBuffer.Alike`, `JitterBuffer.live` — equal up to the bytes in slots that are marked
  empty, where a pop leaves whatever was in the buffer that it swaps the data into.
* `JitterBuffer.Low` — the numbers are those of the first half of the counter, so that the
  next one is never zero, which is the mark of an empty slot.
* `SenderStream.Alike.render`, `SenderStream.Alike.receive` — **streams that are alike
  render alike**, whatever the scratch buffers, and stay so.
-/

namespace TcVoice
namespace Client

/-! ## The bytes that are left in empty slots -/

namespace JitterBuffer

/-- A buffer without the bytes in slots that are marked empty. -/
def live (b : JitterBuffer) : JitterBuffer :=
  { b with slots := fun i => if (b.slots i).seq = 0 then ⟨0, []⟩ else b.slots i }

/-- Buffers that differ only in the bytes in slots that are marked empty. -/
structure Alike (b b' : JitterBuffer) : Prop where
  same : b' = { b with slots := b'.slots }
  seq : ∀ i, (b'.slots i).seq = (b.slots i).seq
  full : ∀ i, (b.slots i).seq ≠ 0 → b'.slots i = b.slots i

/-- A started buffer whose numbers are those of the first half of the counter. -/
structure Low (b : JitterBuffer) : Prop where
  inWindow : b.InWindow
  first : b.started = false → ∀ i, (b.slots i).seq = 0
  low : ∀ i, (b.slots i).seq.toNat < 2 ^ 31
  next : b.started = true → 0 < b.nextSeq.toNat ∧ b.nextSeq.toNat ≤ 2 ^ 31

end JitterBuffer

section Buffers

variable {b b' : JitterBuffer} {seq : UInt32} {opusData : Bytes} {now : ℕ}

namespace JitterBuffer.Alike

theorem refl (b : JitterBuffer) : b.Alike b := ⟨rfl, fun _ => rfl, fun _ _ => rfl⟩

theorem live_eq (h : b.Alike b') : b'.live = b.live := by
  have hslots : b'.live.slots = b.live.slots := by
    funext i
    show (if _ then _ else _) = if _ then _ else _
    rw [h.seq i]
    split
    · rfl
    · rename_i hi
      exact h.full i hi
  unfold live at hslots ⊢
  rw [h.same]
  congr

theorem exists_slots (h : b.Alike b') : ∃ slots, b' = { b with slots } := ⟨_, h.same⟩

theorem buffered (h : b.Alike b') (seq : UInt32) : b'.buffered seq = b.buffered seq := by
  unfold JitterBuffer.buffered
  rw [h.seq]

theorem peek (h : b.Alike b') (seq : UInt32) : b'.peek seq = b.peek seq := by
  unfold JitterBuffer.peek
  rw [h.buffered]
  split
  · rename_i hbuf
    obtain ⟨hslot, hpos⟩ := buffered_iff.1 hbuf
    rw [h.full _ (by rwa [hslot])]
  · rfl

theorem nextSeq (h : b.Alike b') : b'.nextSeq = b.nextSeq := by rw [h.same]

theorem ahead (h : b.Alike b') (offset : ℕ) : b'.ahead offset = b.ahead offset := by
  unfold JitterBuffer.ahead
  rw [h.nextSeq]

theorem countBuffered (h : b.Alike b') : b'.countBuffered = b.countBuffered := by
  unfold JitterBuffer.countBuffered
  simp only [h.ahead, h.buffered]

theorem fitsFrom (h : b.Alike b') (start : UInt32) : b'.fitsFrom start = b.fitsFrom start := by
  unfold JitterBuffer.fitsFrom
  simp only [h.ahead, h.buffered]

/-- The same slot over what is alike. -/
theorem update (h : b.Alike b') (idx : Fin Config.jitterBufMax) {s s' : Slot}
    (hseq : s'.seq = s.seq) (hfull : s.seq ≠ 0 → s' = s) :
    Alike { b with slots := Function.update b.slots idx s }
      { b' with slots := Function.update b'.slots idx s' } := by
  refine ⟨?_, fun i => ?_, fun i hi => ?_⟩
  · rw [h.same]
  · by_cases hidx : i = idx
    · subst hidx
      simpa only [Function.update_self] using hseq
    · simpa only [Function.update_of_ne hidx] using h.seq i
  · by_cases hidx : i = idx
    · subst hidx
      simp only [Function.update_self] at hi ⊢
      exact hfull hi
    · simp only [Function.update_of_ne hidx] at hi ⊢
      exact h.full i hi

theorem observe (h : b.Alike b') : (b.observe seq now).Alike (b'.observe seq now) := by
  obtain ⟨slots, rfl⟩ := h.exists_slots
  unfold JitterBuffer.observe
  dsimp only
  split <;> exact ⟨rfl, h.seq, h.full⟩

theorem store (h : b.Alike b') : (b.store seq opusData now).Alike (b'.store seq opusData now) :=
  (h.observe).update (slotOf seq) rfl fun _ => rfl

theorem resetTo (h : b.Alike b') : (b.resetTo seq).Alike (b'.resetTo seq) := by
  obtain ⟨slots, rfl⟩ := h.exists_slots
  exact ⟨rfl, fun _ => rfl, fun i hi => absurd rfl hi⟩

theorem accept (h : b.Alike b') (seq : UInt32) :
    b.accept seq = none ∧ b'.accept seq = none ∨
      ∃ c c', b.accept seq = some c ∧ b'.accept seq = some c' ∧ c.Alike c' := by
  have hfit := h.fitsFrom seq
  obtain ⟨slots, rfl⟩ := h.exists_slots
  unfold JitterBuffer.accept
  rw [hfit]
  dsimp only
  split
  · split
    · exact .inr ⟨_, _, rfl, rfl, h.resetTo⟩
    · split
      · exact .inr ⟨_, _, rfl, rfl, rfl, h.seq, h.full⟩
      · exact .inl ⟨rfl, rfl⟩
  · exact .inr ⟨_, _, rfl, rfl, h⟩

theorem place (h : b.Alike b') :
    (b.place seq opusData now).1.Alike (b'.place seq opusData now).1 ∧
      (b'.place seq opusData now).2 = (b.place seq opusData now).2 := by
  unfold JitterBuffer.place
  rcases h.accept seq with ⟨haccept, haccept'⟩ | ⟨c, c', haccept, haccept', hc⟩
  · rw [haccept, haccept']
    exact ⟨h.observe, rfl⟩
  · rw [haccept, haccept']
    obtain ⟨slots, rfl⟩ := hc.exists_slots
    dsimp only
    split
    · split
      · refine ⟨store (resetTo ?_), rfl⟩
        exact ⟨rfl, hc.seq, hc.full⟩
      · exact ⟨⟨rfl, hc.seq, hc.full⟩, rfl⟩
    · refine ⟨store ?_, rfl⟩
      exact ⟨rfl, hc.seq, hc.full⟩

theorem push (h : b.Alike b') (seq : UInt32) (opusData : Bytes) (now : ℕ) :
    (b.push seq opusData now).1.Alike (b'.push seq opusData now).1 ∧
      (b'.push seq opusData now).2 = (b.push seq opusData now).2 := by
  obtain ⟨slots, rfl⟩ := h.exists_slots
  unfold JitterBuffer.push
  dsimp only
  split
  · exact h.place
  · apply place
    exact ⟨rfl, h.seq, h.full⟩

theorem endTalkspurt (h : b.Alike b') : b.endTalkspurt.Alike b'.endTalkspurt := by
  obtain ⟨slots, rfl⟩ := h.exists_slots
  exact ⟨rfl, h.seq, h.full⟩

theorem skipToOldest (h : b.Alike b') :
    b.skipToOldest.1.Alike b'.skipToOldest.1 ∧ b'.skipToOldest.2 = b.skipToOldest.2 := by
  have hskip : b'.skipToOldest.2 = b.skipToOldest.2 := by
    unfold JitterBuffer.skipToOldest
    simp only [h.ahead, h.peek]
  refine ⟨?_, hskip⟩
  have hpeek : ∀ seq, b'.peek seq = b.peek seq := h.peek
  obtain ⟨slots, rfl⟩ := h.exists_slots
  unfold JitterBuffer.skipToOldest
  unfold JitterBuffer.ahead at *
  simp only [hpeek]
  exact ⟨rfl, h.seq, h.full⟩

/-- A pop answers alike, whatever is in the buffer that the data is swapped into, if the next
number is not zero. -/
theorem pop (h : b.Alike b') (hzero : b.started = true → b.nextSeq ≠ 0) (out out' : Bytes) :
    (b.pop out).1.Alike (b'.pop out').1 ∧ (b'.pop out').2.2 = (b.pop out).2.2 ∧
      ((b.pop out).2.2 = .packet ∨ out' = out → (b'.pop out').2.1 = (b.pop out).2.1) := by
  have hbuf : ∀ seq, b'.buffered seq = b.buffered seq := h.buffered
  have hahead : ∀ offset, b'.ahead offset = b.ahead offset := h.ahead
  have hhead := h.seq (slotOf b.nextSeq)
  have hfull := h.full (slotOf b.nextSeq)
  have hclear : ∀ data data' : Bytes, Alike
      { b with slots := Function.update b.slots (slotOf b.nextSeq) ⟨0, data⟩ }
      { b' with slots := Function.update b'.slots (slotOf b.nextSeq) ⟨0, data'⟩ } :=
    fun _ _ => h.update _ rfl fun hne => absurd rfl hne
  obtain ⟨slots, rfl⟩ := h.exists_slots
  rcases Bool.eq_false_or_eq_true b.started with hstarted | hstarted
  · have hpop' := pop_of_started (b := { b with slots }) hstarted out'
    rw [pop_of_started hstarted, hpop']
    dsimp only at hhead hfull
    simp only [hbuf, hahead, hhead]
    split
    · rename_i hnext
      have hdata := hfull (by rw [hnext]; exact hzero hstarted)
      exact ⟨⟨rfl, (hclear out out').seq, (hclear out out').full⟩, rfl, fun _ => by rw [hdata]⟩
    · split
      · have hslots := hclear (b.slots (slotOf b.nextSeq)).data (slots (slotOf b.nextSeq)).data
        exact ⟨⟨rfl, hslots.seq, hslots.full⟩, rfl, fun hout => hout.resolve_left nofun⟩
      · exact ⟨h, rfl, fun hout => hout.resolve_left nofun⟩
  · have hpop' := pop_of_not_started (b := { b with slots }) hstarted out'
    rw [pop_of_not_started hstarted, hpop']
    exact ⟨h, rfl, fun hout => hout.resolve_left nofun⟩

end JitterBuffer.Alike

/-! ## Numbers in the first half of the counter -/

/-- The window starts where it did, or with the packet that was pushed. -/
theorem place_nextSeq (b : JitterBuffer) (seq : UInt32) (opusData : Bytes) (now : ℕ) :
    (b.place seq opusData now).1.nextSeq = seq ∨
      (b.place seq opusData now).1.nextSeq = b.nextSeq := by
  have haccept : ∀ c, b.accept seq = some c → c.nextSeq = seq ∨ c.nextSeq = b.nextSeq := by
    intro c hc
    unfold JitterBuffer.accept at hc
    dsimp only at hc
    split at hc
    · split at hc
      · cases hc
        exact .inl rfl
      · split at hc <;> cases hc
        exact .inl rfl
    · cases hc
      exact .inr rfl
  unfold JitterBuffer.place
  cases hb : b.accept seq with
  | none => exact .inr observe_nextSeq
  | some c =>
    dsimp only
    split
    · split
      · exact .inl observe_nextSeq
      · exact haccept c hb
    · exact (haccept c hb).imp observe_nextSeq.trans observe_nextSeq.trans

namespace JitterBuffer.Low

theorem new : JitterBuffer.new.Low where
  inWindow _ hi := absurd rfl hi
  first _ _ := rfl
  low i := by
    show (0 : UInt32).toNat < 2 ^ 31
    decide
  next h := by cases h

/-- The next number is one that packets have. -/
theorem next_ne_zero (h : b.Low) (hstarted : b.started = true) : b.nextSeq ≠ 0 := by
  intro hzero
  have hpos := (h.next hstarted).1
  rw [hzero] at hpos
  exact absurd hpos (by decide)

/-- A number in the ring has one of the first half after it. -/
theorem next_of_buffered (h : b.Low) (hbuf : b.buffered seq = true) :
    0 < seq.toNat ∧ seq.toNat < 2 ^ 31 := by
  obtain ⟨hslot, hpos⟩ := buffered_iff.1 hbuf
  have hlow := h.low (slotOf seq)
  rw [hslot] at hlow
  exact ⟨Nat.pos_of_ne_zero (toNat_ne_zero hpos), hlow⟩

theorem push (h : b.Low) (hpos : seq ≠ 0) (hlow : seq.toNat < 2 ^ 31) :
    (b.push seq opusData now).1.Low := by
  have hseq := toNat_ne_zero hpos
  obtain ⟨hstarted, hcases⟩ := push_cases h.inWindow h.first seq opusData now
  refine ⟨inWindow_push h.inWindow h.first opusData now, fun hs => ?_, fun i => ?_, fun _ => ?_⟩
  · rw [hstarted] at hs
    cases hs
  · rcases hcases with ⟨hslots, -⟩ | ⟨kept, hstored⟩
    · rw [hslots]
      exact h.low i
    · rw [hstored.slots]
      by_cases hslot : i = slotOf seq
      · subst hslot
        rw [Function.update_self]
        exact hlow
      · rw [Function.update_of_ne hslot]
        by_cases hi : (kept i).seq = 0
        · rw [hi]
          decide
        · rw [(hstored.keeps i hi).1]
          exact h.low i
  · have hnext : (b.push seq opusData now).1.nextSeq = seq ∨
        b.started = true ∧ (b.push seq opusData now).1.nextSeq = b.nextSeq := by
      unfold JitterBuffer.push
      dsimp only
      split
      · rename_i hs
        exact (place_nextSeq b seq opusData now).imp_right fun heq => ⟨hs, heq⟩
      · exact .inl ((place_nextSeq _ seq opusData now).elim id id)
    rcases hnext with heq | ⟨hs, heq⟩
    · rw [heq]
      omega
    · rw [heq]
      exact h.next hs

theorem skipToOldest (h : b.Low) : b.skipToOldest.1.Low := by
  obtain ⟨hslots, hstarted, hcases⟩ := skipToOldest_cases (b := b)
  refine ⟨inWindow_skipToOldest h.inWindow, fun hs i => ?_, fun i => h.low i, fun hs => ?_⟩
  · exact h.first hs i
  · rcases hcases with hnext | ⟨offset, -, hnext, hbuf, -⟩
    · rw [hnext]
      exact h.next hs
    · have hnear := h.next_of_buffered hbuf
      rw [hnext]
      omega

theorem endTalkspurt (h : b.Low) : b.endTalkspurt.Low :=
  ⟨h.inWindow, h.first, h.low, h.next⟩

/-- The slots of a buffer that a pop has emptied the first of. -/
theorem low_update (h : b.Low) (idx : Fin Config.jitterBufMax) {slot : Slot}
    (hslot : slot.seq = 0) (i : Fin Config.jitterBufMax) :
    (Function.update b.slots idx slot i).seq.toNat < 2 ^ 31 := by
  by_cases hidx : i = idx
  · subst hidx
    rw [Function.update_self, hslot]
    decide
  · rw [Function.update_of_ne hidx]
    exact h.low i

theorem pop (h : b.Low) (out : Bytes) : (b.pop out).1.Low := by
  have hin := inWindow_pop h.inWindow out
  rcases Bool.eq_false_or_eq_true b.started with hstarted | hstarted
  · have hnext := h.next hstarted
    have hstep : (b.nextSeq + 1).toNat = (b.nextSeq.toNat + 1) % 2 ^ 32 := by
      rw [UInt32.toNat_add]
      rfl
    have hcap : Config.jitterBufMax = 15 := rfl
    rcases pop_cases hstarted out with ⟨hhead, hpop⟩ | ⟨-, ⟨⟨offset, hpos, hlt, hbuf⟩, hpop⟩ | hpop⟩
    · have hlow := h.low (slotOf b.nextSeq)
      rw [hhead] at hlow
      rw [hpop] at hin ⊢
      refine ⟨hin, fun hs => ?_, h.low_update _ rfl, fun _ => ?_⟩
      · rw [show b.started = false from hs] at hstarted
        cases hstarted
      · show 0 < (b.nextSeq + 1).toNat ∧ (b.nextSeq + 1).toNat ≤ 2 ^ 31
        omega
    · -- A packet that is ahead of the next number is in the first half too.
      have hfuture := h.next_of_buffered hbuf
      unfold JitterBuffer.ahead at hfuture
      rw [UInt32.toNat_add, UInt32.toNat_ofNat'] at hfuture
      rw [hpop] at hin ⊢
      refine ⟨hin, fun hs => ?_, h.low_update _ rfl, fun _ => ?_⟩
      · rw [show b.started = false from hs] at hstarted
        cases hstarted
      · show 0 < (b.nextSeq + 1).toNat ∧ (b.nextSeq + 1).toNat ≤ 2 ^ 31
        omega
    · rw [hpop]
      exact h
  · rw [pop_of_not_started hstarted]
    exact h

end JitterBuffer.Low

end Buffers

/-! ## Streams that are alike -/

section Streams

variable {F D : Type} [F32 F] {opus : OpusDecoder F D} {s s' : SenderStream F D}

/-- What a sender can tell about its stream: all but the level of its last frame, and the bytes
in slots that are marked empty. -/
def SenderStream.live (s : SenderStream F D) : SenderStream F D :=
  { s with jitter := s.jitter.live, frameRms := 0 }

/-- Streams that differ only in those. -/
structure SenderStream.Alike (s s' : SenderStream F D) : Prop where
  same : s' = { s with jitter := s'.jitter, frameRms := s'.frameRms }
  jitter : s.jitter.Alike s'.jitter

/-- Two renderings that are alike: the streams, and what was done. -/
structure Rendered.Alike (r r' : Rendered F D) : Prop where
  stream : r.stream.Alike r'.stream
  done : r'.done = r.done

/-! ### Rendering keeps the numbers in the first half -/

namespace JitterBuffer.Low

omit [F32 F] in
theorem wake (h : s.jitter.Low) (now pull : ℕ) : (s.wake now pull).1.jitter.Low := by
  unfold SenderStream.wake
  split
  · exact h
  · dsimp only
    split
    · exact h
    · split
      · exact h
      · exact h.skipToOldest

theorem playPacket (h : s.jitter.Low) (target : ℕ) (seq : UInt32) (scratch : Scratch F)
    (reports : List Report) :
    (s.playPacket opus target seq scratch reports).stream.jitter.Low := by
  unfold SenderStream.playPacket
  dsimp only
  split
  · exact h.pop _
  · exact h

theorem playMissing (h : s.jitter.Low) (scratch : Scratch F) (reports : List Report) :
    (s.playMissing opus scratch reports).stream.jitter.Low := by
  unfold SenderStream.playMissing
  dsimp only
  split
  · exact h
  · split <;> exact h

theorem playEmpty (h : s.jitter.Low) (scratch : Scratch F) (reports : List Report) :
    (s.playEmpty opus scratch reports).stream.jitter.Low := by
  unfold SenderStream.playEmpty
  dsimp only
  split
  · exact h.endTalkspurt
  · exact h

theorem play (h : s.jitter.Low) (target : ℕ) (scratch : Scratch F) (reports : List Report) :
    (s.play opus target scratch reports).stream.jitter.Low := by
  have hpop := h.pop scratch.opus
  unfold SenderStream.play
  dsimp only
  split <;> rename_i heq <;> rw [heq] at hpop
  · exact playPacket hpop target _ _ reports
  · exact playMissing hpop _ reports
  · exact playEmpty hpop _ reports

theorem render (h : s.jitter.Low) (now pull : ℕ) (scratch : Scratch F) :
    (s.render opus now pull scratch).stream.jitter.Low := by
  have hwake := h.wake now pull
  unfold SenderStream.render
  split <;> rename_i heq <;> rw [heq] at hwake
  · exact hwake
  · exact play hwake _ _ _

end JitterBuffer.Low

/-! ### Alike streams stay alike -/

namespace SenderStream.Alike

omit [F32 F] in
theorem refl (s : SenderStream F D) : s.Alike s := ⟨rfl, .refl _⟩

theorem live_eq (h : s.Alike s') : s'.live = s.live := by
  unfold live
  rw [h.jitter.live_eq, h.same]

omit [F32 F] in
theorem exists_jitter (h : s.Alike s') :
    ∃ jitter frameRms, s' = { s with jitter, frameRms } ∧ s.jitter.Alike jitter :=
  ⟨_, _, h.same, h.jitter⟩

omit [F32 F] in
theorem wake (h : s.Alike s') (now pull : ℕ) :
    (s.wake now pull).1.Alike (s'.wake now pull).1 ∧
      (s'.wake now pull).2 = (s.wake now pull).2 := by
  obtain ⟨jitter, frameRms, rfl, hj⟩ := h.exists_jitter
  have htarget : ({ s with jitter, frameRms } : SenderStream F D).target = s.target := by
    unfold target
    rw [hj.same]
  unfold SenderStream.wake
  rw [htarget]
  dsimp only
  split
  · exact ⟨⟨rfl, hj⟩, rfl⟩
  · rw [hj.countBuffered]
    split
    · exact ⟨⟨rfl, hj⟩, rfl⟩
    · split
      · exact ⟨⟨rfl, hj⟩, rfl⟩
      · obtain ⟨hskip, hskipped⟩ := hj.skipToOldest
        refine ⟨⟨rfl, hskip⟩, ?_⟩
        rw [hskipped]

theorem playPacket (h : s.Alike s') (hlow : s.jitter.Low) (target : ℕ) (seq : UInt32)
    {scratch scratch' : Scratch F} (hopus : scratch'.opus = scratch.opus)
    (reports : List Report) :
    (s.playPacket opus target seq scratch reports).Alike
      (s'.playPacket opus target seq scratch' reports) := by
  obtain ⟨jitter, frameRms, rfl, hj⟩ := h.exists_jitter
  unfold SenderStream.playPacket
  rw [hopus]
  dsimp only
  rw [hj.nextSeq, hj.peek]
  -- Whether to accelerate is the same question for both.
  split <;> rename_i haccelerate <;> split <;> rename_i haccelerate'
  · obtain ⟨hpop, -, hpacket⟩ := hj.pop hlow.next_ne_zero scratch.opus scratch.opus
    rw [hpacket (.inr rfl)]
    exact ⟨⟨rfl, hpop⟩, rfl⟩
  · exact absurd haccelerate haccelerate'
  · exact absurd haccelerate' haccelerate
  · exact ⟨⟨rfl, hj⟩, rfl⟩

theorem playMissing (h : s.Alike s') (scratch scratch' : Scratch F) (reports : List Report) :
    (s.playMissing opus scratch reports).Alike (s'.playMissing opus scratch' reports) := by
  obtain ⟨jitter, frameRms, rfl, hj⟩ := h.exists_jitter
  unfold SenderStream.playMissing
  dsimp only
  rw [hj.nextSeq, hj.peek]
  split
  · exact ⟨⟨rfl, hj⟩, rfl⟩
  · split
    · exact ⟨⟨rfl, hj⟩, rfl⟩
    · exact ⟨⟨rfl, hj⟩, rfl⟩

theorem playEmpty (h : s.Alike s') (scratch scratch' : Scratch F) (reports : List Report) :
    (s.playEmpty opus scratch reports).Alike (s'.playEmpty opus scratch' reports) := by
  obtain ⟨jitter, frameRms, rfl, hj⟩ := h.exists_jitter
  unfold SenderStream.playEmpty
  dsimp only
  split
  · exact ⟨⟨rfl, hj.endTalkspurt⟩, rfl⟩
  · exact ⟨⟨rfl, hj⟩, rfl⟩

theorem play (h : s.Alike s') (hlow : s.jitter.Low) (target : ℕ) (scratch scratch' : Scratch F)
    (reports : List Report) :
    (s.play opus target scratch reports).Alike (s'.play opus target scratch' reports) := by
  obtain ⟨jitter, frameRms, rfl, hj⟩ := h.exists_jitter
  have hpopped := hlow.pop scratch.opus
  obtain ⟨hpop, hanswer, hpacket⟩ := hj.pop hlow.next_ne_zero scratch.opus scratch'.opus
  unfold SenderStream.play
  dsimp only
  rw [hj.countBuffered, hj.nextSeq]
  rcases hs : s.jitter.pop scratch.opus with ⟨popped, packet, answer⟩
  rcases hs' : jitter.pop scratch'.opus with ⟨popped', packet', answer'⟩
  rw [hs] at hpopped
  rw [hs, hs'] at hpop hanswer hpacket
  dsimp only at hpopped hpop hanswer hpacket
  subst hanswer
  cases answer' with
  | packet => exact playPacket ⟨rfl, hpop⟩ hpopped target _ (hpacket (.inl rfl)) reports
  | missing => exact playMissing ⟨rfl, hpop⟩ _ _ reports
  | empty => exact playEmpty ⟨rfl, hpop⟩ _ _ reports

theorem render (h : s.Alike s') (hlow : s.jitter.Low) (now pull : ℕ)
    (scratch scratch' : Scratch F) :
    (s.render opus now pull scratch).Alike (s'.render opus now pull scratch') := by
  have htarget : s'.target = s.target := by
    unfold target
    rw [h.same, h.jitter.same]
  obtain ⟨hwake, hreports⟩ := h.wake now pull
  have hwoken := hlow.wake now pull
  unfold SenderStream.render
  rw [htarget]
  rcases hs : s.wake now pull with ⟨woken, reports⟩
  rcases hs' : s'.wake now pull with ⟨woken', reports'⟩
  rw [hs] at hwoken
  rw [hs, hs'] at hwake hreports
  dsimp only at hwoken hwake hreports
  subst hreports
  cases reports' with
  | none => exact ⟨hwake, rfl⟩
  | some reports => exact hwake.play hwoken s.target scratch scratch' reports

omit [F32 F] in
theorem receive (h : s.Alike s') (seq : UInt32) (packet : Bytes) (now : ℕ) :
    (s.receive seq packet now).1.Alike (s'.receive seq packet now).1 ∧
      (s'.receive seq packet now).2 = (s.receive seq packet now).2 := by
  obtain ⟨jitter, frameRms, rfl, hj⟩ := h.exists_jitter
  obtain ⟨hpush, hlate⟩ := hj.push seq packet now
  unfold SenderStream.receive
  dsimp only
  rw [hlate]
  exact ⟨⟨rfl, hpush⟩, rfl⟩

omit [F32 F] in
/-- Whatever the level is said to be. -/
theorem withLevel (h : s.Alike s') (frameRms : F) : { s with frameRms }.Alike s' :=
  ⟨h.same, h.jitter⟩

end SenderStream.Alike

/-- No frame is a packet. -/
theorem render_lastPacket (now pull : ℕ) (scratch : Scratch F) :
    (s.render opus now pull scratch).stream.lastPacket = s.lastPacket := by
  have hwake : (s.wake now pull).1.lastPacket = s.lastPacket := by
    unfold SenderStream.wake
    split
    · rfl
    · dsimp only
      split
      · rfl
      · split <;> rfl
  unfold SenderStream.render
  split <;> rename_i heq <;> rw [heq] at hwake
  · exact hwake
  · rw [← hwake]
    unfold SenderStream.play
    dsimp only
    split
    · unfold SenderStream.playPacket
      dsimp only
      split <;> rfl
    · unfold SenderStream.playMissing
      dsimp only
      split
      · rfl
      · split <;> rfl
    · unfold SenderStream.playEmpty
      dsimp only
      split <;> rfl

end Streams

end Client
end TcVoice
