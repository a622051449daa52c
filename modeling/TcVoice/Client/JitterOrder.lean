import TcVoice.Client.Jitter
import Mathlib.Logic.Function.Basic

/-!
# The order of playout

Any sequence of calls on a jitter buffer, and what it plays.

* `Watched`, `watch` — the buffer with what was pushed into it, and with what it has played
  since its window last moved to another packet.
* `Watched.Inv` — the packets in the ring are those pushed; and between the packet played
  last and the next one in the ring there is less than a round of the ring.
* `jitter_sound_iff` — **packets are played once, in order and as they were pushed, unless
  the buffer is popped when the number zero is next**; `phantom_packet` is a run in which
  it is.
-/

namespace TcVoice
namespace Client

open Machines

/-! ## Calls -/

/-- A call on a jitter buffer.  No packet has the sequence number zero. -/
inductive Call where
  | push (seq : UInt32) (hseq : seq ≠ 0) (opusData : Bytes) (now : ℕ)
  | pop (out : Bytes)
  | skipToOldest

/-- A jitter buffer; for each sequence number what was pushed with it last and has not been
played since; and the numbers played since the window was last moved by a packet (the start
of the stream, a reset or a re-anchor), the latest in front. -/
structure Watched where
  buffer : JitterBuffer
  pushed : UInt32 → Option Bytes
  played : List UInt32

namespace Watched

def new : Watched := ⟨.new, fun _ => none, []⟩

/-- A push, recorded. -/
def push (w : Watched) (seq : UInt32) (opusData : Bytes) (now : ℕ) : Watched :=
  let b := (w.buffer.push seq opusData now).1
  { buffer := b
    pushed := Function.update w.pushed seq (some opusData)
    played := if b.nextSeq = w.buffer.nextSeq then w.played else [] }

/-- A pop, recorded. -/
def pop (w : Watched) (out : Bytes) : Watched :=
  match w.buffer.pop out with
  | (b, _, .packet) =>
    { buffer := b
      pushed := Function.update w.pushed w.buffer.nextSeq none
      played := w.buffer.nextSeq :: w.played }
  | (b, _, _) => { w with buffer := b }

end Watched

/-- A call, recorded. -/
def watch (w : Watched) : Call → Watched × Unit
  | .push seq _ opusData now => (w.push seq opusData now, ())
  | .pop out => (w.pop out, ())
  | .skipToOldest => ({ w with buffer := w.buffer.skipToOldest.1 }, ())

/-- What is asked of a call: the packets in the ring are in their slots and in the window,
before it and after it; and where it answers `Packet`, it hands out what was pushed last for
the next number and not played since, and that number is after the one played last. -/
def Sound (w : Watched) (call : Call) : Prop :=
  w.buffer.InWindow ∧ (watch w call).1.buffer.InWindow ∧
    ∀ out, call = .pop out → (w.buffer.pop out).2.2 = .packet →
      w.pushed w.buffer.nextSeq = some (w.buffer.pop out).2.1 ∧
        ∀ last ∈ w.played.head?, seqBefore last w.buffer.nextSeq = true

/-- The number that no packet has is not the next one in a pop. -/
def NotZero (w : Watched) (call : Call) : Prop :=
  ∀ out, call = .pop out → w.buffer.started = true → w.buffer.nextSeq ≠ 0

/-! ## The invariant -/

/-- The next number is the one after `last`; or some packet in the ring is less than a round of
the ring behind `last`, so that the window will not step past it. -/
def JitterBuffer.Follows (b : JitterBuffer) (last : UInt32) : Prop :=
  (b.nextSeq - (last + 1)).toNat = 0 ∨ ∃ seq, b.buffered seq = true ∧
    (b.nextSeq - (last + 1)).toNat + (seq - b.nextSeq).toNat < Config.jitterBufMax

/-- What holds in every state of a run that never pops at zero. -/
structure Watched.Inv (w : Watched) : Prop where
  inWindow : w.buffer.InWindow
  first : w.buffer.started = false → (∀ i, (w.buffer.slots i).seq = 0) ∧ w.played = []
  pushed : ∀ i, (w.buffer.slots i).seq ≠ 0 →
    w.pushed (w.buffer.slots i).seq = some (w.buffer.slots i).data
  zero : w.pushed 0 = none
  follows : ∀ last ∈ w.played.head?, w.buffer.Follows last

theorem inv_new : Watched.new.Inv where
  inWindow _ hi := absurd rfl hi
  first _ := ⟨fun _ => rfl, rfl⟩
  pushed _ hi := absurd rfl hi
  zero := rfl
  follows last h := by cases h

section Steps

variable {b b' : JitterBuffer} {w : Watched} {seq last : UInt32} {opusData out : Bytes} {now : ℕ}

/-- The window holds whatever is done. -/
theorem inWindow_watch (hin : w.buffer.InWindow)
    (hfirst : w.buffer.started = false → ∀ i, (w.buffer.slots i).seq = 0) (call : Call) :
    (watch w call).1.buffer.InWindow := by
  cases call with
  | push seq hseq opusData now => exact inWindow_push hin hfirst opusData now
  | pop out =>
    have hpop := inWindow_pop hin out
    show (w.pop out).buffer.InWindow
    unfold Watched.pop
    split <;> rename_i heq <;> rw [heq] at hpop <;> exact hpop
  | skipToOldest => exact inWindow_skipToOldest hin

/-- A packet in the ring has a number in the window, and its slot is not that of another. -/
theorem slot_ne (hin : b.InWindow) (hseq : b.buffered seq = true) {seq' : UInt32}
    (hseq' : seq' ≠ 0) (hwin : (seq' - b.nextSeq).toNat < Config.jitterBufMax)
    (hne : seq ≠ seq') : slotOf seq ≠ slotOf seq' := by
  obtain ⟨hslot, hpos⟩ := buffered_iff.1 hseq
  have hown := hin (slotOf seq)
  rw [hslot] at hown
  intro h
  exact hne (slot_inj hpos hseq' (hown hpos).2 hwin h)

/-! ## Pushes -/

/-- A push that leaves the window where it is leaves the packets in the ring there too. -/
theorem buffered_stored {kept : Fin Config.jitterBufMax → Slot} (hin : b.InWindow)
    (hstored : Stored b b' seq opusData kept) (hpos : seq ≠ 0) (hnext : b'.nextSeq = b.nextSeq)
    {seq' : UInt32} (h : b.buffered seq' = true) : b'.buffered seq' = true := by
  rw [buffered_iff, hstored.slots]
  have hwin := hstored.inWindow
  rw [hnext] at hwin
  by_cases heq : seq' = seq
  · subst heq
    rw [Function.update_self]
    exact ⟨rfl, hpos⟩
  · obtain ⟨hslot, hpos'⟩ := buffered_iff.1 h
    rw [Function.update_of_ne (slot_ne hin h hpos hwin heq),
      hstored.unmoved hnext (slotOf seq') (by rw [hslot]; exact hpos')]
    exact ⟨hslot, hpos'⟩

/-- What was pushed last is what is in the ring. -/
theorem pushed_push (h : w.Inv) (opusData : Bytes) (now : ℕ) (i : Fin Config.jitterBufMax)
    (hi : ((w.push seq opusData now).buffer.slots i).seq ≠ 0) :
    (w.push seq opusData now).pushed ((w.push seq opusData now).buffer.slots i).seq =
      some ((w.push seq opusData now).buffer.slots i).data := by
  have hempty : w.buffer.started = false → ∀ i, (w.buffer.slots i).seq = 0 :=
    fun hs => (h.first hs).1
  have hold : ∀ {i}, (w.buffer.slots i).seq ≠ 0 → (w.buffer.slots i).seq ≠ seq →
      (w.push seq opusData now).pushed (w.buffer.slots i).seq = some (w.buffer.slots i).data :=
    fun hi hne => (Function.update_of_ne hne _ _).trans (h.pushed _ hi)
  obtain ⟨-, ⟨hslots, hdropped⟩ | ⟨kept, hstored⟩⟩ :=
    push_cases h.inWindow hempty seq opusData now
  · have hslots' : (w.push seq opusData now).buffer.slots = w.buffer.slots := hslots
    rw [hslots'] at hi ⊢
    apply hold hi
    rintro rfl
    cases hs : w.buffer.started with
    | true => exact absurd (h.inWindow i hi).2 (not_lt.2 (hdropped hs).2)
    | false => exact hi (hempty hs i)
  · have hslots' : (w.push seq opusData now).buffer.slots =
        Function.update kept (slotOf seq) ⟨seq, opusData⟩ := hstored.slots
    have hnext : (w.push seq opusData now).buffer.nextSeq =
        (w.buffer.push seq opusData now).1.nextSeq := rfl
    rw [hslots'] at hi ⊢
    by_cases hslot : i = slotOf seq
    · subst hslot
      rw [Function.update_self]
      exact Function.update_self _ _ _
    · rw [Function.update_of_ne hslot] at hi ⊢
      obtain ⟨hkept, -⟩ := hstored.keeps i hi
      rw [hkept] at hi ⊢
      apply hold hi
      rintro rfl
      exact hslot (h.inWindow i hi).1.symm

theorem inv_push (h : w.Inv) (hseq : seq ≠ 0) (opusData : Bytes) (now : ℕ) :
    (w.push seq opusData now).Inv := by
  have hempty : w.buffer.started = false → ∀ i, (w.buffer.slots i).seq = 0 :=
    fun hs => (h.first hs).1
  obtain ⟨hstarted, hcases⟩ := push_cases h.inWindow hempty seq opusData now
  refine ⟨inWindow_push h.inWindow hempty opusData now, ?_, pushed_push h opusData now, ?_, ?_⟩
  · intro hs
    rw [show (w.push seq opusData now).buffer.started = true from hstarted] at hs
    cases hs
  · exact (Function.update_of_ne (Ne.symm hseq) _ _).trans h.zero
  · intro last hlast
    by_cases hnext : (w.buffer.push seq opusData now).1.nextSeq = w.buffer.nextSeq
    · have hplayed : (w.push seq opusData now).played = w.played := if_pos hnext
      rw [hplayed] at hlast
      have hfollows := h.follows last hlast
      unfold JitterBuffer.Follows at hfollows ⊢
      rw [show (w.push seq opusData now).buffer.nextSeq = w.buffer.nextSeq from hnext]
      refine hfollows.imp_right ?_
      rintro ⟨seq', hbuf, hnear⟩
      refine ⟨seq', ?_, hnear⟩
      rcases hcases with ⟨hslots, -⟩ | ⟨kept, hstored⟩
      · rw [buffered_iff, show (w.push seq opusData now).buffer.slots = w.buffer.slots from hslots]
        exact buffered_iff.1 hbuf
      · exact buffered_stored h.inWindow hstored hseq hnext hbuf
    · have hplayed : (w.push seq opusData now).played = [] := if_neg hnext
      rw [hplayed] at hlast
      cases hlast

/-! ## Skips and pops -/

theorem ahead_sub (b : JitterBuffer) (offset : ℕ) (next : UInt32) :
    (b.ahead offset - next).toNat = ((b.nextSeq - next).toNat + offset) % 2 ^ 32 := by
  have hnext := UInt32.toNat_lt next
  have hbuf := UInt32.toNat_lt b.nextSeq
  unfold JitterBuffer.ahead
  rw [UInt32.toNat_sub, UInt32.toNat_sub, UInt32.toNat_add, UInt32.toNat_ofNat']
  omega

/-- A step to the first packet in the ring. -/
theorem follows_skip (hslots : b'.slots = b.slots) {offset : ℕ}
    (hlt : offset < Config.jitterBufMax) (hnext : b'.nextSeq = b.ahead offset)
    (hbuf : b.buffered (b.ahead offset) = true)
    (hfirst : ∀ earlier < offset, b.buffered (b.ahead earlier) = false)
    (h : b.Follows last) : b'.Follows last := by
  have hcap : Config.jitterBufMax = 15 := rfl
  have hplace := ahead_sub b offset (last + 1)
  have hbuf' : b'.buffered (b.ahead offset) = true := by
    rw [buffered_iff, hslots]
    exact buffered_iff.1 hbuf
  refine .inr ⟨b.ahead offset, hbuf', ?_⟩
  rw [hnext, UInt32.sub_self, hplace]
  show _ + 0 < _
  rcases h with hzero | ⟨seq, hseq, hnear⟩
  · omega
  · have hle : offset ≤ (seq - b.nextSeq).toNat := by
      by_contra hgt
      have hnone := hfirst _ (not_le.1 hgt)
      rw [ahead_offset, hseq] at hnone
      cases hnone
    omega

theorem inv_skip (h : w.Inv) : (watch w .skipToOldest).1.Inv := by
  obtain ⟨hslots, hstarted, hcases⟩ := skipToOldest_cases (b := w.buffer)
  refine ⟨inWindow_skipToOldest h.inWindow, ?_, ?_, h.zero, ?_⟩
  · intro hs
    obtain ⟨hempty, hplayed⟩ := h.first (hstarted.symm.trans hs)
    exact ⟨fun i => (congrArg (fun slots => (slots i).seq) hslots).trans (hempty i), hplayed⟩
  · intro i hi
    exact h.pushed i hi
  · intro last hlast
    have hfollows := h.follows last hlast
    show w.buffer.skipToOldest.1.Follows last
    rcases hcases with hnext | ⟨offset, hlt, hnext, hbuf, hfirst⟩
    · unfold JitterBuffer.Follows at hfollows ⊢
      rw [hnext]
      exact hfollows
    · exact follows_skip hslots hlt hnext hbuf hfirst hfollows

/-- A step past a packet that is missing, towards one in the ring. -/
theorem follows_missing (hin : b.InWindow) (hzero : b.nextSeq ≠ 0)
    (hhead : (b.slots (slotOf b.nextSeq)).seq ≠ b.nextSeq) {slot : Slot}
    (hslots : b'.slots = Function.update b.slots (slotOf b.nextSeq) slot)
    (hnext : b'.nextSeq = b.nextSeq + 1) {offset : ℕ} (hpos : 0 < offset)
    (hlt : offset < Config.jitterBufMax) (hbuf : b.buffered (b.ahead offset) = true)
    (h : b.Follows last) : b'.Follows last := by
  have hcap : Config.jitterBufMax = 15 := rfl
  have hstep := ahead_sub b 1 (last + 1)
  have hone : b.ahead 1 = b'.nextSeq := hnext.symm
  -- Whatever is in the ring is behind the number that is missing, and stays.
  have hkept : ∀ {seq}, b.buffered seq = true → b'.buffered seq = true ∧
      (seq - b'.nextSeq).toNat + 1 = (seq - b.nextSeq).toNat := by
    intro seq hseq
    have hne : seq ≠ b.nextSeq := by
      rintro rfl
      exact hhead (buffered_iff.1 hseq).1
    have hslot := slot_ne hin hseq hzero (by rw [UInt32.sub_self]; decide) hne
    rw [hnext]
    refine ⟨?_, offset_succ hne⟩
    rw [buffered_iff, hslots, Function.update_of_ne hslot]
    exact buffered_iff.1 hseq
  rw [hone] at hstep
  rcases h with hsame | ⟨seq, hseq, hnear⟩
  · obtain ⟨hbuf', hplace⟩ := hkept hbuf
    rw [offset_ahead hlt] at hplace
    exact .inr ⟨_, hbuf', by omega⟩
  · obtain ⟨hseq', hplace⟩ := hkept hseq
    exact .inr ⟨seq, hseq', by omega⟩

/-- A slot that is emptied takes no packet along but that of the next number. -/
theorem pushed_emptied (h : w.Inv) {slot : Slot} (hslot : slot.seq = 0)
    (hslots : b'.slots = Function.update w.buffer.slots (slotOf w.buffer.nextSeq) slot)
    (i : Fin Config.jitterBufMax) (hi : (b'.slots i).seq ≠ 0) :
    (b'.slots i).seq ≠ w.buffer.nextSeq ∧
      w.pushed (b'.slots i).seq = some (b'.slots i).data := by
  rw [hslots] at hi ⊢
  have hne : i ≠ slotOf w.buffer.nextSeq := by
    rintro rfl
    rw [Function.update_self] at hi
    exact hi hslot
  rw [Function.update_of_ne hne] at hi ⊢
  refine ⟨?_, h.pushed i hi⟩
  intro heq
  have hown := (h.inWindow i hi).1
  rw [heq] at hown
  exact hne hown.symm

theorem inv_pop (h : w.Inv) (hzero : w.buffer.started = true → w.buffer.nextSeq ≠ 0)
    (out : Bytes) : (w.pop out).Inv := by
  have hin : (w.pop out).buffer.InWindow :=
    inWindow_watch h.inWindow (fun hs => (h.first hs).1) (.pop out)
  cases hstarted : w.buffer.started with
  | false =>
    have hsame : w.pop out = w := by
      unfold Watched.pop
      rw [pop_of_not_started hstarted]
    rw [hsame]
    exact h
  | true =>
    rcases pop_cases hstarted out with ⟨hhead, hpop⟩ | ⟨hhead, ⟨⟨offset, hpos, hlt, hbuf⟩, hpop⟩ |
      hpop⟩
    · unfold Watched.pop at hin ⊢
      rw [hpop] at hin ⊢
      refine ⟨hin, fun hs => ?_, ?_, ?_, ?_⟩
      · rw [show w.buffer.started = false from hs] at hstarted
        cases hstarted
      · intro i hi
        obtain ⟨hne, hpushed⟩ := pushed_emptied h rfl rfl i hi
        exact (Function.update_of_ne hne _ _).trans hpushed
      · exact (Function.update_of_ne (Ne.symm (hzero hstarted)) _ _).trans h.zero
      · intro last hlast
        cases hlast
        left
        show (w.buffer.nextSeq + 1 - (w.buffer.nextSeq + 1)).toNat = 0
        rw [UInt32.sub_self]
        rfl
    · unfold Watched.pop at hin ⊢
      rw [hpop] at hin ⊢
      refine ⟨hin, fun hs => ?_, ?_, h.zero, ?_⟩
      · rw [show w.buffer.started = false from hs] at hstarted
        cases hstarted
      · intro i hi
        exact (pushed_emptied h rfl rfl i hi).2
      · intro last hlast
        exact follows_missing h.inWindow (hzero hstarted) hhead rfl rfl hpos hlt hbuf
          (h.follows last hlast)
    · have hsame : w.pop out = w := by
        unfold Watched.pop
        rw [hpop]
      rw [hsame]
      exact h

theorem inv_watch (h : w.Inv) (call : Call) (hzero : NotZero w call) : (watch w call).1.Inv := by
  cases call with
  | push seq hseq opusData now => exact inv_push h hseq opusData now
  | pop out => exact inv_pop h (hzero out rfl) out
  | skipToOldest => exact inv_skip h

/-! ## What is played -/

/-- The number zero is answered with a packet: its slot, where it is next, is empty, and the
mark of an empty slot is that number. -/
theorem pop_zero (h : w.Inv) (hstarted : w.buffer.started = true) (hnext : w.buffer.nextSeq = 0)
    (out : Bytes) : (w.buffer.pop out).2.2 = .packet := by
  have hempty : (w.buffer.slots (slotOf w.buffer.nextSeq)).seq = 0 := by
    by_contra hseq
    obtain ⟨hown, hwin⟩ := h.inWindow _ hseq
    rw [hnext] at hseq hown hwin
    have hslot : (w.buffer.slots (slotOf 0)).seq.toNat % 15 = 0 := congrArg Fin.val hown
    rw [UInt32.sub_zero] at hwin
    unfold Config.jitterBufMax at hwin
    apply toNat_ne_zero hseq
    omega
  rcases pop_cases hstarted out with ⟨-, hpop⟩ | ⟨hhead, -⟩
  · rw [hpop]
  · exact absurd (hempty.trans hnext.symm) hhead

/-- A number that has been reached from the last one played is after it. -/
theorem seqBefore_of_follows (h : b.Follows last) : seqBefore last b.nextSeq = true := by
  have hcap : Config.jitterBufMax = 15 := rfl
  have hlast := UInt32.toNat_lt last
  have hnext := UInt32.toNat_lt b.nextSeq
  have hnear : (b.nextSeq - (last + 1)).toNat < 15 := by
    rcases h with hsame | ⟨seq, -, hnear⟩ <;> omega
  have hone : (last + 1).toNat = (last.toNat + 1) % 2 ^ 32 := by
    rw [UInt32.toNat_add]
    rfl
  rw [UInt32.toNat_sub, hone] at hnear
  rw [seqBefore_iff, UInt32.toNat_sub]
  omega

theorem sound_iff (h : w.Inv) (call : Call) : Sound w call ↔ NotZero w call := by
  have hempty : w.buffer.started = false → ∀ i, (w.buffer.slots i).seq = 0 :=
    fun hs => (h.first hs).1
  constructor
  · rintro ⟨-, -, hplayed⟩ out hcall hstarted hnext
    obtain ⟨hpushed, -⟩ := hplayed out hcall (pop_zero h hstarted hnext out)
    rw [hnext, h.zero] at hpushed
    cases hpushed
  · intro hzero
    refine ⟨h.inWindow, inWindow_watch h.inWindow hempty call, ?_⟩
    intro out hcall hpacket
    cases hstarted : w.buffer.started with
    | false =>
      rw [pop_of_not_started hstarted] at hpacket
      cases hpacket
    | true =>
      rcases pop_cases hstarted out with ⟨hhead, hpop⟩ | ⟨-, ⟨-, hpop⟩ | hpop⟩
      · have hpushed := h.pushed (slotOf w.buffer.nextSeq) (by
          rw [hhead]
          exact hzero out hcall hstarted)
        rw [hhead] at hpushed
        rw [hpop]
        exact ⟨hpushed, fun last hlast => seqBefore_of_follows (h.follows last hlast)⟩
      · rw [hpop] at hpacket
        cases hpacket
      · rw [hpop] at hpacket
        cases hpacket

end Steps

/-- **In every run of calls on a new jitter buffer**, the packets in the ring are in their
slots and in the window in every state, and what is played is what was pushed, once and in
order, exactly if the buffer is never popped when the number zero is next. -/
theorem jitter_sound_iff (calls : List Call) :
    Along watch Sound .new calls ↔ Along watch NotZero .new calls :=
  along_congr (fun (w : Watched) call (h : w.Inv) hzero => inv_watch h call hzero)
    (fun _ call h => sound_iff h call) inv_new calls

/-- The last number before the turn of the counter is pushed and popped; the next pop answers
with a packet that nobody has pushed. -/
theorem phantom_packet : ¬ Along watch Sound .new
    [.push 4294967295 (by decide) [7] 0, .pop [], .pop []] := by
  rintro ⟨-, -, ⟨-, -, hplayed⟩, -⟩
  obtain ⟨hpushed, -⟩ := hplayed [] rfl (by decide +kernel)
  revert hpushed
  decide +kernel

end Client
end TcVoice
