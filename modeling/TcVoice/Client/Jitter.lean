import TcVoice.Shared.Protocol
import TcVoice.Lib.Machines

/-!
# The jitter buffer

`JitterBuffer` of `crates/client/src/playout.rs`: packets of one sender in a ring of
fifteen slots, addressed by sequence number, with a window that starts at the next
number to be played.

* `JitterBuffer.push`, `pop`, `skipToOldest` — as in the source.
* `JitterBuffer.InWindow` — every packet in the ring is in its slot and in the window;
  `slot_inj` — two of a window are never in one slot.
* `push_cases`, `pop_cases`, `skipToOldest_cases` — what a call can do.
* `inWindow_push`, `inWindow_pop`, `inWindow_skipToOldest` — **every call keeps the
  window**.

What runs of calls come to is in `JitterOrder`.
-/

namespace TcVoice
namespace Client

/-! ## Sequence numbers -/

/-- `seq_before`: from `a` it is less than half a round to `b`. -/
def seqBefore (a b : UInt32) : Bool :=
  let diff := b - a
  decide (0 < diff) && decide (diff < 0x80000000)

/-- The slots of the ring; a sequence number of zero marks an empty one. -/
structure Slot where
  seq : UInt32
  data : Bytes
  deriving DecidableEq, Repr

/-- The slot of a sequence number. -/
def slotOf (seq : UInt32) : Fin Config.jitterBufMax :=
  ⟨seq.toNat % Config.jitterBufMax, Nat.mod_lt _ (by decide)⟩

/-! ## The buffer -/

/-- `JitterBuffer`.  Instants are in nanoseconds. -/
structure JitterBuffer where
  slots : Fin Config.jitterBufMax → Slot
  nextSeq : UInt32
  started : Bool
  provisional : Bool
  jitterMs : Float
  reference : Option (ℕ × UInt32)
  spurtPackets : ℕ
  outOfWindow : ℕ

/-- `PopResult`. -/
inductive PopResult where
  | packet
  | missing
  | empty
  deriving DecidableEq, Repr

/-- `TALKSPURT_ONSET_PACKETS`. -/
def talkspurtOnsetPackets : ℕ := Config.vadPrerollFrames + 1

/-- `REANCHOR_MAX`. -/
def reanchorMax : ℕ := Config.jitterBufMax / 2

/-- `FRAME_MS`. -/
def frameMs : Float := Float.ofNat Config.frameSize * 1000.0 / 48000.0

namespace JitterBuffer

/-- `JitterBuffer::new`. -/
def new : JitterBuffer where
  slots _ := ⟨0, []⟩
  nextSeq := 0
  started := false
  provisional := true
  jitterMs := 0.0
  reference := none
  spurtPackets := 0
  outOfWindow := 0

variable (b : JitterBuffer)

/-- `reset_to`. -/
def resetTo (seq : UInt32) : JitterBuffer :=
  { b with
    nextSeq := seq, provisional := true, slots := fun i => { b.slots i with seq := 0 }
    jitterMs := 0.0, reference := none, spurtPackets := 0, outOfWindow := 0 }

/-- `observe`: one arrival for the jitter estimate. -/
def observe (seq : UInt32) (now : ℕ) : JitterBuffer :=
  let spurtPackets := min (b.spurtPackets + 1) (2 ^ 32 - 1)
  if spurtPackets < talkspurtOnsetPackets then { b with spurtPackets }
  else
    let jitterMs := match b.reference with
      | some (at_, refSeq) =>
        let arrivalMs := Float.ofNat (now - at_) / 1000000000.0 * 1000.0
        let seqMs := Float.ofInt (seq - refSeq).toInt32.toInt * frameMs
        let d := arrivalMs - seqMs
        b.jitterMs + (d.abs - b.jitterMs) / 16.0
      | none => b.jitterMs
    { b with spurtPackets, jitterMs, reference := some (now, seq) }

/-- Whether a packet with this sequence number is in the ring. -/
def buffered (seq : UInt32) : Bool := (b.slots (slotOf seq)).seq == seq && seq != 0

/-- The sequence number `offset` places behind the next one. -/
def ahead (offset : ℕ) : UInt32 := b.nextSeq + .ofNat offset

/-- `fits_from`. -/
def fitsFrom (start : UInt32) : Bool :=
  (List.range Config.jitterBufMax).all fun offset =>
    let seq := b.ahead offset
    !b.buffered seq || decide ((seq - start).toNat < Config.jitterBufMax)

/-- What `push` does about a packet that is too old: the buffer that goes on with it, or
`none` if it is dropped as late. -/
def accept (seq : UInt32) : Option JitterBuffer :=
  if seqBefore seq b.nextSeq then
    let gap := (b.nextSeq - seq).toNat
    if Config.jitterBufMax * 2 < gap then some (b.resetTo seq)
    else if b.provisional && decide (gap ≤ reanchorMax) && b.fitsFrom seq then
      some { b with nextSeq := seq }
    else none
  else some b

/-- Into the slot of the packet. -/
def store (seq : UInt32) (opusData : Bytes) (now : ℕ) : JitterBuffer :=
  let b := b.observe seq now
  { b with slots := Function.update b.slots (slotOf seq) ⟨seq, opusData⟩ }

/-- `push` of a started buffer. -/
def place (seq : UInt32) (opusData : Bytes) (now : ℕ) : JitterBuffer × Bool :=
  match b.accept seq with
  | none => (b.observe seq now, true)
  | some b =>
    if Config.jitterBufMax ≤ (seq - b.nextSeq).toNat then
      let b := { b with outOfWindow := b.outOfWindow + 1 }
      if Config.jitterResyncAfter ≤ b.outOfWindow then
        ((b.resetTo seq).store seq opusData now, false)
      else (b, false)
    else ({ b with outOfWindow := 0 }.store seq opusData now, false)

/-- `push`, and whether the packet was dropped as late. -/
def push (seq : UInt32) (opusData : Bytes) (now : ℕ) : JitterBuffer × Bool :=
  let b := if b.started then b else { b with nextSeq := seq, started := true }
  b.place seq opusData now

/-- `end_talkspurt`. -/
def endTalkspurt : JitterBuffer := { b with reference := none, spurtPackets := 0 }

/-- `peek`. -/
def peek (seq : UInt32) : Option Bytes :=
  if b.buffered seq then some (b.slots (slotOf seq)).data else none

/-- `skip_to_oldest`, and how many sequence numbers were passed over. -/
def skipToOldest : JitterBuffer × ℕ :=
  let skipped := ((List.range Config.jitterBufMax).find? fun offset =>
    (b.peek (b.ahead offset)).isSome).getD 0
  ({ b with
    nextSeq := b.ahead skipped, provisional := if 0 < skipped then false else b.provisional },
    skipped)

/-- `pop`, with the buffer that the data is swapped into. -/
def pop (out : Bytes) : JitterBuffer × Bytes × PopResult :=
  if !b.started then (b, out, .empty)
  else
    let idx := slotOf b.nextSeq
    if (b.slots idx).seq = b.nextSeq then
      ({ b with
        slots := Function.update b.slots idx ⟨0, out⟩, nextSeq := b.nextSeq + 1
        provisional := false },
        (b.slots idx).data, .packet)
    else
      -- Stored packets are looked for with the test for zero, which the head lacks.
      let hasFuture := (List.range' 1 (Config.jitterBufMax - 1)).any fun offset =>
        b.buffered (b.ahead offset)
      if hasFuture then
        ({ b with
          slots := Function.update b.slots idx { b.slots idx with seq := 0 }
          nextSeq := b.nextSeq + 1, provisional := false }, out, .missing)
      else (b, out, .empty)

/-- `count_buffered`. -/
def countBuffered : ℕ :=
  ((List.range Config.jitterBufMax).filter fun offset => b.buffered (b.ahead offset)).length

/-! ## The window -/

/-- Every packet in the ring is in the slot of its number, and its number is in the window. -/
def InWindow : Prop := ∀ i, (b.slots i).seq ≠ 0 →
  slotOf (b.slots i).seq = i ∧ ((b.slots i).seq - b.nextSeq).toNat < Config.jitterBufMax

/-- Slots with nothing in them but packets of the buffer that are in the window from `next`. -/
def Keeps (slots : Fin Config.jitterBufMax → Slot) (next : UInt32) : Prop :=
  ∀ i, (slots i).seq ≠ 0 →
    slots i = b.slots i ∧ ((slots i).seq - next).toNat < Config.jitterBufMax

end JitterBuffer

section Window

variable {b : JitterBuffer} {seq next : UInt32} {opusData out : Bytes} {now : ℕ}

/-- A number and its place behind another, with and without a turn of the counter between. -/
theorem offset_cases (seq next : UInt32) :
    seq.toNat = next.toNat + (seq - next).toNat ∨
      seq.toNat + 2 ^ 32 = next.toNat + (seq - next).toNat := by
  have hseq := UInt32.toNat_lt seq
  have hnext := UInt32.toNat_lt next
  rw [UInt32.toNat_sub]
  omega

theorem toNat_ne_zero (hseq : seq ≠ 0) : seq.toNat ≠ 0 := by
  intro h
  exact hseq (UInt32.toNat_inj.1 h)

/-- Two packets of one window are in one slot only if they are one: the number zero, which is
never sent, separates the two numbers that a turn of the counter puts into one slot. -/
theorem slot_inj {seq' : UInt32} (hseq : seq ≠ 0) (hseq' : seq' ≠ 0)
    (hwin : (seq - next).toNat < Config.jitterBufMax)
    (hwin' : (seq' - next).toNat < Config.jitterBufMax) (h : slotOf seq = slotOf seq') :
    seq = seq' := by
  have hmod : seq.toNat % 15 = seq'.toNat % 15 := congrArg Fin.val h
  have hpos := toNat_ne_zero hseq
  have hpos' := toNat_ne_zero hseq'
  have hlt := UInt32.toNat_lt seq
  have hlt' := UInt32.toNat_lt seq'
  have hoff := offset_cases seq next
  have hoff' := offset_cases seq' next
  unfold Config.jitterBufMax at hwin hwin'
  apply UInt32.toNat_inj.1
  omega

theorem buffered_iff : b.buffered seq = true ↔ (b.slots (slotOf seq)).seq = seq ∧ seq ≠ 0 := by
  unfold JitterBuffer.buffered
  rw [Bool.and_eq_true, beq_iff_eq, bne_iff_ne]

theorem peek_isSome_iff : (b.peek seq).isSome = true ↔ b.buffered seq = true := by
  unfold JitterBuffer.peek
  split <;> simp_all

/-- A number is as far ahead as it is behind the next one. -/
theorem ahead_offset (seq : UInt32) : b.ahead (seq - b.nextSeq).toNat = seq := by
  unfold JitterBuffer.ahead
  rw [UInt32.ofNat_toNat, UInt32.add_comm, UInt32.sub_add_cancel]

theorem offset_ahead {offset : ℕ} (h : offset < Config.jitterBufMax) :
    (b.ahead offset - b.nextSeq).toNat = offset := by
  have hnext := UInt32.toNat_lt b.nextSeq
  unfold JitterBuffer.ahead
  unfold Config.jitterBufMax at h
  rw [UInt32.toNat_sub, UInt32.toNat_add, UInt32.toNat_ofNat']
  omega

/-- A step of the window takes one off the place of every number but the first. -/
theorem offset_succ (h : seq ≠ next) : (seq - (next + 1)).toNat + 1 = (seq - next).toNat := by
  have hseq := UInt32.toNat_lt seq
  have hnext := UInt32.toNat_lt next
  have hne : seq.toNat ≠ next.toNat := fun heq => h (UInt32.toNat_inj.1 heq)
  rw [UInt32.toNat_sub, UInt32.toNat_sub, UInt32.toNat_add]
  show (2 ^ 32 - (next.toNat + 1) % 2 ^ 32 + seq.toNat) % 2 ^ 32 + 1 = _
  omega

@[simp] theorem observe_slots : (b.observe seq now).slots = b.slots := by
  unfold JitterBuffer.observe
  dsimp only
  split <;> rfl

@[simp] theorem observe_nextSeq : (b.observe seq now).nextSeq = b.nextSeq := by
  unfold JitterBuffer.observe
  dsimp only
  split <;> rfl

@[simp] theorem observe_started : (b.observe seq now).started = b.started := by
  unfold JitterBuffer.observe
  dsimp only
  split <;> rfl

/-- What is in a window is kept as it is. -/
theorem keeps_self (h : b.InWindow) : b.Keeps b.slots b.nextSeq := by
  intro i hi
  exact ⟨rfl, (h i hi).2⟩

/-- If the buffer fits from a number on, its packets are in the window from there. -/
theorem keeps_of_fitsFrom (h : b.InWindow) (hfit : b.fitsFrom seq = true) :
    b.Keeps b.slots seq := by
  intro i hi
  refine ⟨rfl, ?_⟩
  obtain ⟨hslot, hwin⟩ := h i hi
  have hin : b.buffered (b.slots i).seq = true := by
    rw [buffered_iff, hslot]
    exact ⟨rfl, hi⟩
  have hall := List.all_eq_true.1 hfit _ (List.mem_range.2 hwin)
  simp only [ahead_offset, hin, Bool.not_true, Bool.false_or, decide_eq_true_eq] at hall
  exact hall

theorem seqBefore_iff {a c : UInt32} :
    seqBefore a c = true ↔ 0 < (c - a).toNat ∧ (c - a).toNat < 2 ^ 31 := by
  unfold seqBefore
  rw [Bool.and_eq_true, decide_eq_true_eq, decide_eq_true_eq, UInt32.lt_iff_toNat_lt,
    UInt32.lt_iff_toNat_lt]
  exact Iff.rfl

/-- A packet that is not dropped as late leaves the window where it is, or makes it start with
its own number, with all that stays in the ring inside it. -/
theorem accept_cases (h : b.InWindow) {b' : JitterBuffer} (haccept : b.accept seq = some b') :
    b'.started = b.started ∧ b.Keeps b'.slots b'.nextSeq ∧
      (b' = b ∨ b'.nextSeq = seq ∧ b'.nextSeq ≠ b.nextSeq) := by
  unfold JitterBuffer.accept at haccept
  split at haccept
  · rename_i hbefore
    have hne : seq ≠ b.nextSeq := by
      rintro rfl
      rw [seqBefore_iff, UInt32.sub_self] at hbefore
      exact absurd hbefore.1 (by decide)
    dsimp only at haccept
    split at haccept
    · cases haccept
      exact ⟨rfl, fun i hi => absurd rfl hi, .inr ⟨rfl, hne⟩⟩
    · split at haccept
      · rename_i hanchor
        cases haccept
        rw [Bool.and_eq_true] at hanchor
        exact ⟨rfl, keeps_of_fitsFrom h hanchor.2, .inr ⟨rfl, hne⟩⟩
      · cases haccept
  · cases haccept
    exact ⟨rfl, keeps_self h, .inl rfl⟩

/-- A packet that is dropped as late is not of the window. -/
theorem not_inWindow_of_accept (haccept : b.accept seq = none) :
    Config.jitterBufMax ≤ (seq - b.nextSeq).toNat := by
  unfold JitterBuffer.accept at haccept
  split at haccept
  · rename_i hbefore
    rw [seqBefore_iff, UInt32.toNat_sub] at hbefore
    have hseq := UInt32.toNat_lt seq
    have hnext := UInt32.toNat_lt b.nextSeq
    have hcap : Config.jitterBufMax = 15 := rfl
    rw [UInt32.toNat_sub]
    omega
  · cases haccept

/-- What a push does to the ring: nothing; or the packet goes into its slot, in the window, over
what was kept of the ring, which is all of it unless the window has moved. -/
structure Stored (b b' : JitterBuffer) (seq : UInt32) (opusData : Bytes)
    (kept : Fin Config.jitterBufMax → Slot) : Prop where
  slots : b'.slots = Function.update kept (slotOf seq) ⟨seq, opusData⟩
  inWindow : (seq - b'.nextSeq).toNat < Config.jitterBufMax
  keeps : b.Keeps kept b'.nextSeq
  unmoved : b'.nextSeq = b.nextSeq → ∀ i, (b.slots i).seq ≠ 0 → kept i = b.slots i

theorem stored_store {b' : JitterBuffer} (hkeeps : b.Keeps b'.slots b'.nextSeq)
    (hunmoved : b'.nextSeq = b.nextSeq → b'.slots = b.slots)
    (hwin : (seq - b'.nextSeq).toNat < Config.jitterBufMax) :
    Stored b (b'.store seq opusData now) seq opusData b'.slots := by
  constructor
  · simp only [JitterBuffer.store, observe_slots]
  · simpa only [JitterBuffer.store, observe_nextSeq] using hwin
  · simpa only [JitterBuffer.store, observe_nextSeq] using hkeeps
  · intro hnext i _
    simp only [JitterBuffer.store, observe_nextSeq] at hnext
    rw [hunmoved hnext]

theorem place_cases (h : b.InWindow) (seq : UInt32) (opusData : Bytes) (now : ℕ) :
    (b.place seq opusData now).1.started = b.started ∧
      ((b.place seq opusData now).1.slots = b.slots ∧
          (b.place seq opusData now).1.nextSeq = b.nextSeq ∧
            Config.jitterBufMax ≤ (seq - b.nextSeq).toNat ∨
        ∃ kept, Stored b (b.place seq opusData now).1 seq opusData kept) := by
  unfold JitterBuffer.place
  cases haccept : b.accept seq with
  | none =>
    dsimp only
    exact ⟨observe_started, .inl ⟨observe_slots, observe_nextSeq, not_inWindow_of_accept haccept⟩⟩
  | some b' =>
    obtain ⟨hstarted, hkeeps, hmoved⟩ := accept_cases h haccept
    have hsame : b'.nextSeq = b.nextSeq → b' = b := by
      intro hnext
      exact hmoved.resolve_right fun hne => hne.2 hnext
    dsimp only
    split
    · rename_i hfar
      have hb' : b' = b := by
        refine hmoved.resolve_right fun hne => ?_
        rw [hne.1, UInt32.sub_self] at hfar
        exact absurd hfar (by decide)
      subst hb'
      split
      · -- The third packet beyond the ring: the window starts anew with it.
        refine ⟨observe_started, .inr ⟨_, stored_store ?_ ?_ ?_⟩⟩
        · exact fun i hi => absurd rfl hi
        · intro hnext
          have hnext' : seq = b'.nextSeq := hnext
          rw [hnext', UInt32.sub_self] at hfar
          exact absurd hfar (by decide)
        · show (seq - seq).toNat < _
          rw [UInt32.sub_self]
          decide
      · exact ⟨rfl, .inl ⟨rfl, rfl, hfar⟩⟩
    · rename_i hnear
      refine ⟨observe_started.trans hstarted, .inr ⟨_, stored_store hkeeps ?_ (not_le.1 hnear)⟩⟩
      intro hnext
      rw [hsame hnext]

/-- **What a push can do.**  A first packet finds a ring with nothing in it. -/
theorem push_cases (h : b.InWindow) (hfirst : b.started = false → ∀ i, (b.slots i).seq = 0)
    (seq : UInt32) (opusData : Bytes) (now : ℕ) :
    (b.push seq opusData now).1.started = true ∧
      ((b.push seq opusData now).1.slots = b.slots ∧
          (b.started = true → (b.push seq opusData now).1.nextSeq = b.nextSeq ∧
            Config.jitterBufMax ≤ (seq - b.nextSeq).toNat) ∨
        ∃ kept, Stored b (b.push seq opusData now).1 seq opusData kept) := by
  unfold JitterBuffer.push
  dsimp only
  split
  · rename_i hstarted
    obtain ⟨hkept, hcases⟩ := place_cases h seq opusData now
    exact ⟨hkept.trans hstarted, hcases.imp_left fun hsame => ⟨hsame.1, fun _ => hsame.2⟩⟩
  · rename_i hstarted
    have hempty := hfirst (Bool.eq_false_iff.2 hstarted)
    have hin : JitterBuffer.InWindow { b with nextSeq := seq, started := true } :=
      fun i hi => absurd (hempty i) hi
    obtain ⟨hkept, hcases⟩ := place_cases hin seq opusData now
    refine ⟨hkept, hcases.imp ?_ ?_⟩
    · intro hsame
      exact ⟨hsame.1, fun hs => absurd hs hstarted⟩
    · rintro ⟨kept, hstored⟩
      exact ⟨kept, hstored.slots, hstored.inWindow, hstored.keeps,
        fun _ i hi => absurd (hempty i) hi⟩

theorem pop_of_not_started (hstarted : b.started = false) (out : Bytes) :
    b.pop out = (b, out, .empty) := by
  unfold JitterBuffer.pop
  rw [hstarted]
  rfl

theorem pop_of_started (hstarted : b.started = true) (out : Bytes) :
    b.pop out =
      if (b.slots (slotOf b.nextSeq)).seq = b.nextSeq then
        ({ b with
          slots := Function.update b.slots (slotOf b.nextSeq) ⟨0, out⟩
          nextSeq := b.nextSeq + 1, provisional := false },
          (b.slots (slotOf b.nextSeq)).data, .packet)
      else if (List.range' 1 (Config.jitterBufMax - 1)).any fun offset =>
          b.buffered (b.ahead offset) then
        ({ b with
          slots := Function.update b.slots (slotOf b.nextSeq)
            { b.slots (slotOf b.nextSeq) with seq := 0 }
          nextSeq := b.nextSeq + 1, provisional := false }, out, .missing)
      else (b, out, .empty) := by
  unfold JitterBuffer.pop
  rw [hstarted]
  rfl

/-- **What a pop can do** in a buffer that has started. -/
theorem pop_cases (hstarted : b.started = true) (out : Bytes) :
    ((b.slots (slotOf b.nextSeq)).seq = b.nextSeq ∧
        b.pop out = ({ b with
          slots := Function.update b.slots (slotOf b.nextSeq) ⟨0, out⟩
          nextSeq := b.nextSeq + 1, provisional := false },
          (b.slots (slotOf b.nextSeq)).data, .packet)) ∨
      (b.slots (slotOf b.nextSeq)).seq ≠ b.nextSeq ∧
        ((∃ offset, 0 < offset ∧ offset < Config.jitterBufMax ∧
            b.buffered (b.ahead offset) = true) ∧
          b.pop out = ({ b with
            slots := Function.update b.slots (slotOf b.nextSeq)
              { b.slots (slotOf b.nextSeq) with seq := 0 }
            nextSeq := b.nextSeq + 1, provisional := false }, out, .missing) ∨
          b.pop out = (b, out, .empty)) := by
  rw [pop_of_started hstarted]
  split
  · rename_i hhead
    exact .inl ⟨hhead, rfl⟩
  · rename_i hhead
    refine .inr ⟨hhead, ?_⟩
    split
    · rename_i hfuture
      obtain ⟨offset, hmem, hbuf⟩ := List.any_eq_true.1 hfuture
      rw [List.mem_range'_1] at hmem
      refine .inl ⟨⟨offset, ?_, ?_, hbuf⟩, rfl⟩
      · omega
      · have hcap : Config.jitterBufMax = 15 := rfl
        omega
    · exact .inr rfl

/-- **What a skip can do**: it stays, or it steps to the first packet in the ring. -/
theorem skipToOldest_cases :
    b.skipToOldest.1.slots = b.slots ∧ b.skipToOldest.1.started = b.started ∧
      (b.skipToOldest.1.nextSeq = b.nextSeq ∨
        ∃ offset < Config.jitterBufMax, b.skipToOldest.1.nextSeq = b.ahead offset ∧
          b.buffered (b.ahead offset) = true ∧
            ∀ earlier < offset, b.buffered (b.ahead earlier) = false) := by
  refine ⟨rfl, rfl, ?_⟩
  unfold JitterBuffer.skipToOldest
  dsimp only
  cases hfind : (List.range Config.jitterBufMax).find? fun offset =>
    (b.peek (b.ahead offset)).isSome with
  | none =>
    left
    show b.nextSeq + 0 = b.nextSeq
    exact UInt32.add_zero _
  | some offset =>
    right
    obtain ⟨hbuf, hrange, hfirst⟩ := List.find?_range_eq_some.1 hfind
    refine ⟨offset, List.mem_range.1 hrange, rfl, peek_isSome_iff.1 hbuf, ?_⟩
    intro earlier hlt
    have hnone := hfirst earlier hlt
    rw [Bool.not_eq_true', ← Bool.not_eq_true, peek_isSome_iff, Bool.not_eq_true] at hnone
    exact hnone

theorem ahead_zero : b.ahead 0 = b.nextSeq := UInt32.add_zero _

/-- There is something in a buffer that has the next packet. -/
theorem countBuffered_ne_zero (h : b.buffered b.nextSeq = true) : b.countBuffered ≠ 0 := by
  unfold JitterBuffer.countBuffered
  apply Nat.pos_iff_ne_zero.1
  apply List.length_pos_of_mem (a := 0)
  rw [List.mem_filter, ahead_zero]
  exact ⟨by decide, h⟩

/-- There is nothing to skip in front of the next packet. -/
theorem skipToOldest_of_buffered (h : b.buffered b.nextSeq = true) :
    b.skipToOldest = (b, 0) := by
  have hfind : (List.range Config.jitterBufMax).find? (fun offset =>
      (b.peek (b.ahead offset)).isSome) = some 0 := by
    apply List.find?_cons_of_pos
    rw [ahead_zero, peek_isSome_iff]
    exact h
  unfold JitterBuffer.skipToOldest
  rw [hfind]
  simp only [Option.getD_some, ahead_zero, lt_irrefl, if_false]

/-! ## Every call keeps the window -/

/-- The place of a number behind a later start of the window. -/
theorem offset_later {k : ℕ} (hk : k ≤ (seq - b.nextSeq).toNat)
    (hwin : (seq - b.nextSeq).toNat < Config.jitterBufMax) :
    (seq - b.ahead k).toNat + k = (seq - b.nextSeq).toNat := by
  have hseq := UInt32.toNat_lt seq
  have hnext := UInt32.toNat_lt b.nextSeq
  have hoff := offset_cases seq b.nextSeq
  unfold Config.jitterBufMax at hwin
  unfold JitterBuffer.ahead
  rw [UInt32.toNat_sub, UInt32.toNat_add, UInt32.toNat_ofNat']
  omega

theorem inWindow_push (h : b.InWindow) (hfirst : b.started = false → ∀ i, (b.slots i).seq = 0)
    (opusData : Bytes) (now : ℕ) : (b.push seq opusData now).1.InWindow := by
  obtain ⟨-, ⟨hslots, hnext⟩ | ⟨kept, hstored⟩⟩ :=
    push_cases h hfirst seq opusData now
  · intro i hi
    rw [hslots] at hi ⊢
    cases hstarted : b.started with
    | true =>
      rw [(hnext hstarted).1]
      exact h i hi
    | false => exact absurd (hfirst hstarted i) hi
  · intro i hi
    rw [hstored.slots] at hi ⊢
    by_cases hslot : i = slotOf seq
    · subst hslot
      rw [Function.update_self]
      exact ⟨rfl, hstored.inWindow⟩
    · rw [Function.update_of_ne hslot] at hi ⊢
      obtain ⟨hkept, hwin⟩ := hstored.keeps i hi
      refine ⟨?_, hwin⟩
      rw [hkept] at hi ⊢
      exact (h i hi).1

/-- The window may step on once the slot of its first number is empty. -/
theorem inWindow_step (h : b.InWindow) {b' : JitterBuffer} {slot : Slot} (hempty : slot.seq = 0)
    (hslots : b'.slots = Function.update b.slots (slotOf b.nextSeq) slot)
    (hnext : b'.nextSeq = b.nextSeq + 1) : b'.InWindow := by
  intro i hi
  rw [hslots] at hi ⊢
  by_cases hslot : i = slotOf b.nextSeq
  · subst hslot
    rw [Function.update_self] at hi
    exact absurd hempty hi
  · rw [Function.update_of_ne hslot] at hi ⊢
    obtain ⟨hown, hwin⟩ := h i hi
    have hne : (b.slots i).seq ≠ b.nextSeq := by
      intro heq
      rw [heq] at hown
      exact hslot hown.symm
    have hplace := offset_succ hne
    rw [hnext]
    exact ⟨hown, by omega⟩

theorem inWindow_pop (h : b.InWindow) (out : Bytes) : (b.pop out).1.InWindow := by
  cases hstarted : b.started with
  | false =>
    rw [pop_of_not_started hstarted]
    exact h
  | true =>
    rcases pop_cases hstarted out with ⟨-, hpop⟩ | ⟨-, ⟨-, hpop⟩ | hpop⟩
    · rw [hpop]
      exact inWindow_step h rfl rfl rfl
    · rw [hpop]
      exact inWindow_step h rfl rfl rfl
    · rw [hpop]
      exact h

theorem inWindow_skipToOldest (h : b.InWindow) : b.skipToOldest.1.InWindow := by
  obtain ⟨hslots, -, hnext | ⟨offset, hlt, hnext, hbuf, hfirst⟩⟩ := skipToOldest_cases (b := b)
  · intro i hi
    rw [hslots] at hi ⊢
    rw [hnext]
    exact h i hi
  · intro i hi
    rw [hslots] at hi ⊢
    obtain ⟨hown, hwin⟩ := h i hi
    have hin : b.buffered (b.ahead ((b.slots i).seq - b.nextSeq).toNat) = true := by
      rw [ahead_offset, buffered_iff, hown]
      exact ⟨rfl, hi⟩
    have hle : offset ≤ ((b.slots i).seq - b.nextSeq).toNat := by
      by_contra hgt
      rw [hfirst _ (not_le.1 hgt)] at hin
      cases hin
    have hplace := offset_later hle hwin
    rw [hnext]
    exact ⟨hown, by omega⟩

end Window

end Client
end TcVoice
