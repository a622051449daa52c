import TcVoice.Client.JitterOrder

/-!
# What becomes of a pushed packet

The six ways that `push` of `crates/client/src/playout.rs` deals with a packet.

* `JitterBuffer.outcome`, `push_eq` — which way a packet goes, and what the push does then.
* `Use`, `pushes` — any call that changes a buffer, and consecutive numbers pushed in a row.
* `heard_again` — **whatever state a buffer has got into, one of 31 consecutive packets is
  stored**: as each dropped packet leaves the window where it is, the numbers walk through
  all the ways until they meet one that stores.
* `harmless_iff` — every push has exactly its effects, **unless a packet that is too late
  comes between packets beyond the ring**: it does not end their row, and the third of them
  empties the buffer; `late_between_strays` is such a run.
-/

namespace TcVoice
namespace Client

open Machines

/-! ## The ways of a packet -/

/-- What becomes of a pushed packet. -/
inductive Outcome where
  /-- Too old: dropped. -/
  | late
  /-- Before the first packet of a stream that has not been played from: the window moves back. -/
  | reanchor
  /-- Far behind: the sender counts from the start again. -/
  | restart
  /-- Beyond the ring: dropped. -/
  | stray
  /-- Beyond the ring, after others that were: the window moves there. -/
  | resync
  /-- In the window. -/
  | store
  deriving DecidableEq, Repr

namespace JitterBuffer

variable (b : JitterBuffer)

/-- A number that is not behind the next one, and too far ahead of it for the ring. -/
def beyond (seq : UInt32) : Bool :=
  b.started && !seqBefore seq b.nextSeq &&
    decide (Config.jitterBufMax ≤ (seq - b.nextSeq).toNat)

/-- The way that a packet goes. -/
def outcome (seq : UInt32) : Outcome :=
  if b.started && seqBefore seq b.nextSeq then
    if Config.jitterBufMax * 2 < (b.nextSeq - seq).toNat then .restart
    else if b.provisional && decide ((b.nextSeq - seq).toNat ≤ reanchorMax) && b.fitsFrom seq then
      .reanchor
    else .late
  else if b.beyond seq then
    if Config.jitterResyncAfter ≤ b.outOfWindow + 1 then .resync else .stray
  else .store

/-- The window of a push that stores: where it is, or from the packet on. -/
def moved (seq : UInt32) : JitterBuffer :=
  match b.outcome seq with
  | .restart | .resync => b.resetTo seq
  | .reanchor => { b with nextSeq := seq, outOfWindow := 0 }
  | _ => if b.started then { b with outOfWindow := 0 }
    else { b with nextSeq := seq, started := true, outOfWindow := 0 }

end JitterBuffer

section Outcome

variable {b : JitterBuffer} {seq : UInt32} {opusData : Bytes} {now : ℕ}

/-- **What a push does**, by the way of its packet. -/
theorem push_eq (b : JitterBuffer) (seq : UInt32) (opusData : Bytes) (now : ℕ) :
    b.push seq opusData now = match b.outcome seq with
      | .late => (b.observe seq now, true)
      | .stray => ({ b with outOfWindow := b.outOfWindow + 1 }, false)
      | _ => ((b.moved seq).store seq opusData now, false) := by
  have hself : ¬ Config.jitterBufMax ≤ (seq - seq).toNat := by
    rw [UInt32.sub_self]
    decide
  have hbefore : seqBefore seq seq = false := by
    rw [← Bool.not_eq_true, seqBefore_iff, UInt32.sub_self]
    decide
  unfold JitterBuffer.push JitterBuffer.moved JitterBuffer.outcome JitterBuffer.beyond
  cases hstarted : b.started with
  | false =>
    simp only [Bool.false_and, Bool.false_eq_true, if_false, JitterBuffer.place,
      JitterBuffer.accept, hbefore, if_neg hself]
  | true =>
    simp only [Bool.true_and, if_true, JitterBuffer.place, JitterBuffer.accept]
    by_cases hlate : seqBefore seq b.nextSeq = true
    · simp only [if_pos hlate]
      by_cases hgap : Config.jitterBufMax * 2 < (b.nextSeq - seq).toNat
      · simp only [if_pos hgap, show (b.resetTo seq).nextSeq = seq from rfl, if_neg hself]
        rfl
      · simp only [if_neg hgap]
        split_ifs with hanchor
        · simp only [if_neg hself, hstarted]
        · rfl
    · rw [Bool.not_eq_true] at hlate
      simp only [hlate, Bool.false_eq_true, if_false, Bool.not_false, Bool.true_and,
        decide_eq_true_eq]
      split_ifs <;> simp only [hstarted, JitterBuffer.resetTo]

/-- What the way of a packet says of its number. -/
theorem outcome_spec (b : JitterBuffer) (seq : UInt32) : match b.outcome seq with
    | .late => b.started = true ∧ seqBefore seq b.nextSeq = true ∧
        (b.nextSeq - seq).toNat ≤ Config.jitterBufMax * 2
    | .reanchor => b.started = true ∧ seqBefore seq b.nextSeq = true ∧ b.fitsFrom seq = true
    | .restart => b.started = true ∧ seqBefore seq b.nextSeq = true ∧
        Config.jitterBufMax * 2 < (b.nextSeq - seq).toNat
    | .stray => b.beyond seq = true ∧ b.outOfWindow + 1 < Config.jitterResyncAfter
    | .resync => b.beyond seq = true ∧ Config.jitterResyncAfter ≤ b.outOfWindow + 1
    | .store => b.started = true → (seq - b.nextSeq).toNat < Config.jitterBufMax := by
  unfold JitterBuffer.outcome
  split_ifs with hlate hgap hanchor hfar hrow
  · rw [Bool.and_eq_true] at hlate
    exact ⟨hlate.1, hlate.2, hgap⟩
  · rw [Bool.and_eq_true] at hlate hanchor
    exact ⟨hlate.1, hlate.2, hanchor.2⟩
  · rw [Bool.and_eq_true] at hlate
    exact ⟨hlate.1, hlate.2, not_lt.1 hgap⟩
  · exact ⟨hfar, hrow⟩
  · exact ⟨hfar, not_le.1 hrow⟩
  · intro hstarted
    rw [hstarted, Bool.true_and, Bool.not_eq_true] at hlate
    unfold JitterBuffer.beyond at hfar
    rw [hstarted, hlate, Bool.not_false, Bool.true_and, Bool.true_and, decide_eq_true_eq] at hfar
    exact not_le.1 hfar

theorem beyond_iff : b.beyond seq = true ↔ b.started = true ∧ seqBefore seq b.nextSeq = false ∧
    Config.jitterBufMax ≤ (seq - b.nextSeq).toNat := by
  unfold JitterBuffer.beyond
  rw [Bool.and_eq_true, Bool.and_eq_true, Bool.not_eq_true', decide_eq_true_eq, and_assoc]

theorem late_iff : b.outcome seq = .late ↔ (b.push seq opusData now).2 = true := by
  rw [push_eq]
  cases b.outcome seq <;> simp

/-- A packet is beyond the ring on two ways. -/
theorem beyond_iff_outcome :
    b.beyond seq = true ↔ b.outcome seq = .stray ∨ b.outcome seq = .resync := by
  constructor
  · intro hfar
    have hbefore := (beyond_iff.1 hfar).2.1
    unfold JitterBuffer.outcome
    rw [hbefore, Bool.and_false, if_neg Bool.false_ne_true, if_pos hfar]
    split <;> simp
  · have hspec := outcome_spec b seq
    rintro (hway | hway) <;> rw [hway] at hspec <;> exact hspec.1

/-! ## What stays in the ring -/

theorem peek_congr {b' : JitterBuffer} (h : b'.slots = b.slots) (n : UInt32) :
    b'.peek n = b.peek n := by
  unfold JitterBuffer.peek JitterBuffer.buffered
  rw [h]

theorem peek_eq_none (h : ∀ i, (b.slots i).seq = 0) (n : UInt32) : b.peek n = none := by
  unfold JitterBuffer.peek
  refine if_neg fun hbuf => ?_
  obtain ⟨hslot, hpos⟩ := buffered_iff.1 hbuf
  exact hpos (hslot.symm.trans (h _))

theorem peek_zero : b.peek 0 = none := by
  unfold JitterBuffer.peek
  exact if_neg fun hbuf => (buffered_iff.1 hbuf).2 rfl

theorem peek_store_self (hseq : seq ≠ 0) : (b.store seq opusData now).peek seq = some opusData := by
  have hslot : (b.store seq opusData now).slots (slotOf seq) = ⟨seq, opusData⟩ :=
    Function.update_self _ _ _
  unfold JitterBuffer.peek
  rw [if_pos (buffered_iff.2 ⟨by rw [hslot], hseq⟩), hslot]

/-- A packet takes no slot of another one in the window. -/
theorem peek_store_of_ne {n : UInt32} (hseq : seq ≠ 0) (hne : n ≠ seq)
    (hn : (n - b.nextSeq).toNat < Config.jitterBufMax)
    (hwin : (seq - b.nextSeq).toNat < Config.jitterBufMax) :
    (b.store seq opusData now).peek n = b.peek n := by
  by_cases hzero : n = 0
  · subst hzero
    rw [peek_zero, peek_zero]
  · have hslot : slotOf n ≠ slotOf seq := fun h => hne (slot_inj hzero hseq hn hwin h)
    unfold JitterBuffer.peek JitterBuffer.buffered
    rw [show (b.store seq opusData now).slots = Function.update b.slots (slotOf seq)
      ⟨seq, opusData⟩ by simp only [JitterBuffer.store, observe_slots],
      Function.update_of_ne hslot]

/-- A packet that is not dropped is in the window of its push. -/
theorem moved_inWindow (hlate : b.outcome seq ≠ .late) (hstray : b.outcome seq ≠ .stray) :
    (seq - (b.moved seq).nextSeq).toNat < Config.jitterBufMax := by
  have hself : (seq - seq).toNat < Config.jitterBufMax := by
    rw [UInt32.sub_self]
    decide
  have hspec := outcome_spec b seq
  unfold JitterBuffer.moved
  cases hway : b.outcome seq with
  | late => exact absurd hway hlate
  | stray => exact absurd hway hstray
  | reanchor => exact hself
  | restart => exact hself
  | resync => exact hself
  | store =>
    rw [hway] at hspec
    dsimp only
    split
    · exact hspec ‹_›
    · exact hself

/-- Whatever is in the ring and in the window of a push stays, unless the push is a resync. -/
theorem peek_moved (hin : b.InWindow) (hresync : b.outcome seq ≠ .resync) {n : UInt32}
    (hn : (n - (b.moved seq).nextSeq).toNat < Config.jitterBufMax) :
    (b.moved seq).peek n = b.peek n := by
  have hspec := outcome_spec b seq
  unfold JitterBuffer.moved at hn ⊢
  cases hway : b.outcome seq with
  | resync => exact absurd hway hresync
  | restart =>
    rw [hway] at hn hspec
    have hn' : (n - seq).toNat < Config.jitterBufMax := hn
    dsimp only
    rw [peek_eq_none fun _ => rfl]
    symm
    -- All of the ring is more than a round ahead of a sender who starts again.
    unfold JitterBuffer.peek
    refine if_neg fun hbuf => ?_
    obtain ⟨hslot, hpos⟩ := buffered_iff.1 hbuf
    have hwin := (hin (slotOf n) (by rw [hslot]; exact hpos)).2
    rw [hslot] at hwin
    have hhalf := (seqBefore_iff.1 hspec.2.1).2
    have hgap := hspec.2.2
    have hcap : Config.jitterBufMax = 15 := rfl
    have hlt := UInt32.toNat_lt n
    have hlt' := UInt32.toNat_lt seq
    have hlt'' := UInt32.toNat_lt b.nextSeq
    rw [UInt32.toNat_sub] at hwin hn' hgap hhalf
    omega
  | reanchor => exact peek_congr rfl n
  | late => dsimp only; split <;> exact peek_congr rfl n
  | stray => dsimp only; split <;> exact peek_congr rfl n
  | store => dsimp only; split <;> exact peek_congr rfl n

end Outcome

/-! ## Every call -/

/-- A call that changes a jitter buffer.  No packet has the sequence number zero. -/
inductive Use where
  | push (seq : UInt32) (hseq : seq ≠ 0) (opusData : Bytes) (now : ℕ)
  | pop (out : Bytes)
  | skipToOldest
  | endTalkspurt

namespace JitterBuffer

/-- A call. -/
def use (b : JitterBuffer) : Use → JitterBuffer
  | .push seq _ opusData now => (b.push seq opusData now).1
  | .pop out => (b.pop out).1
  | .skipToOldest => b.skipToOldest.1
  | .endTalkspurt => b.endTalkspurt

/-- What holds of a buffer whatever was done with it. -/
structure Sane (b : JitterBuffer) : Prop where
  inWindow : b.InWindow
  first : b.started = false → ∀ i, (b.slots i).seq = 0
  strays : b.outOfWindow < Config.jitterResyncAfter

end JitterBuffer

theorem sane_new : JitterBuffer.new.Sane where
  inWindow _ hi := absurd rfl hi
  first _ _ := rfl
  strays := by decide

section Use

variable {b : JitterBuffer} {seq : UInt32} {opusData out : Bytes} {now : ℕ}

@[simp] theorem observe_outOfWindow : (b.observe seq now).outOfWindow = b.outOfWindow := by
  unfold JitterBuffer.observe
  dsimp only
  split <;> rfl

theorem moved_outOfWindow : (b.moved seq).outOfWindow = 0 := by
  unfold JitterBuffer.moved
  split <;> first | rfl | (split <;> rfl)

/-- The packets beyond the ring that a push leaves counted. -/
theorem push_outOfWindow (b : JitterBuffer) (seq : UInt32) (opusData : Bytes) (now : ℕ) :
    (b.push seq opusData now).1.outOfWindow = match b.outcome seq with
      | .late => b.outOfWindow
      | .stray => b.outOfWindow + 1
      | _ => 0 := by
  rw [push_eq]
  cases b.outcome seq <;>
    simp only [JitterBuffer.store, observe_outOfWindow, moved_outOfWindow]

theorem pop_outOfWindow : (b.pop out).1.outOfWindow = b.outOfWindow := by
  cases hstarted : b.started with
  | false => rw [pop_of_not_started hstarted]
  | true =>
    rcases pop_cases hstarted out with ⟨-, hpop⟩ | ⟨-, ⟨-, hpop⟩ | hpop⟩ <;> rw [hpop]

theorem pop_started : (b.pop out).1.started = b.started := by
  cases hstarted : b.started with
  | false => rw [pop_of_not_started hstarted, hstarted]
  | true =>
    rcases pop_cases hstarted out with ⟨-, hpop⟩ | ⟨-, ⟨-, hpop⟩ | hpop⟩ <;> rw [hpop] <;>
      exact hstarted

theorem sane_push (h : b.Sane) (opusData : Bytes) (now : ℕ) : (b.push seq opusData now).1.Sane where
  inWindow := inWindow_push h.inWindow h.first opusData now
  first := by
    rw [(push_cases h.inWindow h.first seq opusData now).1]
    exact fun hs => absurd hs (by decide)
  strays := by
    have hspec := outcome_spec b seq
    have hcount := h.strays
    have hzero : 0 < Config.jitterResyncAfter := by decide
    rw [push_outOfWindow]
    cases hway : b.outcome seq with
    | late => exact hcount
    | stray =>
      rw [hway] at hspec
      exact hspec.2
    | reanchor => exact hzero
    | restart => exact hzero
    | resync => exact hzero
    | store => exact hzero

theorem sane_pop (h : b.Sane) (out : Bytes) : (b.pop out).1.Sane where
  inWindow := inWindow_pop h.inWindow out
  first := by
    rw [pop_started]
    intro hstarted
    rw [pop_of_not_started hstarted]
    exact h.first hstarted
  strays := by
    rw [pop_outOfWindow]
    exact h.strays

theorem sane_use (h : b.Sane) (u : Use) : (b.use u).Sane := by
  cases u with
  | push seq hseq opusData now => exact sane_push h opusData now
  | pop out => exact sane_pop h out
  | skipToOldest => exact ⟨inWindow_skipToOldest h.inWindow, h.first, h.strays⟩
  | endTalkspurt => exact ⟨h.inWindow, h.first, h.strays⟩

end Use

/-! ## Heard again -/

/-- The first `n` of consecutive packets from a number on, pushed with nothing in between; each
has its data and its time of arrival. -/
def JitterBuffer.pushes (b : JitterBuffer) (start : UInt32) (packet : ℕ → Bytes × ℕ) :
    ℕ → JitterBuffer
  | 0 => b
  | n + 1 =>
    ((b.pushes start packet n).push (start + .ofNat n) (packet n).1 (packet n).2).1

section Heard

variable {b : JitterBuffer} {start : UInt32} {packet : ℕ → Bytes × ℕ} {n : ℕ}

/-- One packet is dropped and leaves the window and the ring as they are, or it is stored. -/
theorem dropped_or_stored {seq : UInt32} (hseq : seq ≠ 0) (opusData : Bytes) (now : ℕ) :
    ((b.push seq opusData now).1.slots = b.slots ∧
        (b.push seq opusData now).1.nextSeq = b.nextSeq ∧
        (b.outcome seq = .late ∨ b.outcome seq = .stray)) ∨
      (b.push seq opusData now).1.peek seq = some opusData := by
  rw [push_eq]
  cases hway : b.outcome seq with
  | late => exact .inl ⟨observe_slots, observe_nextSeq, .inl rfl⟩
  | stray => exact .inl ⟨rfl, rfl, .inr rfl⟩
  | reanchor => exact .inr (peek_store_self hseq)
  | restart => exact .inr (peek_store_self hseq)
  | resync => exact .inr (peek_store_self hseq)
  | store => exact .inr (peek_store_self hseq)

/-- Where the number of a dropped packet is. -/
theorem dropped_cases {seq : UInt32} (h : b.outcome seq = .late ∨ b.outcome seq = .stray) :
    b.started = true ∧
      (0 < (b.nextSeq - seq).toNat ∧ (b.nextSeq - seq).toNat ≤ 30 ∨
        b.outcome seq = .stray ∧ 15 ≤ (seq - b.nextSeq).toNat ∧ b.outOfWindow + 1 < 3 ∧
          ((b.nextSeq - seq).toNat = 0 ∨ 2 ^ 31 ≤ (b.nextSeq - seq).toNat)) := by
  have hspec := outcome_spec b seq
  rcases h with hway | hway <;> rw [hway] at hspec
  · obtain ⟨hstarted, hbefore, hgap⟩ := hspec
    exact ⟨hstarted, .inl ⟨(seqBefore_iff.1 hbefore).1, hgap⟩⟩
  · obtain ⟨hfar, hcount⟩ := hspec
    obtain ⟨hstarted, hbefore, hahead⟩ := beyond_iff.1 hfar
    rw [← Bool.not_eq_true, seqBefore_iff] at hbefore
    exact ⟨hstarted, .inr ⟨hway, hahead, hcount, by omega⟩⟩

/-- The number of one of the packets. -/
theorem toNat_start_add (hlast : start.toNat + 30 < 2 ^ 32) (hn : n < 31) :
    (start + .ofNat n).toNat = start.toNat + n := by
  rw [UInt32.toNat_add, UInt32.toNat_ofNat']
  omega

/-- The number of a packet is one further from the next one for each packet before it. -/
theorem sub_start_add (hlast : start.toNat + 30 < 2 ^ 32) (hn : n < 31) (next : UInt32) :
    (next - (start + .ofNat n)).toNat = (2 ^ 32 - start.toNat - n + next.toNat) % 2 ^ 32 ∧
      (start + .ofNat n - next).toNat = (2 ^ 32 - next.toNat + start.toNat + n) % 2 ^ 32 := by
  rw [UInt32.toNat_sub, UInt32.toNat_sub, toNat_start_add hlast hn]
  omega

/-- What dropping all packets up to one comes to. -/
theorem pushes_dropped (hdropped : ∀ n < 31,
      (b.pushes start packet (n + 1)).nextSeq = (b.pushes start packet n).nextSeq ∧
        ((b.pushes start packet n).outcome (start + .ofNat n) = .late ∨
          (b.pushes start packet n).outcome (start + .ofNat n) = .stray)) (hn : n < 31) :
    (b.pushes start packet n).nextSeq = b.nextSeq := by
  induction n with
  | zero => rfl
  | succ n ih => exact (hdropped n (by omega)).1.trans (ih (by omega))

/-- **Not all of 31 consecutive packets are dropped.**  Behind the window they come closer to
its start with each packet, and at most thirty numbers are too late; at half a round they
become late ones, far enough behind for a restart; and beyond the ring the third is a resync. -/
theorem not_all_dropped (b : JitterBuffer) (packet : ℕ → Bytes × ℕ)
    (hlast : start.toNat + 30 < 2 ^ 32) :
    ¬ ∀ n < 31, (b.pushes start packet (n + 1)).nextSeq = (b.pushes start packet n).nextSeq ∧
      ((b.pushes start packet n).outcome (start + .ofNat n) = .late ∨
        (b.pushes start packet n).outcome (start + .ofNat n) = .stray) := by
  intro hdropped
  have hnext := UInt32.toNat_lt b.nextSeq
  -- The place of each number, seen from the window, which never moves.
  have hplace : ∀ n < 31, (0 < (2 ^ 32 - start.toNat - n + b.nextSeq.toNat) % 2 ^ 32 ∧
        (2 ^ 32 - start.toNat - n + b.nextSeq.toNat) % 2 ^ 32 ≤ 30) ∨
      (b.pushes start packet n).outcome (start + .ofNat n) = .stray ∧
        15 ≤ (2 ^ 32 - b.nextSeq.toNat + start.toNat + n) % 2 ^ 32 ∧
        (b.pushes start packet n).outOfWindow + 1 < 3 ∧
        ((2 ^ 32 - start.toNat - n + b.nextSeq.toNat) % 2 ^ 32 = 0 ∨
          2 ^ 31 ≤ (2 ^ 32 - start.toNat - n + b.nextSeq.toNat) % 2 ^ 32) := by
    intro n hn
    have hcases := (dropped_cases (hdropped n hn).2).2
    rw [pushes_dropped hdropped hn, (sub_start_add hlast hn _).1, (sub_start_add hlast hn _).2]
      at hcases
    exact hcases
  have h0 := hplace 0 (by omega)
  rcases h0 with hlate | ⟨hway, hahead, hcount, hfar⟩
  · -- Too late, so that one of the packets is the next one.
    have hmeet := hplace ((2 ^ 32 - start.toNat - 0 + b.nextSeq.toNat) % 2 ^ 32) (by omega)
    omega
  · have hcount1 := push_outOfWindow (b.pushes start packet 0) (start + .ofNat 0) (packet 0).1
      (packet 0).2
    have hcount2 := push_outOfWindow (b.pushes start packet 1) (start + .ofNat 1) (packet 1).1
      (packet 1).2
    have h1 := hplace 1 (by omega)
    have h2 := hplace 2 (by omega)
    rw [hway] at hcount1
    rcases h1 with hlate1 | ⟨hway1, -, -, -⟩
    · omega
    · rw [hway1] at hcount2
      rcases h2 with hlate2 | ⟨-, -, hcount3, -⟩
      · omega
      · have hsum : (b.pushes start packet 2).outOfWindow = b.outOfWindow + 1 + 1 :=
          hcount2.trans (congrArg (· + 1) hcount1)
        omega

end Heard

/-- **No stuck stream**: whatever state a jitter buffer is in, one of any 31 consecutive
packets that are pushed with no pop in between is stored in the ring when it comes, and one
of them is there in the end. -/
theorem heard_again (b : JitterBuffer) (start : UInt32) (hfirst : 1 ≤ start.toNat)
    (hlast : start.toNat + 30 < 2 ^ 32) (packet : ℕ → Bytes × ℕ) :
    (∃ n < 31, (b.pushes start packet (n + 1)).peek (start + .ofNat n) = some (packet n).1) ∧
      ∃ n < 31, (b.pushes start packet 31).peek (start + .ofNat n) = some (packet n).1 := by
  have hseq : ∀ n < 31, start + .ofNat n ≠ (0 : UInt32) := by
    intro n hn hzero
    have hnum := toNat_start_add hlast hn
    rw [hzero] at hnum
    have hz : (0 : UInt32).toNat = 0 := rfl
    omega
  have hstored : ∃ n < 31,
      (b.pushes start packet (n + 1)).peek (start + .ofNat n) = some (packet n).1 := by
    by_contra hnone
    refine not_all_dropped b packet hlast fun n hn => ?_
    rcases dropped_or_stored (b := b.pushes start packet n) (hseq n hn) (packet n).1 (packet n).2
      with ⟨-, hnext, hway⟩ | hpeek
    · exact ⟨hnext, hway⟩
    · exact absurd ⟨n, hn, hpeek⟩ hnone
  refine ⟨hstored, ?_⟩
  -- What is stored stays, or gives way to another of the packets.
  obtain ⟨n, hn, hpeek⟩ := hstored
  have hlater : ∀ k, n + 1 + k ≤ 31 → ∃ m < 31,
      (b.pushes start packet (n + 1 + k)).peek (start + .ofNat m) = some (packet m).1 := by
    intro k hk
    induction k with
    | zero => exact ⟨n, hn, hpeek⟩
    | succ k ih =>
      obtain ⟨m, hm, hkept⟩ := ih (by omega)
      rcases dropped_or_stored (b := b.pushes start packet (n + 1 + k))
        (hseq (n + 1 + k) (by omega)) (packet (n + 1 + k)).1 (packet (n + 1 + k)).2
        with ⟨hslots, -, -⟩ | hnew
      · exact ⟨m, hm, (peek_congr hslots _).trans hkept⟩
      · exact ⟨n + 1 + k, by omega, hnew⟩
  have hend := hlater (30 - n) (by omega)
  rwa [show n + 1 + (30 - n) = 31 by omega] at hend

/-- A sender who starts again from one, after the buffer has played packet 20. -/
theorem heard_again_restarted :
    (∃ n < 31, (((JitterBuffer.new.push 20 [1] 0).1.pop []).1.pushes 1 (fun n => ([2], n))
        (n + 1)).peek (1 + .ofNat n) = some [2]) ∧
      ∃ n < 31, (((JitterBuffer.new.push 20 [1] 0).1.pop []).1.pushes 1 (fun n => ([2], n))
        31).peek (1 + .ofNat n) = some [2] :=
  heard_again _ 1 (by decide) (by decide) fun n => ([2], n)

/-! ## What a push changes -/

/-- Packets beyond the ring that came directly one after another up to now, the latest in
front. -/
def straysInRow : List Outcome → ℕ
  | .stray :: ways => straysInRow ways + 1
  | _ => 0

/-- Packets beyond the ring that came since one was stored. -/
def straysSinceStored : List Outcome → ℕ
  | .stray :: ways => straysSinceStored ways + 1
  | .late :: ways => straysSinceStored ways
  | _ => 0

/-- A jitter buffer and the ways of the packets pushed so far, the latest in front. -/
structure Traced where
  buffer : JitterBuffer
  ways : List Outcome

namespace Traced

def new : Traced := ⟨.new, []⟩

/-- A call, with the way of a packet recorded. -/
def use (t : Traced) : Use → Traced × Unit
  | .push seq hseq opusData now =>
    (⟨t.buffer.use (.push seq hseq opusData now), t.buffer.outcome seq :: t.ways⟩, ())
  | u => (⟨t.buffer.use u, t.ways⟩, ())

end Traced

/-- What is asked of a push: a packet beyond the ring that does not complete a row of them
leaves the window and the packets in the ring as they are; a late one was behind the window and
changes nothing but the arrival estimator; any other is in the ring with its data, among the
packets of the window that were there before. -/
def Harmless (t : Traced) : Use → Prop
  | .push seq _ opusData now =>
    let b := t.buffer
    let (b', late) := b.push seq opusData now
    (b.beyond seq = true → straysInRow t.ways + 1 < Config.jitterResyncAfter →
      b'.nextSeq = b.nextSeq ∧ ∀ n, b'.peek n = b.peek n) ∧
    (late = true → seqBefore seq b.nextSeq = true ∧
      b' = { b with
        jitterMs := b'.jitterMs, reference := b'.reference, spurtPackets := b'.spurtPackets }) ∧
    (late = false → b.beyond seq = false → b'.peek seq = some opusData ∧
      ∀ n, n ≠ seq → (n - b'.nextSeq).toNat < Config.jitterBufMax → b'.peek n = b.peek n)
  | _ => True

/-- A packet beyond the ring that is the third since one was stored comes directly after the
other two. -/
def RowUnbroken (t : Traced) : Use → Prop
  | .push seq _ _ _ => t.buffer.beyond seq = true →
      Config.jitterResyncAfter ≤ straysSinceStored t.ways + 1 →
        Config.jitterResyncAfter ≤ straysInRow t.ways + 1
  | _ => True

/-- The buffer counts the packets beyond the ring since it stored one. -/
structure Traced.Inv (t : Traced) : Prop where
  sane : t.buffer.Sane
  counted : t.buffer.outOfWindow = straysSinceStored t.ways

section Harm

variable {t : Traced} {b : JitterBuffer} {seq : UInt32}

theorem inv_use (h : t.Inv) (u : Use) : (t.use u).1.Inv := by
  cases u with
  | push seq hseq opusData now =>
    refine ⟨sane_push h.sane opusData now, ?_⟩
    show (t.buffer.push seq opusData now).1.outOfWindow =
      straysSinceStored (t.buffer.outcome seq :: t.ways)
    rw [push_outOfWindow, h.counted]
    cases t.buffer.outcome seq <;> rfl
  | pop out => exact ⟨sane_pop h.sane out, pop_outOfWindow.trans h.counted⟩
  | skipToOldest => exact ⟨sane_use h.sane .skipToOldest, h.counted⟩
  | endTalkspurt => exact ⟨sane_use h.sane .endTalkspurt, h.counted⟩

/-- A late packet is for the arrival estimator only. -/
theorem observe_eq (b : JitterBuffer) (seq : UInt32) (now : ℕ) : b.observe seq now =
    { b with
      jitterMs := (b.observe seq now).jitterMs, reference := (b.observe seq now).reference
      spurtPackets := (b.observe seq now).spurtPackets } := by
  unfold JitterBuffer.observe
  dsimp only
  split <;> rfl

/-- A packet that is late was behind the window, and changes the estimator. -/
theorem push_late {opusData : Bytes} {now : ℕ} (hlate : (b.push seq opusData now).2 = true) :
    seqBefore seq b.nextSeq = true ∧ (b.push seq opusData now).1 =
      { b with
        jitterMs := (b.push seq opusData now).1.jitterMs
        reference := (b.push seq opusData now).1.reference
        spurtPackets := (b.push seq opusData now).1.spurtPackets } := by
  have hway := late_iff.2 hlate
  have hspec := outcome_spec b seq
  rw [hway] at hspec
  rw [push_eq, hway]
  exact ⟨hspec.2.1, observe_eq b seq now⟩

/-- A packet that is stored joins what the ring has in the window. -/
theorem push_stored (hin : b.InWindow) (hseq : seq ≠ 0) {opusData : Bytes} {now : ℕ}
    (hlate : (b.push seq opusData now).2 = false) (hfar : b.beyond seq = false) :
    (b.push seq opusData now).1.peek seq = some opusData ∧ ∀ n, n ≠ seq →
      (n - (b.push seq opusData now).1.nextSeq).toNat < Config.jitterBufMax →
        (b.push seq opusData now).1.peek n = b.peek n := by
  have hnotLate : b.outcome seq ≠ .late := by
    intro hway
    rw [late_iff.1 hway] at hlate
    cases hlate
  have hnotFar : ¬ (b.outcome seq = .stray ∨ b.outcome seq = .resync) := by
    rw [← beyond_iff_outcome, hfar]
    decide
  obtain ⟨hstray, hresync⟩ := not_or.1 hnotFar
  have hpush : b.push seq opusData now = ((b.moved seq).store seq opusData now, false) := by
    rw [push_eq]
    cases hway : b.outcome seq with
    | late => exact absurd hway hnotLate
    | stray => exact absurd hway hstray
    | resync => exact absurd hway hresync
    | reanchor => rfl
    | restart => rfl
    | store => rfl
  rw [hpush]
  refine ⟨peek_store_self hseq, fun n hne hn => ?_⟩
  have hn' : (n - (b.moved seq).nextSeq).toNat < Config.jitterBufMax := by
    simpa only [JitterBuffer.store, observe_nextSeq] using hn
  rw [peek_store_of_ne hseq hne hn' (moved_inWindow hnotLate hstray),
    peek_moved hin hresync hn']

/-- A packet beyond the ring changes nothing that can be played exactly if it is not the third
since one was stored. -/
theorem push_beyond (hfar : b.beyond seq = true) (opusData : Bytes) (now : ℕ) :
    ((b.push seq opusData now).1.nextSeq = b.nextSeq ∧
        ∀ n, (b.push seq opusData now).1.peek n = b.peek n) ↔
      b.outOfWindow + 1 < Config.jitterResyncAfter := by
  have hspec := outcome_spec b seq
  rw [push_eq]
  rcases beyond_iff_outcome.1 hfar with hway | hway <;> rw [hway] at hspec ⊢
  · exact ⟨fun _ => hspec.2, fun _ => ⟨rfl, peek_congr rfl⟩⟩
  · refine ⟨?_, fun hfew => absurd hspec.2 (not_le.2 hfew)⟩
    rintro ⟨hnext, -⟩
    -- The window starts with the packet now.
    have hnext' : (b.moved seq).nextSeq = b.nextSeq := by
      simpa only [JitterBuffer.store, observe_nextSeq] using hnext
    unfold JitterBuffer.moved at hnext'
    rw [hway] at hnext'
    have hsame : seq = b.nextSeq := hnext'
    have hahead := (beyond_iff.1 hfar).2.2
    rw [hsame, UInt32.sub_self] at hahead
    exact absurd hahead (by decide)

theorem harmless_step (h : t.Inv) (u : Use) : Harmless t u ↔ RowUnbroken t u := by
  cases u with
  | push seq hseq opusData now =>
    unfold Harmless RowUnbroken
    dsimp only
    constructor
    · rintro ⟨hstray, -, -⟩ hfar hthird
      by_contra hrow
      have hfew := (push_beyond hfar opusData now).1 (hstray hfar (not_le.1 hrow))
      rw [h.counted] at hfew
      exact absurd hthird (not_le.2 hfew)
    · intro hrow
      refine ⟨fun hfar hshort => ?_, fun hlate => push_late hlate,
        fun hlate hfar => push_stored h.sane.inWindow hseq hlate hfar⟩
      rw [push_beyond hfar, h.counted]
      by_contra hthird
      exact absurd (hrow hfar (not_lt.1 hthird)) (not_le.2 hshort)
  | pop out => exact Iff.rfl
  | skipToOldest => exact Iff.rfl
  | endTalkspurt => exact Iff.rfl

end Harm

/-- **In every run of calls on a new jitter buffer**, every push has exactly its effects on the
window and on the ring, exactly if every packet beyond the ring that is the third since one was
stored comes directly after the other two. -/
theorem harmless_iff (uses : List Use) :
    Along Traced.use Harmless .new uses ↔ Along Traced.use RowUnbroken .new uses :=
  along_congr (fun (t : Traced) u (h : t.Inv) _ => inv_use h u) (fun _ u h => harmless_step h u)
    ⟨sane_new, rfl⟩ uses

/-- Three packets far ahead, each with a late one before it: no two came in a row, and the third
of them takes packet 12 out of the ring. -/
theorem late_between_strays : ¬ Along Traced.use Harmless .new
    [.push 10 (by decide) [1] 0, .pop [], .push 12 (by decide) [2] 0,
      .push 100 (by decide) [3] 0, .push 10 (by decide) [1] 0,
      .push 101 (by decide) [4] 0, .push 10 (by decide) [1] 0,
      .push 102 (by decide) [5] 0] := by
  rintro ⟨-, -, -, -, -, -, -, ⟨hstray, -, -⟩, -⟩
  obtain ⟨hnext, -⟩ := hstray (by decide +kernel) (by decide +kernel)
  revert hnext
  decide +kernel

end Client
end TcVoice
