import TcVoice.Client.Accounting

/-!
# Acceleration

When a stream plays two packets in the place of one, and what is left in its buffer then.

* `countBuffered_pop` — a packet that is played is one less in the buffer.
* `DepthWindow.Filling`, `min_push_le` — the least of the last depths is no more than the
  present one.
* `Paced` — a stream, with the renders since it has started to play or was last accelerated.
* `Paced.Safe`, `acceleration_safe` — **an acceleration is of two packets that are there, leaves
  the target in the buffer, and comes no sooner than ten renders after the last**.
-/

namespace TcVoice
namespace Client

open Machines

/-! ## What is buffered -/

section Buffers

variable {b b' : JitterBuffer} {seq : UInt32} {out data : Bytes} {answer : PopResult}

theorem ahead_succ (offset : ℕ) :
    ({ b with nextSeq := b.nextSeq + 1 } : JitterBuffer).ahead offset = b.ahead (offset + 1) := by
  show b.nextSeq + 1 + UInt32.ofNat offset = b.nextSeq + UInt32.ofNat (offset + 1)
  rw [UInt32.ofNat_add, UInt32.add_assoc, UInt32.add_comm 1]
  rfl

/-- A pop that answers with a packet has found the next one. -/
theorem pop_packet (h : b.Low) (hpop : b.pop out = (b', data, .packet)) :
    b.started = true ∧ b.peek b.nextSeq = some data ∧ b'.nextSeq = b.nextSeq + 1 := by
  have hstarted := (started_of_pop hpop (by decide)).1
  rcases pop_cases hstarted out with ⟨hhead, heq⟩ | ⟨-, ⟨-, heq⟩ | heq⟩ <;> rw [heq] at hpop <;>
    cases hpop
  refine ⟨hstarted, ?_, rfl⟩
  unfold JitterBuffer.peek
  rw [if_pos (buffered_iff.2 ⟨hhead, h.next_ne_zero hstarted⟩)]

/-- All packets but the one that is played stay in the buffer. -/
theorem buffered_pop (hpop : b.pop out = (b', data, .packet)) :
    b'.buffered seq = (b.buffered seq && seq != b.nextSeq) := by
  have hstarted := (started_of_pop hpop (by decide)).1
  rcases pop_cases hstarted out with ⟨hhead, heq⟩ | ⟨-, ⟨-, heq⟩ | heq⟩ <;> rw [heq] at hpop <;>
    cases hpop
  rw [Bool.eq_iff_iff, Bool.and_eq_true, buffered_iff, buffered_iff, bne_iff_ne]
  dsimp only
  by_cases hslot : slotOf seq = slotOf b.nextSeq
  · rw [hslot, Function.update_self, hhead]
    constructor
    · rintro ⟨hzero, hpos⟩
      exact absurd hzero.symm hpos
    · rintro ⟨⟨hself, -⟩, hne⟩
      exact absurd hself.symm hne
  · rw [Function.update_of_ne hslot]
    refine ⟨fun h => ⟨h, fun hself => hslot (congrArg slotOf hself)⟩, And.left⟩

/-- What is found after the pop was there before. -/
theorem peek_of_pop {packet : Bytes} (hpop : b.pop out = (b', data, .packet))
    (hpeek : b'.peek seq = some packet) : b.peek seq = some packet := by
  have hbuf : b'.buffered seq = true := by
    rw [← peek_isSome_iff, hpeek]
    rfl
  have hold := hbuf
  rw [buffered_pop hpop, Bool.and_eq_true, bne_iff_ne] at hold
  have hstarted := (started_of_pop hpop (by decide)).1
  rcases pop_cases hstarted out with ⟨hhead, heq⟩ | ⟨-, ⟨-, heq⟩ | heq⟩ <;> rw [heq] at hpop <;>
    cases hpop
  have hslot : slotOf seq ≠ slotOf b.nextSeq := by
    intro hsame
    have hseq := (buffered_iff.1 hold.1).1
    rw [hsame, hhead] at hseq
    exact hold.2 hseq.symm
  unfold JitterBuffer.peek at hpeek ⊢
  rw [if_pos hbuf] at hpeek
  dsimp only at hpeek
  rw [Function.update_of_ne hslot] at hpeek
  rwa [if_pos hold.1]

/-- A pop leaves the jitter estimate. -/
theorem pop_jitterMs (hpop : b.pop out = (b', data, answer)) : b'.jitterMs = b.jitterMs := by
  unfold JitterBuffer.pop at hpop
  dsimp only at hpop
  split at hpop
  · cases hpop
    rfl
  · split at hpop
    · cases hpop
      rfl
    · split at hpop <;> cases hpop <;> rfl

/-- A packet that is played is one less in the buffer. -/
theorem countBuffered_pop (h : b.Low) (hpop : b.pop out = (b', data, .packet)) :
    b'.countBuffered + 1 = b.countBuffered := by
  obtain ⟨-, hpeek, hnext⟩ := pop_packet h hpop
  have hhead : b.buffered (b.ahead 0) = true := by
    rw [ahead_zero, ← peek_isSome_iff, hpeek]
    rfl
  have hbehind : b.buffered (b.ahead Config.jitterBufMax) = false := by
    rw [← Bool.not_eq_true, buffered_iff]
    rintro ⟨hslot, hpos⟩
    have hwin := (h.inWindow (slotOf (b.ahead Config.jitterBufMax)) (by rwa [hslot])).2
    have hoff : (b.ahead Config.jitterBufMax - b.nextSeq).toNat = Config.jitterBufMax := by
      show (b.nextSeq + 15 - b.nextSeq).toNat = 15
      rw [UInt32.add_comm, UInt32.add_sub_cancel]
      rfl
    rw [hslot, hoff] at hwin
    exact absurd hwin (lt_irrefl _)
  have hrest : ∀ offset ∈ List.range Config.jitterBufMax,
      b'.buffered (b'.ahead offset) = b.buffered (b.ahead (offset + 1)) := by
    intro offset hmem
    have hahead : b'.ahead offset = b.ahead (offset + 1) := by
      rw [← ahead_succ]
      show b'.nextSeq + _ = b.nextSeq + 1 + _
      rw [hnext]
    have hne : b.ahead (offset + 1) ≠ b.nextSeq := by
      intro hself
      have hlt : offset < 15 := List.mem_range.1 hmem
      have htoNat := congrArg UInt32.toNat hself
      have hlow := UInt32.toNat_lt b.nextSeq
      unfold JitterBuffer.ahead at htoNat
      rw [UInt32.toNat_add, UInt32.toNat_ofNat'] at htoNat
      omega
    rw [buffered_pop hpop, hahead, bne_iff_ne.2 hne, Bool.and_true]
  -- The numbers from the head up to one behind the window, counted from either end.
  have hcount : (List.range (Config.jitterBufMax + 1)).countP (fun offset =>
      b.buffered (b.ahead offset)) = b.countBuffered := by
    rw [List.range_succ, List.countP_append, List.countP_singleton, hbehind,
      List.countP_eq_length_filter]
    rfl
  rw [← hcount, List.range_succ_eq_map,
    List.countP_cons_of_pos (p := fun offset => b.buffered (b.ahead offset)) hhead,
    List.countP_map, List.countP_eq_length_filter]
  unfold JitterBuffer.countBuffered
  rw [List.filter_congr hrest]
  rfl

/-- A pop of a buffer with something in it is no underrun. -/
theorem pop_ne_empty (h : b.Low) (hcount : b.countBuffered ≠ 0)
    (hpop : b.pop out = (b', data, answer)) : answer ≠ .empty := by
  have hstarted := started_of_countBuffered h.first hcount
  obtain ⟨offset, hmem⟩ := List.exists_mem_of_length_pos (Nat.pos_of_ne_zero hcount)
  obtain ⟨hrange, hbuf⟩ := List.mem_filter.1 hmem
  rw [pop_of_started hstarted] at hpop
  split at hpop
  · cases hpop
    decide
  · rename_i hhead
    rw [if_pos] at hpop
    · cases hpop
      decide
    · refine List.any_eq_true.2 ⟨offset, List.mem_range'_1.2 ?_, hbuf⟩
      have hlt : offset < 15 := List.mem_range.1 hrange
      have hpos : offset ≠ 0 := by
        rintro rfl
        rw [ahead_zero] at hbuf
        exact hhead (buffered_iff.1 hbuf).1
      have hcap : Config.jitterBufMax = 15 := rfl
      omega

/-- A packet that is buffered is one of those that are counted. -/
theorem countBuffered_of_buffered (hin : b.InWindow) (hbuf : b.buffered seq = true) :
    b.countBuffered ≠ 0 := by
  obtain ⟨hslot, hpos⟩ := buffered_iff.1 hbuf
  have hwin := (hin (slotOf seq) (by rwa [hslot])).2
  rw [hslot] at hwin
  apply Nat.pos_iff_ne_zero.1
  apply List.length_pos_of_mem (a := (seq - b.nextSeq).toNat)
  rw [List.mem_filter, ahead_offset]
  exact ⟨List.mem_range.2 hwin, hbuf⟩

/-- A packet that arrives empties no buffer. -/
theorem countBuffered_push (h : b.Low) (hpos : seq ≠ 0) (hlow : seq.toNat < 2 ^ 31)
    (opusData : Bytes) (now : ℕ) (hcount : b.countBuffered ≠ 0) :
    (b.push seq opusData now).1.countBuffered ≠ 0 := by
  rcases dropped_or_stored (b := b) hpos opusData now with ⟨hslots, hnext, -⟩ | hpeek
  · have hsame : (b.push seq opusData now).1.countBuffered = b.countBuffered := by
      unfold JitterBuffer.countBuffered JitterBuffer.buffered JitterBuffer.ahead
      rw [hslots, hnext]
    rwa [hsame]
  · have hbuf : (b.push seq opusData now).1.buffered seq = true := by
      rw [← peek_isSome_iff, hpeek]
      rfl
    exact countBuffered_of_buffered (h.push hpos hlow).inWindow hbuf

end Buffers

/-! ## The least of the last depths -/

namespace DepthWindow

variable {w : DepthWindow}

/-- A window that is not full yet is filled from its first entry on. -/
structure Filling (w : DepthWindow) : Prop where
  next : w.len < Config.playoutAccelWindowFrames → w.next = w.len
  len : w.len ≤ Config.playoutAccelWindowFrames

theorem filling_new : new.Filling := ⟨fun _ => rfl, Nat.zero_le _⟩

theorem filling_reset (w : DepthWindow) : w.reset.Filling := ⟨fun _ => rfl, Nat.zero_le _⟩

theorem Filling.push (h : w.Filling) (depth : ℕ) : (w.push depth).Filling where
  next hlt := by
    have hlen : (w.push depth).len = Min.min (w.len + 1) Config.playoutAccelWindowFrames := rfl
    have hnext : (w.push depth).next = (w.next + 1) % Config.playoutAccelWindowFrames := rfl
    rw [hlen] at hlt ⊢
    have hroom : w.len + 1 < Config.playoutAccelWindowFrames := by omega
    rw [hnext, h.next (Nat.lt_of_succ_lt hroom), Nat.mod_eq_of_lt hroom, min_eq_left hroom.le]
  len := min_le_right _ _

/-- The least depth is no more than the last one. -/
theorem min_push_le (h : w.Filling) (depth : ℕ) : (w.push depth).min ≤ depth := by
  have hlt : w.next < (w.push depth).len := by
    show w.next < Min.min (w.len + 1) Config.playoutAccelWindowFrames
    by_cases hfull : w.len < Config.playoutAccelWindowFrames
    · have hnext := h.next hfull
      omega
    · have hnext := w.next_lt
      omega
  have hmem : Min.min depth 255 ∈ (w.push depth).ring.toList.take (w.push depth).len := by
    rw [List.mem_take_iff_getElem]
    have hring : (w.push depth).ring.toList.length = Config.playoutAccelWindowFrames :=
      Vector.length_toList
    refine ⟨w.next, lt_min hlt (hring.symm ▸ w.next_lt), ?_⟩
    rw [Vector.getElem_toList]
    exact Vector.getElem_set_self _
  unfold min
  cases hmin : ((w.push depth).ring.toList.take (w.push depth).len).min? with
  | none => exact Nat.zero_le _
  | some least =>
    exact ((List.min?_eq_some_iff.1 hmin).2 _ hmem).trans (min_le_left _ _)

end DepthWindow

/-! ## Accelerations -/

variable {F D : Type}

/-- A stream, and how many renders there were since it has started to play, with the one that
started it, or since its last acceleration. -/
structure Paced (F D : Type) where
  stream : SenderStream F D
  renders : ℕ

/-- A stream plays the second of two packets, and drops the first. -/
structure Accelerates (s s' : SenderStream F D) (done : Done) (dropped played : UInt32) :
    Prop where
  next : s.jitter.nextSeq = dropped
  consecutive : played = dropped + 1
  fed : ∃ first second, s.jitter.peek dropped = some first ∧
    s.jitter.peek played = some second ∧ handed done.calls = [.decode first, .decode second]
  gone : s'.jitter.nextSeq = played + 1
  enough : s'.target = s.target ∧ s.target ≤ s'.jitter.countBuffered

section Streams

variable [F32 F]

/-- Packets that arrive between two frames. -/
def SenderStream.receives (s : SenderStream F D) (arrivals : List (UInt32 × Bytes × ℕ)) :
    SenderStream F D :=
  arrivals.foldl (fun s (seq, packet, now) => (s.receive seq packet now).1) s

/-- A stream goes on playing: whatever arrives before its next frame, that one is not an underrun
and does not end the talkspurt. -/
def SenderStream.GoesOn (opus : OpusDecoder F D) (s : SenderStream F D) : Prop :=
  ∀ arrivals : List (UInt32 × Bytes × ℕ), (∀ a ∈ arrivals, a.1 ≠ 0 ∧ a.1.toNat < 2 ^ 31) →
    ∀ (now pull : ℕ) (scratch : Scratch F),
      let r := (s.receives arrivals).render opus now pull scratch
      r.stream.state = .playing ∧ r.done.op ≠ none ∧ r.done.op ≠ some .expand

namespace Paced

/-- A new stream. -/
def new (decoder : D) (now : ℕ) : Paced F D := ⟨.new decoder now, 0⟩

/-- The renders with the one to come. -/
def sofar (w : Paced F D) : ℕ := if w.stream.state = .idle then 1 else w.renders + 1

variable (opus : OpusDecoder F D)

/-- One event. -/
def step (w : Paced F D) : StreamEvent F → Paced F D × StreamAnswer
  | .packet seq packet now =>
    let (stream, late) := w.stream.receive seq packet now
    ({ w with stream }, .late late)
  | .frame now pull scratch =>
    let r := w.stream.render opus now pull scratch
    (⟨r.stream, match r.done.op with
      | some (.accelerated _ _) => 0
      | _ => w.sofar⟩, .frame r.done)

/-- What is asked of an event: if it is a frame that is accelerated, then it takes two packets that
are there, the stream goes on, and it was not accelerated for long enough. -/
def Safe (w : Paced F D) (event : StreamEvent F) : Prop :=
  ∀ done dropped played, (w.step opus event).2 = .frame done →
    done.op = some (.accelerated dropped played) →
      Accelerates w.stream (w.step opus event).1.stream done dropped played ∧
        (w.step opus event).1.stream.GoesOn opus ∧ Config.playoutAccelMinObserved ≤ w.sofar

/-- What holds of a stream after any events. -/
structure Inv (w : Paced F D) : Prop where
  low : w.stream.jitter.Low
  filling : w.stream.depths.Filling
  renders : w.stream.state = .playing → w.stream.depths.len ≤ w.renders

end Paced

end Streams

section Steps

variable {s s' woken : SenderStream F D} {target skipped : ℕ} {done : Done}

theorem playoutTargetMin_le_target (s : SenderStream F D) :
    Config.playoutTargetMinFrames ≤ s.target := le_max_left _ _

variable [F32 F]

/-- What a buffer is like that is found too deep. -/
theorem shouldAccelerate_depth (h : s.depths.Filling) {frame : Frame F}
    (hdeep : s.looked.shouldAccelerate target frame = true) :
    Config.playoutAccelMinObserved ≤ s.depths.len + 1 ∧ target + 2 ≤ s.jitter.countBuffered := by
  have hleast : s.looked.depths.min ≤ s.jitter.countBuffered := DepthWindow.min_push_le h _
  have hlen : s.looked.depths.len ≤ s.depths.len + 1 := min_le_left _ _
  unfold SenderStream.shouldAccelerate at hdeep
  split at hdeep
  · cases hdeep
  · dsimp only at hdeep
    split at hdeep
    · cases hdeep
    · omega

/-- An acceleration of a stream that plays. -/
theorem plays_accelerates (h : s.jitter.Low) (hfill : s.depths.Filling)
    (hplays : Plays s s.target done s') {dropped played : UInt32}
    (hop : done.op = some (.accelerated dropped played)) :
    Accelerates s s' done dropped played ∧ s'.state = s.state ∧
      Config.playoutAccelMinObserved ≤ s.depths.len + 1 := by
  cases hplays with
  | packet hpop hcalls => cases hop
  | concealed hpop hkind hdiag => rcases hkind with rfl | rfl <;> cases hop
  | ended hpop hhold => cases hop
  | expanded hpop hhold => cases hop
  | @accelerated out data out' data' jitter jitter' answer calls decoder frame hpop hdeep hpeek
      hpop' hcalls =>
    cases hop
    obtain ⟨hobserved, hdepth⟩ := shouldAccelerate_depth hfill hdeep
    obtain ⟨hstarted, hfirst, hnext⟩ := pop_packet h hpop
    have hlow : jitter.Low := by
      have hlow := h.pop out
      rwa [hpop] at hlow
    have hbuf := peek_isSome_iff.1 hpeek
    have hanswer := pop_of_buffered (started_of_pop hpop (by decide)).2 hbuf out'
    obtain rfl : answer = .packet := by
      rw [hanswer] at hpop'
      cases hpop'
      rfl
    obtain ⟨-, hsecond, hnext'⟩ := pop_packet hlow hpop'
    have hcount := countBuffered_pop h hpop
    have hcount' := countBuffered_pop hlow hpop'
    refine ⟨⟨rfl, hnext, ⟨data, data', hfirst, peek_of_pop hpop hsecond, hcalls⟩, hnext', ?_, ?_⟩,
      rfl, hobserved⟩
    · show targetFrames jitter'.jitterMs = targetFrames s.jitter.jitterMs
      rw [pop_jitterMs hpop', pop_jitterMs hpop]
    · show s.target ≤ jitter'.countBuffered
      omega

/-- A frame of a stream that plays and has something in its buffer. -/
theorem plays_goes_on (h : s.jitter.Low) (hcount : s.jitter.countBuffered ≠ 0)
    (hstate : s.state = .playing) (hplays : Plays s target done s') :
    s'.state = .playing ∧ done.op ≠ none ∧ done.op ≠ some .expand := by
  cases hplays with
  | packet hpop hcalls => exact ⟨hstate, by simp, by simp⟩
  | accelerated hpop hdeep hpeek hpop' hcalls => exact ⟨hstate, by simp, by simp⟩
  | concealed hpop hkind hdiag =>
    refine ⟨hstate, ?_⟩
    rcases hkind with rfl | rfl <;> simp
  | ended hpop hhold => exact absurd rfl (pop_ne_empty h hcount hpop)
  | expanded hpop hhold => exact absurd rfl (pop_ne_empty h hcount hpop)

omit [F32 F] in
/-- What the arrivals between two frames leave as it is. -/
theorem receives_goes_on (h : s.jitter.Low) (hcount : s.jitter.countBuffered ≠ 0)
    {arrivals : List (UInt32 × Bytes × ℕ)}
    (hnumbered : ∀ a ∈ arrivals, a.1 ≠ 0 ∧ a.1.toNat < 2 ^ 31) :
    (s.receives arrivals).jitter.Low ∧ (s.receives arrivals).jitter.countBuffered ≠ 0 ∧
      (s.receives arrivals).state = s.state := by
  induction arrivals generalizing s with
  | nil => exact ⟨h, hcount, rfl⟩
  | cons arrival arrivals ih =>
    obtain ⟨seq, packet, now⟩ := arrival
    obtain ⟨hpos, hlow⟩ := hnumbered (seq, packet, now) List.mem_cons_self
    exact ih (s := (s.receive seq packet now).1) (h.push hpos hlow)
      (countBuffered_push h hpos hlow packet now hcount)
      fun a hmem => hnumbered a (List.mem_cons_of_mem _ hmem)

/-- **A buffer with something in it keeps its stream playing.** -/
theorem goesOn_of_buffered (opus : OpusDecoder F D) (h : s.jitter.Low)
    (hcount : s.jitter.countBuffered ≠ 0) (hstate : s.state = .playing) : s.GoesOn opus := by
  intro arrivals hnumbered now pull scratch
  obtain ⟨hlow, hleft, hsame⟩ := receives_goes_on h hcount hnumbered
  have hplaying := hsame.trans hstate
  have hrenders := render_renders opus (s.receives arrivals) now pull scratch
  dsimp only
  generalize (s.receives arrivals).render opus now pull scratch = r at hrenders
  obtain ⟨stream, scratch', done⟩ := r
  dsimp only at hrenders ⊢
  cases hrenders with
  | waits hidle =>
    rw [hplaying] at hidle
    cases hidle
  | plays hwake hplay =>
    cases hwake with
    | playing _ => exact plays_goes_on hlow hleft hplaying hplay
    | starts hidle _ =>
      rw [hplaying] at hidle
      cases hidle

/-- What a frame does to the last depths. -/
theorem plays_depths (h : s.depths.Filling) (hplays : Plays s target done s') :
    s'.depths.Filling ∧ (s'.state = .playing → s'.depths.len ≤
      match done.op with
      | some (.accelerated _ _) => 0
      | _ => s.depths.len + 1) := by
  have hlen : s.looked.depths.len ≤ s.depths.len + 1 := min_le_left _ _
  have hpush : s.looked.depths.Filling := h.push _
  cases hplays with
  | packet hpop hcalls => exact ⟨hpush, fun _ => hlen⟩
  | accelerated hpop hdeep hpeek hpop' hcalls =>
    exact ⟨DepthWindow.filling_reset _, fun _ => le_rfl⟩
  | concealed hpop hkind hdiag =>
    refine ⟨hpush, fun _ => ?_⟩
    rcases hkind with rfl | rfl <;> exact hlen
  | ended hpop hhold => exact ⟨DepthWindow.filling_reset _, fun hidle => by cases hidle⟩
  | expanded hpop hhold => exact ⟨hpush, fun _ => hlen⟩

end Steps

/-! ## Runs -/

section Runs

variable [F32 F] {opus : OpusDecoder F D} {w : Paced F D}

theorem paced_new (decoder : D) (now : ℕ) : (Paced.new decoder now : Paced F D).Inv :=
  ⟨.new, DepthWindow.filling_new, fun hplaying => by cases hplaying⟩

omit [F32 F] in
/-- A stream that is about to play has not looked at its depth more often than it was rendered. -/
theorem wakes_paced (h : w.Inv) {skipped : ℕ} {woken : SenderStream F D}
    (hwake : Wakes w.stream skipped woken) :
    woken.jitter.Low ∧ woken.depths.Filling ∧ woken.depths.len + 1 ≤ w.sofar ∧
      woken.target = w.stream.target := by
  unfold Paced.sofar
  cases hwake with
  | playing hstate =>
    rw [hstate, if_neg (by decide)]
    exact ⟨h.low, h.filling, Nat.succ_le_succ (h.renders hstate), rfl⟩
  | starts hstate hbuffered =>
    rw [hstate, if_pos rfl]
    exact ⟨h.low.skipToOldest, DepthWindow.filling_reset _, le_rfl, rfl⟩

variable (opus) in
/-- One event. -/
theorem paced_step (h : w.Inv) {event : StreamEvent F} (hnumbered : event.Numbered) :
    (w.step opus event).1.Inv ∧ w.Safe opus event := by
  cases event with
  | packet seq packet now =>
    exact ⟨⟨low_receive h.low hnumbered packet now, h.filling, h.renders⟩,
      fun done dropped played hdone => by cases hdone⟩
  | frame now pull scratch =>
    have hlow : (w.stream.render opus now pull scratch).stream.jitter.Low :=
      h.low.render now pull scratch
    have hrenders := render_renders opus w.stream now pull scratch
    unfold Paced.Safe Paced.step
    dsimp only
    generalize w.stream.render opus now pull scratch = r at hlow hrenders
    obtain ⟨stream, scratch', done⟩ := r
    dsimp only at hlow hrenders ⊢
    cases hrenders with
    | waits hstate =>
      refine ⟨⟨hlow, h.filling, fun hplaying => ?_⟩, ?_⟩
      · rw [show w.stream.state = .playing from hplaying] at hstate
        cases hstate
      · rintro _ dropped played ⟨⟩ hop
        cases hop
    | @plays skipped woken _ done hwake hplay =>
      obtain ⟨hwoken, hfilling, hsofar, htarget⟩ := wakes_paced h hwake
      obtain ⟨hfilling', hlen⟩ := plays_depths hfilling hplay
      refine ⟨⟨hlow, hfilling', fun hplaying => ?_⟩, ?_⟩
      · refine (hlen hplaying).trans ?_
        dsimp only
        split
        · exact le_rfl
        · exact hsofar
      · rintro _ dropped played ⟨⟩ hop
        rw [← htarget] at hplay
        obtain ⟨haccel, hstate, hobserved⟩ := plays_accelerates hwoken hfilling hplay hop
        cases hwake with
        | starts hidle hbuffered =>
          -- The stream has only just started to look at its depth.
          exact absurd hobserved (show ¬ 10 ≤ 0 + 1 by decide)
        | playing hplaying =>
          have hleft : stream.jitter.countBuffered ≠ 0 := by
            have hleast := playoutTargetMin_le_target w.stream
            have henough := haccel.enough.2
            unfold Config.playoutTargetMinFrames at hleast
            omega
          exact ⟨haccel, goesOn_of_buffered opus hlow hleft (hstate.trans hplaying),
            hobserved.trans hsofar⟩

end Runs

/-- **Acceleration is safe**: in every run of packets and frames of a stream whose numbers are
those of the first half of the counter, a frame that is accelerated takes the next two packets,
which are there, and hands each to the decoder once, in order; it leaves the target in the
buffer, so that the next frame is neither an underrun nor the end of the talkspurt, whatever
arrives before it; and it is at least the tenth since the stream has started to play or was last
accelerated. -/
theorem acceleration_safe [F32 F] (opus : OpusDecoder F D) (decoder : D) (start : ℕ)
    {events : List (StreamEvent F)} (hnumbered : ∀ event ∈ events, event.Numbered) :
    Along (Paced.step opus) (Paced.Safe opus) (.new decoder start) events := by
  suffices h : ∀ w : Paced F D, w.Inv → Along (Paced.step opus) (Paced.Safe opus) w events from
    h _ (paced_new decoder start)
  induction events with
  | nil => exact fun _ _ => trivial
  | cons event events ih =>
    intro w hw
    obtain ⟨hnext, hsafe⟩ := paced_step opus hw (hnumbered event List.mem_cons_self)
    exact ⟨hsafe, ih (fun event hmem => hnumbered event (List.mem_cons_of_mem _ hmem)) _ hnext⟩

/-- A full buffer, and a packet for every frame from then on: the tenth frame is accelerated. -/
def deepBuffer : List (StreamEvent Whole) :=
  (List.range 15).map (fun n => .packet (.ofNat (n + 1)) [] 0) ++
    (List.range 10).flatMap fun n => [.frame 0 0 .new, .packet (.ofNat (n + 16)) [] 0]

theorem acceleration_safe_deep :
    Along (Paced.step silent) (Paced.Safe silent) (.new () 0) deepBuffer :=
  acceleration_safe silent () 0 (by
    have hnumber : ∀ n < 25, (StreamEvent.packet (.ofNat (n + 1)) [] 0 :
        StreamEvent Whole).Numbered := by
      intro n hn
      have htoNat : (UInt32.ofNat (n + 1)).toNat = n + 1 := by
        rw [UInt32.toNat_ofNat']
        omega
      refine ⟨fun hzero => ?_, htoNat.trans_lt (by omega)⟩
      rw [hzero] at htoNat
      exact absurd htoNat (Nat.succ_ne_zero n).symm
    intro event hmem
    rcases List.mem_append.1 hmem with hpacket | hlater
    · obtain ⟨n, hn, rfl⟩ := List.mem_map.1 hpacket
      exact hnumber n ((List.mem_range.1 hn).trans (by decide))
    · obtain ⟨n, hn, hevent⟩ := List.mem_flatMap.1 hlater
      rcases List.mem_cons.1 hevent with rfl | hevent
      · trivial
      · rw [List.mem_singleton.1 hevent]
        exact hnumber (n + 15) (Nat.add_lt_add_right (List.mem_range.1 hn) 15))

end Client
end TcVoice
