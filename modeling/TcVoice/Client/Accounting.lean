import TcVoice.Client.Frames
import TcVoice.Client.JitterPush

/-!
# Accounting for loss

What a stream reports to the statistics, and the statistics of `crates/client/src/voice.rs`.

* `NetworkStats.report` — a packet or a loss into the measurement window.
* `Accounted` — a stream, with the number that its window was last moved to by a packet, and
  the reports since.
* `reportsOf` — what each kind of frame reports.
* `loss_accounting` — **every sequence number is reported once**, played, dropped, concealed or
  skipped; and the window never holds more than its size.
-/

namespace TcVoice
namespace Client

open Machines

/-! ## The statistics -/

/-- `QualityTier::from_loss`. -/
def QualityTier.fromLoss (lossPercent : UInt8) : QualityTier :=
  if Config.lossThreshMinimum ≤ lossPercent.toNat then .minimum
  else if Config.lossThreshLow ≤ lossPercent.toNat then .low
  else if Config.lossThreshMedium ≤ lossPercent.toNat then .medium
  else .high

/-- `NetworkStats`. -/
structure NetworkStats where
  received : ℕ
  lost : ℕ
  lossPercent : UInt8
  currentTier : QualityTier

namespace NetworkStats

/-- `NetworkStats::new`. -/
def new : NetworkStats := ⟨0, 0, 0, .high⟩

/-- `record_received` and `record_lost`. -/
def record (s : NetworkStats) : Report → NetworkStats
  | .received => { s with received := s.received + 1 }
  | .lost => { s with lost := s.lost + 1 }

/-- `maybe_finalize_window`. -/
def maybeFinalizeWindow (s : NetworkStats) : NetworkStats :=
  let total := s.received + s.lost
  if Config.statsWindowPackets ≤ total then
    let loss := (Float32.ofNat s.lost / Float32.ofNat total * 100.0).toUInt8
    { received := 0, lost := 0, lossPercent := loss, currentTier := .fromLoss loss }
  else s

/-- A report, with nothing to answer. -/
def report (s : NetworkStats) (r : Report) : NetworkStats × Unit :=
  ((s.record r).maybeFinalizeWindow, ())

/-- The window holds no more than its size, before and after it is looked at. -/
def Bounded (s : NetworkStats) (r : Report) : Prop :=
  (s.record r).received + (s.record r).lost ≤ Config.statsWindowPackets ∧
    (s.report r).1.received + (s.report r).1.lost ≤ Config.statsWindowPackets

theorem report_bounded {s : NetworkStats} (h : s.received + s.lost < Config.statsWindowPackets)
    (r : Report) :
    (s.report r).1.received + (s.report r).1.lost < Config.statsWindowPackets ∧ s.Bounded r := by
  have hrecord : (s.record r).received + (s.record r).lost = s.received + s.lost + 1 := by
    cases r with
    | received => exact Nat.add_right_comm _ _ _
    | lost => rfl
  have hnext : (s.report r).1.received + (s.report r).1.lost < Config.statsWindowPackets := by
    show (s.record r).maybeFinalizeWindow.received + (s.record r).maybeFinalizeWindow.lost < _
    unfold maybeFinalizeWindow
    dsimp only
    split
    · exact (by decide : 0 < Config.statsWindowPackets)
    · omega
  exact ⟨hnext, by omega, hnext.le⟩

/-- Whatever is reported, the window is bounded. -/
theorem bounded_reports {s : NetworkStats} (h : s.received + s.lost < Config.statsWindowPackets)
    (reports : List Report) : Along report Bounded s reports := by
  induction reports generalizing s with
  | nil => trivial
  | cons r reports ih =>
    obtain ⟨hnext, hbounded⟩ := report_bounded h r
    exact ⟨hbounded, ih hnext⟩

end NetworkStats

/-! ## The reports of a stream -/

/-- What a frame reports beside the numbers skipped in front of it. -/
def reportsOf : Option FrameOp → List Report
  | some (.packet _) => [.received]
  | some (.accelerated _ _) => [.received, .received]
  | some (.fec _) | some .plc => [.lost]
  | some .expand | none => []

/-- A packet moves the window of a buffer: it is the first, or it resets or re-anchors it. -/
def JitterBuffer.moves (b : JitterBuffer) (seq : UInt32) : Bool :=
  !b.started || b.outcome seq == .restart || b.outcome seq == .reanchor ||
    b.outcome seq == .resync

variable {F D : Type}

/-- A stream, with the next number as a packet has last set it, and how many reports there were
since. -/
structure Accounted (F D : Type) where
  stream : SenderStream F D
  anchor : UInt32
  reports : ℕ

namespace Accounted

/-- The next number is as far from where it was set as there were reports. -/
def Balanced (w : Accounted F D) : Prop :=
  w.stream.jitter.nextSeq.toNat = w.anchor.toNat + w.reports

variable [F32 F] (opus : OpusDecoder F D)

/-- A new stream. -/
def new (decoder : D) (now : ℕ) : Accounted F D := ⟨.new decoder now, 0, 0⟩

/-- One event, accounted for. -/
def step (w : Accounted F D) : StreamEvent F → Accounted F D × StreamAnswer
  | .packet seq packet now =>
    let (stream, late) := w.stream.receive seq packet now
    (if w.stream.jitter.moves seq then ⟨stream, stream.jitter.nextSeq, 0⟩ else { w with stream },
      .late late)
  | .frame now pull scratch =>
    let r := w.stream.render opus now pull scratch
    (⟨r.stream, w.anchor, w.reports + r.done.reports.length⟩, .frame r.done)

/-- What is asked of an event: the reports are balanced before and after it; and those of a frame
are the losses that are skipped where a talkspurt starts, and what the frame itself reports. -/
def Counts (w : Accounted F D) (event : StreamEvent F) : Prop :=
  w.Balanced ∧ (w.step opus event).1.Balanced ∧
    ∀ done, (w.step opus event).2 = .frame done → ∃ skipped,
      (w.stream.state = .playing → skipped = 0) ∧
        done.reports = .replicate skipped .lost ++ reportsOf done.op

end Accounted

/-! ## Every number once -/

section Steps

variable {s s' woken : SenderStream F D} {seq : UInt32} {packet : Bytes} {now target skipped : ℕ}
  {done : Done}

/-- A packet that does not move the window leaves the next number. -/
theorem receive_nextSeq (s : SenderStream F D) (seq : UInt32) (packet : Bytes) (now : ℕ)
    (h : s.jitter.moves seq = false) :
    (s.receive seq packet now).1.jitter.nextSeq = s.jitter.nextSeq := by
  show (s.jitter.push seq packet now).1.nextSeq = _
  unfold JitterBuffer.moves at h
  simp only [Bool.or_eq_false_iff, Bool.not_eq_false', beq_eq_false_iff_ne] at h
  obtain ⟨⟨⟨hstarted, hrestart⟩, hreanchor⟩, hresync⟩ := h
  rw [push_eq]
  cases hway : s.jitter.outcome seq with
  | late => exact observe_nextSeq
  | stray => rfl
  | store =>
    show ((s.jitter.moved seq).store seq packet now).nextSeq = _
    unfold JitterBuffer.moved
    rw [hway, if_pos hstarted]
    exact observe_nextSeq
  | restart => exact absurd hway hrestart
  | reanchor => exact absurd hway hreanchor
  | resync => exact absurd hway hresync

theorem low_receive (h : s.jitter.Low) (hseq : seq ≠ 0 ∧ seq.toNat < 2 ^ 31) (packet : Bytes)
    (now : ℕ) :
    (s.receive seq packet now).1.jitter.Low := h.push hseq.1 hseq.2

theorem wakes_nextSeq (h : s.jitter.Low) (hwake : Wakes s skipped woken) :
    woken.jitter.nextSeq.toNat = s.jitter.nextSeq.toNat + skipped ∧ woken.jitter.Low ∧
      (s.state = .playing → skipped = 0) := by
  cases hwake with
  | playing hstate => exact ⟨rfl, h, fun _ => rfl⟩
  | starts hstate hbuffered =>
    refine ⟨skipToOldest_nextSeq h (started_of_countBuffered h.first hbuffered),
      h.skipToOldest, fun hplaying => ?_⟩
    rw [hstate] at hplaying
    cases hplaying

variable [F32 F]

/-- A frame reports what its kind does, and moves the window by as much. -/
theorem plays_reports (h : s.jitter.Low) (hplays : Plays s target done s') :
    done.reports = reportsOf done.op ∧
      s'.jitter.nextSeq.toNat = s.jitter.nextSeq.toNat + done.reports.length := by
  cases hplays with
  | packet hpop hcalls => exact ⟨rfl, pop_nextSeq h hpop (by decide)⟩
  | @accelerated out data out' data' jitter jitter' answer calls decoder frame hpop hdeep hpeek
      hpop' hcalls =>
    have hlow : jitter.Low := by
      have hlow := h.pop out
      rwa [hpop] at hlow
    have hstarted := (started_of_pop hpop (by decide)).2
    have hanswer : answer ≠ .empty := by
      rw [pop_of_buffered hstarted (peek_isSome_iff.1 hpeek)] at hpop'
      cases hpop'
      decide
    have hfirst := pop_nextSeq h hpop (by decide)
    have hsecond := pop_nextSeq hlow hpop' hanswer
    refine ⟨rfl, ?_⟩
    show jitter'.nextSeq.toNat = s.jitter.nextSeq.toNat + 2
    omega
  | concealed hpop hop hdiag =>
    refine ⟨?_, pop_nextSeq h hpop (by decide)⟩
    rcases hop with rfl | rfl <;> rfl
  | ended hpop hhold => exact ⟨rfl, congrArg (·.nextSeq.toNat) (pop_empty hpop)⟩
  | expanded hpop hhold => exact ⟨rfl, congrArg (·.nextSeq.toNat) (pop_empty hpop)⟩

end Steps

section Run

variable [F32 F] {opus : OpusDecoder F D} {w : Accounted F D}

theorem balanced_new (decoder : D) (now : ℕ) :
    (Accounted.new decoder now : Accounted F D).Balanced :=
  rfl

variable (opus) in
/-- One event, with the buffer in the first half of the counter. -/
theorem accounted_step (h : w.stream.jitter.Low) (hbalanced : w.Balanced) {event : StreamEvent F}
    (hnumbered : event.Numbered) :
    (w.step opus event).1.stream.jitter.Low ∧ w.Counts opus event := by
  unfold Accounted.Counts
  cases event with
  | packet seq packet now =>
    have hlow := low_receive h hnumbered packet now
    have hbefore := receive_nextSeq w.stream seq packet now
    unfold Accounted.step
    dsimp only
    cases hmoves : w.stream.jitter.moves seq with
    | true => exact ⟨hlow, hbalanced, rfl, fun done hdone => by cases hdone⟩
    | false =>
      refine ⟨hlow, hbalanced, ?_, fun done hdone => by cases hdone⟩
      exact (congrArg UInt32.toNat (hbefore hmoves)).trans hbalanced
  | frame now pull scratch =>
    have hlow : (w.stream.render opus now pull scratch).stream.jitter.Low :=
      h.render now pull scratch
    have hrenders := render_renders opus w.stream now pull scratch
    unfold Accounted.step Accounted.Balanced
    unfold Accounted.Balanced at hbalanced
    dsimp only
    generalize w.stream.render opus now pull scratch = r at hlow hrenders
    obtain ⟨stream, scratch', done⟩ := r
    dsimp only at hlow hrenders ⊢
    refine ⟨hlow, hbalanced, ?_⟩
    cases hrenders with
    | waits hstate =>
      refine ⟨hbalanced, ?_⟩
      rintro _ ⟨⟩
      exact ⟨0, fun _ => rfl, rfl⟩
    | @plays skipped woken _ done hwake hplay =>
      obtain ⟨hskipped, hwoken, hplaying⟩ := wakes_nextSeq h hwake
      obtain ⟨hreports, hnext⟩ := plays_reports hwoken hplay
      constructor
      · rw [hnext, hskipped, hbalanced, List.length_append, List.length_replicate]
        omega
      · rintro _ ⟨⟩
        exact ⟨skipped, hplaying, congrArg (_ ++ ·) hreports⟩

theorem accounted_run (h : w.stream.jitter.Low) (hbalanced : w.Balanced)
    {events : List (StreamEvent F)} (hnumbered : ∀ event ∈ events, event.Numbered) :
    Along (Accounted.step opus) (Accounted.Counts opus) w events := by
  induction events generalizing w with
  | nil => trivial
  | cons event events ih =>
    obtain ⟨hlow, hcounts⟩ := accounted_step opus h hbalanced
      (hnumbered event List.mem_cons_self)
    exact ⟨hcounts, ih hlow hcounts.2.1 fun event hmem =>
      hnumbered event (List.mem_cons_of_mem _ hmem)⟩

end Run

/-- **Every sequence number is reported once**: in every run of packets and frames of a stream,
there have been as many reports since a packet last set the next number as that has gone on
since; each frame reports what its kind does, after the losses skipped where a talkspurt
starts; and whatever streams report, the measurement window holds no more than its size. -/
theorem loss_accounting [F32 F] (opus : OpusDecoder F D) (decoder : D) (start : ℕ)
    {events : List (StreamEvent F)} (hnumbered : ∀ event ∈ events, event.Numbered) :
    Along (Accounted.step opus) (Accounted.Counts opus) (.new decoder start) events ∧
      ∀ reports : List Report, Along NetworkStats.report NetworkStats.Bounded .new reports :=
  ⟨accounted_run .new (balanced_new decoder start) hnumbered,
    fun reports => NetworkStats.bounded_reports (by decide) reports⟩

/-- Two packets with a hole between them, and frames. -/
theorem loss_accounting_sample :
    Along (Accounted.step silent) (Accounted.Counts silent) (.new () 0)
        [.packet 1 [7] 0, .packet 3 [8] 0, .frame (10 ^ 9) 0 .new, .frame (10 ^ 9) 0 .new] ∧
      ∀ reports : List Report, Along NetworkStats.report NetworkStats.Bounded .new reports :=
  loss_accounting silent () 0 (by
    intro event hmem
    simp only [List.mem_cons, List.not_mem_nil, or_false] at hmem
    rcases hmem with rfl | rfl | rfl | rfl
    · exact ⟨by decide, by decide⟩
    · exact ⟨by decide, by decide⟩
    · trivial
    · trivial)

end Client
end TcVoice
