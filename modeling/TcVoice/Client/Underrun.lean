import TcVoice.Client.Frames
import TcVoice.Client.JitterPush

/-!
# Underruns

What a stream does while its buffer has nothing to play, and which of these frames are counted
as glitches: those that the talkspurt goes on after, but not its tail.

* `Resting` — what holds of a stream after any events.
* `expandsInFront`, `expandsCounted` — read off the frames of a run: the underruns that it
  begins with, and those that a packet of the same playing period comes after.
* `expand_run`, `counted_run` — what the counters of a stream say about the frames to come.
* `underruns` — **at most three underruns in a row; none moves the window; and the glitch counter
  has exactly those that speech came after**.
-/

namespace TcVoice
namespace Client

open Machines

/-! ## Frames in a row -/

/-- The underruns that a run begins with. -/
def expandsInFront : List (Option FrameOp) → ℕ
  | some .expand :: ops => expandsInFront ops + 1
  | _ => 0

/-- Whether a packet is played before the stream goes idle. -/
def resumes : List (Option FrameOp) → Bool
  | some (.packet _) :: _ | some (.accelerated _ _) :: _ => true
  | some _ :: ops => resumes ops
  | _ => false

/-- The underruns of a run that a packet of the same playing period comes after.  A period ends
with a frame for which nothing is played. -/
def expandsCounted : List (Option FrameOp) → ℕ
  | some .expand :: ops => expandsCounted ops + if resumes ops then 1 else 0
  | _ :: ops => expandsCounted ops
  | [] => 0

section Ops

variable (ops : List (Option FrameOp)) (seq next dropped played : UInt32)

@[simp] theorem resumes_none : resumes (none :: ops) = false := rfl

@[simp] theorem resumes_packet : resumes (some (.packet seq) :: ops) = true := rfl

@[simp] theorem resumes_accelerated :
    resumes (some (.accelerated dropped played) :: ops) = true := rfl

@[simp] theorem resumes_fec : resumes (some (.fec next) :: ops) = resumes ops := rfl

@[simp] theorem resumes_plc : resumes (some .plc :: ops) = resumes ops := rfl

@[simp] theorem resumes_expand : resumes (some .expand :: ops) = resumes ops := rfl

end Ops

/-- Every frame but an underrun leaves the count to those after it. -/
theorem expandsCounted_of_ne {op : Option FrameOp} (hop : op ≠ some .expand)
    (ops : List (Option FrameOp)) : expandsCounted (op :: ops) = expandsCounted ops := by
  cases op with
  | none => rfl
  | some op => cases op <;> first | rfl | exact absurd rfl hop

theorem expandsInFront_of_ne {op : Option FrameOp} (hop : op ≠ some .expand)
    (ops : List (Option FrameOp)) : expandsInFront (op :: ops) = 0 := by
  cases op with
  | none => rfl
  | some op => cases op <;> first | rfl | exact absurd rfl hop

variable {F D : Type}

/-- What holds of a stream after any events: it does not hold on for longer than it may, and it
has nothing to hold or to count while it is idle. -/
structure Resting (s : SenderStream F D) : Prop where
  sane : s.jitter.Sane
  hold : s.hold ≤ Config.playoutHoldFrames
  idle : s.state = .idle → s.hold = 0 ∧ s.pendingExpand = 0

section Steps

variable {s s' woken : SenderStream F D} {seq : UInt32} {packet : Bytes}
  {now target skipped : ℕ} {done : Done}

theorem resting_receive (h : Resting s) : Resting (s.receive seq packet now).1 :=
  ⟨sane_push h.sane packet now, h.hold, h.idle⟩

/-- A stream that starts to play has its first packet next. -/
theorem wakes_resting (h : Resting s) (hwake : Wakes s skipped woken) : Resting woken ∧
    woken.state = .playing ∧ woken.hold = s.hold ∧ woken.pendingExpand = s.pendingExpand ∧
      (woken.jitter.nextSeq = s.jitter.nextSeq ∨
        woken.jitter.started = true ∧ woken.jitter.buffered woken.jitter.nextSeq = true) := by
  cases hwake with
  | playing hstate => exact ⟨h, hstate, rfl, rfl, .inl rfl⟩
  | starts hstate hbuffered =>
    have hstarted := started_of_countBuffered h.sane.first hbuffered
    refine ⟨⟨sane_use h.sane .skipToOldest, Nat.zero_le _, fun hidle => ?_⟩, rfl,
      (h.idle hstate).1.symm, rfl, .inr ⟨hstarted, buffered_skipToOldest hbuffered⟩⟩
    cases hidle

variable [F32 F]

theorem plays_resting (h : Resting s) (hstate : s.state = .playing)
    (hplays : Plays s target done s') : Resting s' := by
  have hsane : ∀ {out data : Bytes} {jitter : JitterBuffer} {answer : PopResult},
      s.jitter.pop out = (jitter, data, answer) → jitter.Sane := by
    intro out data jitter answer hpop
    have hnext := sane_pop h.sane out
    rwa [hpop] at hnext
  have hplaying : s.state = .idle → False := by
    intro hidle
    rw [hstate] at hidle
    cases hidle
  cases hplays with
  | packet hpop hcalls =>
    exact ⟨hsane hpop, Nat.zero_le _, fun hidle => (hplaying hidle).elim⟩
  | @accelerated out data out' data' jitter jitter' answer calls decoder frame hpop hdeep hpeek
      hpop' hcalls =>
    have hnext := sane_pop (hsane hpop) out'
    rw [hpop'] at hnext
    exact ⟨hnext, Nat.zero_le _, fun hidle => (hplaying hidle).elim⟩
  | concealed hpop hop hdiag =>
    exact ⟨hsane hpop, Nat.zero_le _, fun hidle => (hplaying hidle).elim⟩
  | ended hpop hhold =>
    exact ⟨sane_use (hsane hpop) .endTalkspurt, Nat.zero_le _, fun _ => ⟨rfl, rfl⟩⟩
  | expanded hpop hhold => exact ⟨hsane hpop, hhold, fun hidle => (hplaying hidle).elim⟩

theorem renders_resting (h : Resting s) (hrenders : Renders s done s') : Resting s' := by
  cases hrenders with
  | waits hstate => exact ⟨h.sane, h.hold, h.idle⟩
  | plays hwake hplay =>
    obtain ⟨hwoken, hstate, -⟩ := wakes_resting h hwake
    exact plays_resting hwoken hstate hplay

/-- An underrun is one more on hold, and moves no number. -/
theorem renders_expand (h : Resting s) (hrenders : Renders s done s')
    (hop : done.op = some .expand) :
    s'.hold = s.hold + 1 ∧ s'.jitter.nextSeq = s.jitter.nextSeq := by
  cases hrenders with
  | waits hstate => cases hop
  | plays hwake hplay =>
    obtain ⟨-, -, hhold, -, hnext⟩ := wakes_resting h hwake
    cases hplay with
    | packet hpop hcalls => cases hop
    | accelerated hpop hdeep hpeek hpop' hcalls => cases hop
    | concealed hpop hkind hdiag => rcases hkind with rfl | rfl <;> cases hop
    | ended hpop hlong => cases hop
    | expanded hpop hshort =>
      refine ⟨congrArg (· + 1) hhold, ?_⟩
      rw [pop_empty hpop]
      refine hnext.resolve_right ?_
      rintro ⟨hstarted, hbuf⟩
      rw [pop_of_buffered hstarted hbuf] at hpop
      cases hpop

/-- What a frame adds to the glitch counter, and what it leaves to be counted. -/
theorem renders_pending (h : Resting s) (hrenders : Renders s done s') :
    match done.op with
    | some .expand => done.diag.expandFrames = 0 ∧ s'.pendingExpand = s.pendingExpand + 1
    | some (.packet _) | some (.accelerated _ _) =>
      done.diag.expandFrames = s.pendingExpand ∧ s'.pendingExpand = 0
    | some (.fec _) | some .plc =>
      done.diag.expandFrames = 0 ∧ s'.pendingExpand = s.pendingExpand
    | none => done.diag.expandFrames = 0 ∧ s'.pendingExpand = 0 := by
  cases hrenders with
  | waits hstate => exact ⟨rfl, (h.idle hstate).2⟩
  | plays hwake hplay =>
    obtain ⟨-, -, -, hpending, -⟩ := wakes_resting h hwake
    rw [← hpending]
    cases hplay with
    | packet hpop hcalls => exact ⟨rfl, rfl⟩
    | accelerated hpop hdeep hpeek hpop' hcalls => exact ⟨rfl, rfl⟩
    | concealed hpop hkind hdiag => rcases hkind with rfl | rfl <;> exact ⟨hdiag, rfl⟩
    | ended hpop hlong => exact ⟨rfl, rfl⟩
    | expanded hpop hshort => exact ⟨rfl, rfl⟩

end Steps

/-! ## Runs -/

section Runs

variable [F32 F] {opus : OpusDecoder F D} {s : SenderStream F D} {events : List (StreamEvent F)}

/-- What is played for the frames of a run. -/
def opsOf (opus : OpusDecoder F D) (s : SenderStream F D) (events : List (StreamEvent F)) :
    List (Option FrameOp) := (framesDone opus s events).map Done.op

/-- What a run adds to the glitch counter. -/
def glitches (opus : OpusDecoder F D) (s : SenderStream F D) (events : List (StreamEvent F)) : ℕ :=
  ((framesDone opus s events).map fun done => done.diag.expandFrames).sum

/-- A row of underruns is no longer than what is left of the hold. -/
theorem expand_run (h : Resting s) :
    expandsInFront (opsOf opus s events) + s.hold ≤ Config.playoutHoldFrames := by
  induction events generalizing s with
  | nil => exact (Nat.zero_add s.hold).trans_le h.hold
  | cons event events ih =>
    cases event with
    | packet seq packet now => exact ih (resting_receive h)
    | frame now pull scratch =>
      have hrenders := render_renders opus s now pull scratch
      have hrest := ih (renders_resting h hrenders)
      have hops : opsOf opus s (.frame now pull scratch :: events) =
          (s.render opus now pull scratch).done.op ::
            opsOf opus (s.render opus now pull scratch).stream events := rfl
      rw [hops]
      by_cases hop : (s.render opus now pull scratch).done.op = some .expand
      · rw [hop]
        rw [(renders_expand h hrenders hop).1] at hrest
        show expandsInFront _ + 1 + s.hold ≤ _
        omega
      · rw [expandsInFront_of_ne hop, Nat.zero_add]
        exact h.hold

/-- Nor is one that comes later. -/
theorem expand_run_drop (h : Resting s) (k : ℕ) :
    expandsInFront ((opsOf opus s events).drop k) ≤ Config.playoutHoldFrames := by
  induction events generalizing s k with
  | nil =>
    rw [show opsOf opus s [] = [] from rfl, List.drop_nil]
    exact Nat.zero_le _
  | cons event events ih =>
    cases event with
    | packet seq packet now => exact ih (resting_receive h) k
    | frame now pull scratch =>
      cases k with
      | zero => exact (Nat.le_add_right _ _).trans (expand_run h)
      | succ k => exact ih (renders_resting h (render_renders opus s now pull scratch)) k

/-- The glitch counter has the underruns that a packet comes after, and with them those that are
still to be counted. -/
theorem counted_run (h : Resting s) : glitches opus s events =
    expandsCounted (opsOf opus s events) +
      if resumes (opsOf opus s events) then s.pendingExpand else 0 := by
  induction events generalizing s with
  | nil => rfl
  | cons event events ih =>
    cases event with
    | packet seq packet now => exact ih (resting_receive h)
    | frame now pull scratch =>
      have hrenders := render_renders opus s now pull scratch
      have hrest := ih (renders_resting h hrenders)
      have hpending := renders_pending h hrenders
      have hops : opsOf opus s (.frame now pull scratch :: events) =
          (s.render opus now pull scratch).done.op ::
            opsOf opus (s.render opus now pull scratch).stream events := rfl
      have hglitches : glitches opus s (.frame now pull scratch :: events) =
          (s.render opus now pull scratch).done.diag.expandFrames +
            glitches opus (s.render opus now pull scratch).stream events := rfl
      rw [hops, hglitches, hrest]
      generalize opsOf opus (s.render opus now pull scratch).stream events = ops
      cases hop : (s.render opus now pull scratch).done.op with
      | none =>
        rw [hop] at hpending
        simp [hpending.1, hpending.2, expandsCounted_of_ne]
      | some op =>
        rw [hop] at hpending
        cases op with
        | expand =>
          have hcounted : expandsCounted (some .expand :: ops) =
              expandsCounted ops + if resumes ops then 1 else 0 := rfl
          rw [hcounted, resumes_expand, hpending.1, hpending.2]
          split <;> omega
        | packet seq => simp [hpending.1, hpending.2, expandsCounted_of_ne, Nat.add_comm]
        | accelerated dropped played =>
          simp [hpending.1, hpending.2, expandsCounted_of_ne, Nat.add_comm]
        | fec next =>
          rw [expandsCounted_of_ne (by simp), resumes_fec, hpending.1, hpending.2, Nat.zero_add]
        | plc =>
          rw [expandsCounted_of_ne (by simp), resumes_plc, hpending.1, hpending.2, Nat.zero_add]

/-- An underrun does not move the window. -/
def ExpandStays (opus : OpusDecoder F D) (s : SenderStream F D) (event : StreamEvent F) : Prop :=
  ∀ done, (s.step opus event).2 = .frame done → done.op = some .expand →
    (s.step opus event).1.jitter.nextSeq = s.jitter.nextSeq

theorem expandStays_run (h : Resting s) :
    Along (SenderStream.step opus) (ExpandStays opus) s events := by
  induction events generalizing s with
  | nil => trivial
  | cons event events ih =>
    cases event with
    | packet seq packet now =>
      exact ⟨fun done hdone => (by cases hdone), ih (resting_receive h)⟩
    | frame now pull scratch =>
      have hrenders := render_renders opus s now pull scratch
      refine ⟨?_, ih (renders_resting h hrenders)⟩
      rintro done ⟨⟩ hop
      exact (renders_expand h hrenders hop).2

end Runs

theorem resting_after [F32 F] {opus : OpusDecoder F D} {s : SenderStream F D} (h : Resting s)
    (events : List (StreamEvent F)) : Resting (after (SenderStream.step opus) s events) := by
  induction events generalizing s with
  | nil => exact h
  | cons event events ih =>
    cases event with
    | packet seq packet now => exact ih (resting_receive h)
    | frame now pull scratch =>
      exact ih (renders_resting h (render_renders opus s now pull scratch))

theorem resting_new [F32 F] (decoder : D) (start : ℕ) :
    Resting (.new decoder start : SenderStream F D) :=
  ⟨sane_new, Nat.zero_le _, fun _ => ⟨rfl, rfl⟩⟩

/-- **Underruns are short, and counted when speech goes on after them**: in every run of packets
and frames of a stream, whatever their numbers, no more than three underruns come in a row;
none of them moves the window; and the stream has added to the glitch counter exactly those
that a packet of the same playing period came after. -/
theorem underruns [F32 F] (opus : OpusDecoder F D) (decoder : D) (start : ℕ)
    (events : List (StreamEvent F)) :
    (∀ k, expandsInFront ((opsOf opus (.new decoder start) events).drop k) ≤
      Config.playoutHoldFrames) ∧
      Along (SenderStream.step opus) (ExpandStays opus) (.new decoder start) events ∧
        glitches opus (.new decoder start) events =
          expandsCounted (opsOf opus (.new decoder start) events) := by
  refine ⟨expand_run_drop (resting_new decoder start), expandStays_run (resting_new decoder start),
    ?_⟩
  rw [counted_run (resting_new decoder start)]
  exact (congrArg _ (ite_self 0)).trans (Nat.add_zero _)

end Client
end TcVoice
