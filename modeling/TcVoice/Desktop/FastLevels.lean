import TcVoice.Client.LiveLevels
import TcVoice.Lib.Machines
import TcVoice.Shared.Config
import Mathlib.Data.List.ReduceOption

/-!
# The fast level lane

`fast_levels.rs` of the desktop: what the frontend is told about the levels of a call, tick
by tick, for the mouths that move with them.

* `QuietGate`, `Lane` — when a frame goes out, and the task that looks at the levels.
* `Sane` — levels are not negative, and the version moves when they do.
* `Lane.Quiet`, `Lane.Shows` — the two ways a lane can be: nobody is shown with an open
  mouth, or the levels of the last tick are.
* `lane_frames` — **no mouth stays open**: the last frame of an open lane is all zero, at the
  first tick that is silent for long enough or when the call goes; in between every tick
  with something new is shown, and a closed lane says nothing.
-/

namespace TcVoice
namespace Desktop

open Client

variable {L : Type}

/-- `VoiceLevelsPayload`. -/
structure VoiceLevelsPayload (L : Type) where
  me : L
  peers : List (String × L)

/-- `QuietGate`.  Times are in nanoseconds. -/
structure QuietGate where
  silence : ℕ
  lastAudible : Option ℕ

namespace QuietGate

/-- `QuietGate::new`. -/
def new (silence : ℕ) : QuietGate := ⟨silence, none⟩

/-- `QuietGate::tick`: whether to emit, and the gate after it. -/
def tick (gate : QuietGate) (audible changed : Bool) (now : ℕ) : Bool × QuietGate :=
  if audible then (changed, { gate with lastAudible := some now })
  else
    match gate.lastAudible with
    | none => (false, gate)
    | some heard =>
      if gate.silence ≤ now - heard then (true, { gate with lastAudible := none })
      else (changed, gate)

/-- `QuietGate::open`. -/
def isOpen (gate : QuietGate) : Bool := gate.lastAudible.isSome

end QuietGate

/-- The task of `spawn`: not in a call, looking at the levels of one, or gone. -/
inductive Lane (L : Type) where
  | waiting
  | running (gate : QuietGate) (seen : UInt64) (me : L) (peers : List (String × L))
  | stopped

/-- What the task can wake up to: the timer, another handle or none, or nobody left to send
one.  A tick finds the levels as they are at its time. -/
inductive LaneEvent (L : Type) where
  | tick (live : LiveLevels L) (now : ℕ)
  | handle (live : Option (LiveLevels L))
  | dropped

/-- `FAST_LEVEL_SILENCE_MS`. -/
def silence : ℕ := Config.fastLevelSilenceMs * 10 ^ 6

variable [LinearOrder L] [Zero L]

/-- Any level above zero. -/
def audible (me : L) (peers : List (String × L)) : Bool :=
  decide (0 < me) || peers.any fun p => decide (0 < p.2)

namespace Lane

/-- From a handle on, until there is another. -/
def attach : Option (LiveLevels L) → Lane L
  | none => .waiting
  | some live => .running (.new silence) live.version 0 []

/-- The end of a tick: what the gate says of the levels. -/
def hear (gate : QuietGate) (now : ℕ) (changed : Bool) (me : L) (seen : UInt64)
    (peers : List (String × L)) : Lane L × Option (VoiceLevelsPayload L) :=
  let (emit, gate) := gate.tick (audible me peers) changed now
  (.running gate seen me peers, if emit then some ⟨me, peers⟩ else none)

/-- The frame of an open lane whose call goes: `emit_zero`. -/
def emitZero (gate : QuietGate) : Option (VoiceLevelsPayload L) :=
  if gate.isOpen then some ⟨0, []⟩ else none

/-- What the task does when it wakes up, and the frame that it emits. -/
def step : Lane L → LaneEvent L → Lane L × Option (VoiceLevelsPayload L)
  | .waiting, .handle live => (attach live, none)
  | .waiting, .dropped => (.stopped, none)
  | .waiting, .tick _ _ => (.waiting, none)
  | .running gate _ _ _, .handle live => (attach live, emitZero gate)
  | .running gate _ _ _, .dropped => (.stopped, emitZero gate)
  | .running gate seen me peers, .tick live now =>
    if live.version ≠ seen then
      let (me, seen, peers) := live.snapshot peers
      hear gate now true me seen peers
    else if !gate.isOpen then (.running gate seen me peers, none)
    else hear gate now false me seen peers
  | .stopped, _ => (.stopped, none)

/-- Whether the gate of the task is open. -/
def isOpen : Lane L → Bool
  | .running gate _ _ _ => gate.isOpen
  | _ => false

end Lane

/-! ## What a tick shows -/

/-- What a tick has to show. -/
def toShow (live : LiveLevels L) : VoiceLevelsPayload L := ⟨live.own, live.levels⟩

/-- Every level of the frame is zero. -/
def VoiceLevelsPayload.Silent (p : VoiceLevelsPayload L) : Prop :=
  p.me = 0 ∧ ∀ e ∈ p.peers, e.2 = 0

/-- No level of the tick is negative. -/
def NonNegative : LaneEvent L → Prop
  | .tick live _ => 0 ≤ live.own ∧ ∀ e ∈ live.levels, 0 ≤ e.2
  | _ => True

/-- From one tick to the next the version moves whenever a level does. -/
def VersionMoves : LaneEvent L → LaneEvent L → Prop
  | .tick live _, .tick live' _ => live.version = live'.version →
      live.own = live'.own ∧ ∀ e, e ∈ live.levels ↔ e ∈ live'.levels
  | _, _ => True

/-- What is promised of the ticks of a run. -/
structure Sane (events : List (LaneEvent L)) : Prop where
  nonNegative : ∀ e ∈ events, NonNegative e
  moves : events.IsChain VersionMoves

theorem Sane.left {events rest : List (LaneEvent L)} (h : Sane (events ++ rest)) : Sane events :=
  ⟨fun e he => h.nonNegative e (List.mem_append_left _ he), h.moves.left_of_append⟩

theorem audible_congr {me : L} {peers peers' : List (String × L)}
    (h : ∀ e, e ∈ peers ↔ e ∈ peers') : audible me peers = audible me peers' := by
  unfold audible
  congr 1
  rw [Bool.eq_iff_iff, List.any_eq_true, List.any_eq_true]
  simp only [h]

theorem silent_of_not_audible {me : L} {peers : List (String × L)} (hme : 0 ≤ me)
    (hpeers : ∀ e ∈ peers, 0 ≤ e.2) (h : audible me peers = false) :
    (⟨me, peers⟩ : VoiceLevelsPayload L).Silent := by
  obtain ⟨hown, hothers⟩ := Bool.or_eq_false_iff.1 h
  refine ⟨le_antisymm (not_lt.1 (of_decide_eq_false hown)) hme, fun e he => ?_⟩
  have hquiet := List.any_eq_false.1 hothers e he
  exact le_antisymm (not_lt.1 fun hpos => hquiet (decide_eq_true hpos)) (hpeers e he)

namespace Lane

/-! ## One step -/

/-- Nobody is shown with an open mouth. -/
def Quiet (s : Lane L) : Prop :=
  s = .waiting ∨ s = .stopped ∨ ∃ seen me peers, s = .running ⟨silence, none⟩ seen me peers

/-- The levels of the last tick are known, and somebody was audible at `heard`. -/
def Shows (s : Lane L) (heard : ℕ) (live : LiveLevels L) : Prop :=
  ∃ peers, s = .running ⟨silence, some heard⟩ live.version live.own peers ∧
    ∀ e, e ∈ peers ↔ e ∈ live.levels

variable {s : Lane L} {heard now : ℕ} {prev live : LiveLevels L}

omit [LinearOrder L] [Zero L] in
theorem Quiet.isOpen (h : s.Quiet) : s.isOpen = false := by
  rcases h with rfl | rfl | ⟨seen, me, peers, rfl⟩ <;> rfl

omit [LinearOrder L] [Zero L] in
theorem Shows.isOpen (h : s.Shows heard live) : s.isOpen = true := by
  obtain ⟨peers, rfl, -⟩ := h
  rfl

omit [LinearOrder L] in
theorem quiet_attach (live : Option (LiveLevels L)) : (attach live).Quiet := by
  cases live with
  | none => exact Or.inl rfl
  | some live => exact Or.inr (Or.inr ⟨_, _, _, rfl⟩)

/-- A quiet lane stays quiet and says nothing, or it opens with what is there to hear. -/
theorem Quiet.step (h : s.Quiet) (e : LaneEvent L) :
    ((s.step e).1.Quiet ∧ (s.step e).2 = none) ∨
      ∃ live now, e = .tick live now ∧ audible live.own live.levels = true ∧
        (s.step e).1.Shows now live ∧ (s.step e).2 = some (toShow live) := by
  rcases h with rfl | rfl | ⟨seen, me, peers, rfl⟩
  · cases e with
    | tick live now => exact Or.inl ⟨Or.inl rfl, rfl⟩
    | handle live => exact Or.inl ⟨quiet_attach live, rfl⟩
    | dropped => exact Or.inl ⟨Or.inr (Or.inl rfl), rfl⟩
  · exact Or.inl ⟨Or.inr (Or.inl rfl), rfl⟩
  · cases e with
    | handle live => exact Or.inl ⟨quiet_attach live, rfl⟩
    | dropped => exact Or.inl ⟨Or.inr (Or.inl rfl), rfl⟩
    | tick live now =>
      by_cases hversion : live.version = seen
      · left
        simp only [Lane.step, hversion, ne_eq, not_true, if_false]
        exact ⟨Or.inr (Or.inr ⟨_, _, _, rfl⟩), rfl⟩
      · simp only [Lane.step, ne_eq, hversion, not_false_iff, if_true, LiveLevels.snapshot_eq,
          hear, QuietGate.tick]
        cases haudible : audible live.own live.levels with
        | true => exact Or.inr ⟨live, now, rfl, haudible, ⟨_, rfl, fun _ => Iff.rfl⟩, rfl⟩
        | false => exact Or.inl ⟨Or.inr (Or.inr ⟨_, _, _, rfl⟩), rfl⟩

/-- What there is to show that the tick before did not. -/
def news (prev live : LiveLevels L) : Option (VoiceLevelsPayload L) :=
  if live.version ≠ prev.version then some (toShow live) else none

/-- What an open lane makes of a tick: it hears the levels of the tick, new or not. -/
theorem Shows.look (h : s.Shows heard prev) {before : ℕ}
    (hmoves : VersionMoves (.tick prev before) (.tick live now)) : ∃ peers,
      s.step (.tick live now) = hear ⟨silence, some heard⟩ now
        (decide (live.version ≠ prev.version)) live.own live.version peers ∧
      (live.version ≠ prev.version → peers = live.levels) ∧ ∀ e, e ∈ peers ↔ e ∈ live.levels := by
  obtain ⟨peers, rfl, hpeers⟩ := h
  by_cases hversion : live.version = prev.version
  · obtain ⟨hown, hlevels⟩ := hmoves hversion.symm
    refine ⟨peers, ?_, fun hne => absurd hversion hne, fun e => (hpeers e).trans (hlevels e)⟩
    simp [Lane.step, hversion, hown, QuietGate.isOpen]
  · refine ⟨live.levels, ?_, fun _ => rfl, fun _ => Iff.rfl⟩
    simp [Lane.step, hversion, LiveLevels.snapshot_eq]

omit [LinearOrder L] [Zero L] in
/-- A frame that goes out because there is news is what the tick has to show. -/
theorem news_eq {peers : List (String × L)}
    (hpeers : live.version ≠ prev.version → peers = live.levels) :
    (if decide (live.version ≠ prev.version) then some ⟨live.own, peers⟩ else none) =
      news prev live := by
  unfold news
  by_cases hversion : live.version = prev.version
  · simp [hversion]
  · simp [hversion, hpeers hversion, toShow]

/-- A tick at which somebody is audible keeps the lane open from then on. -/
theorem Shows.tick_audible (h : s.Shows heard prev) {before : ℕ}
    (hmoves : VersionMoves (.tick prev before) (.tick live now))
    (haudible : audible live.own live.levels = true) :
    (s.step (.tick live now)).1.Shows now live ∧
      (s.step (.tick live now)).2 = news prev live := by
  obtain ⟨peers, hstep, hnew, hpeers⟩ := h.look hmoves
  rw [hstep, ← news_eq hnew]
  simp only [hear, QuietGate.tick, audible_congr hpeers, haudible, if_true]
  exact ⟨⟨peers, rfl, hpeers⟩, trivial⟩

/-- A tick in a pause that is still short leaves the lane open. -/
theorem Shows.tick_pause (h : s.Shows heard prev) {before : ℕ}
    (hmoves : VersionMoves (.tick prev before) (.tick live now))
    (hquiet : audible live.own live.levels = false) (hshort : ¬ silence ≤ now - heard) :
    (s.step (.tick live now)).1.Shows heard live ∧
      (s.step (.tick live now)).2 = news prev live := by
  obtain ⟨peers, hstep, hnew, hpeers⟩ := h.look hmoves
  rw [hstep, ← news_eq hnew]
  simp only [hear, QuietGate.tick, audible_congr hpeers, hquiet, Bool.false_eq_true, if_false,
    hshort]
  exact ⟨⟨peers, rfl, hpeers⟩, trivial⟩

/-- A tick in a pause that is long enough closes the lane, with every mouth. -/
theorem Shows.tick_due (h : s.Shows heard prev) {before : ℕ}
    (hmoves : VersionMoves (.tick prev before) (.tick live now))
    (hsane : NonNegative (.tick live now))
    (hquiet : audible live.own live.levels = false) (hlong : silence ≤ now - heard) :
    (s.step (.tick live now)).1.Quiet ∧
      ∃ p, (s.step (.tick live now)).2 = some p ∧ p.Silent := by
  obtain ⟨peers, hstep, -, hpeers⟩ := h.look hmoves
  have hsilent := silent_of_not_audible hsane.1 (fun e he => hsane.2 e ((hpeers e).1 he))
    ((audible_congr hpeers).trans hquiet)
  rw [hstep]
  simp only [hear, QuietGate.tick, audible_congr hpeers, hquiet, Bool.false_eq_true, if_false,
    hlong, if_true]
  exact ⟨Or.inr (Or.inr ⟨_, _, _, rfl⟩), _, rfl, hsilent⟩

/-- So does another handle, or none, in the middle of a phrase. -/
theorem Shows.gone (h : s.Shows heard prev) {e : LaneEvent L}
    (he : ∀ live now, e ≠ .tick live now) :
    (s.step e).1.Quiet ∧ ∃ p, (s.step e).2 = some p ∧ p.Silent := by
  have hzero : (⟨0, []⟩ : VoiceLevelsPayload L).Silent := ⟨rfl, fun e he => nomatch he⟩
  obtain ⟨peers, rfl, -⟩ := h
  cases e with
  | tick live now => exact absurd rfl (he live now)
  | handle live => exact ⟨quiet_attach live, _, rfl, hzero⟩
  | dropped => exact ⟨Or.inr (Or.inl rfl), _, rfl, hzero⟩

/-! ## Runs -/

/-- When somebody was audible last, after one more event. -/
def hearing (heard : Option ℕ) : LaneEvent L → Option ℕ
  | .tick live now => if audible live.own live.levels then some now else heard
  | _ => heard

/-- When somebody was audible last. -/
def heardAt (past : List (LaneEvent L)) : Option ℕ := past.foldl hearing none

/-- The event is the end of what is shown: a silent tick at least the silence period after the
last audible one, or that the call goes. -/
def Ends (heard : Option ℕ) : LaneEvent L → Prop
  | .tick live now => audible live.own live.levels = false ∧
      ∃ last, heard = some last ∧ silence ≤ now - last
  | _ => True

/-- What an open lane makes of an event: it closes with every mouth shut, exactly at an end, or
it shows the levels of the tick. -/
theorem Shows.step (h : s.Shows heard prev) {before : ℕ} {e : LaneEvent L}
    (hmoves : VersionMoves (.tick prev before) e) (hsane : NonNegative e) :
    (Ends (some heard) e ∧ (s.step e).1.Quiet ∧ ∃ p, (s.step e).2 = some p ∧ p.Silent) ∨
      ∃ heard' live now, e = .tick live now ∧ ¬ Ends (some heard) e ∧
        hearing (some heard) e = some heard' ∧ (s.step e).1.Shows heard' live ∧
        (s.step e).2 = news prev live := by
  cases e with
  | handle live => exact Or.inl ⟨trivial, h.gone fun _ _ heq => nomatch heq⟩
  | dropped => exact Or.inl ⟨trivial, h.gone fun _ _ heq => nomatch heq⟩
  | tick live now =>
    cases haudible : audible live.own live.levels with
    | true =>
      refine Or.inr ⟨now, live, now, rfl, ?_, if_pos haudible, h.tick_audible hmoves haudible⟩
      rintro ⟨hquiet, -⟩
      exact absurd (haudible.symm.trans hquiet) (by decide)
    | false =>
      by_cases hlong : silence ≤ now - heard
      · exact Or.inl ⟨⟨haudible, heard, rfl, hlong⟩, h.tick_due hmoves hsane haudible hlong⟩
      · refine Or.inr ⟨heard, live, now, rfl, ?_, ?_, h.tick_pause hmoves haudible hlong⟩
        · rintro ⟨-, last, hlast, hdue⟩
          cases hlast
          exact hlong hdue
        · simp [hearing, haudible]

/-- What an event has to show that the event before it did not. -/
def newsAt : LaneEvent L → LaneEvent L → Option (VoiceLevelsPayload L)
  | .tick prev _, .tick live _ => news prev live
  | _, _ => none

/-- The lane is open after each of the events. -/
def StaysOpen (s : Lane L) (events : List (LaneEvent L)) : Prop :=
  Machines.Along Lane.step (fun s e => (s.step e).1.isOpen = true) s events

/-- The lane after some events. -/
def after (events : List (LaneEvent L)) : Lane L := Machines.after Lane.step .waiting events

/-- The frames that the events make go out. -/
def emitted (events : List (LaneEvent L)) : List (VoiceLevelsPayload L) :=
  (Machines.outputs Lane.step .waiting events).reduceOption

theorem after_append_singleton (events : List (LaneEvent L)) (e : LaneEvent L) :
    after (events ++ [e]) = ((after events).step e).1 := Machines.after_append _ _ _

theorem emitted_append_singleton (events : List (LaneEvent L)) (e : LaneEvent L) :
    emitted (events ++ [e]) = emitted events ++ ((after events).step e).2.toList := by
  unfold emitted
  rw [Machines.outputs_append, List.reduceOption_append]
  show _ ++ [((after events).step e).2].reduceOption = _
  cases ((after events).step e).2 <;> rfl

/-- While it stays open a lane shows the levels of the last tick, and every tick with something
new has made a frame go out. -/
theorem Shows.run {before : ℕ} {during : List (LaneEvent L)} (h : s.Shows heard prev)
    (hsane : ∀ e ∈ during, NonNegative e)
    (hmoves : (LaneEvent.tick prev before :: during).IsChain VersionMoves)
    (hopen : StaysOpen s during) : ∃ heard' live now,
      (LaneEvent.tick prev before :: during).getLast? = some (.tick live now) ∧
        (Machines.after Lane.step s during).Shows heard' live ∧
        during.foldl hearing (some heard) = some heard' ∧
        Machines.outputs Lane.step s during =
          List.zipWith newsAt (.tick prev before :: during) during := by
  induction during generalizing s heard prev before with
  | nil => exact ⟨heard, prev, before, rfl, h, rfl, rfl⟩
  | cons e during ih =>
    obtain ⟨hstay, hrest⟩ := hopen
    obtain ⟨hmove, hmoves⟩ := List.isChain_cons_cons.1 hmoves
    obtain ⟨he, hlater⟩ := List.forall_mem_cons.1 hsane
    rcases h.step hmove he with ⟨-, hquiet, -⟩ | ⟨heard', live, now, rfl, -, hheard, hshows, hout⟩
    · rw [hquiet.isOpen] at hstay
      cases hstay
    · obtain ⟨last, live', now', hlast, hshows', hfold, houts⟩ := ih hshows hlater hmoves hrest
      refine ⟨last, live', now', ?_, hshows', ?_, ?_⟩
      · rw [List.getLast?_cons_cons]
        exact hlast
      · rw [List.foldl_cons, hheard, hfold]
      · show (s.step _).2 :: _ = newsAt _ _ :: _
        rw [hout, houts]
        rfl

omit [LinearOrder L] [Zero L] in
/-- Where a run shows a tick, the next event comes right after it. -/
theorem moves_of_getLast? {events rest : List (LaneEvent L)} {e e' : LaneEvent L}
    (h : (events ++ e' :: rest).IsChain VersionMoves) (hlast : events.getLast? = some e) :
    VersionMoves e e' := by
  obtain ⟨init, rfl⟩ := List.getLast?_eq_some_iff.1 hlast
  rw [List.append_assoc] at h
  exact (List.isChain_cons_cons.1 h.right_of_append).1

/-- A lane is quiet, or it shows the last of the events. -/
theorem quiet_or_shows {events : List (LaneEvent L)} (hsane : Sane events) :
    (after events).Quiet ∨ ∃ heard live now,
      events.getLast? = some (.tick live now) ∧ (after events).Shows heard live := by
  induction events using List.reverseRecOn with
  | nil => exact Or.inl (Or.inl rfl)
  | append_singleton events e ih =>
    have he : NonNegative e := hsane.nonNegative e (List.mem_append_right _ List.mem_cons_self)
    rw [after_append_singleton]
    rcases ih (Sane.left hsane) with hquiet | ⟨heard, prev, before, hlast, hshows⟩
    · rcases hquiet.step e with ⟨hstill, -⟩ | ⟨live, now, rfl, -, hopen, -⟩
      · exact Or.inl hstill
      · exact Or.inr ⟨now, live, now, by simp, hopen⟩
    · have hmove := moves_of_getLast? hsane.moves hlast
      rcases hshows.step hmove he with ⟨-, hstill, -⟩ | ⟨heard', live, now, rfl, -, -, hopen, -⟩
      · exact Or.inl hstill
      · exact Or.inr ⟨heard', live, now, by simp, hopen⟩

theorem quiet_of_closed {events : List (LaneEvent L)} (hsane : Sane events)
    (h : (after events).isOpen = false) : (after events).Quiet := by
  rcases quiet_or_shows hsane with hquiet | ⟨heard, live, now, -, hshows⟩
  · exact hquiet
  · rw [hshows.isOpen] at h
    cases h

/-- Whenever the lane is closed, the last frame that it emitted has every mouth shut. -/
theorem last_emitted_silent {events : List (LaneEvent L)} (hsane : Sane events)
    (hclosed : (after events).isOpen = false) : ∀ p ∈ (emitted events).getLast?, p.Silent := by
  induction events using List.reverseRecOn with
  | nil => exact fun p hp => nomatch hp
  | append_singleton events e ih =>
    have he : NonNegative e := hsane.nonNegative e (List.mem_append_right _ List.mem_cons_self)
    rw [after_append_singleton] at hclosed
    rw [emitted_append_singleton]
    rcases quiet_or_shows (Sane.left hsane) with hquiet | ⟨heard, prev, before, hlast, hshows⟩
    · rcases hquiet.step e with ⟨-, hout⟩ | ⟨live, now, rfl, -, hopen, -⟩
      · rw [hout, Option.toList_none, List.append_nil]
        exact ih (Sane.left hsane) hquiet.isOpen
      · rw [hopen.isOpen] at hclosed
        cases hclosed
    · have hmove := moves_of_getLast? hsane.moves hlast
      rcases hshows.step hmove he with
        ⟨-, -, p, hout, hsilent⟩ | ⟨_, live, now, rfl, -, -, hopen, -⟩
      · intro q hq
        rw [hout, Option.toList_some, List.getLast?_concat] at hq
        cases hq
        exact hsilent
      · rw [hopen.isOpen] at hclosed
        cases hclosed

/-- From when a lane opens and as long as it stays open. -/
theorem phrase {before during : List (LaneEvent L)} {opening : LaneEvent L}
    (hsane : Sane (before ++ opening :: during)) (hclosed : (after before).isOpen = false)
    (hopen : StaysOpen (after before) (opening :: during)) : ∃ live now,
      opening = .tick live now ∧ ((after before).step opening).2 = some (toShow live) ∧
      Machines.outputs Lane.step ((after before).step opening).1 during =
        List.zipWith newsAt (opening :: during) during ∧
      ∃ heard prev before', (opening :: during).getLast? = some (.tick prev before') ∧
        (after (before ++ opening :: during)).Shows heard prev ∧
        heardAt (opening :: during) = some heard := by
  obtain ⟨hstay, hrest⟩ := hopen
  rcases (quiet_of_closed (Sane.left hsane) hclosed).step opening with
    ⟨hquiet, -⟩ | ⟨live, now, rfl, haudible, hshows, hout⟩
  · rw [hquiet.isOpen] at hstay
    cases hstay
  · have hlater : ∀ e ∈ during, NonNegative e := fun e he =>
      hsane.nonNegative e (List.mem_append_right _ (List.mem_cons_of_mem _ he))
    obtain ⟨heard, prev, before', hlast, hshows', hheard, houts⟩ :=
      hshows.run hlater hsane.moves.right_of_append hrest
    refine ⟨live, now, rfl, hout, houts, heard, prev, before', hlast, ?_, ?_⟩
    · rw [after, Machines.after_append]
      exact hshows'
    · rw [heardAt, List.foldl_cons, hearing, if_pos haudible]
      exact hheard

/-- **No mouth stays open.**  Whenever the lane is closed, every mouth has been shut.  From when
it opens, every tick with something new makes a frame go out, until the first event that is an
end, which makes one go out with every mouth shut; and while it is closed none goes out. -/
theorem lane_frames {events : List (LaneEvent L)} (hsane : Sane events) :
    ((after events).isOpen = false → ∀ p ∈ (emitted events).getLast?, p.Silent) ∧
    (∀ before opening during rest, events = before ++ opening :: during ++ rest →
      (after before).isOpen = false → StaysOpen (after before) (opening :: during) →
        (∃ live now, opening = .tick live now ∧
          ((after before).step opening).2 = some (toShow live)) ∧
        Machines.outputs Lane.step ((after before).step opening).1 during =
          List.zipWith newsAt (opening :: during) during ∧
        ∀ e rest', rest = e :: rest' →
          ((after (before ++ opening :: during ++ [e])).isOpen = false ↔
            Ends (heardAt (opening :: during)) e) ∧
          (Ends (heardAt (opening :: during)) e → ∃ p,
            ((after (before ++ opening :: during)).step e).2 = some p ∧ p.Silent)) ∧
    ∀ before e rest, events = before ++ e :: rest → (after before).isOpen = false →
      (after (before ++ [e])).isOpen = false → ((after before).step e).2 = none := by
  refine ⟨last_emitted_silent hsane, ?_, ?_⟩
  · rintro before opening during rest rfl hclosed hopen
    obtain ⟨live, now, rfl, hout, houts, heard, prev, before', hlast, hshows, hheard⟩ :=
      phrase (Sane.left hsane) hclosed hopen
    refine ⟨⟨live, now, rfl, hout⟩, houts, ?_⟩
    rintro e rest rfl
    have hmove : VersionMoves (.tick prev before') e := by
      refine moves_of_getLast? hsane.moves ?_
      rw [List.getLast?_append, hlast]
      rfl
    have he : NonNegative e :=
      hsane.nonNegative e (List.mem_append_right _ List.mem_cons_self)
    rw [after_append_singleton, hheard]
    rcases hshows.step hmove he with ⟨hend, hquiet, hsilent⟩ | ⟨_, _, _, -, hgoes, -, hstill, -⟩
    · exact ⟨⟨fun _ => hend, fun _ => hquiet.isOpen⟩, fun _ => hsilent⟩
    · refine ⟨⟨fun hshut => ?_, fun hend => absurd hend hgoes⟩, fun hend => absurd hend hgoes⟩
      rw [hstill.isOpen] at hshut
      cases hshut
  · rintro before e rest rfl hclosed hshut
    rw [after_append_singleton] at hshut
    rcases (quiet_of_closed (Sane.left hsane) hclosed).step e with
      ⟨-, hout⟩ | ⟨_, _, -, -, hopen, -⟩
    · exact hout
    · rw [hopen.isOpen] at hshut
      cases hshut

/-- A word, and the silence after it. -/
theorem lane_frames_word :
    let live (version : UInt64) (own : ℤ) : LiveLevels ℤ := ⟨own, version, [], List.nodup_nil⟩
    let events := [.handle (some (live 0 0)), .tick (live 1 1) 0, .tick (live 2 0) silence]
    (after events).isOpen = false ∧ ∀ p ∈ (emitted events).getLast?, p.Silent := by
  intro live events
  have hsane : Sane events := by
    constructor
    · simp [events, live, NonNegative, LiveLevels.levels]
    · simp [events, live, VersionMoves]
  exact ⟨rfl, (lane_frames hsane).1 rfl⟩

/-! ## What is promised of the levels -/

/-- The levels of a call move as promised, if they change less than `2 ^ 64` times between two
ticks. -/
theorem moves_calls (live : LiveLevels L) (calls : List (LevelCall L)) (now now' : ℕ)
    (hfew : Shown.changes ⟨live.own, live.published⟩ calls < 2 ^ 64) :
    VersionMoves (.tick live now) (.tick (calls.foldl LiveLevels.call live) now') := by
  intro hversion
  obtain ⟨hown, hlevels⟩ := LiveLevels.same_of_version live calls hfew hversion.symm
  exact ⟨hown.symm, fun e => (hlevels e).symm⟩

end Lane
end Desktop
end TcVoice
