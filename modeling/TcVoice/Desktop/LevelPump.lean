import Mathlib.Data.List.Destutter
import TcVoice.Desktop.Lifetime
import TcVoice.Desktop.Window

/-!
# The level pump

The task of `level_pump.rs`, which asks the voice actor how things are five times a second and
tells the window what has changed.

* `Poll`, `LevelPump.tick` — what a tick finds, and what it tells.
* `LevelPump.tells_changes` — **the events of any run of ticks are the changes of what the ticks
  found**, and who only listens knows how things were at the last of them.
* `LevelPump.rebuilt_before` — a notice at the beginning of a call about streams of the call before
  it: the number it goes by is not set back.
* `Pumped` — the actor, the pump, what is on its way, and the window, with everything else that
  happens to each.
* `Pumped.hung_up_silent` — **once a call is hung up, one tick silences the store** for as long
  as no other is started.
-/

namespace TcVoice
namespace Desktop

open Runs

variable {L : Type}

/-- What a tick finds: the flag, the report of the actor, its levels, and whose live levels they
are, by the number of the handle. -/
structure Poll (L : Type) where
  muted : Bool
  snap : VoiceSnapshot
  level : VoiceLevelPayload L
  live : Option ℕ

/-- What the pump tells: the window by events, and the fast lane by its channel. -/
inductive PumpEvent (L : Type) where
  | mutedChanged (muted : Bool)
  | pointed (live : Option ℕ)
  | deviceAdded (d : NewDevice)
  | devicesChanged
  | voiceStopped
  | log (text : String)
  | voiceLevel (v : VoiceLevelPayload L) (muted : Bool)

/-- The variables of the task, and what is in the channel to the fast lane. -/
structure LevelPump where
  lastMuted : Option Bool
  wasActive : Bool
  lastRestarts : ℕ
  live : Option ℕ
  deriving DecidableEq, Repr

namespace LevelPump

/-- Before the first tick. -/
def start : LevelPump := ⟨none, false, 0, none⟩

/-- The notice that a stream was rebuilt. -/
def rebuilt : String := "audio device changed — stream rebuilt automatically"

/-- What a tick tells whether there is a call or not; the channel to the fast lane is only written
where the handle is another one (`send_if_modified`). -/
def always (p : LevelPump) (poll : Poll L) : List (PumpEvent L) :=
  (if p.lastMuted ≠ some poll.muted then [.mutedChanged poll.muted] else []) ++
    (if p.live ≠ poll.live then [.pointed poll.live] else []) ++
    poll.snap.newDevices.map .deviceAdded ++
    if poll.snap.devicesChanged then [.devicesChanged] else []

/-- What a tick tells of the call. -/
def ofCall (p : LevelPump) (poll : Poll L) : List (PumpEvent L) :=
  if !poll.snap.active then if p.wasActive then [.voiceStopped] else []
  else
    (if poll.snap.deviceRestarts ≠ p.lastRestarts then [.log rebuilt] else []) ++
      [.voiceLevel poll.level poll.muted]

/-- A tick of `spawn`. -/
def tick (p : LevelPump) (poll : Poll L) : LevelPump × List (PumpEvent L) :=
  let events := p.always poll ++ p.ofCall poll
  let p := { p with lastMuted := some poll.muted, live := poll.live }
  if !poll.snap.active then ({ p with wasActive := false }, events)
  else ({ p with wasActive := true, lastRestarts := poll.snap.deviceRestarts }, events)

/-- What the ticks tell, one after the other. -/
def tells (p : LevelPump) : List (Poll L) → List (PumpEvent L)
  | [] => []
  | poll :: polls => (p.tick poll).2 ++ tells (p.tick poll).1 polls

end LevelPump

/-! ## What is told of what -/

/-- Of a list of values those that are news after the last one that was, from `a` on. -/
def changesFrom {α : Type} (R : α → α → Prop) [DecidableRel R] (a : α) (l : List α) : List α :=
  ((a :: l).destutter R).tail

section Changes

variable {α : Type} {R : α → α → Prop} [DecidableRel R]

theorem destutter'_eq_cons (a : α) (l : List α) :
    l.destutter' R a = a :: (l.destutter' R a).tail := by
  induction l generalizing a with
  | nil => rfl
  | cons b l ih =>
    rw [List.destutter'_cons]
    split
    · rfl
    · exact ih a

theorem changesFrom_cons (a b : α) (l : List α) :
    changesFrom R a (b :: l) = if R a b then b :: changesFrom R b l else changesFrom R a l := by
  simp only [changesFrom, List.destutter_cons', List.destutter'_cons]
  split
  · rw [List.tail_cons]
    exact destutter'_eq_cons b l
  · rfl

/-- Where only the same value is no news, the last news is how things are. -/
theorem getLast?_changesFrom (hR : ∀ a b, ¬ R a b → a = b) (a : α) (l : List α) :
    (a :: changesFrom R a l).getLast? = (a :: l).getLast? := by
  induction l generalizing a with
  | nil => rfl
  | cons b l ih =>
    rw [changesFrom_cons]
    split
    · rw [List.getLast?_cons_cons, List.getLast?_cons_cons]
      exact ih b
    · rename_i hsame
      rw [List.getLast?_cons_cons, ih a, hR a b hsame]

end Changes

namespace PumpEvent

def muted? : PumpEvent L → Option Bool
  | .mutedChanged muted => some muted
  | _ => none

def pointed? : PumpEvent L → Option (Option ℕ)
  | .pointed live => some live
  | _ => none

def device? : PumpEvent L → Option NewDevice
  | .deviceAdded d => some d
  | _ => none

def devicesChanged? : PumpEvent L → Option Unit
  | .devicesChanged => some ()
  | _ => none

def log? : PumpEvent L → Option String
  | .log text => some text
  | _ => none

/-- Whether there is a voice: what a level and its end say. -/
def voice? : PumpEvent L → Option (Option (VoiceLevelPayload L))
  | .voiceLevel v _ => some (some v)
  | .voiceStopped => some none
  | _ => none

end PumpEvent

/-- The voices as a tick finds them. -/
def Poll.voice (poll : Poll L) : Option (VoiceLevelPayload L) :=
  if poll.snap.active then some poll.level else none

/-- Everything but one silence after the other is news of the voices. -/
def VoiceNews (a b : Option (VoiceLevelPayload L)) : Prop := a.isSome = true ∨ b.isSome = true

instance decidableVoiceNews (a b : Option (VoiceLevelPayload L)) : Decidable (VoiceNews a b) :=
  inferInstanceAs (Decidable (_ ∨ _))

namespace LevelPump

variable (p : LevelPump) (poll : Poll L)

theorem tick_eq : p.tick poll =
    (⟨some poll.muted, poll.snap.active,
      if poll.snap.active then poll.snap.deviceRestarts else p.lastRestarts, poll.live⟩,
      p.always poll ++ p.ofCall poll) := by
  unfold tick
  cases hactive : poll.snap.active <;> rfl

/-- What is told of one kind of news. -/
theorem filterMap_tick {α : Type} (f : PumpEvent L → Option α) :
    (p.tick poll).2.filterMap f =
      (if p.lastMuted ≠ some poll.muted then (f (.mutedChanged poll.muted)).toList else []) ++
        (if p.live ≠ poll.live then (f (.pointed poll.live)).toList else []) ++
        poll.snap.newDevices.filterMap (fun d => f (.deviceAdded d)) ++
        (if poll.snap.devicesChanged then (f .devicesChanged).toList else []) ++
        if poll.snap.active then
          (if poll.snap.deviceRestarts ≠ p.lastRestarts then (f (.log rebuilt)).toList else []) ++
            (f (.voiceLevel poll.level poll.muted)).toList
        else if p.wasActive then (f .voiceStopped).toList else [] := by
  have hone : ∀ e, List.filterMap f [e] = (f e).toList := by
    intro e
    cases hfe : f e <;> simp [hfe]
  rw [tick_eq]
  cases hactive : poll.snap.active <;>
    simp [always, ofCall, hactive, apply_ite (List.filterMap f), hone]

variable (polls : List (Poll L))

theorem tells_muted : ((p.tells polls).filterMap PumpEvent.muted?).map some =
    changesFrom (· ≠ ·) p.lastMuted (polls.map fun poll => some poll.muted) := by
  induction polls generalizing p with
  | nil => rfl
  | cons poll polls ih =>
    rw [tells, List.filterMap_append, filterMap_tick, List.map_append, ih, tick_eq, List.map_cons,
      changesFrom_cons]
    by_cases hsame : p.lastMuted = some poll.muted
    · simp [hsame, PumpEvent.muted?]
    · simp [hsame, PumpEvent.muted?]

theorem tells_pointed : (p.tells polls).filterMap PumpEvent.pointed? =
    changesFrom (· ≠ ·) p.live (polls.map Poll.live) := by
  induction polls generalizing p with
  | nil => rfl
  | cons poll polls ih =>
    rw [tells, List.filterMap_append, filterMap_tick, ih, tick_eq, List.map_cons,
      changesFrom_cons]
    by_cases hsame : p.live = poll.live
    · simp [hsame, PumpEvent.pointed?]
    · simp [hsame, PumpEvent.pointed?]

theorem tells_device : (p.tells polls).filterMap PumpEvent.device? =
    polls.flatMap fun poll => poll.snap.newDevices := by
  induction polls generalizing p with
  | nil => rfl
  | cons poll polls ih =>
    rw [tells, List.filterMap_append, filterMap_tick, ih, List.flatMap_cons]
    simp [PumpEvent.device?]

theorem tells_devicesChanged : (p.tells polls).filterMap PumpEvent.devicesChanged? =
    List.replicate (polls.countP fun poll => poll.snap.devicesChanged) () := by
  induction polls generalizing p with
  | nil => rfl
  | cons poll polls ih =>
    rw [tells, List.filterMap_append, filterMap_tick, ih]
    cases hchanged : poll.snap.devicesChanged with
    | true => simp [PumpEvent.devicesChanged?, hchanged, List.replicate_succ]
    | false => simp [PumpEvent.devicesChanged?, hchanged]

/-- The restarts that the ticks in a call find. -/
def restartsIn (polls : List (Poll L)) : List ℕ :=
  (polls.filter fun poll => poll.snap.active).map fun poll => poll.snap.deviceRestarts

theorem tells_log : (p.tells polls).filterMap PumpEvent.log? =
    (changesFrom (· ≠ ·) p.lastRestarts (restartsIn polls)).map fun _ => rebuilt := by
  induction polls generalizing p with
  | nil => rfl
  | cons poll polls ih =>
    rw [tells, List.filterMap_append, filterMap_tick, ih, tick_eq]
    cases hactive : poll.snap.active with
    | false => simp [PumpEvent.log?, restartsIn, hactive]
    | true =>
      have hrestarts : restartsIn (poll :: polls) =
          poll.snap.deviceRestarts :: restartsIn polls := by
        simp [restartsIn, hactive]
      rw [hrestarts, changesFrom_cons]
      by_cases hsame : p.lastRestarts = poll.snap.deviceRestarts
      · simp [hsame, PumpEvent.log?]
      · simp [hsame, Ne.symm hsame, PumpEvent.log?]

theorem tells_voice {a : Option (VoiceLevelPayload L)} (ha : a.isSome = p.wasActive) :
    (p.tells polls).filterMap PumpEvent.voice? =
      changesFrom VoiceNews a (polls.map Poll.voice) := by
  induction polls generalizing p a with
  | nil => rfl
  | cons poll polls ih =>
    have hvoice : poll.voice.isSome = poll.snap.active := by
      unfold Poll.voice
      cases poll.snap.active <;> rfl
    have hnext : (p.tick poll).1.wasActive = poll.snap.active := by rw [tick_eq]
    have hiff : VoiceNews a poll.voice ↔ p.wasActive = true ∨ poll.snap.active = true := by
      unfold VoiceNews
      rw [ha, hvoice]
    rw [tells, List.filterMap_append, filterMap_tick, List.map_cons, changesFrom_cons]
    by_cases hnews : p.wasActive = true ∨ poll.snap.active = true
    · rw [if_pos (hiff.2 hnews), ih _ (hvoice.trans hnext.symm)]
      cases hactive : poll.snap.active with
      | true => simp [PumpEvent.voice?, Poll.voice, hactive]
      | false =>
        have hwas : p.wasActive = true := by simpa [hactive] using hnews
        simp [PumpEvent.voice?, Poll.voice, hactive, hwas]
    · obtain ⟨hwas, hactive⟩ : p.wasActive = false ∧ poll.snap.active = false := by
        simpa using hnews
      rw [if_neg (mt hiff.1 hnews), ih _ ((ha.trans hwas).trans (hnext.trans hactive).symm)]
      simp [PumpEvent.voice?, hactive, hwas]

/-- **What the pump tells is what changes.**  Over any run of ticks the mute events are the changes
of the flag, the fast lane is pointed to each handle that is another one, every new device is told
once, the voices are told as they are found but for silence after silence, and a notice goes out
for each number of restarts that is not that of the last tick in a call.  So whoever only listens
knows the flag, the handle and the voices of the last tick. -/
theorem tells_changes (polls : List (Poll L)) :
    let events := start.tells polls
    (events.filterMap PumpEvent.muted?).map some =
        changesFrom (· ≠ ·) none (polls.map fun poll => some poll.muted) ∧
      events.filterMap PumpEvent.pointed? = changesFrom (· ≠ ·) none (polls.map Poll.live) ∧
      events.filterMap PumpEvent.voice? = changesFrom VoiceNews none (polls.map Poll.voice) ∧
      events.filterMap PumpEvent.device? = polls.flatMap (fun poll => poll.snap.newDevices) ∧
      events.filterMap PumpEvent.devicesChanged? =
        List.replicate (polls.countP fun poll => poll.snap.devicesChanged) () ∧
      events.filterMap PumpEvent.log? =
        (changesFrom (· ≠ ·) 0 (restartsIn polls)).map (fun _ => rebuilt) ∧
      (events.filterMap PumpEvent.muted?).getLast? = polls.getLast?.map Poll.muted ∧
      (none :: events.filterMap PumpEvent.pointed?).getLast? =
        (none :: polls.map Poll.live).getLast? ∧
      (none :: events.filterMap PumpEvent.voice?).getLast? =
        (none :: polls.map Poll.voice).getLast? := by
  intro events
  have hmuted := start.tells_muted polls
  have hpointed := start.tells_pointed polls
  have hvoice := start.tells_voice polls (a := none) rfl
  refine ⟨hmuted, hpointed, hvoice, start.tells_device polls, start.tells_devicesChanged polls,
    start.tells_log polls, ?_, ?_, ?_⟩
  · have hlast := getLast?_changesFrom (R := (· ≠ ·)) (fun a b h => not_not.1 h)
      start.lastMuted (polls.map fun poll => some poll.muted)
    rw [← hmuted, List.getLast?_cons, List.getLast?_cons, Option.some_inj, List.getLast?_map,
      List.getLast?_map] at hlast
    -- Both sides are what is last, if anything is.
    have hflat : ∀ o : Option Bool, (o.map some).getD start.lastMuted = o := by
      intro o
      cases o <;> rfl
    rw [hflat] at hlast
    rw [hlast]
    cases polls.getLast? <;> rfl
  · rw [hpointed]
    exact getLast?_changesFrom (fun a b h => not_not.1 h) none _
  · rw [hvoice]
    refine getLast?_changesFrom (fun a b h => ?_) none _
    obtain ⟨ha, hb⟩ := not_or.1 h
    rw [Option.not_isSome_iff_eq_none.1 ha, Option.not_isSome_iff_eq_none.1 hb]

/-- The state after ticks. -/
def after (p : LevelPump) (polls : List (Poll L)) : LevelPump :=
  polls.foldl (fun p poll => (p.tick poll).1) p

theorem lastRestarts_after :
    (p.after polls).lastRestarts = ((restartsIn polls).getLast?).getD p.lastRestarts := by
  induction polls generalizing p with
  | nil => rfl
  | cons poll polls ih =>
    have hnext : p.after (poll :: polls) = (p.tick poll).1.after polls := rfl
    rw [hnext, ih, tick_eq]
    cases hactive : poll.snap.active with
    | false => simp [restartsIn, hactive]
    | true =>
      have hrestarts : restartsIn (poll :: polls) =
          poll.snap.deviceRestarts :: restartsIn polls := by
        simp [restartsIn, hactive]
      rw [hrestarts, List.getLast?_cons]
      rfl

/-- The number that a tick compares is that of the last tick in a call, even if that was another
call: one that begins without a restart is announced as rebuilt if the one before it was. -/
theorem rebuilt_before {poll : Poll L} (hactive : poll.snap.active = true) :
    ((start.after polls).tick poll).2.filterMap PumpEvent.log? =
      if poll.snap.deviceRestarts = ((restartsIn polls).getLast?).getD 0 then []
      else [rebuilt] := by
  have hlast : (start.after polls).lastRestarts = ((restartsIn polls).getLast?).getD 0 :=
    start.lastRestarts_after polls
  rw [filterMap_tick, hlast, hactive]
  generalize start.after polls = p
  by_cases hsame : poll.snap.deviceRestarts = ((restartsIn polls).getLast?).getD 0
  · simp [PumpEvent.log?, hsame]
  · simp [PumpEvent.log?, hsame]

end LevelPump

/-! ## The window behind it -/

/-- What the window gets of it. -/
def PumpEvent.backend : PumpEvent L → Option (BackendEvent L)
  | .deviceAdded d => some (.deviceAdded d)
  | .voiceStopped => some .voiceStopped
  | .log text => some (.log text)
  | .voiceLevel v _ => some (.voiceLevel v)
  -- The store ignores the flag, the settings read the devices again, and the lane is not here.
  | .mutedChanged _ | .devicesChanged | .pointed _ => none

/-- The events of the voices come from nobody else. -/
def FrontendEvent.ofPump : FrontendEvent L → Bool
  | .emitted (.voiceLevel _) _ | .emitted .voiceStopped _ => true
  | _ => false

/-- The actor, the pump, what it has told and the window has not got to, and the window. -/
structure Pumped (L : Type) where
  actor : Actor
  pump : LevelPump
  pending : List (PumpEvent L)
  window : AppState L

/-- A step of the actor but for the answer to the pump, which comes at the end of a tick; the window
gets to what it was told first; or anything else happens to the window. -/
inductive PumpedEvent (L : Type) where
  | actor (e : ActorEvent)
  | tick (a : Answers) (muted : Bool) (level : VoiceLevelPayload L) (live : Option ℕ)
  | deliver (now : ℕ)
  | other (e : FrontendEvent L)

namespace Pumped

/-- Nothing has happened yet. -/
def init : Pumped L := ⟨.init, .start, [], .init⟩

/-- One step, if it can happen. -/
def step (s : Pumped L) : PumpedEvent L → Option (Pumped L)
  | .actor (.finish _) => none
  | .actor e => (s.actor.step e).map fun actor => { s with actor }
  | .tick a muted level live =>
    if s.actor.ticking then
      let snap := (s.actor.supervise a).report.2
      let (pump, events) := s.pump.tick ⟨muted, snap, level, live⟩
      some { s with actor := (s.actor.finish a).1, pump, pending := s.pending ++ events }
    else none
  | .deliver now =>
    match s.pending with
    | [] => none
    | e :: pending =>
      some { s with
        pending
        window := match e.backend with
          | some event => s.window.step (.emitted event now)
          | none => s.window }
  | .other e => if e.ofPump then none else some { s with window := s.window.step e }

/-- Whether the window shows a voice once it has got to all that it was told. -/
def settled (voice : Bool) (pending : List (PumpEvent L)) : Bool :=
  (pending.filterMap PumpEvent.voice?).foldl (fun _ v => v.isSome) voice

/-- What holds in every run: a window without a voice shows no speakers, and it has a voice in the
end only if there was one at the last tick. -/
structure Inv (s : Pumped L) : Prop where
  speakers : s.window.voice = none → s.window.speakers = ∅
  active : settled s.window.voice.isSome s.pending = true → s.pump.wasActive = true

theorem inv_init : (init : Pumped L).Inv where
  speakers _ := rfl
  active h := by cases h

theorem settled_append (voice : Bool) (pending events : List (PumpEvent L)) :
    settled voice (pending ++ events) = settled (settled voice pending) events := by
  simp [settled]

/-- A window that shows less has less in the end. -/
theorem settled_mono {voice voice' : Bool} (h : voice' = true → voice = true)
    (pending : List (PumpEvent L)) (hsettled : settled voice' pending = true) :
    settled voice pending = true := by
  unfold settled at hsettled ⊢
  cases hvoices : pending.filterMap PumpEvent.voice? with
  | nil =>
    rw [hvoices] at hsettled
    exact h hsettled
  | cons v voices =>
    rw [hvoices] at hsettled
    exact hsettled

section Step

variable {s s' : Pumped L}

/-- What happens to the window brings no voice about, unless the pump has told of it. -/
theorem window_step {w : AppState L} {e : FrontendEvent L} (he : e.ofPump = false)
    (hspeakers : w.voice = none → w.speakers = ∅) :
    ((w.step e).voice = none → (w.step e).speakers = ∅) ∧
      ((w.step e).voice.isSome = true → w.voice.isSome = true) := by
  cases AppState.voices_step (s := w) e with
  | silent hvoice hempty =>
    refine ⟨fun _ => hempty, fun h => ?_⟩
    rw [hvoice] at h
    cases h
  | level v t hlevel =>
    rw [hlevel] at he
    cases he
  | kept hvoice _ _ _ hkept =>
    refine ⟨fun hnone => ?_, fun h => hvoice ▸ h⟩
    have hempty := hspeakers (hvoice.symm.trans hnone)
    refine Finmap.ext_lookup fun name => ?_
    rw [Finmap.lookup_empty, Option.eq_none_iff_forall_not_mem]
    intro level hlevel
    obtain ⟨was, hwas, -⟩ := hkept name level hlevel
    rw [hempty, Finmap.lookup_empty] at hwas
    cases hwas

/-- The window gets to the first thing that it was told. -/
theorem Inv.deliver (h : s.Inv) {e : PumpEvent L} {pending : List (PumpEvent L)}
    (hpending : s.pending = e :: pending) (now : ℕ) :
    ({ s with
      pending
      window := match e.backend with
        | some event => s.window.step (.emitted event now)
        | none => s.window } : Pumped L).Inv := by
  have hactive := h.active
  rw [hpending] at hactive
  cases e with
  | voiceLevel v muted =>
    refine ⟨fun hnone => ?_, hactive⟩
    cases hnone
  | voiceStopped => exact ⟨fun _ => rfl, hactive⟩
  | deviceAdded d =>
    obtain ⟨hspeakers, hvoice⟩ :=
      window_step (e := .emitted (.deviceAdded d) now) rfl h.speakers
    exact ⟨hspeakers, fun hsettled => hactive (settled_mono hvoice pending hsettled)⟩
  | log text => exact ⟨h.speakers, hactive⟩
  | mutedChanged muted => exact ⟨h.speakers, hactive⟩
  | pointed live => exact ⟨h.speakers, hactive⟩
  | devicesChanged => exact ⟨h.speakers, hactive⟩

/-- A tick ends with the voices that it found. -/
theorem Inv.tick (h : s.Inv) (poll : Poll L) (actor : Actor) :
    ({ s with
      actor, pump := (s.pump.tick poll).1
      pending := s.pending ++ (s.pump.tick poll).2 } : Pumped L).Inv := by
  refine ⟨h.speakers, fun hsettled => ?_⟩
  rw [settled_append] at hsettled
  have hafter : (s.pump.tick poll).1.wasActive = poll.snap.active := by
    rw [LevelPump.tick_eq]
  show (s.pump.tick poll).1.wasActive = true
  rw [hafter]
  by_contra hactive
  rw [Bool.not_eq_true] at hactive
  -- The tick found no voice: it says so, or there was none before it.
  cases hwas : s.pump.wasActive with
  | true =>
    have hstop : (s.pump.tick poll).2.filterMap PumpEvent.voice? = [none] := by
      rw [LevelPump.filterMap_tick, hactive, hwas]
      simp [PumpEvent.voice?]
    rw [settled, hstop] at hsettled
    cases hsettled
  | false =>
    have hnone : (s.pump.tick poll).2.filterMap PumpEvent.voice? = [] := by
      rw [LevelPump.filterMap_tick, hactive, hwas]
      simp [PumpEvent.voice?]
    rw [settled, hnone] at hsettled
    have htrue := h.active hsettled
    rw [hwas] at htrue
    cases htrue

/-- A step of the actor leaves everything else as it is. -/
theorem step_actor {e : ActorEvent} (hs : s.step (.actor e) = some s') :
    ∃ actor, s.actor.step e = some actor ∧ s' = { s with actor } := by
  have hmap : (s.actor.step e).map (fun actor => { s with actor }) = some s' := by
    cases e with
    | finish a => cases hs
    | recv cmd a => exact hs
    | streamFailed kind => exact hs
  obtain ⟨actor, hactor, heq⟩ := Option.map_eq_some_iff.1 hmap
  exact ⟨actor, hactor, heq.symm⟩

/-- A tick ends the pass of the actor, and the pump tells what it found. -/
theorem step_tick {a : Answers} {muted : Bool} {level : VoiceLevelPayload L} {live : Option ℕ}
    (hs : s.step (.tick a muted level live) = some s') :
    s.actor.ticking = true ∧ ∃ poll : Poll L, poll.snap = (s.actor.supervise a).report.2 ∧
      s' = { s with
        actor := (s.actor.finish a).1, pump := (s.pump.tick poll).1
        pending := s.pending ++ (s.pump.tick poll).2 } := by
  unfold Pumped.step at hs
  dsimp only at hs
  split at hs
  · rename_i hticking
    cases hs
    exact ⟨hticking, ⟨muted, (s.actor.supervise a).report.2, level, live⟩, rfl, rfl⟩
  · cases hs

/-- The window gets to what it was told first. -/
theorem step_deliver {now : ℕ} (hs : s.step (.deliver now) = some s') :
    ∃ e pending, s.pending = e :: pending ∧
      s' = { s with
        pending
        window := match e.backend with
          | some event => s.window.step (.emitted event now)
          | none => s.window } := by
  cases hpending : s.pending with
  | nil =>
    rw [Pumped.step, hpending] at hs
    cases hs
  | cons e pending =>
    rw [Pumped.step, hpending] at hs
    cases hs
    exact ⟨e, pending, rfl, rfl⟩

/-- Anything else happens to the window alone. -/
theorem step_other {e : FrontendEvent L} (hs : s.step (.other e) = some s') :
    e.ofPump = false ∧ s' = { s with window := s.window.step e } := by
  unfold Pumped.step at hs
  dsimp only at hs
  split at hs
  · cases hs
  · rename_i he
    cases hs
    exact ⟨Bool.eq_false_iff.2 he, rfl⟩

theorem Inv.step (h : s.Inv) {e : PumpedEvent L} (hs : s.step e = some s') : s'.Inv := by
  cases e with
  | actor e =>
    obtain ⟨actor, -, rfl⟩ := step_actor hs
    exact ⟨h.speakers, h.active⟩
  | tick a muted level live =>
    obtain ⟨-, poll, -, rfl⟩ := step_tick hs
    exact h.tick poll _
  | deliver now =>
    obtain ⟨e, pending, hpending, rfl⟩ := step_deliver hs
    exact h.deliver hpending now
  | other e =>
    obtain ⟨he, rfl⟩ := step_other hs
    obtain ⟨hspeakers, hvoice⟩ := window_step he h.speakers
    exact ⟨hspeakers, fun hsettled => h.active (settled_mono hvoice _ hsettled)⟩

/-- What holds in every state that is reached. -/
theorem Inv.run {es : List (PumpedEvent L)} (h : s.Inv)
    (hrun : runFrom Pumped.step s es = some s') : s'.Inv :=
  inv_runFrom Inv (fun _ _ _ h _ hs => h.step hs) h (eachStep_true s es) hrun

end Step

end Pumped

/-! ## After the call -/

/-- A command that opens a pipeline. -/
def ActorEvent.opens : ActorEvent → Bool
  | .recv (.start _) _ | .recv (.echoStart _) _ => true
  | _ => false

/-- No call and no sound check is running, and none is to be opened again. -/
structure Actor.Hushed (act : Actor) : Prop where
  call : act.call = none
  echo : act.echoHandle = none
  params : act.lastParams = none

/-- A command that is taken is dealt with. -/
theorem Actor.step_recv {act act' : Actor} {cmd : Cmd} {a : Answers}
    (hs : act.step (.recv cmd a) = some act') : act' = (act.recv a cmd).1 := by
  unfold Actor.step at hs
  dsimp only at hs
  split at hs
  · cases hs
  · cases hs
    rfl

/-- Nothing comes up by itself. -/
theorem Actor.Hushed.step {act act' : Actor} {e : ActorEvent} (h : act.Hushed)
    (hs : act.step e = some act') (he : e.opens = false) : act'.Hushed := by
  have hecho : act'.echoHandle = none := by
    cases e with
    | streamFailed kind =>
      cases hs
      exact h.echo
    | finish a =>
      unfold Actor.step at hs
      dsimp only at hs
      split at hs
      · cases hs
        exact h.echo
      · cases hs
    | recv cmd a =>
      obtain rfl := Actor.step_recv hs
      cases cmd with
      | start p => cases he
      | echoStart p => cases he
      | snapshot =>
        show (act.restart a).echoHandle = none
        unfold Actor.restart
        rw [h.params]
        exact h.echo
      | echoStop => rfl
      | stop => exact h.echo
      | setInputDevice name => exact h.echo
      | setOutputDevice name => exact h.echo
  cases Actor.does hs with
  | start p a _ _ _ => cases he
  | stop a hparams hcall => exact ⟨hcall, hecho, hparams⟩
  | reopen a hdue _ _ _ =>
    obtain ⟨p, hp⟩ := (Actor.of_restartDue hdue).2.2.1
    rw [h.params] at hp
    cases hp
  | other e _ _ _ hparams hcall _ =>
    exact ⟨hcall.trans h.call, hecho, hparams.trans h.params⟩

/-- A step that opens a pipeline, and a tick. -/
def PumpedEvent.opens : PumpedEvent L → Bool
  | .actor e => e.opens
  | _ => false

def PumpedEvent.isTick : PumpedEvent L → Bool
  | .tick _ _ _ _ => true
  | _ => false

namespace Pumped

variable {s s' u : Pumped L} {es : List (PumpedEvent L)}

/-- After the call a tick finds no voice, and nothing brings one up. -/
theorem hushed_step (h : s.actor.Hushed) {e : PumpedEvent L} (hs : s.step e = some s')
    (he : e.opens = false) :
    s'.actor.Hushed ∧
      (e.isTick = true ∨ s.pump.wasActive = false → s'.pump.wasActive = false) := by
  cases e with
  | actor e =>
    obtain ⟨actor, hactor, rfl⟩ := step_actor hs
    exact ⟨h.step hactor he, fun hor => hor.resolve_left Bool.false_ne_true⟩
  | tick a muted level live =>
    obtain ⟨hticking, poll, hsnap, rfl⟩ := step_tick hs
    have hhushed : (s.actor.finish a).1.Hushed := h.step (e := .finish a) (if_pos hticking) rfl
    refine ⟨hhushed, fun _ => ?_⟩
    have hhandle : (s.actor.finish a).1.handle = none := Option.map_eq_none_iff.1 hhushed.call
    have hactive : poll.snap.active =
        ((s.actor.finish a).1.handle.or (s.actor.finish a).1.echoHandle).isSome := by
      rw [hsnap]
      rfl
    rw [hhandle, hhushed.echo] at hactive
    rw [LevelPump.tick_eq]
    exact hactive
  | deliver now =>
    obtain ⟨e, pending, -, rfl⟩ := step_deliver hs
    exact ⟨h, fun hor => hor.resolve_left Bool.false_ne_true⟩
  | other e =>
    obtain ⟨-, rfl⟩ := step_other hs
    exact ⟨h, fun hor => hor.resolve_left Bool.false_ne_true⟩

theorem hushed_run (h : s.actor.Hushed) (hes : ∀ e ∈ es, e.opens = false)
    (hrun : runFrom step s es = some u)
    (htick : s.pump.wasActive = false ∨ ∃ e ∈ es, e.isTick = true) :
    u.pump.wasActive = false := by
  induction es generalizing s with
  | nil =>
    cases hrun
    refine htick.resolve_right ?_
    rintro ⟨e, he, -⟩
    cases he
  | cons e es ih =>
    rw [runFrom_cons] at hrun
    obtain ⟨s', hs, hrest⟩ := Option.bind_eq_some_iff.1 hrun
    obtain ⟨hhushed, hquiet⟩ := hushed_step h hs (hes e List.mem_cons_self)
    refine ih hhushed (fun e he => hes e (List.mem_cons_of_mem _ he)) hrest ?_
    rcases htick with hwas | ⟨tick, hmem, htick⟩
    · exact .inl (hquiet (.inr hwas))
    · rcases List.mem_cons.1 hmem with rfl | hmem
      · exact .inl (hquiet (.inl htick))
      · exact .inr ⟨tick, hmem, htick⟩

/-- **A call that is hung up falls silent.**  Whatever has happened before, once the actor has
stopped the call and no sound check is running, one tick is enough, if no other is started: when the
window has got to what it was told, its store has no voice and no speakers, whatever else happens to
it meanwhile. -/
theorem hung_up_silent {fs : List (PumpedEvent L)} {a : Answers}
    (hrun : runFrom step init es = some s) (hecho : s.actor.echoHandle = none)
    (hstop : s.step (.actor (.recv .stop a)) = some s')
    (hfs : ∀ e ∈ fs, e.opens = false) (htick : ∃ e ∈ fs, e.isTick = true)
    (hrest : runFrom step s' fs = some u) (hpending : u.pending = []) :
    u.window.voice = none ∧ u.window.speakers = ∅ := by
  obtain ⟨actor, hactor, rfl⟩ := step_actor hstop
  have hhushed : actor.Hushed := by
    cases Actor.does hactor with
    | stop a hparams hcall =>
      refine ⟨hcall, ?_, hparams⟩
      rw [Actor.step_recv hactor]
      exact hecho
    | other _ _ hstop _ _ _ _ => cases hstop
  have hinv : u.Inv := ((inv_init.run hrun).step hstop).run hrest
  have hwas := hushed_run hhushed hfs hrest (.inr htick)
  have hvoice : u.window.voice = none := by
    rw [← Option.not_isSome_iff_eq_none]
    intro hsome
    have hactive := hinv.active (by rw [hpending]; exact hsome)
    rw [hwas] at hactive
    cases hactive
  exact ⟨hvoice, hinv.speakers hvoice⟩

/-- A call in which somebody is heard, and what follows after it has been stopped. -/
def oneCall : List (PumpedEvent ℕ) :=
  [.actor (.recv (.start Chosen.room) (Chosen.answers 0 (.ok ()))),
    .actor (.recv .snapshot (Chosen.answers 200 (.ok ()))),
    .tick (Chosen.answers 200 (.ok ())) false ⟨5, [("ann", 3)]⟩ (some 0),
    .deliver 200, .deliver 200, .deliver 200]

def stopped : List (PumpedEvent ℕ) :=
  [.other (.watchdog 300), .actor (.recv .snapshot (Chosen.answers 400 (.ok ()))),
    .tick (Chosen.answers 400 (.ok ())) true ⟨0, []⟩ none,
    .deliver 400, .deliver 400, .deliver 400]

theorem hung_up_silent_oneCall : ∃ s s' u : Pumped ℕ, runFrom step init oneCall = some s ∧
    s.window.voice.isSome = true ∧
    s.step (.actor (.recv .stop (Chosen.answers 250 (.ok ())))) = some s' ∧
    runFrom step s' stopped = some u ∧ u.window.voice = none ∧ u.window.speakers = ∅ := by
  refine ⟨_, _, _, rfl, rfl, rfl, rfl, ?_⟩
  have hquiet : ∀ e ∈ stopped, e.opens = false := by
    simp [stopped, PumpedEvent.opens, ActorEvent.opens]
  have htick : ∃ e ∈ stopped, e.isTick = true :=
    ⟨.tick (Chosen.answers 400 (.ok ())) true ⟨0, []⟩ none, by simp [stopped], rfl⟩
  have hrun : runFrom step init oneCall = some _ := rfl
  exact hung_up_silent hrun rfl rfl hquiet htick rfl rfl

end Pumped

end Desktop
end TcVoice
