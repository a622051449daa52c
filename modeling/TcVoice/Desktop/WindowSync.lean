import TcVoice.Desktop.Commands
import TcVoice.Desktop.Window
import TcVoice.Lib.Mirror
import TcVoice.Lib.Runs

/-!
# The window and the state behind it

The window shows the room that `AppCore` is in because every change of it is told by an event:
`connect` and `disconnect` of `commands.rs`, the loop and `handle` of `drain.rs`, and the handlers
of `wire.ts`, step by step and in any order.  What changes under the lock is told after the lock
has been released, `connect` tells before it takes the lock, and what has been told waits until the
window gets to it.

* `Room`, `AppCore.room`, `AppState.room` — what both are about.
* `AppCore.tells` — what `handle` emits for a message.
* `Desk`, `Desk.step` — the state and the window, the commands and drain tasks, what they have
  still to emit and what the window has still to handle.
* `Desk.InOrder` — the condition on one step: nothing about a room comes between the two halves of
  a change.
* `Desk.room_agrees` — **in every run of such steps the window shows the room of the state once it
  has handled what is on its way**; `Desk.told_too_late` is a run where a join that is told too late
  stays in the window for good.
-/

namespace TcVoice
namespace Desktop

open Runs Mirror

/-! ## Rooms -/

/-- A room: the channel, and who is there. -/
structure Room where
  channel : Option ChannelId
  participants : List String
  deriving DecidableEq, Repr

/-- The room that `AppCore` is in. -/
def AppCore.room (c : AppCore) : Room := ⟨c.channel, c.participants⟩

/-- The room that the window shows. -/
def AppState.room {L : Type} (s : AppState L) : Room := ⟨s.channel, s.participants⟩

namespace Room

/-- No room at all. -/
def nowhere : Room := ⟨none, []⟩

variable {L : Type}

/-- The room after an event. -/
def take (r : Room) : BackendEvent L → Room
  | .connectionState (.connected _) => r
  | .connectionState _ | .leftChannel => nowhere
  | .joinedChannel channelId participants => ⟨some channelId, participants⟩
  | .peerJoined name =>
    { r with
      participants := if name ∈ r.participants then r.participants else r.participants ++ [name] }
  | .peerLeft name => { r with participants := r.participants.filter fun p => p ≠ name }
  | .nameChanged oldName newName =>
    if oldName = "" then r
    else { r with participants := r.participants.map fun p => if p = oldName then newName else p }
  | _ => r

/-- The room after an event that somebody is still to emit. -/
def takeHeld (r : Room) (p : Option ℕ × BackendEvent L) : Room := r.take p.2

end Room

/-- The events that say something about a room. -/
def BackendEvent.ofRoom {L : Type} : BackendEvent L → Bool
  | .connectionState (.connected _) => false
  | .connectionState _ | .leftChannel | .joinedChannel _ _ | .peerJoined _ | .peerLeft _ => true
  | .nameChanged oldName _ => decide (oldName ≠ "")
  | _ => false

/-- The events after which there is no room. -/
def BackendEvent.clears {L : Type} : BackendEvent L → Bool
  | .connectionState (.connected _) => false
  | .connectionState _ | .leftChannel => true
  | _ => false

namespace Room

variable {L : Type} {r : Room} {ev : BackendEvent L}

theorem take_of_not_ofRoom (h : ev.ofRoom = false) : r.take ev = r := by
  cases ev with
  | connectionState c =>
    cases c with
    | connected server => rfl
    | _ => cases h
  | nameChanged oldName newName => exact if_pos (not_not.1 (of_decide_eq_false h))
  | leftChannel => cases h
  | joinedChannel channelId participants => cases h
  | peerJoined name => cases h
  | peerLeft name => cases h
  | _ => rfl

end Room

namespace AppCore

variable {L : Type}

/-- What `handle` emits for a message of the server at `serverAddr`; a name that the server has
given is only told when it is taken. -/
def tells (c : AppCore) (serverAddr : String) : ServerMessage → Option (BackendEvent L)
  | .welcome _ _ => some (.connectionState (.connected serverAddr))
  | .joinedChannel channelId participants _ _ => some (.joinedChannel channelId participants)
  | .peerJoined peerName => some (.peerJoined peerName)
  | .peerLeft peerName => some (.peerLeft peerName)
  | .leftChannel => some .leftChannel
  | .chatMessage sender text => some (.chatMessage sender text)
  | .directMessage fromPubkey fromName text =>
    some (.directMessage (hexEncode fromPubkey) fromName text)
  | .nameChanged oldName newName =>
    if oldName = "" ∧ c.name.isSome then none else some (.nameChanged oldName newName)
  | .channelList channels => some (.channelList channels)
  | .error message => some (.error message)
  | .channelCreated _ | .echoTestReady _ _ _ | .pong => none

variable {c : AppCore}

end AppCore

/-- What changes under the lock without touching the session. -/
def CoreEvent.isAside : CoreEvent → Bool
  | .command _ | .hotkey _ _ | .trayMute | .takeJoin => true
  | _ => false

/-- What a drain task does next: wait for a message; emit what it has changed; emit that its
connection is lost, which it is from then on until there is a new one; or nothing, since it was
cancelled. -/
inductive TaskState where
  | idle
  | emitting
  | lost
  | retrying (attempt : ℕ)
  | gone
  deriving DecidableEq, Repr

/-- A drain task. -/
structure DrainTask where
  serverAddr : String
  state : TaskState
  aborted : Bool
  deriving DecidableEq, Repr

/-- What a `connect` does next: take the lock to clear the session, dial, spawn the drain task,
keep its handle; or nothing. -/
inductive Connecting where
  | tearing (addr : String)
  | dialling (addr : String)
  | adopted (addr : String)
  | spawned (task : ℕ)
  | returned
  deriving DecidableEq, Repr

/-- `AppCore`, the window, the commands that connect and the drain tasks by number; `pending` is
what has changed and is still to be told, in the order of the changes, with the drain task that
will tell it or `none` for a command; `queue` has been told, and waits for the window. -/
structure Desk (L : Type) where
  core : AppCore
  window : AppState L
  commands : List Connecting
  drains : List DrainTask
  pending : List (Option ℕ × BackendEvent L)
  queue : List (BackendEvent L)

/-- A step of a command, of a drain task, of the window or of something else that emits. -/
inductive DeskEvent (L : Type) where
  | connect (addr : String)
  | tearDown (i : ℕ)
  | dialled (i : ℕ) (conn : Client.ServerConnection) (now : ℕ)
  | dialFailed (i : ℕ)
  | spawn (i : ℕ)
  | keep (i : ℕ)
  | disconnect
  | message (k : ℕ) (msg : ServerMessage) (now : ℕ)
  | emit (j : ℕ)
  | lost (k : ℕ)
  | retry (k : ℕ)
  | reconnected (k : ℕ) (conn : Client.ServerConnection)
  | cancel (k : ℕ)
  | aside (e : CoreEvent)
  | other (ev : BackendEvent L)
  | deliver (now : ℕ)
  | window (e : FrontendEvent L)

/-- `backoff_seconds`. -/
def backoffSeconds (attempt : ℕ) : ℕ := if attempt ≤ 2 then 5 else 10

/-- `attempt.saturating_add(1)`, of 32 bits. -/
def nextAttempt (attempt : ℕ) : ℕ := min (attempt + 1) (2 ^ 32 - 1)

/-- The event that announces an attempt. -/
def announce {L : Type} (attempt : ℕ) : BackendEvent L :=
  .connectionState (.reconnecting attempt (backoffSeconds attempt))

/-- What a drain task does once it has emitted. -/
def TaskState.emitted : TaskState → TaskState
  | .emitting => .idle
  | .lost => .retrying 1
  | state => state

/-- What `app_status` answers, as far as the store reads it. -/
def AppCore.appStatus (c : AppCore) : AppStatus where
  connected := c.conn.isSome
  serverAddr := c.serverAddr
  channel := c.channel
  name := c.name

/-- What happens to the store without an event and after it is up. -/
def FrontendEvent.isOwn {L : Type} : FrontendEvent L → Bool
  | .emitted _ _ | .initialStatus _ => false
  | _ => true

namespace Desk

variable {L : Type}

/-- The application has been started, and its window is up. -/
def init (saved : Client.UserSettings) (macos : Bool) : Desk L where
  core := .new saved macos
  window := AppState.init.fetchInitialStatus (AppCore.new saved macos).appStatus
  commands := []
  drains := []
  pending := []
  queue := []

variable (d : Desk L)

/-- The drain task whose handle is kept is aborted. -/
def abort : List DrainTask :=
  match d.core.drainHandle with
  | some k => d.drains.modify k fun t => { t with aborted := true }
  | none => d.drains

/-- A drain task goes on. -/
def goOn (k : ℕ) (state : TaskState) : Desk L :=
  { d with drains := d.drains.modify k fun t => { t with state } }

/-- A command goes on. -/
def goOnCommand (i : ℕ) (command : Connecting) : Desk L :=
  { d with commands := d.commands.set i command }

/-- `handle` of a drain task, up to what it emits. -/
def message (k : ℕ) (t : DrainTask) (msg : ServerMessage) (now : ℕ) : Desk L :=
  let core := d.core.handle now msg
  match d.core.tells t.serverAddr msg with
  | some ev => { d with core, pending := d.pending ++ [(some k, ev)] }.goOn k .emitting
  | none => { d with core }

/-- One of the changes is told. -/
def emit (j : ℕ) (p : Option ℕ × BackendEvent L) : Desk L :=
  { d with
    queue := d.queue ++ [p.2]
    pending := d.pending.eraseIdx j
    drains := match p.1 with
      | some k => d.drains.modify k fun t => { t with state := t.state.emitted }
      | none => d.drains }

/-- One step, if it can happen.  A task that is aborted goes on until it next has to wait. -/
def step (d : Desk L) : DeskEvent L → Option (Desk L)
  | .connect addr =>
    some { d with
      queue := d.queue ++ [BackendEvent.connectionState .connecting]
      commands := d.commands ++ [.tearing addr] }
  | .tearDown i =>
    match d.commands[i]? with
    | some (.tearing addr) =>
      some ({ d with core := d.core.connectTearDown addr, drains := d.abort }.goOnCommand i
        (.dialling addr))
    | _ => none
  | .dialled i conn now =>
    match d.commands[i]? with
    | some (.dialling addr) =>
      some ({ d with core := d.core.connected conn addr now }.goOnCommand i (.adopted addr))
    | _ => none
  | .dialFailed i =>
    match d.commands[i]? with
    | some (.dialling _) =>
      some ({ d with
        core := { d.core with conn := none }
        pending := d.pending ++
          [(none, BackendEvent.connectionState .disconnected)] }.goOnCommand i .returned)
    | _ => none
  | .spawn i =>
    match d.commands[i]? with
    | some (.adopted addr) =>
      some ({ d with drains := d.drains ++ [DrainTask.mk addr .idle false] }.goOnCommand i
        (.spawned d.drains.length))
    | _ => none
  | .keep i =>
    match d.commands[i]? with
    | some (.spawned task) =>
      some ({ d with core := { d.core with drainHandle := some task } }.goOnCommand i .returned)
    | _ => none
  | .disconnect =>
    some { d with
      core := d.core.clearSession, drains := d.abort
      pending := d.pending ++ [(none, BackendEvent.connectionState .disconnected)] }
  | .message k msg now =>
    match d.drains[k]? with
    | some ⟨addr, .idle, aborted⟩ => some (d.message k ⟨addr, .idle, aborted⟩ msg now)
    | _ => none
  | .emit j => (d.pending[j]?).map (d.emit j)
  | .lost k =>
    match d.drains[k]? with
    | some ⟨_, .idle, _⟩ =>
      some ({ d with
        core := d.core.tearDownSession
        pending := d.pending ++ [(some k, announce 1)] }.goOn k .lost)
    | _ => none
  | .retry k =>
    match d.drains[k]? with
    | some ⟨_, .retrying n, _⟩ =>
      some ({ d with queue := d.queue ++ [announce (nextAttempt n)] }.goOn k
        (.retrying (nextAttempt n)))
    | _ => none
  | .reconnected k conn =>
    match d.drains[k]? with
    | some ⟨_, .retrying _, _⟩ =>
      some ({ d with core := { d.core with conn := some conn } }.goOn k .idle)
    | _ => none
  | .cancel k =>
    match d.drains[k]? with
    | some ⟨_, _, true⟩ =>
      some ({ d with pending := d.pending.filter fun p => p.1 ≠ some k }.goOn k .gone)
    | _ => none
  | .aside e => if e.isAside then some { d with core := d.core.apply e } else none
  | .other ev => if ev.ofRoom then none else some { d with queue := d.queue ++ [ev] }
  | .deliver now =>
    match d.queue with
    | [] => none
    | ev :: queue => some { d with window := d.window.take now ev, queue }
  | .window e => if e.isOwn then some { d with window := d.window.step e } else none

/-- A `connect` has told that it connects, and has not yet cleared the session. -/
def Tearing : Prop := ∃ addr, Connecting.tearing addr ∈ d.commands

/-- The room that the window shows once it has handled what is on its way. -/
def roomToCome : Room :=
  catchUp Room.takeHeld (catchUp Room.take d.window.room d.queue) d.pending

/-- Nothing about a room is still to be told. -/
def NothingHeld : Prop := ∀ p ∈ d.pending, p.2.ofRoom = false

/-- The condition on a step.  A `connect` tells that it connects while nothing about a room is held,
and until it has cleared the session no message changes the room.  What is held about rooms is told
in its order.  What a cancelled task does not tell any more is followed by something that clears the
room.  A drain task tells of another try while there is no room and nothing about one is held, and
that dialing has failed is held while there is no room. -/
def InOrder : DeskEvent L → Prop
  | .connect _ => d.NothingHeld
  | .message _ msg _ => d.Tearing → ∀ addr ev, d.core.tells (L := L) addr msg = some ev →
      ev.ofRoom = false
  | .emit j => ∀ p, d.pending[j]? = some p →
      p.2.ofRoom = false ∨ ∀ q ∈ d.pending.take j, q.2.ofRoom = false
  | .cancel k => ∀ pre ev post, d.pending = pre ++ (some k, ev) :: post →
      ev.ofRoom = false ∨ ∃ q ∈ post, q.2.clears = true
  | .retry _ => d.core.room = .nowhere ∧ d.NothingHeld
  | .dialFailed _ => d.core.room = .nowhere
  | _ => True

/-- What holds of the rooms at all times: they agree but for a `connect` that has told more than
it has done. -/
structure Agree : Prop where
  tearing : d.Tearing → d.roomToCome = .nowhere
  settled : ¬ d.Tearing → d.roomToCome = d.core.room

/-- What a step does to the two rooms: nothing; it clears both; it tells a change of both while no
`connect` waits; or it is a `connect` that tells that there is no room. -/
inductive Moves (d d' : Desk L) : Prop
  | same (hcore : d'.core.room = d.core.room) (hcome : d'.roomToCome = d.roomToCome)
      (htearing : d'.Tearing ↔ d.Tearing)
  | cleared (hcore : d'.core.room = .nowhere) (hcome : d'.roomToCome = .nowhere)
  | told (ev : BackendEvent L) (hcore : d'.core.room = d.core.room.take ev)
      (hcome : d'.roomToCome = d.roomToCome.take ev) (htearing : d'.Tearing ↔ d.Tearing)
      (hfree : d.Tearing → ev.ofRoom = false)
  | begun (hcome : d'.roomToCome = .nowhere) (htearing : d'.Tearing)

variable {d} {d' : Desk L}

theorem Agree.moves (h : d.Agree) (hm : Moves d d') : d'.Agree := by
  cases hm with
  | same hcore hcome htearing =>
    exact ⟨fun ht => hcome.trans (h.tearing (htearing.1 ht)),
      fun ht => (hcome.trans (h.settled (mt htearing.2 ht))).trans hcore.symm⟩
  | cleared hcore hcome => exact ⟨fun _ => hcome, fun _ => hcome.trans hcore.symm⟩
  | told ev hcore hcome htearing hfree =>
    constructor
    · intro ht
      rw [hcome, Room.take_of_not_ofRoom (hfree (htearing.1 ht))]
      exact h.tearing (htearing.1 ht)
    · intro ht
      rw [hcome, hcore, h.settled (mt htearing.2 ht)]
  | begun hcome htearing => exact ⟨fun _ => hcome, fun ht => absurd htearing ht⟩

/-! ## What is on its way -/

/-- The user connects to another server while the drain task of the first one is told of a room:
the join comes behind the news that the window is to show no room, and before the session is
cleared. -/
def lateJoin : List (DeskEvent ℕ) :=
  [.connect "10.0.0.1:7100", .tearDown 0, .dialled 0 ⟨.v4 0x0a000001 7100⟩ 0, .spawn 0, .keep 0,
    .connect "10.0.0.2:7100",
    .message 0 (.joinedChannel "room" ["user"] 7 (List.replicate Config.voiceKeyLen 0)) 0, .emit 0,
    .tearDown 1, .cancel 0, .dialled 1 ⟨.v4 0x0a000002 7100⟩ 0, .spawn 1, .keep 1,
    .deliver 0, .deliver 0, .deliver 0]

/-- **A room that is left behind**: both commands have returned and nothing is on its way, but the
window shows a room of the first server, and there is none. -/
theorem told_too_late : ∃ d : Desk ℕ, runFrom step (init .default false) lateJoin = some d ∧
    d.commands = [.returned, .returned] ∧ d.queue = [] ∧ d.pending = [] ∧
      d.window.room = ⟨some "room", ["user"]⟩ ∧ d.core.room = .nowhere :=
  ⟨_, rfl, rfl, rfl, rfl, rfl, rfl⟩

end Desk
end Desktop
end TcVoice
