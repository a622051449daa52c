import TcVoice.Client.Disconnect

/-!
# Back-pressure on the way to the server

The command queue of `crates/client/src/network.rs` with its writer, its heartbeat and the
terminal client before it, and the clock of the server at the far end.

* `Uplink`, `Uplink.step` — one connection, with the queue and the tasks at both ends of it, in
  any order of their steps.
* `Uplink.Carried` — as long as the writer runs, the heartbeat goes on, the client keeps the
  connection, and the server does not run into its idle timeout.
* `Uplink.Flows` — the condition on one step: what is sent finds room in the queue, and no write
  goes on for too long; `Uplink.Paced.flows_second` says how long that is at least.
* `carried_iff` — **a connection is carried throughout a run exactly when it flows**;
  `full_for_a_moment` is a slow write that ends both heartbeat and connection.
-/

namespace TcVoice
namespace Client

open Runs

/-- `CMD_QUEUE_CAPACITY`. -/
def cmdQueueCapacity : ℕ := 64

/-- `CLIENT_IDLE_TIMEOUT` of the server, in seconds. -/
def clientIdleTimeoutSecs : ℕ := 60

/-- `writer_task`: it waits for a message, has been writing one for so many seconds, or has
stopped, which closes the queue. -/
inductive Writer where
  | waiting
  | writing (secs : ℕ)
  | stopped
  deriving DecidableEq, Repr

/-- One connection from the client's side: the session, the command queue, the writer, the
heartbeat with the seconds it has slept, as long as it goes on, and how many seconds ago the
server last had a message. -/
structure Uplink where
  session : Session
  queue : BoundedQueue ClientMessage cmdQueueCapacity
  writer : Writer
  heartbeat : Option ℕ
  idle : ℕ
  deriving DecidableEq, Repr

/-- A step of the writer (it takes a message, has written it, fails, or finds that nobody is left
to send), of the heartbeat or of the terminal client, or a second of time. -/
inductive UplinkEvent where
  | take
  | finish
  | fail
  | close
  | beat
  | loop (e : SessionEvent) (a : Answers)
  | second
  deriving DecidableEq, Repr

/-- Whether a part of the loop goes on with the connection that there is. -/
def Session.keepsConnection (s : Session) : SessionEvent → Bool
  | .message _ => decide (s.serverRx = .live)
  | e => s.keepsReceiver e

namespace Uplink

variable (l : Uplink)

/-- A connection that has just been adopted by a session, with the hello in its queue. -/
def start (version : String) (pubkey : Option Bytes) (s : Session) (a : Answers)
    (c : ServerConnection) : Uplink :=
  let (session, sent) := s.adopt { a with send := true } c
  { session
    queue := BoundedQueue.empty.sendAll (.hello version Config.protocolVersion pubkey :: sent)
    writer := .waiting
    heartbeat := some 0
    idle := 0 }

/-- Whether the queue takes a message: it is open and there is room. -/
def accepts : Bool := decide (l.writer ≠ .stopped ∧ l.queue.HasRoom)

/-- How long the write that is going on has taken. -/
def writeSecs : ℕ :=
  match l.writer with
  | .writing secs => secs
  | _ => 0

/-- The heartbeat wakes up: the task ends where `try_send` fails. -/
def beat : Uplink :=
  match if l.accepts then l.queue.trySend .ping else none with
  | some queue => { l with queue, heartbeat := some 0 }
  | none => { l with heartbeat := none }

/-- Whether a task has something to do before more time passes. -/
def busy : Bool :=
  l.heartbeat.any (Config.heartbeatIntervalSecs ≤ ·) ||
    (decide (l.writer = .waiting) && !l.queue.items.isEmpty)

/-- One step, if it can happen. -/
def step (l : Uplink) : UplinkEvent → Option Uplink
  | .take =>
    if l.writer = .waiting then
      l.queue.tryRecv.map fun r => { l with queue := r.2, writer := .writing 0 }
    else none
  | .finish =>
    match l.writer with
    | .writing _ => some { l with writer := .waiting, idle := 0 }
    | _ => none
  | .fail =>
    match l.writer with
    | .writing _ => some { l with writer := .stopped }
    | _ => none
  | .close =>
    if l.writer = .waiting ∧ l.queue.items = [] ∧ l.heartbeat = none ∧ l.session.conn = none then
      some { l with writer := .stopped }
    else none
  | .beat => if l.heartbeat.any (Config.heartbeatIntervalSecs ≤ ·) then some l.beat else none
  | .loop e a =>
    if l.session.keepsConnection e then
      let (session, sent) := l.session.turn (e, { a with send := l.accepts })
      some { l with session, queue := l.queue.sendAll sent }
    else none
  | .second =>
    if l.busy then none
    else
      some { l with
        heartbeat := l.heartbeat.map (· + 1)
        writer := match l.writer with
          | .writing secs => .writing (secs + 1)
          | writer => writer
        idle := l.idle + 1 }

/-- For how long the server had heard nothing when the write began that is going on. -/
def unheard : ℕ := l.idle - l.writeSecs

/-- The heartbeat goes on, the client keeps the connection, and the server has no reason to end
it. -/
structure Alive (l : Uplink) : Prop where
  heartbeat : l.heartbeat.isSome = true
  connected : l.session.conn.isSome = true
  heard : l.idle < clientIdleTimeoutSecs

/-- Until the writer has stopped, the connection is alive. -/
def Carried (l : Uplink) : Prop := l.writer ≠ .stopped → l.Alive

/-- Only a writer that has stopped ends the heartbeat or disconnects the client. -/
def Kept (l : Uplink) : Prop :=
  l.writer ≠ .stopped → l.heartbeat.isSome = true ∧ l.session.conn.isSome = true

/-- What a part of the loop sends while the queue takes everything. -/
def sends (e : SessionEvent) (a : Answers) : List ClientMessage :=
  (l.session.turn (e, { a with send := true })).2

/-- While the writer runs, what is sent finds room. -/
def Room (l : Uplink) : UplinkEvent → Prop
  | .beat => l.writer ≠ .stopped → l.queue.HasRoom
  | .loop e a => l.writer ≠ .stopped → l.sends e a ≠ [] → l.queue.HasRoom
  | _ => True

/-- No write goes on for so long that the server, with what it had waited before, has waited for
its timeout. -/
def Brief (l : Uplink) : UplinkEvent → Prop
  | .second => ∀ secs, l.writer = .writing secs → l.unheard + (secs + 1) < clientIdleTimeoutSecs
  | _ => True

/-- The condition on a step. -/
def Flows (l : Uplink) (e : UplinkEvent) : Prop := l.Room e ∧ l.Brief e

/-! ## What the parts of the loop send -/

section Sends

variable {s : Session} {c : ServerConnection} {a : Answers}

/-- A part of the loop sends nothing, or one message, and keeps the connection where the queue
takes it. -/
def Offers (s : Session) (e : SessionEvent) (a : Answers) : Option ClientMessage → Prop
  | none => ∀ send, (s.turn (e, { a with send })).1.conn = s.conn ∧
      (s.turn (e, { a with send })).2 = []
  | some msg => (s.turn (e, { a with send := true })).1.conn = s.conn ∧
      (s.turn (e, { a with send := true })).2 = [msg] ∧
      (s.turn (e, { a with send := false })).1.conn = none ∧
      (s.turn (e, { a with send := false })).2 = []

/-- `send_or_disconnect` with a connection. -/
theorem sendOrDisconnect_eq (hconn : s.conn = some c) (msg : ClientMessage) :
    s.sendOrDisconnect a msg = if a.send then (s, [msg])
      else ({ s with conn := none, connState := .disconnected }, []) := by
  simp only [Session.sendOrDisconnect, hconn]

theorem conn_startVoice (serverIp : IpAddr) (params : VoiceJoinParams) (echoTest : Bool) :
    ((s.startVoice a serverIp params echoTest).getD s).conn = s.conn := by
  unfold Session.startVoice
  split <;> rfl

theorem conn_restartVoice (s : Session) : (s.restartVoice a).conn = s.conn := by
  unfold Session.restartVoice
  split
  · exact conn_startVoice _ _ _
  · rfl

theorem offers_message (hconn : s.conn = some c) (msg : ServerMessage) :
    ∃ out, Offers s (.message msg) a out := by
  cases msg with
  | channelCreated channelId =>
    exact ⟨some (.joinChannel channelId), by
      simp [Offers, Session.turn, Session.handleServerMessage, sendOrDisconnect_eq hconn]⟩
  | joinedChannel channelId participants udpToken voiceKey =>
    refine ⟨none, fun send => ?_⟩
    simp only [Session.turn, Session.handleServerMessage]
    split
    · exact ⟨rfl, rfl⟩
    · exact ⟨conn_startVoice _ _ _, rfl⟩
  | echoTestReady channelId udpToken voiceKey =>
    refine ⟨none, fun send => ?_⟩
    simp only [Session.turn, Session.handleServerMessage]
    split
    · exact ⟨rfl, rfl⟩
    · split
      · rename_i hs
        obtain ⟨-, rfl⟩ := Session.startVoice_eq_some hs
        exact ⟨rfl, rfl⟩
      · exact ⟨rfl, rfl⟩
  | nameChanged oldName newName =>
    refine ⟨none, fun send => ?_⟩
    simp only [Session.turn, Session.handleServerMessage]
    split <;> exact ⟨rfl, rfl⟩
  | welcome version protocol => exact ⟨none, fun _ => ⟨rfl, rfl⟩⟩
  | peerJoined peerName => exact ⟨none, fun _ => ⟨rfl, rfl⟩⟩
  | peerLeft peerName => exact ⟨none, fun _ => ⟨rfl, rfl⟩⟩
  | leftChannel => exact ⟨none, fun _ => ⟨rfl, rfl⟩⟩
  | chatMessage sender text => exact ⟨none, fun _ => ⟨rfl, rfl⟩⟩
  | directMessage fromPubkey fromName text => exact ⟨none, fun _ => ⟨rfl, rfl⟩⟩
  | channelList channels => exact ⟨none, fun _ => ⟨rfl, rfl⟩⟩
  | error message => exact ⟨none, fun _ => ⟨rfl, rfl⟩⟩
  | pong => exact ⟨none, fun _ => ⟨rfl, rfl⟩⟩

theorem offers_config (change : ConfigChange) :
    ∃ out, Offers s (.command (.config change)) a out := by
  refine ⟨none, fun send => ?_⟩
  cases change with
  | list => exact ⟨rfl, rfl⟩
  | level => exact ⟨rfl, rfl⟩
  | input device =>
    cases device with
    | none => exact ⟨rfl, rfl⟩
    | some device => exact ⟨conn_restartVoice _, rfl⟩
  | output device =>
    cases device with
    | none => exact ⟨rfl, rfl⟩
    | some device => exact ⟨conn_restartVoice _, rfl⟩

theorem offers_name (hconn : s.conn = some c) (newName : Option String) :
    ∃ out, Offers s (.command (.name newName)) a out := by
  cases newName with
  | none => exact ⟨none, fun _ => ⟨rfl, rfl⟩⟩
  | some newName =>
    exact ⟨some (.setName newName), by
      simp [Offers, Session.turn, Session.handleCommand, Session.cmdName,
        sendOrDisconnect_eq hconn]⟩

/-- The commands that need a connection, with one. -/
theorem offers_connected (hconn : s.conn = some c) (hstate : s.connState = .connected)
    {command : Command} (h : s.keepsReceiver (.command command) = true) :
    ∃ out, Offers s (.command command) a out := by
  cases command with
  | trust => cases h
  | reconnect => cases h
  | config change => exact offers_config change
  | name newName => exact offers_name hconn newName
  | server target =>
    cases target with
    | none => exact ⟨none, fun _ => ⟨rfl, rfl⟩⟩
    | some target =>
      exact ⟨none, fun _ => by
        simp [Session.turn, Session.handleCommand, Session.cmdServer, hstate]⟩
  | aside => exact ⟨none, fun _ => ⟨rfl, rfl⟩⟩
  | quit => exact ⟨none, fun _ => ⟨rfl, rfl⟩⟩
  | create rawName =>
    cases hrequest : Session.createRequest rawName with
    | none =>
      exact ⟨none, fun _ => by
        simp [Session.turn, Session.handleCommand, hstate, Session.cmdCreate, hrequest]⟩
    | some msg =>
      exact ⟨some msg, by
        simp [Offers, Session.turn, Session.handleCommand, hstate, Session.cmdCreate, hrequest,
          sendOrDisconnect_eq hconn]⟩
  | list =>
    exact ⟨some .listChannels, by
      simp [Offers, Session.turn, Session.handleCommand, hstate, sendOrDisconnect_eq hconn]⟩
  | connect id =>
    cases id with
    | none => exact ⟨none, fun _ => by simp [Session.turn, Session.handleCommand]⟩
    | some id =>
      exact ⟨some (.joinChannel id), by
        simp [Offers, Session.turn, Session.handleCommand, hstate, sendOrDisconnect_eq hconn]⟩
  | leave =>
    exact ⟨some .leaveChannel, by
      simp [Offers, Session.turn, Session.handleCommand, hstate, Session.cmdLeave,
        sendOrDisconnect_eq hconn, Session.leave, Session.dropVoice]⟩
  | echotest =>
    by_cases hbusy : (s.channel.isSome || s.voiceActive || s.echoDeadline.isSome) = true
    · refine ⟨none, fun _ => ?_⟩
      simp only [Session.turn, Session.handleCommand, hstate, Session.cmdEchotest, if_pos hbusy,
        ne_eq, not_true_eq_false, if_false, and_self]
    · exact ⟨some .startEchoTest, by
        simp only [Offers, Session.turn, Session.handleCommand, hstate, Session.cmdEchotest,
          if_neg hbusy, sendOrDisconnect_eq hconn, ne_eq, not_true_eq_false, if_false, if_true,
          and_self, Bool.false_eq_true]⟩
  | invite => exact ⟨none, fun _ => by simp [Session.turn, Session.handleCommand]⟩
  | chat text =>
    exact ⟨some (.chatMessage text), by
      simp [Offers, Session.turn, Session.handleCommand, hstate, sendOrDisconnect_eq hconn]⟩
  | unknown => exact ⟨none, fun _ => by simp [Session.turn, Session.handleCommand]⟩

theorem offers_command (hconn : s.conn = some c) {command : Command}
    (h : s.keepsReceiver (.command command) = true) :
    ∃ out, Offers s (.command command) a out := by
  by_cases hstate : s.connState = .connected
  · exact offers_connected hconn hstate h
  · cases command with
    | trust => cases h
    | reconnect => cases h
    | config change => exact offers_config change
    | name newName => exact offers_name hconn newName
    | server target =>
      cases target with
      | none => exact ⟨none, fun _ => ⟨rfl, rfl⟩⟩
      | some target => exact absurd (of_decide_eq_true h) hstate
    | _ => exact ⟨none, fun _ => by simp [Session.turn, Session.handleCommand, hstate]⟩

theorem offers_checkEcho (hconn : s.conn = some c) : ∃ out, Offers s .checkEcho a out := by
  have hover : { s with echoDeadline := none }.dropVoice.conn = some c := hconn
  cases htimer : s.echoDeadline with
  | none => exact ⟨none, fun _ => by simp only [Session.turn, Session.checkEcho, htimer, and_self]⟩
  | some timer =>
    by_cases hdue : timer.deadline ≤ a.now
    · refine ⟨some .stopEchoTest, ?_⟩
      simp only [Offers, Session.turn, Session.checkEcho, htimer, if_pos hdue,
        sendOrDisconnect_eq hover]
      exact ⟨rfl, rfl, rfl, rfl⟩
    · exact ⟨none, fun _ => by simp [Session.turn, Session.checkEcho, htimer, hdue]⟩

/-- What any part of the loop sends that keeps the connection. -/
theorem exists_offers (hconn : s.conn = some c) {e : SessionEvent}
    (h : s.keepsConnection e = true) : ∃ out, Offers s e a out := by
  cases e with
  | checkEcho => exact offers_checkEcho hconn
  | command command => exact offers_command hconn h
  | message msg => exact offers_message hconn msg
  | lostConnection => cases h
  | autoReconnect => cases h

end Sends

/-! ## The pace of the heartbeat -/

/-- What holds between the clocks: the heartbeat never oversleeps, a writer that waits has been
given something since it last woke up, and the server had not waited longer than the heartbeat
when a write began. -/
structure Paced (l : Uplink) : Prop where
  slept : ∀ secs, l.heartbeat = some secs → secs ≤ Config.heartbeatIntervalSecs
  waiting : l.writer = .waiting → l.idle ≤ Config.heartbeatIntervalSecs
  empty : l.writer = .waiting → l.queue.items = [] →
    ∀ secs, l.heartbeat = some secs → l.idle ≤ secs
  writing : ∀ secs, l.writer = .writing secs →
    secs ≤ l.idle ∧ l.idle ≤ Config.heartbeatIntervalSecs + secs

/-- The server is not kept waiting by a write. -/
def Prompt (l : Uplink) : Prop :=
  ∀ secs, l.writer = .writing secs → l.idle < clientIdleTimeoutSecs

variable {l}

/-- A write of less than 50 seconds never takes too long. -/
theorem Paced.flows_second (h : l.Paced)
    (hshort : ∀ secs, l.writer = .writing secs →
      Config.heartbeatIntervalSecs + (secs + 1) < clientIdleTimeoutSecs) : l.Flows .second := by
  refine ⟨trivial, fun secs hwriter => ?_⟩
  obtain ⟨-, hidle⟩ := h.writing secs hwriter
  have hbound := hshort secs hwriter
  unfold unheard writeSecs
  rw [hwriter]
  dsimp only
  omega

theorem paced_start (version : String) (pubkey : Option Bytes) (s : Session) (a : Answers)
    (c : ServerConnection) : (start version pubkey s a c).Paced where
  slept := by
    rintro _ ⟨⟩
    exact Nat.zero_le _
  waiting _ := Nat.zero_le _
  empty _ _ secs _ := Nat.zero_le secs
  writing := by rintro _ ⟨⟩

/-- With the heartbeat and the connection, the server has heard enough between the writes. -/
theorem carried_iff_of_paced (h : l.Paced) : l.Carried ↔ l.Kept ∧ l.Prompt := by
  constructor
  · intro hcarried
    refine ⟨fun hrunning => ?_, fun secs hwriter => ?_⟩
    · exact ⟨(hcarried hrunning).heartbeat, (hcarried hrunning).connected⟩
    · exact (hcarried (by rw [hwriter]; simp)).heard
  · rintro ⟨hkept, hprompt⟩ hrunning
    obtain ⟨hheartbeat, hconn⟩ := hkept hrunning
    refine ⟨hheartbeat, hconn, ?_⟩
    cases hwriter : l.writer with
    | waiting => exact (h.waiting hwriter).trans_lt (by decide)
    | writing secs => exact hprompt secs hwriter
    | stopped => exact absurd hwriter hrunning

theorem accepts_eq (hrunning : l.writer ≠ .stopped) : l.accepts = decide l.queue.HasRoom := by
  simp [accepts, hrunning]

/-- A part of the loop, while the writer runs: it keeps the connection where there is room, and
what it sends goes into the queue. -/
theorem loop_conn (hrunning : l.writer ≠ .stopped) (hconn : l.session.conn.isSome = true)
    {e : SessionEvent} {a : Answers} (hkeeps : l.session.keepsConnection e = true) :
    ((l.session.turn (e, { a with send := l.accepts })).1.conn.isSome = true ↔
      (l.sends e a ≠ [] → l.queue.HasRoom)) := by
  obtain ⟨c, hc⟩ := Option.isSome_iff_exists.1 hconn
  obtain ⟨out, hout⟩ := exists_offers (a := a) hc hkeeps
  rw [accepts_eq hrunning]
  cases out with
  | none =>
    refine iff_of_true ?_ fun hsends => absurd (hout true).2 hsends
    rw [(hout _).1]
    exact hconn
  | some msg =>
    obtain ⟨hkept, hsent, hgone, -⟩ := hout
    by_cases hroom : l.queue.HasRoom
    · refine iff_of_true ?_ fun _ => hroom
      rw [decide_eq_true hroom, hkept]
      exact hconn
    · refine iff_of_false ?_ fun himp => hroom (himp ?_)
      · rw [decide_eq_false hroom, hgone]
        exact Bool.false_ne_true
      · rw [sends, hsent]
        exact List.cons_ne_nil _ _

/-- The heartbeat leaves a ping behind the others, or ends. -/
theorem beat_cases (l : Uplink) :
    (l.accepts = true ∧ ∃ queue, queue.items = l.queue.items ++ [.ping] ∧
      l.beat = { l with queue, heartbeat := some 0 }) ∨
      (l.accepts = false ∧ l.beat = { l with heartbeat := none }) := by
  unfold beat
  cases haccepts : l.accepts with
  | false => exact .inr ⟨rfl, rfl⟩
  | true =>
    have hroom : l.queue.HasRoom := (of_decide_eq_true haccepts).2
    obtain ⟨queue, hsend, hitems⟩ := hroom.exists_trySend ClientMessage.ping
    refine .inl ⟨rfl, queue, hitems, ?_⟩
    rw [if_pos rfl, hsend]

/-- The heartbeat goes on where its ping finds room. -/
theorem beat_heartbeat (hrunning : l.writer ≠ .stopped) :
    l.beat.heartbeat.isSome = true ↔ l.queue.HasRoom := by
  have haccepts := accepts_eq hrunning
  obtain ⟨htrue, queue, -, hbeat⟩ | ⟨hfalse, hbeat⟩ := l.beat_cases
  · rw [hbeat]
    exact iff_of_true rfl (of_decide_eq_true (haccepts.symm.trans htrue))
  · rw [hbeat]
    exact iff_of_false Bool.false_ne_true (of_decide_eq_false (haccepts.symm.trans hfalse))

theorem step_beat {l' : Uplink} (hs : step l .beat = some l') : l' = l.beat := by
  simp only [step] at hs
  split at hs
  · exact (Option.some.inj hs).symm
  · cases hs

/-- The clocks do not matter any more once the writer has stopped. -/
theorem paced_of_stopped (hstopped : l.writer = .stopped)
    (hslept : ∀ secs, l.heartbeat = some secs → secs ≤ Config.heartbeatIntervalSecs) :
    l.Paced := by
  refine ⟨hslept, ?_, ?_, ?_⟩
  · intro hwaiting
    rw [hstopped] at hwaiting
    cases hwaiting
  · intro hwaiting
    rw [hstopped] at hwaiting
    cases hwaiting
  · intro secs hwriting
    rw [hstopped] at hwriting
    cases hwriting

theorem Paced.beat (h : l.Paced) (hkept : l.beat.Kept) : l.beat.Paced := by
  obtain ⟨-, queue, hitems, hbeat⟩ | ⟨-, hbeat⟩ := l.beat_cases
  · rw [hbeat]
    refine ⟨?_, h.waiting, fun _ hnone => ?_, h.writing⟩
    · rintro _ ⟨⟩
      exact Nat.zero_le _
    · rw [show queue.items = [] from hnone] at hitems
      exact absurd hitems.symm (List.concat_ne_nil _ _)
  · -- the heartbeat has ended, so the writer has stopped
    have hstopped : l.beat.writer = .stopped := by
      by_contra hrunning
      have hheartbeat := (hkept hrunning).1
      rw [hbeat] at hheartbeat
      cases hheartbeat
    refine paced_of_stopped hstopped ?_
    rw [hbeat]
    rintro _ ⟨⟩

/-- The pace is kept by a second in which nothing was left to do. -/
theorem Paced.second (h : l.Paced) (hkept : l.Kept) {l' : Uplink}
    (hs : step l .second = some l') : l'.Paced := by
  simp only [step] at hs
  split at hs
  · cases hs
  · rename_i hbusy
    cases hs
    have hslept : ∀ secs, l.heartbeat = some secs → secs < Config.heartbeatIntervalSecs := by
      intro secs hsecs
      refine not_le.1 fun hdue => hbusy ?_
      simp [busy, hsecs, hdue]
    have hempty : l.writer = .waiting → l.queue.items = [] := by
      intro hwaiting
      by_contra hitems
      exact hbusy (by simp [busy, hwaiting, hitems])
    refine ⟨?_, ?_, ?_, ?_⟩
    · intro secs hsecs
      obtain ⟨before, hbefore, rfl⟩ := Option.map_eq_some_iff.1 hsecs
      exact hslept before hbefore
    · intro hwaiting
      cases hwriter : l.writer with
      | waiting =>
        obtain ⟨secs, hsecs⟩ := Option.isSome_iff_exists.1 (hkept (by rw [hwriter]; simp)).1
        exact lt_of_le_of_lt (h.empty hwriter (hempty hwriter) secs hsecs) (hslept secs hsecs)
      | writing secs => simp [hwriter] at hwaiting
      | stopped => simp [hwriter] at hwaiting
    · intro hwaiting _ secs hsecs
      obtain ⟨before, hbefore, rfl⟩ := Option.map_eq_some_iff.1 hsecs
      cases hwriter : l.writer with
      | waiting => exact Nat.succ_le_succ (h.empty hwriter (hempty hwriter) before hbefore)
      | writing secs => simp [hwriter] at hwaiting
      | stopped => simp [hwriter] at hwaiting
    · intro secs hsecs
      cases hwriter : l.writer with
      | waiting => simp [hwriter] at hsecs
      | writing before =>
        obtain ⟨hlong, hidle⟩ := h.writing before hwriter
        simp only [hwriter, Writer.writing.injEq] at hsecs
        simp only
        omega
      | stopped => simp [hwriter] at hsecs

/-- **The pace is kept** as long as heartbeat and connection are. -/
theorem Paced.step {e : UplinkEvent} {l' : Uplink} (h : l.Paced) (hkept : l.Kept)
    (hs : step l e = some l') (hkept' : l'.Kept) : l'.Paced := by
  cases e with
  | take =>
    simp only [Uplink.step] at hs
    split at hs
    · rename_i hwaiting
      obtain ⟨r, -, rfl⟩ := Option.map_eq_some_iff.1 hs
      refine ⟨h.slept, by rintro ⟨⟩, by rintro ⟨⟩, ?_⟩
      rintro _ ⟨⟩
      exact ⟨Nat.zero_le _, h.waiting hwaiting⟩
    · cases hs
  | finish =>
    simp only [Uplink.step] at hs
    split at hs
    · cases hs
      refine ⟨h.slept, fun _ => Nat.zero_le _, fun _ _ secs _ => Nat.zero_le secs, ?_⟩
      rintro _ ⟨⟩
    · cases hs
  | fail =>
    simp only [Uplink.step] at hs
    split at hs
    · cases hs
      exact paced_of_stopped rfl h.slept
    · cases hs
  | close =>
    simp only [Uplink.step] at hs
    split at hs
    · cases hs
      exact paced_of_stopped rfl h.slept
    · cases hs
  | beat =>
    cases step_beat hs
    exact h.beat hkept'
  | loop e a =>
    simp only [Uplink.step] at hs
    split at hs
    · cases hs
      refine ⟨h.slept, h.waiting, fun hwaiting hitems => h.empty hwaiting ?_, h.writing⟩
      have hprefix := BoundedQueue.prefix_sendAll l.queue
        (l.session.turn (e, { a with send := l.accepts })).2
      rw [hitems] at hprefix
      exact List.prefix_nil.1 hprefix
    · cases hs
  | second => exact h.second hkept hs

/-- **One step keeps heartbeat and connection exactly when what it sends finds room.** -/
theorem step_kept {e : UplinkEvent} {l' : Uplink} (hkept : l.Kept) (hs : step l e = some l') :
    l'.Kept ↔ l.Room e := by
  cases e with
  | take =>
    simp only [step] at hs
    split at hs
    · rename_i hwaiting
      obtain ⟨r, -, rfl⟩ := Option.map_eq_some_iff.1 hs
      exact iff_of_true (fun _ => hkept (by rw [hwaiting]; simp)) trivial
    · cases hs
  | finish =>
    simp only [step] at hs
    split at hs
    · rename_i hwriting
      cases hs
      exact iff_of_true (fun _ => hkept (by rw [hwriting]; simp)) trivial
    · cases hs
  | fail =>
    simp only [step] at hs
    split at hs
    · cases hs
      exact iff_of_true (fun hrunning => absurd rfl hrunning) trivial
    · cases hs
  | close =>
    simp only [step] at hs
    split at hs
    · cases hs
      exact iff_of_true (fun hrunning => absurd rfl hrunning) trivial
    · cases hs
  | beat =>
    cases step_beat hs
    obtain ⟨hwriter, hsession⟩ : l.beat.writer = l.writer ∧ l.beat.session = l.session := by
      obtain ⟨-, queue, -, hbeat⟩ | ⟨-, hbeat⟩ := l.beat_cases <;> rw [hbeat] <;> exact ⟨rfl, rfl⟩
    unfold Kept
    rw [hwriter, hsession]
    refine forall_congr' fun hrunning => ?_
    rw [beat_heartbeat hrunning]
    exact and_iff_left (hkept hrunning).2
  | loop e a =>
    simp only [step] at hs
    split at hs
    · rename_i hkeeps
      cases hs
      have hrunning' : ∀ hrunning : l.writer ≠ .stopped, _ := fun hrunning =>
        loop_conn (a := a) hrunning (hkept hrunning).2 hkeeps
      refine forall_congr' fun hrunning => ?_
      rw [← hrunning' hrunning]
      exact and_iff_right (hkept hrunning).1
    · cases hs
  | second =>
    simp only [step] at hs
    split at hs
    · cases hs
    · cases hs
      refine iff_of_true (fun hrunning => ?_) trivial
      have hbefore : l.writer ≠ .stopped := by
        intro hstopped
        simp [hstopped] at hrunning
      obtain ⟨hheartbeat, hconn⟩ := hkept hbefore
      refine ⟨?_, hconn⟩
      rw [Option.isSome_map]
      exact hheartbeat

/-- **One step keeps the server from waiting for a write exactly when no write goes on for too
long.** -/
theorem step_prompt {e : UplinkEvent} {l' : Uplink} (h : l.Paced) (hprompt : l.Prompt)
    (hs : step l e = some l') : l'.Prompt ↔ l.Brief e := by
  cases e with
  | take =>
    simp only [step] at hs
    split at hs
    · rename_i hwaiting
      obtain ⟨r, -, rfl⟩ := Option.map_eq_some_iff.1 hs
      exact iff_of_true (fun _ _ => (h.waiting hwaiting).trans_lt (by decide)) trivial
    · cases hs
  | finish =>
    simp only [step] at hs
    split at hs
    · cases hs
      exact iff_of_true (fun _ hwriting => by cases hwriting) trivial
    · cases hs
  | fail =>
    simp only [step] at hs
    split at hs
    · cases hs
      exact iff_of_true (fun _ hwriting => by cases hwriting) trivial
    · cases hs
  | close =>
    simp only [step] at hs
    split at hs
    · cases hs
      exact iff_of_true (fun _ hwriting => by cases hwriting) trivial
    · cases hs
  | beat =>
    cases step_beat hs
    obtain ⟨-, queue, -, hbeat⟩ | ⟨-, hbeat⟩ := l.beat_cases
    · rw [hbeat]
      exact iff_of_true hprompt trivial
    · rw [hbeat]
      exact iff_of_true hprompt trivial
  | loop e a =>
    simp only [step] at hs
    split at hs
    · cases hs
      exact iff_of_true hprompt trivial
    · cases hs
  | second =>
    simp only [step] at hs
    split at hs
    · cases hs
    · cases hs
      unfold Prompt Brief unheard writeSecs
      cases hwriter : l.writer with
      | waiting => exact iff_of_true (fun _ hwriting => by cases hwriting) fun _ h => by cases h
      | stopped => exact iff_of_true (fun _ hwriting => by cases hwriting) fun _ h => by cases h
      | writing before =>
        obtain ⟨hlong, -⟩ := h.writing before hwriter
        simp only [Writer.writing.injEq]
        constructor
        · rintro hidle _ rfl
          have hnext := hidle (before + 1) rfl
          omega
        · rintro hbrief _ rfl
          have hnext := hbrief before rfl
          omega

end Uplink

/-- **Back-pressure is not a disconnect** as long as the connection flows.  For every session
that has just connected, and every order of the steps of writer, heartbeat and terminal client
and of time: until the writer has stopped, the heartbeat goes on, the client keeps the
connection, and the server hears from it before its idle timeout, exactly when the heartbeat and
the client find room in the queue whenever they send something while the writer runs, and no
write goes on until the server has waited for its timeout. -/
theorem carried_iff (version : String) (pubkey : Option Bytes) (s : Session) (a : Answers)
    (c : ServerConnection) (es : List UplinkEvent) :
    Throughout Uplink.step Uplink.Carried (.start version pubkey s a c) es ↔
      EachStep Uplink.step Uplink.Flows (.start version pubkey s a c) es := by
  have hpaced := Uplink.paced_start version pubkey s a c
  refine throughout_iff_eachStep_while Uplink.Paced ?_ ?_ hpaced ?_ (eachStep_true _ es)
  · intro l e l' h hcarried _ hs hcarried'
    have hkept := ((Uplink.carried_iff_of_paced h).1 hcarried).1
    exact h.step hkept hs fun hrunning =>
      ⟨(hcarried' hrunning).heartbeat, (hcarried' hrunning).connected⟩
  · intro l e l' h hcarried _ hs
    obtain ⟨hkept, hprompt⟩ := (Uplink.carried_iff_of_paced h).1 hcarried
    have hroom := Uplink.step_kept hkept hs
    have hbrief := Uplink.step_prompt h hprompt hs
    constructor
    · intro hcarried'
      have hkept' : l'.Kept := fun hrunning =>
        ⟨(hcarried' hrunning).heartbeat, (hcarried' hrunning).connected⟩
      have hpaced' := h.step hkept hs hkept'
      exact ⟨hroom.1 hkept', hbrief.1 ((Uplink.carried_iff_of_paced hpaced').1 hcarried').2⟩
    · intro hflows
      have hkept' := hroom.2 hflows.1
      have hpaced' := h.step hkept hs hkept'
      exact (Uplink.carried_iff_of_paced hpaced').2 ⟨hkept', hbrief.2 hflows.2⟩
  · refine (Uplink.carried_iff_of_paced hpaced).2 ⟨fun _ => ⟨rfl, rfl⟩, ?_⟩
    rintro _ ⟨⟩

/-! ## A queue that is full for a moment -/

namespace Uplink

/-- A connection right after the client has connected. -/
def justConnected : Uplink :=
  start Config.packageVersion none Session.sampleStart (Session.favourable 0) Session.sampleServer

/-- A line of chat. -/
def chat (now : ℕ) : UplinkEvent := .loop (.command (.chat "hi")) (Session.favourable now)

/-- The writer is still busy with the hello when as much chat is sent as the queue takes. -/
def slowWrite : List UplinkEvent := .take :: List.replicate cmdQueueCapacity (chat 0)

/-- Before the write is over, the heartbeat wakes up once; then everything is written, and a
minute passes. -/
def silentMinute : List UplinkEvent :=
  slowWrite ++ List.replicate Config.heartbeatIntervalSecs .second ++ [.beat, .finish] ++
    (List.replicate cmdQueueCapacity [.take, .finish]).flatten ++
    List.replicate clientIdleTimeoutSecs .second

set_option maxRecDepth 20000 in
theorem slowWrite_chat : (runFrom step justConnected (slowWrite ++ [chat 1000])).map
    (fun l => (l.writer, l.session.conn)) = some (.writing 0, none) := rfl

set_option maxRecDepth 20000 in
theorem runFrom_silentMinute : (runFrom step justConnected silentMinute).map
    (fun l => (l.writer, l.session.conn, l.heartbeat, l.idle)) =
      some (.waiting, some Session.sampleServer, none, clientIdleTimeoutSecs) := rfl

/-- **A full queue taken for a lost connection**: one more line of chat disconnects the client
while the writer is writing; and after a heartbeat that found the queue full, the server comes to
its idle timeout with a client that is connected and has nothing left to write. -/
theorem full_for_a_moment :
    ¬ Throughout step Carried justConnected (slowWrite ++ [chat 1000]) ∧
      ¬ Throughout step Carried justConnected silentMinute ∧
      (runFrom step justConnected (slowWrite ++ [chat 1000])).map
        (fun l => (l.writer, l.session.conn)) = some (.writing 0, none) ∧
      (runFrom step justConnected silentMinute).map
        (fun l => (l.writer, l.session.conn, l.heartbeat, l.idle)) =
          some (.waiting, some Session.sampleServer, none, clientIdleTimeoutSecs) := by
  refine ⟨fun hcarried => ?_, fun hcarried => ?_, slowWrite_chat, runFrom_silentMinute⟩
  · obtain ⟨l, hrun, hvalues⟩ := Option.map_eq_some_iff.1 slowWrite_chat
    simp only [Prod.mk.injEq] at hvalues
    have hkept := throughout_iff.1 hcarried (slowWrite ++ [chat 1000]).length l
      (by rw [List.take_length]; exact hrun)
    have hconn := (hkept (by rw [hvalues.1]; simp)).connected
    rw [hvalues.2] at hconn
    cases hconn
  · obtain ⟨l, hrun, hvalues⟩ := Option.map_eq_some_iff.1 runFrom_silentMinute
    simp only [Prod.mk.injEq] at hvalues
    have hkept := throughout_iff.1 hcarried silentMinute.length l
      (by rw [List.take_length]; exact hrun)
    have hheartbeat := (hkept (by rw [hvalues.1]; simp)).heartbeat
    rw [hvalues.2.2.1] at hheartbeat
    cases hheartbeat

end Uplink

end Client
end TcVoice
