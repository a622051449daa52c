import TcVoice.Lib.Runs
import TcVoice.Server.State
import TcVoice.Shared.ChannelName

/-!
# The session of the terminal client

The event loop of `crates/client/src/main.rs`: the connection, the channel, the running call
and the sound check, and what commands, messages, a lost connection and the clock do to them.

* `Session` — the variables of the loop, with the fields of `App` that they hang together
  with.  Text that is only shown is left out.
* `checkEcho`, `handleCommand`, `handleServerMessage`, `lostConnection`, `autoReconnect` —
  the parts of the loop; each takes what the outside answers meanwhile (`Answers`).
* `Session.turn`, `Session.step` — one part of the loop.
* `Session.Wired` — how the variables hang together after any run; `Session.Wired.step`.
-/

namespace TcVoice
namespace Client

open Runs

/-! ## The variables -/

/-- `ServerConnection`, by the address of the server. -/
structure ServerConnection where
  peerAddr : SocketAddr
  deriving DecidableEq, Repr

/-- The receiving end of the message queue: there is none, its reader is running, or the last
message has been taken from it. -/
inductive Receiver where
  | absent
  | live
  | ended
  deriving DecidableEq, Repr

/-- `ConnectionState`. -/
inductive ConnectionState where
  | connected
  | disconnected
  | reconnecting (attempt : ℕ)
  deriving DecidableEq, Repr

/-- `VoiceJoinParams`. -/
structure VoiceJoinParams where
  channelId : ChannelId
  udpToken : UInt64
  voiceKey : Bytes
  deriving DecidableEq, Repr

/-- `VoiceHandle`: what a running call was started with, and how many were started before. -/
structure VoiceHandle where
  number : ℕ
  serverIp : IpAddr
  params : VoiceJoinParams
  inputDevice : Option String
  outputDevice : Option String
  senderName : String
  echoTest : Bool
  deriving DecidableEq, Repr

/-- `echo_deadline`, with the number of the call that it was set for. -/
structure EchoTimer where
  deadline : ℕ
  handle : ℕ
  deriving DecidableEq, Repr

/-- The variables of the loop.  Times are in milliseconds. -/
structure Session where
  conn : Option ServerConnection
  serverRx : Receiver
  voiceHandle : Option VoiceHandle
  reconnectAttempt : ℕ
  nextReconnect : Option ℕ
  connState : ConnectionState
  serverAddr : String
  serverIp : Option IpAddr
  name : Option String
  channel : Option ChannelId
  participants : List String
  voiceActive : Bool
  voiceJoinParams : Option VoiceJoinParams
  rejoinChannel : Option ChannelId
  echoDeadline : Option EchoTimer
  inputDevice : Option String
  outputDevice : Option String
  shouldQuit : Bool
  /-- How many calls have been started. -/
  started : ℕ
  deriving DecidableEq, Repr

/-- What the outside answers while a part of the loop runs: the clock, whether the command
queue takes a message, whether voice can be started, and whether a connection comes about. -/
structure Answers where
  now : ℕ
  send : Bool
  startVoice : Bool
  connect : Option ServerConnection
  deriving DecidableEq, Repr

/-- What `/config` was asked for: the list, a device by its index (with the device, if there is
one), or a level. -/
inductive ConfigChange where
  | list
  | input (device : Option String)
  | output (device : Option String)
  | level
  deriving DecidableEq, Repr

/-- A line of input, read: the command with its argument, if it has one.  `aside` is a command
that touches none of the variables. -/
inductive Command where
  | trust
  | server (target : Option (String × Option ChannelId))
  | reconnect
  | config (change : ConfigChange)
  | name (newName : Option String)
  | aside
  | quit
  | create (rawName : Option String)
  | list
  | connect (id : Option ChannelId)
  | leave
  | echotest
  | invite
  | chat (text : String)
  | unknown
  deriving DecidableEq, Repr

/-- `RECONNECT_BASE_MS` and `RECONNECT_MAX_MS`. -/
def reconnectBaseMs : ℕ := 1000
def reconnectMaxMs : ℕ := 30000

namespace Session

variable (s : Session) (a : Answers)

/-! ## The parts of the loop -/

/-- `send_or_disconnect`: what the queue took. -/
def sendOrDisconnect (msg : ClientMessage) : Session × List ClientMessage :=
  match s.conn with
  | none => (s, [])
  | some _ =>
    if a.send then (s, [msg])
    else ({ s with conn := none, connState := .disconnected }, [])

/-- No call is running. -/
def dropVoice : Session := { s with voiceHandle := none, voiceActive := false }

/-- `start_voice`, with the new call in place of the one that was running. -/
def startVoice (serverIp : IpAddr) (params : VoiceJoinParams) (echoTest : Bool) :
    Option Session :=
  if a.startVoice then
    some { s with
      voiceHandle := some
        { number := s.started, serverIp, params, inputDevice := s.inputDevice
          outputDevice := s.outputDevice, senderName := s.name.getD "user", echoTest }
      voiceActive := true
      started := s.started + 1 }
  else none

/-- The end of a sound check whose window has elapsed. -/
def checkEcho : Session × List ClientMessage :=
  match s.echoDeadline with
  | none => (s, [])
  | some timer =>
    if timer.deadline ≤ a.now then
      { s with echoDeadline := none }.dropVoice.sendOrDisconnect a .stopEchoTest
    else (s, [])

/-- What both ways to a new connection do with it. -/
def adopt (c : ServerConnection) : Session × List ClientMessage :=
  ({ s with
    connState := .connected, serverIp := some c.peerAddr.ip, rejoinChannel := none
    conn := some c, serverRx := .live },
    if a.send then
      (s.name.map .setName).toList ++ (s.rejoinChannel.map .joinChannel).toList
    else [])

/-- The old connection is dropped, and what belonged to it with it. -/
def dropConnection : Session :=
  { s with
    nextReconnect := none, reconnectAttempt := 0, conn := none, serverRx := .absent
    voiceActive := false, channel := none, participants := [], voiceJoinParams := none
    connState := .reconnecting 1 }

/-- `do_reconnect`. -/
def doReconnect : Session × List ClientMessage :=
  match a.connect with
  | some c => s.dropConnection.adopt a c
  | none => ({ s.dropConnection with connState := .disconnected }, [])

/-- `cmd_server`. -/
def cmdServer : Option (String × Option ChannelId) → Session × List ClientMessage
  | none => (s, [])
  | some (serverAddr, namedChannel) =>
    let s := { s with serverAddr, rejoinChannel := namedChannel.or s.rejoinChannel }
    if s.connState = .connected then (s, []) else s.doReconnect a

/-- `cmd_name`. -/
def cmdName : Option String → Session × List ClientMessage
  | none => (s, [])
  | some newName =>
    let (s, sent) := s.sendOrDisconnect a (.setName newName)
    ({ s with name := some newName }, sent)

/-- `restart_voice`. -/
def restartVoice : Session :=
  match s.voiceJoinParams, s.serverIp with
  | some params, some serverIp =>
    (s.dropVoice.startVoice a serverIp params false).getD s.dropVoice
  | _, _ => s

/-- `handle_config`. -/
def handleConfig : ConfigChange → Session
  | .input (some device) => { s with inputDevice := some device }.restartVoice a
  | .output (some device) => { s with outputDevice := some device }.restartVoice a
  | _ => s

/-- The name that `cmd_create` asks for, if it takes the argument. -/
def createRequest : Option String → Option ClientMessage
  | none => some (.createChannel none)
  | some rawName =>
    let name := sanitizeChannelName rawName
    if byteLen name = 0 ∨ Config.maxChannelNameLen < byteLen name then none
    else some (.createChannel (some name))

/-- `cmd_create`. -/
def cmdCreate (rawName : Option String) : Session × List ClientMessage :=
  match createRequest rawName with
  | some msg => s.sendOrDisconnect a msg
  | none => (s, [])

/-- No channel, no call in it, and none to come back to. -/
def leave : Session :=
  { s.dropVoice with
    channel := none, participants := [], voiceJoinParams := none, rejoinChannel := none }

/-- `cmd_leave`. -/
def cmdLeave : Session × List ClientMessage :=
  let (s, sent) := s.sendOrDisconnect a .leaveChannel
  (s.leave, sent)

/-- `cmd_echotest`. -/
def cmdEchotest : Session × List ClientMessage :=
  if s.channel.isSome || s.voiceActive || s.echoDeadline.isSome then (s, [])
  else s.sendOrDisconnect a .startEchoTest

/-- `handle_command`. -/
def handleCommand (command : Command) : Session × List ClientMessage :=
  match command with
  -- Commands that work without a connection.
  | .trust => s.doReconnect a
  | .server target => s.cmdServer a target
  | .reconnect => s.doReconnect a
  | .config change => (s.handleConfig a change, [])
  | .name newName => s.cmdName a newName
  | .aside => (s, [])
  | .quit => ({ s with shouldQuit := true }, [])
  | _ =>
    if s.connState ≠ .connected then (s, [])
    else
      match command with
      | .create rawName => s.cmdCreate a rawName
      | .list => s.sendOrDisconnect a .listChannels
      | .connect (some id) => s.sendOrDisconnect a (.joinChannel id)
      | .leave => s.cmdLeave a
      | .echotest => s.cmdEchotest a
      | .chat text => s.sendOrDisconnect a (.chatMessage text)
      | _ => (s, [])

/-- `handle_server_message`. -/
def handleServerMessage : ServerMessage → Session × List ClientMessage
  | .channelCreated channelId => s.sendOrDisconnect a (.joinChannel channelId)
  | .joinedChannel channelId participants udpToken voiceKey =>
    let params := ⟨channelId, udpToken, voiceKey⟩
    let s := { s with participants, channel := some channelId, voiceJoinParams := some params }
    match s.serverIp with
    | none => (s, [])
    | some serverIp => ((s.startVoice a serverIp params false).getD s, [])
  | .echoTestReady channelId udpToken voiceKey =>
    match s.serverIp with
    | none => (s, [])
    | some serverIp =>
      match s.startVoice a serverIp ⟨channelId, udpToken, voiceKey⟩ true with
      | some s' =>
        ({ s' with
          echoDeadline := some ⟨a.now + Config.echoTestDurationSecs * 1000, s.started⟩ }, [])
      | none => (s, [])
  | .peerJoined peerName => ({ s with participants := s.participants ++ [peerName] }, [])
  | .peerLeft peerName => ({ s with participants := s.participants.filter (· ≠ peerName) }, [])
  | .leftChannel => (s.leave, [])
  | .nameChanged oldName newName =>
    if oldName = "" then ({ s with name := s.name.or (some newName) }, [])
    else ({ s with participants := s.participants.replace oldName newName }, [])
  | _ => (s, [])

/-- The drain loop takes the disconnect marker from the queue; it is the last message there. -/
def lostConnection : Session :=
  { s.dropVoice with
    rejoinChannel := s.channel.or s.rejoinChannel, channel := none, conn := none
    echoDeadline := none, participants := [], voiceJoinParams := none, reconnectAttempt := 0
    nextReconnect := some (a.now + reconnectBaseMs), connState := .reconnecting 1
    serverRx := .ended }

/-- The auto-reconnect logic. -/
def autoReconnect : Session × List ClientMessage :=
  match s.nextReconnect with
  | none => (s, [])
  | some deadline =>
    if deadline ≤ a.now then
      let attempt := s.reconnectAttempt + 1
      let s := { s with reconnectAttempt := attempt, connState := .reconnecting attempt }
      match a.connect with
      | some c =>
        let (s, sent) := s.adopt a c
        ({ s with nextReconnect := none, reconnectAttempt := 0 }, sent)
      | none =>
        let delayMs := min (reconnectBaseMs * 2 ^ min attempt 5) reconnectMaxMs
        ({ s with nextReconnect := some (a.now + delayMs) }, [])
    else (s, [])

end Session

/-- The parts of the loop. -/
inductive SessionEvent where
  | checkEcho
  | command (command : Command)
  | message (msg : ServerMessage)
  | lostConnection
  | autoReconnect
  deriving DecidableEq, Repr

namespace Session

/-- The variables before the loop, after the first attempt to connect. -/
def start (serverAddr : String) (name inputDevice outputDevice : Option String)
    (connect : Option ServerConnection) : Session where
  conn := connect
  serverRx := if connect.isSome then .live else .absent
  voiceHandle := none
  reconnectAttempt := 0
  nextReconnect := none
  connState := if connect.isSome then .connected else .disconnected
  serverAddr := serverAddr
  serverIp := connect.map (·.peerAddr.ip)
  name := name
  channel := none
  participants := []
  voiceActive := false
  voiceJoinParams := none
  rejoinChannel := none
  echoDeadline := none
  inputDevice := inputDevice
  outputDevice := outputDevice
  shouldQuit := false
  started := 0

/-- One part of the loop, with the messages that went into the command queue. -/
def turn (s : Session) : SessionEvent × Answers → Session × List ClientMessage
  | (.checkEcho, a) => s.checkEcho a
  | (.command command, a) => s.handleCommand a command
  | (.message msg, a) => s.handleServerMessage a msg
  | (.lostConnection, a) => (s.lostConnection a, [])
  | (.autoReconnect, a) => s.autoReconnect a

/-- Messages only come from a reader that is running. -/
def enabled (s : Session) : SessionEvent → Bool
  | .message _ | .lostConnection => decide (s.serverRx = .live)
  | _ => true

/-- One part of the loop, if it can happen. -/
def step (s : Session) (e : SessionEvent × Answers) : Option Session :=
  if s.enabled e.1 then some (s.turn e).1 else none

/-! ## How the variables hang together -/

/-- What holds between the variables after any run. -/
structure Wired (s : Session) : Prop where
  /-- The state that is shown is that of the connection. -/
  conn : s.connState = .connected ↔ s.conn.isSome = true
  /-- The join params are those of the channel. -/
  params : s.voiceJoinParams.map (·.channelId) = s.channel
  /-- A server that has been connected to has an address. -/
  ip : s.serverRx = .live ∨ s.channel.isSome = true → s.serverIp.isSome = true
  /-- While a reconnect is pending there is no connection and no channel. -/
  pending : s.nextReconnect.isSome = true →
    s.conn = none ∧ s.channel = none ∧ s.serverRx ≠ .live
  handle : ∀ h, s.voiceHandle = some h → h.number < s.started
  timer : ∀ t, s.echoDeadline = some t → t.handle < s.started

theorem wired_start (serverAddr : String) (name inputDevice outputDevice : Option String)
    (connect : Option ServerConnection) :
    (start serverAddr name inputDevice outputDevice connect).Wired := by
  cases connect <;> constructor <;> simp [start]

variable {s : Session} {a : Answers}

/-- A command that needs a connection is refused where there is none. -/
theorem online {P : Session → Prop} (h : P s) {next : Session × List ClientMessage}
    (hnext : P next.1) : P (if s.connState ≠ .connected then (s, []) else next).1 := by
  split
  · exact h
  · exact hnext

/-- A message that is sent leaves everything as it is, or the connection is gone. -/
theorem sendOrDisconnect_cases (s : Session) (a : Answers) (msg : ClientMessage) :
    (s.sendOrDisconnect a msg).1 = s ∨
      (a.send = false ∧ s.conn.isSome = true ∧ (s.sendOrDisconnect a msg).1 =
        { s with conn := none, connState := .disconnected }) := by
  unfold sendOrDisconnect
  cases hconn : s.conn with
  | none => exact .inl rfl
  | some c =>
    cases hsend : a.send with
    | true => exact .inl rfl
    | false => exact .inr ⟨rfl, rfl, rfl⟩

theorem Wired.sendOrDisconnect (h : s.Wired) (msg : ClientMessage) :
    (s.sendOrDisconnect a msg).1.Wired := by
  obtain heq | ⟨-, -, heq⟩ := sendOrDisconnect_cases s a msg
  · rw [heq]
    exact h
  · rw [heq]
    exact ⟨by simp, h.params, h.ip, fun hp => ⟨rfl, (h.pending hp).2⟩, h.handle, h.timer⟩

/-- A call that is started. -/
theorem startVoice_eq_some {serverIp : IpAddr} {params : VoiceJoinParams} {echoTest : Bool}
    {s' : Session} (h : s.startVoice a serverIp params echoTest = some s') :
    a.startVoice = true ∧ s' = { s with
      voiceHandle := some
        { number := s.started, serverIp, params, inputDevice := s.inputDevice
          outputDevice := s.outputDevice, senderName := s.name.getD "user", echoTest }
      voiceActive := true
      started := s.started + 1 } := by
  unfold startVoice at h
  split at h
  · rename_i hstart
    exact ⟨hstart, (Option.some.inj h).symm⟩
  · cases h

theorem Wired.startVoice (h : s.Wired) {serverIp : IpAddr} {params : VoiceJoinParams}
    {echoTest : Bool} {s' : Session} (hs : s.startVoice a serverIp params echoTest = some s') :
    s'.Wired := by
  obtain ⟨-, rfl⟩ := startVoice_eq_some hs
  refine ⟨h.conn, h.params, h.ip, h.pending, ?_, ?_⟩
  · rintro _ ⟨⟩
    exact Nat.lt_succ_self _
  · intro t ht
    exact Nat.lt_succ_of_lt (h.timer t ht)

/-- A call that may fail to start. -/
theorem Wired.tryVoice (h : s.Wired) (serverIp : IpAddr) (params : VoiceJoinParams)
    (echoTest : Bool) : ((s.startVoice a serverIp params echoTest).getD s).Wired := by
  cases hs : s.startVoice a serverIp params echoTest with
  | none => exact h
  | some s' => exact h.startVoice hs

/-- A new connection is taken. -/
theorem Wired.adopt (h : s.Wired) (c : ServerConnection) :
    { (s.adopt a c).1 with nextReconnect := none, reconnectAttempt := 0 }.Wired := by
  refine ⟨by simp [Session.adopt], h.params, fun _ => rfl, ?_, h.handle, h.timer⟩
  rintro ⟨⟩

theorem Wired.doReconnect (h : s.Wired) : (s.doReconnect a).1.Wired := by
  have hdropped : s.dropConnection.Wired := by
    constructor
    · simp [dropConnection]
    · rfl
    · simp [dropConnection]
    · simp [dropConnection]
    · exact h.handle
    · exact h.timer
  unfold Session.doReconnect
  cases a.connect with
  | none =>
    exact ⟨by simp [dropConnection], rfl, hdropped.ip, hdropped.pending, h.handle, h.timer⟩
  | some c => exact hdropped.adopt (a := a) c

theorem Wired.dropVoice (h : s.Wired) : s.dropVoice.Wired := by
  refine ⟨h.conn, h.params, h.ip, h.pending, ?_, h.timer⟩
  rintro _ ⟨⟩

theorem Wired.restartVoice (h : s.Wired) : (s.restartVoice a).Wired := by
  unfold Session.restartVoice
  split
  · exact h.dropVoice.tryVoice _ _ _
  · exact h

theorem Wired.leave (h : s.Wired) : s.leave.Wired := by
  refine ⟨h.conn, rfl, ?_, fun hp => ⟨(h.pending hp).1, rfl, (h.pending hp).2.2⟩, ?_, h.timer⟩
  · rintro (hlive | hnone)
    · exact h.ip (.inl hlive)
    · cases hnone
  · rintro _ ⟨⟩

theorem Wired.checkEcho (h : s.Wired) : (s.checkEcho a).1.Wired := by
  unfold Session.checkEcho
  split
  · exact h
  · split
    · have hover : { s with echoDeadline := none }.Wired := by
        refine ⟨h.conn, h.params, h.ip, h.pending, h.handle, ?_⟩
        rintro _ ⟨⟩
      exact hover.dropVoice.sendOrDisconnect _
    · exact h

/-- Commands, one by one. -/
theorem Wired.handleCommand (h : s.Wired) (command : Command) :
    (s.handleCommand a command).1.Wired := by
  unfold Session.handleCommand
  split
  · exact h.doReconnect
  · unfold cmdServer
    split
    · exact h
    · have haddr : ∀ addr rejoin,
          { s with serverAddr := addr, rejoinChannel := rejoin }.Wired := fun _ _ =>
        ⟨h.conn, h.params, h.ip, h.pending, h.handle, h.timer⟩
      simp only
      split
      · exact haddr _ _
      · exact (haddr _ _).doReconnect
  · exact h.doReconnect
  · unfold handleConfig
    split
    · exact Wired.restartVoice ⟨h.conn, h.params, h.ip, h.pending, h.handle, h.timer⟩
    · exact Wired.restartVoice ⟨h.conn, h.params, h.ip, h.pending, h.handle, h.timer⟩
    · exact h
  · unfold cmdName
    split
    · exact h
    · rename_i newName
      have hsent := h.sendOrDisconnect (a := a) (.setName newName)
      exact ⟨hsent.conn, hsent.params, hsent.ip, hsent.pending, hsent.handle, hsent.timer⟩
  · exact h
  · exact ⟨h.conn, h.params, h.ip, h.pending, h.handle, h.timer⟩
  · refine online h ?_
    split
    · unfold cmdCreate
      split
      · exact h.sendOrDisconnect _
      · exact h
    · exact h.sendOrDisconnect _
    · exact h.sendOrDisconnect _
    · exact (h.sendOrDisconnect _).leave
    · unfold cmdEchotest
      split
      · exact h
      · exact h.sendOrDisconnect _
    · exact h.sendOrDisconnect _
    · exact h

/-- Messages from a server that is connected. -/
theorem Wired.handleServerMessage (h : s.Wired) (hlive : s.serverRx = .live)
    (msg : ServerMessage) : (s.handleServerMessage a msg).1.Wired := by
  have hip : s.serverIp.isSome = true := h.ip (.inl hlive)
  have hpending : s.nextReconnect = none := by
    cases hp : s.nextReconnect with
    | none => rfl
    | some deadline => exact absurd hlive (h.pending (by rw [hp]; rfl)).2.2
  cases msg with
  | channelCreated channelId => exact h.sendOrDisconnect _
  | joinedChannel channelId participants udpToken voiceKey =>
    have hjoined : { s with
        participants, channel := some channelId
        voiceJoinParams := some ⟨channelId, udpToken, voiceKey⟩ }.Wired := by
      refine ⟨h.conn, rfl, fun _ => hip, ?_, h.handle, h.timer⟩
      intro hp
      rw [hpending] at hp
      cases hp
    unfold Session.handleServerMessage
    simp only
    split
    · exact hjoined
    · exact hjoined.tryVoice _ _ _
  | echoTestReady channelId udpToken voiceKey =>
    unfold Session.handleServerMessage
    simp only
    split
    · exact h
    · split
      · rename_i s' hs
        have hstarted := h.startVoice hs
        obtain ⟨-, rfl⟩ := startVoice_eq_some hs
        refine ⟨hstarted.conn, hstarted.params, hstarted.ip, hstarted.pending,
          hstarted.handle, ?_⟩
        rintro _ ⟨⟩
        exact Nat.lt_succ_self _
      · exact h
  | leftChannel => exact h.leave
  | nameChanged oldName newName =>
    unfold Session.handleServerMessage
    simp only
    split <;> exact ⟨h.conn, h.params, h.ip, h.pending, h.handle, h.timer⟩
  | peerJoined peerName => exact ⟨h.conn, h.params, h.ip, h.pending, h.handle, h.timer⟩
  | peerLeft peerName => exact ⟨h.conn, h.params, h.ip, h.pending, h.handle, h.timer⟩
  | welcome version protocol => exact h
  | chatMessage sender text => exact h
  | directMessage fromPubkey fromName text => exact h
  | channelList channels => exact h
  | error message => exact h
  | pong => exact h

theorem Wired.lostConnection (_h : s.Wired) : (s.lostConnection a).Wired := by
  refine ⟨by simp [Session.lostConnection], rfl, ?_, fun _ => ⟨rfl, rfl, ?_⟩, ?_, ?_⟩
  · rintro (hlive | hchannel)
    · cases hlive
    · cases hchannel
  · rintro ⟨⟩
  · rintro _ ⟨⟩
  · rintro _ ⟨⟩

theorem Wired.autoReconnect (h : s.Wired) : (s.autoReconnect a).1.Wired := by
  unfold Session.autoReconnect
  cases hnext : s.nextReconnect with
  | none => exact h
  | some deadline =>
    obtain ⟨hconn, hchannel, hrx⟩ := h.pending (by rw [hnext]; rfl)
    simp only
    split
    · cases a.connect with
      | some c =>
        have hnext : { s with
            reconnectAttempt := s.reconnectAttempt + 1
            connState := .reconnecting (s.reconnectAttempt + 1) }.Wired :=
          ⟨by simp [hconn], h.params, h.ip, fun _ => ⟨hconn, hchannel, hrx⟩, h.handle, h.timer⟩
        exact hnext.adopt (a := a) c
      | none =>
        refine ⟨by simp [hconn], h.params, h.ip, fun _ => ⟨hconn, hchannel, hrx⟩, h.handle,
          h.timer⟩
    · exact h

/-- **The variables hang together after every part of the loop.** -/
theorem Wired.step {s' : Session} {e : SessionEvent × Answers} (h : s.Wired)
    (hs : s.step e = some s') : s'.Wired := by
  unfold Session.step at hs
  split at hs
  · rename_i henabled
    cases hs
    obtain ⟨e, a⟩ := e
    cases e with
    | checkEcho => exact h.checkEcho
    | command command => exact h.handleCommand command
    | message msg => exact h.handleServerMessage (of_decide_eq_true henabled) msg
    | lostConnection => exact h.lostConnection
    | autoReconnect => exact h.autoReconnect
  · cases hs

end Session

end Client
end TcVoice
