import TcVoice.Server.Registry

/-!
# The control server

`crates/server/src/tcp.rs` and the maintenance loop of `main.rs`: the tasks that
serve the connections, as sequences of atomic steps over the shared registry and
the shared map of senders.

* `Action` — one step a task still has to take: a lock-protected operation, a
  send to one client's queue, or a broadcast.
* `handle*` — a handler's first operation, with the actions left to take after it.
* `World` — the registry, the connections with what is left of their handlers,
  and the queues.
* `World.step` — one step of one task, in any order of tasks.

A queue is the list of all messages put into it so far; it has no capacity here,
so nothing is ever dropped from it.  Metrics and log lines are left out; the rate
limiters are by themselves, and a request is admitted or not as an event of its own.
-/

namespace TcVoice
namespace Server

open Runs Table ServerState

/-! ## Atomic steps -/

/-- A step that a task has still to take. -/
inductive Action where
  /-- Put the connection's sender into the map. -/
  | openQueue (a : SocketAddr)
  /-- `send_to`: enqueue a message for one client, if it has a queue. -/
  | send (addr : SocketAddr) (msg : ServerMessage)
  /-- `broadcast_to_channel`: enqueue a message for a channel's members. -/
  | broadcast (ch : ChannelId) (exclude : Option SocketAddr) (msg : ServerMessage)
  /-- `broadcast_channel_list`, first half: read the list. -/
  | readChannelList
  /-- `broadcast_channel_list`, second half: enqueue the list for one client after another. -/
  | fanOut (channels : List ChannelInfo)
  /-- Look up who a direct message goes to. -/
  | routeDirect (a : SocketAddr) (toPubkey : Bytes) (msg : ServerMessage)
  /-- Take the connection's sender out of the map. -/
  | dropQueue (a : SocketAddr)
  /-- Take the client out of the registry, and tell its channel. -/
  | removeClient (a : SocketAddr)
  /-- The connection's task ends. -/
  | close (a : SocketAddr)
  deriving DecidableEq, Repr

/-- The push of the channel list that ends a handler, when the channel is a public one. -/
def pushIfPublic (ch : ChannelId) : List Action :=
  if startsWith ch Config.publicChannelPrefix then [.readChannelList] else []

/-! ## Handlers -/

/-- `char::is_whitespace`. -/
def isWhitespace (c : Char) : Bool :=
  let n := c.toNat
  decide (9 ≤ n ∧ n ≤ 13) || decide (n = 0x20) || decide (n = 0x85) || decide (n = 0xa0) ||
    decide (n = 0x1680) || decide (0x2000 ≤ n ∧ n ≤ 0x200a) || decide (n = 0x2028) ||
    decide (n = 0x2029) || decide (n = 0x202f) || decide (n = 0x205f) || decide (n = 0x3000)

/-- `str::trim`. -/
def trim (s : String) : String :=
  String.ofList (((s.toList.dropWhile isWhitespace).reverse.dropWhile isWhitespace).reverse)

/-- `handle_create_channel`. -/
def handleCreateChannel (env : Env) (s : ServerState) (a : SocketAddr) (name : Option String) :
    Option (ServerState × List Action) :=
  (s.createChannel env name).map fun
    | (.ok id, s') => (s', .send a (.channelCreated id) :: pushIfPublic id)
    | (.error err, s') => (s', [.send a (.error err)])

/-- `handle_join_channel`; `name` is the connection's own copy of its name. -/
def handleJoinChannel (env : Env) (s : ServerState) (a : SocketAddr) (name : String)
    (ch : ChannelId) : Option (ServerState × List Action) :=
  (s.joinChannel env a ch).map fun
    | (.ok p, s') => (s',
        .broadcast ch (some a) (.peerJoined name) ::
          .send a (.joinedChannel ch p.participants p.udpToken p.voiceKey) :: pushIfPublic ch)
    | (.error err, s') => (s', [.send a (.error err)])

/-- `handle_leave_channel`. -/
def handleLeaveChannel (env : Env) (s : ServerState) (a : SocketAddr) :
    ServerState × List Action :=
  match s.leaveChannel env a with
  | (some (leftName, ch), s') => (s',
      .send a .leftChannel :: .broadcast ch none (.peerLeft leftName) :: pushIfPublic ch)
  | (none, s') => (s', [.send a (.error "not in a channel")])

/-- `handle_chat_message`. -/
def handleChatMessage (s : ServerState) (a : SocketAddr) (name text : String) : List Action :=
  if Config.maxChatLen < byteLen text then [.send a (.error "message too long")]
  else
    match (s.getClient a).bind ClientInfo.channel with
    | some ch => [.broadcast ch (some a) (.chatMessage name text)]
    | none => []

/-- `handle_direct_message`. -/
def handleDirectMessage (s : ServerState) (a : SocketAddr) (name : String) (toPubkey : Bytes)
    (text : String) : List Action :=
  if Config.maxChatLen < byteLen text then [.send a (.error "message too long")]
  else if toPubkey.length ≠ 32 then [.send a (.error "invalid pubkey")]
  else
    match (s.getClient a).bind ClientInfo.pubkey with
    | some fromPubkey => [.routeDirect a toPubkey (.directMessage fromPubkey name text)]
    | none => [.send a (.error "must send Hello with pubkey first")]

/-- The end of `handle_set_name`: tell the client itself, and its channel if it is in one. -/
def announceName (a : SocketAddr) (channel : Option ChannelId) (oldName newName : String) :
    List Action :=
  .send a (.nameChanged oldName newName) ::
    match channel with
    | some ch => [.broadcast ch (some a) (.nameChanged oldName newName)]
    | none => []

/-- `handle_set_name`: with the connection's name after it. -/
def handleSetName (s : ServerState) (a : SocketAddr) (name newName : String) :
    ServerState × String × List Action :=
  let newName := trim newName
  if newName = "" ∨ Config.maxNameLen < byteLen newName then
    (s, name, [.send a (.error "name must be 1-32 characters")])
  else
    match s.renameClient a newName with
    | (some (oldName, channel), s') => (s', newName, announceName a channel oldName newName)
    | (none, s') => (s', name, [])

/-- `handle_list_channels`. -/
def handleListChannels (env : Env) (s : ServerState) (a : SocketAddr) : List Action :=
  [.send a (.channelList (s.listPublicChannels env))]

/-- `handle_start_echo_test`. -/
def handleStartEchoTest (env : Env) (s : ServerState) (a : SocketAddr) :
    Option (ServerState × List Action) :=
  (s.startEchoTest env a).map fun
    | (.ok (id, token, key), s') => (s', [.send a (.echoTestReady id token key)])
    | (.error err, s') => (s', [.send a (.error err)])

/-- The `Hello` arm of `handle_message`: keep the identity key if it is of the right size. -/
def handleHello (s : ServerState) (a : SocketAddr) (pubkey : Option Bytes) : ServerState :=
  match pubkey with
  | some pk => if pk.length = 32 then s.setPubkey a pk else s
  | none => s

/-- `handle_message`: the registry and the connection's name after the handler's first
step, and what is left of the handler. -/
def handleMessage (env : Env) (s : ServerState) (a : SocketAddr) (name : String) :
    ClientMessage → Option (ServerState × String × List Action)
  | .createChannel chanName =>
    (handleCreateChannel env s a chanName).map fun r => (r.1, name, r.2)
  | .joinChannel ch => (handleJoinChannel env s a name ch).map fun r => (r.1, name, r.2)
  | .leaveChannel => some ((handleLeaveChannel env s a).1, name, (handleLeaveChannel env s a).2)
  | .chatMessage text => some (s, name, handleChatMessage s a name text)
  | .directMessage toPubkey text => some (s, name, handleDirectMessage s a name toPubkey text)
  | .setName newName => some (handleSetName s a name newName)
  | .hello _ _ pubkey => some (handleHello s a pubkey, name, [])
  | .listChannels => some (s, name, handleListChannels env s a)
  | .ping => some (s, name, [.send a .pong])
  | .startEchoTest => (handleStartEchoTest env s a).map fun r => (r.1, name, r.2)
  | .stopEchoTest => some ((handleLeaveChannel env s a).1, name, (handleLeaveChannel env s a).2)

/-! ## The world -/

/-- A connection's task: its copy of the client's name, and what is left of the handler
it is in.  With nothing left it waits for the next request. -/
structure Connection where
  name : String
  pending : List Action
  deriving DecidableEq, Repr

/-- Everything the tasks share, and where each of them stands. -/
structure World where
  state : ServerState
  connections : Table SocketAddr Connection
  /-- The queue behind each sender: all the messages put into it. -/
  senders : Table SocketAddr (List ServerMessage)
  /-- What is left of the maintenance sweep. -/
  maintenance : List Action

/-- A task: that of a connection, or the maintenance loop. -/
abbrev Task := Option SocketAddr

namespace World

/-- The server as it begins to listen, with the channels it has created at startup. -/
def listening (s : ServerState) : World := ⟨s, ∅, ∅, []⟩

/-- What is left of a task's handler. -/
def pending (w : World) : Task → List Action
  | some a => match w.connections.lookup a with
    | some conn => conn.pending
    | none => []
  | none => w.maintenance

/-- A task moves on to what is left. -/
def setPending (w : World) (t : Task) (rest : List Action) : World :=
  match t with
  | some a => { w with connections := w.connections.modify a fun conn =>
      { conn with pending := rest } }
  | none => { w with maintenance := rest }

/-- `try_send`: put a message into a client's queue, if it has one.  In the source a queue has
`CLIENT_QUEUE_CAPACITY` places, which are 128, and what comes on top of them is dropped.  Here it
takes every message: what is said of the contents of a queue is said of runs in which none
overflows. -/
def enqueue (w : World) (addr : SocketAddr) (msg : ServerMessage) : World :=
  { w with senders := w.senders.modify addr fun q => q ++ [msg] }

/-- Put a message into the queues of several clients, one after another. -/
def enqueueAll (w : World) (msg : ServerMessage) (addrs : List SocketAddr) : World :=
  addrs.foldl (fun w a => w.enqueue a msg) w

/-- The effect of one step, and the steps it leaves to take. -/
def act (env : Env) (w : World) : Action → World × List Action
  | .openQueue a => ({ w with senders := w.senders.insert a [] }, [])
  | .send addr msg => (w.enqueue addr msg, [])
  | .broadcast ch exclude msg =>
    (w.enqueueAll msg (env.addrOrder.toList (w.state.broadcastChannelAddrs ch exclude)), [])
  | .readChannelList => (w, [.fanOut (w.state.listPublicChannels env)])
  | .fanOut channels =>
    (w, (env.addrOrder.toList w.senders.keys.val).map fun addr =>
      .send addr (.channelList channels))
  | .routeDirect a toPubkey msg =>
    match w.state.lookupPubkey toPubkey with
    | some target => (w, [.send target msg])
    | none => (w, [.send a (.error "recipient not online")])
  | .dropQueue a => ({ w with senders := w.senders.erase a }, [])
  | .removeClient a =>
    match w.state.removeClient env a with
    | (some (leftName, some ch), s') =>
      ({ w with state := s' }, .broadcast ch none (.peerLeft leftName) :: pushIfPublic ch)
    | (_, s') => ({ w with state := s' }, [])
  | .close a => ({ w with connections := w.connections.erase a }, [])

/-! ## Events -/

/-- What can happen next. -/
inductive Event where
  /-- A connection is accepted, at an address of its own. -/
  | accept (a : SocketAddr)
  /-- A connection's reader hands on a request that the rate limits admit. -/
  | request (a : SocketAddr) (msg : ClientMessage)
  /-- It reads one that they do not. -/
  | rateLimited (a : SocketAddr)
  /-- Its reader ends. -/
  | hangUp (a : SocketAddr)
  /-- A task takes the next step of its handler. -/
  | advance (t : Task)
  /-- The maintenance interval ticks. -/
  | tick
  /-- The relay receives a UDP hello. -/
  | udpHello (token : UInt64) (src : SocketAddr)
  /-- The server is told to shut down. -/
  | shutdown
  deriving DecidableEq, Repr

/-- `handle_client` up to its reader loop. -/
def accept (w : World) (a : SocketAddr) : World :=
  match w.state.registerClient a with
  | (.ok name, s') => { w with
      state := s'
      connections := w.connections.insert a ⟨name, [.openQueue a,
        .send a (.welcome Config.packageVersion Config.protocolVersion),
        .send a (.nameChanged "" name)]⟩ }
  | (.error _, s') => { w with state := s' }

/-- An idle connection's task takes a request. -/
def request (env : Env) (w : World) (a : SocketAddr) (conn : Connection) (msg : ClientMessage) :
    Option World :=
  (handleMessage env w.state a conn.name msg).map fun r =>
    { w with state := r.1, connections := w.connections.insert a ⟨r.2.1, r.2.2⟩ }

/-- One turn of `run_maintenance`. -/
def sweep (env : Env) (w : World) : World :=
  let (removed, s') := w.state.cleanupEmptyChannels env
  { w with
    state := s'
    maintenance := if removed.any fun id => startsWith id Config.publicChannelPrefix then
      [.readChannelList] else [] }

/-- The step of the system; `none` where the event cannot happen. -/
def step (w : World) (e : Env × Event) : Option World :=
  match e.2 with
  | .accept a => if a ∈ w.connections then none else some (w.accept a)
  | .request a msg =>
    match w.connections.lookup a with
    | some conn => if conn.pending = [] then w.request e.1 a conn msg else none
    | none => none
  | .rateLimited a =>
    if a ∈ w.connections ∧ w.pending (some a) = [] then
      some (w.setPending (some a) [.send a (.error "rate limited, slow down")])
    else none
  | .hangUp a =>
    if a ∈ w.connections ∧ w.pending (some a) = [] then
      some (w.setPending (some a) [.dropQueue a, .removeClient a, .close a])
    else none
  | .advance t =>
    match w.pending t with
    | action :: rest =>
      let (w', next) := w.act e.1 action
      some (w'.setPending t (next ++ rest))
    | [] => none
  | .tick => if w.maintenance = [] then some (w.sweep e.1) else none
  | .udpHello token src =>
    some { w with state := (w.state.registerUdpByToken e.1 token src).2 }
  | .shutdown =>
    some (w.enqueueAll (.error "server shutting down") (e.1.addrOrder.toList w.senders.keys.val))

/-- Every started handler has finished. -/
def Quiescent (w : World) : Prop := ∀ t, w.pending t = []

theorem quiescent_iff {w : World} : w.Quiescent ↔
    w.maintenance = [] ∧ w.connections.any (fun _ conn => decide (conn.pending ≠ [])) = false := by
  rw [any_eq_false_iff]
  constructor
  · intro h
    refine ⟨h none, fun a conn hl => ?_⟩
    have ha := h (some a)
    simp only [pending, hl] at ha
    simp [ha]
  · rintro ⟨hm, hc⟩ (- | a)
    · exact hm
    · simp only [pending]
      split
      · rename_i conn hl
        simpa using hc a conn hl
      · rfl

instance (w : World) : Decidable w.Quiescent := decidable_of_iff _ quiescent_iff.symm

end World

/-! ## Runs to look at -/

/-- A client's task takes its next `n` steps. -/
def advancing (a : SocketAddr) (n : ℕ) : List World.Event := List.replicate n (.advance (some a))

/-- A client connects, and its task comes to wait for requests. -/
def connecting (a : SocketAddr) : List World.Event := .accept a :: advancing a 3

/-- Events in a world that draws one key and one token. -/
def sampled (token : UInt64) (events : List World.Event) : List (Env × World.Event) :=
  events.map fun ev => (.sample 7 token, ev)

end Server
end TcVoice
