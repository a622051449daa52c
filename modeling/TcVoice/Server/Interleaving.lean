import TcVoice.Server.Tcp
import TcVoice.Server.Tokens

/-!
# What each step of the control server does

One statement per kind of step of `TcVoice.Server.Tcp`, to be used in place of
its definition from here on.

* `Handled`, `handleMessage_handled` — each way a request is handled: the registry
  after its first step and the actions it leaves to take.
* `Move`, `step_move` — everything a step of the world can do.
* `lookup_senders_act` — what an action puts into each queue.
* `Orderly` — the discipline of the tasks: a client is registered under its
  connection's name while the connection is open, and only a connection's own
  task takes it down, in the order of `handle_client`.
* `step_registry` — **a step of the server is at most one registry operation**, on
  arguments the handlers have checked; so what holds in every run of the registry
  holds of the running server.
-/

namespace TcVoice
namespace Server

open Runs Table ServerState

/-! ## How a request is handled -/

section Handlers

variable {env : Env} {s s' : ServerState} {a : SocketAddr} {name name' : String}
  {msg : ClientMessage} {acts : List Action}

/-- The error that a request is refused with. -/
def Refusal (env : Env) (s : ServerState) (a : SocketAddr) : ClientMessage → String → Prop
  | .createChannel name, err => s.createChannel env name = some (.error err, s)
  | .joinChannel ch, err => s.joinChannel env a ch = some (.error err, s)
  | .leaveChannel, err | .stopEchoTest, err => err = "not in a channel"
  | .chatMessage _, err => err = "message too long"
  | .directMessage _ _, err =>
    err ∈ ["message too long", "invalid pubkey", "must send Hello with pubkey first"]
  | .setName _, err => err = "name must be 1-32 characters"
  | .startEchoTest, err => s.startEchoTest env a = some (.error err, s)
  | _, _ => False

/-- Each way a request is handled: the registry and the connection's name after the
handler's first step, and the actions left. -/
inductive Handled (env : Env) (s : ServerState) (a : SocketAddr) (name : String) :
    ClientMessage → ServerState → String → List Action → Prop
  | refused {msg : ClientMessage} {err : String} (h : Refusal env s a msg err) :
      Handled env s a name msg s name [.send a (.error err)]
  | ignored {msg : ClientMessage} : Handled env s a name msg s name []
  | created {chanName : Option String} {id : ChannelId} (hid : id ∉ s.channels)
      (hname : IdFor chanName id)
      (hr : exec env s (.createChannel chanName) = some (s.addChannel env id)) :
      Handled env s a name (.createChannel chanName) (s.addChannel env id) name
        (.send a (.channelCreated id) :: pushIfPublic id)
  | joined {ch : ChannelId} {token : UInt64} (hch : ch ∈ s.channels) (ha : a ∈ s.clients)
      (hout : s.channelOf a = none)
      (hr : exec env s (.joinChannel a ch) = some (s.joined env a ch token)) :
      Handled env s a name (.joinChannel ch) (s.joined env a ch token) name
        (.broadcast ch (some a) (.peerJoined name) ::
          .send a (.joinedChannel ch
            (env.nameOrder.toList ((s.joined env a ch token).memberNames ch)) token
            (((s.joined env a ch token).channelKeys.lookup ch).getD [])) :: pushIfPublic ch)
  | left {msg : ClientMessage} {c : ClientInfo} {ch : ChannelId}
      (hmsg : msg = .leaveChannel ∨ msg = .stopEchoTest) (hl : s.clients.lookup a = some c)
      (hch : c.channel = some ch) :
      Handled env s a name msg ((s.withoutMember a c).dropParticipant env ch c.udpAddr) name
        (.send a .leftChannel :: .broadcast ch none (.peerLeft c.name) :: pushIfPublic ch)
  | said {text : String} {ch : ChannelId} (hlen : byteLen text ≤ Config.maxChatLen)
      (hch : s.channelOf a = some ch) :
      Handled env s a name (.chatMessage text) s name
        [.broadcast ch (some a) (.chatMessage name text)]
  | routed {toPubkey fromPubkey : Bytes} {text : String} {c : ClientInfo}
      (hlen : byteLen text ≤ Config.maxChatLen) (hl : s.clients.lookup a = some c)
      (hkey : c.pubkey = some fromPubkey) :
      Handled env s a name (.directMessage toPubkey text) s name
        [.routeDirect a toPubkey (.directMessage fromPubkey name text)]
  | renamed {newName : String} {c : ClientInfo} (hl : s.clients.lookup a = some c)
      (hne : trim newName ≠ "") (hlen : byteLen (trim newName) ≤ Config.maxNameLen) :
      Handled env s a name (.setName newName) (s.renamed a c (trim newName)) (trim newName)
        (announceName a c.channel c.name (trim newName))
  | bound {version : String} {protocol : ℕ} {pk : Bytes} {c : ClientInfo}
      (hl : s.clients.lookup a = some c) (hlen : pk.length = 32) :
      Handled env s a name (.hello version protocol (some pk)) (s.rekeyed a c pk) name []
  | listed : Handled env s a name .listChannels s name
      [.send a (.channelList (s.listPublicChannels env))]
  | pinged : Handled env s a name .ping s name [.send a .pong]
  | echoed {id : ChannelId} {token : UInt64} (hid : id ∉ s.channels) (ha : a ∈ s.clients)
      (hout : s.channelOf a = none)
      (hdraw : ∃ draw, id = Config.echoChannelPrefix ++ generateChannelId draw)
      (hr : exec env s (.startEchoTest a) = some (s.echoed env a id token)) :
      Handled env s a name .startEchoTest (s.echoed env a id token) name
        [.send a (.echoTestReady id token env.key.toList)]

theorem handleLeaveChannel_handled (hmsg : msg = .leaveChannel ∨ msg = .stopEchoTest) :
    Handled env s a name msg (handleLeaveChannel env s a).1 name
      (handleLeaveChannel env s a).2 := by
  cases hch : s.channelOf a with
  | none =>
    simp only [handleLeaveChannel, leaveChannel_of_channelOf_none hch]
    exact .refused (by rcases hmsg with rfl | rfl <;> rfl)
  | some ch =>
    obtain ⟨c, hl, hc⟩ := channelOf_eq_some.1 hch
    simp only [handleLeaveChannel, leaveChannel_of_lookup hl hc]
    exact .left hmsg hl hc

theorem handleSetName_handled (newName : String) :
    Handled env s a name (.setName newName) (handleSetName s a name newName).1
      (handleSetName s a name newName).2.1 (handleSetName s a name newName).2.2 := by
  simp only [handleSetName]
  split
  · exact .refused rfl
  · rename_i hok
    simp only [not_or, not_lt] at hok
    obtain ⟨hl, hr, hs⟩ | ⟨c, hl, hr, hs⟩ :=
      renameClient_cases (Prod.mk.eta (p := s.renameClient a (trim newName))).symm
    · rw [← Prod.mk.eta (p := s.renameClient a (trim newName)), hr, hs]
      exact .ignored
    · rw [← Prod.mk.eta (p := s.renameClient a (trim newName)), hr, hs]
      exact .renamed hl hok.1 hok.2

theorem handleDirectMessage_handled (toPubkey : Bytes) (text : String) :
    Handled env s a name (.directMessage toPubkey text) s name
      (handleDirectMessage s a name toPubkey text) := by
  unfold handleDirectMessage
  split
  · exact .refused (by simp [Refusal])
  split
  · exact .refused (by simp [Refusal])
  rename_i hlen _
  split
  · rename_i fromPubkey hkey
    obtain ⟨c, hl, hc⟩ := Option.bind_eq_some_iff.1 hkey
    exact .routed (not_lt.1 hlen) hl hc
  · exact .refused (by simp [Refusal])

/-- **Every request is handled in one of these ways.** -/
theorem handleMessage_handled
    (h : handleMessage env s a name msg = some (s', name', acts)) :
    Handled env s a name msg s' name' acts := by
  cases msg with
  | createChannel chanName =>
    obtain ⟨⟨s₁, acts₁⟩, hc, he⟩ := Option.map_eq_some_iff.1 h
    cases he
    obtain ⟨⟨r, s₂⟩, hr, he⟩ := Option.map_eq_some_iff.1 hc
    obtain ⟨rfl, err, rfl⟩ | ⟨id, rfl, hid, rfl, hname⟩ := createChannel_cases hr
    · cases he; exact .refused hr
    · cases he; exact .created hid hname (by simp [exec, hr])
  | joinChannel ch =>
    obtain ⟨⟨s₁, acts₁⟩, hc, he⟩ := Option.map_eq_some_iff.1 h
    cases he
    obtain ⟨⟨r, s₂⟩, hr, he⟩ := Option.map_eq_some_iff.1 hc
    obtain ⟨rfl, err, rfl⟩ | ⟨token, hch, ha, hout, -, -, rfl, rfl⟩ := joinChannel_cases hr
    · cases he; exact .refused hr
    · cases he
      exact .joined hch ha hout (by simp [exec, hr])
  | leaveChannel => cases h; exact handleLeaveChannel_handled (.inl rfl)
  | chatMessage text =>
    cases h
    unfold handleChatMessage
    split
    · exact .refused rfl
    · rename_i hlen
      split
      · rename_i ch hch
        exact .said (not_lt.1 hlen) hch
      · exact .ignored
  | directMessage toPubkey text => cases h; exact handleDirectMessage_handled toPubkey text
  | setName newName =>
    have he := Option.some.inj h
    have hh : Handled env s a name (.setName newName) _ _ _ := handleSetName_handled newName
    rwa [he] at hh
  | hello version protocol pubkey =>
    cases h
    unfold handleHello
    split
    · rename_i pk
      split
      · rename_i hlen
        cases hl : s.clients.lookup a with
        | none =>
          rw [setPubkey_of_notMem ((notMem_iff_lookup _ _).2 hl)]
          exact .ignored
        | some c =>
          rw [setPubkey_of_lookup hl]
          exact .bound hl hlen
      · exact .ignored
    · exact .ignored
  | listChannels => cases h; exact .listed
  | ping => cases h; exact .pinged
  | startEchoTest =>
    obtain ⟨⟨s₁, acts₁⟩, hc, he⟩ := Option.map_eq_some_iff.1 h
    cases he
    obtain ⟨⟨r, s₂⟩, hr, he⟩ := Option.map_eq_some_iff.1 hc
    obtain ⟨rfl, err, rfl⟩ | ⟨id, token, hid, ha, hout, -, -, hdraw, rfl, rfl⟩ :=
      startEchoTest_cases hr
    · cases he; exact .refused hr
    · cases he
      exact .echoed hid ha hout hdraw (by simp [exec, hr])
  | stopEchoTest => cases h; exact handleLeaveChannel_handled (.inr rfl)

end Handlers

/-! ## Names -/

section Names

variable {env : Env} {s s' : ServerState} {a b : SocketAddr} {ch : ChannelId} {name : String}

/-- The name of a registered client. -/
def ServerState.nameOf (s : ServerState) (a : SocketAddr) : Option String :=
  (s.clients.lookup a).map ClientInfo.name

theorem nameOf_of_lookup {c : ClientInfo} (hl : s.clients.lookup a = some c) :
    s.nameOf a = some c.name := by
  rw [nameOf, hl, Option.map_some]

theorem nameOf_eq_none : s.nameOf a = none ↔ a ∉ s.clients := by
  rw [nameOf, Option.map_eq_none_iff, notMem_iff_lookup]

theorem mem_clients_of_nameOf (h : s.nameOf a = some name) : a ∈ s.clients := by
  by_contra hn
  rw [nameOf_eq_none.2 hn] at h
  exact absurd h (by simp)

theorem mem_clients_of_channelOf (h : s.channelOf a = some ch) : a ∈ s.clients := by
  obtain ⟨c, hl, -⟩ := channelOf_eq_some.1 h
  exact Finmap.mem_of_lookup_eq_some hl

theorem nameOf_insert {c : ClientInfo} (h : s'.clients = s.clients.insert a c) :
    s'.nameOf b = if b = a then some c.name else s.nameOf b := by
  rw [nameOf, h, lookup_insert_if]
  split <;> rfl

theorem nameOf_congr (h : s'.clients = s.clients) : s'.nameOf b = s.nameOf b := by
  rw [nameOf, h, nameOf]

/-- An update that keeps a client's name keeps everybody's. -/
theorem nameOf_insert_same {c d : ClientInfo} (hl : s.clients.lookup a = some c)
    (h : s'.clients = s.clients.insert a d) (hc : d.name = c.name) :
    s'.nameOf b = s.nameOf b := by
  rw [nameOf_insert h]
  split
  · rename_i hb
    rw [hb, nameOf_of_lookup hl, hc]
  · rfl

theorem nameOf_withoutClient {c : ClientInfo} :
    (s.withoutClient a c).nameOf b = if b = a then none else s.nameOf b := by
  rw [nameOf, withoutClient, lookup_erase_if]
  split <;> rfl

theorem nameOf_withoutMember {c : ClientInfo} (hl : s.clients.lookup a = some c) :
    (s.withoutMember a c).nameOf b = s.nameOf b :=
  nameOf_insert_same (d := { c with channel := none, udpAddr := none }) hl rfl rfl

@[simp] theorem nameOf_dropParticipant {udp : Option SocketAddr} :
    (s.dropParticipant env ch udp).nameOf b = s.nameOf b := nameOf_congr clients_dropParticipant

theorem nameOf_renamed {c : ClientInfo} :
    (s.renamed a c name).nameOf b = if b = a then some name else s.nameOf b :=
  nameOf_insert (c := { c with name := name }) rfl

theorem nameOf_rekeyed {c : ClientInfo} {pk : Bytes} (hl : s.clients.lookup a = some c) :
    (s.rekeyed a c pk).nameOf b = s.nameOf b :=
  nameOf_insert_same (d := { c with pubkey := some pk }) hl rfl rfl

theorem nameOf_joined {token : UInt64} (ha : a ∈ s.clients) :
    (s.joined env a ch token).nameOf b = s.nameOf b := by
  obtain ⟨c, hl⟩ := (mem_iff_lookup _ _).1 ha
  exact nameOf_insert_same hl (clients_joined hl) rfl

theorem nameOf_echoed {token : UInt64} (ha : a ∈ s.clients) :
    (s.echoed env a ch token).nameOf b = s.nameOf b := by
  obtain ⟨c, hl⟩ := (mem_iff_lookup _ _).1 ha
  exact nameOf_insert_same hl (clients_echoed hl) rfl

theorem nameOf_registered :
    (s.registered a).nameOf b = if b = a then some s.nextName else s.nameOf b :=
  nameOf_insert (c := ⟨s.nextName, none, none, none⟩) rfl

theorem nameOf_registerUdpByToken {token : UInt64} {udp : SocketAddr} :
    (s.registerUdpByToken env token udp).2.nameOf b = s.nameOf b :=
  registerUdpByToken_frame (ServerState.nameOf · b) (fun _ => rfl)
    fun _ c _ hl => nameOf_insert_same (d := { c with udpAddr := some udp }) hl rfl rfl

/-- A handler changes nobody's name but its own client's, which stays the connection's. -/
theorem Handled.nameOf {msg : ClientMessage} {name' : String} {acts : List Action}
    (h : Handled env s a name msg s' name' acts) (ha : ∀ n, s.nameOf a = some n → n = name) :
    (∀ b, b ≠ a → s'.nameOf b = s.nameOf b) ∧ (∀ n, s'.nameOf a = some n → n = name') ∧
      (s'.nameOf a = none ↔ s.nameOf a = none) := by
  have hsame : (∀ b, s'.nameOf b = s.nameOf b) → name' = name →
      (∀ b, b ≠ a → s'.nameOf b = s.nameOf b) ∧ (∀ n, s'.nameOf a = some n → n = name') ∧
        (s'.nameOf a = none ↔ s.nameOf a = none) := by
    rintro hs rfl
    exact ⟨fun b _ => hs b, fun n hn => ha n (by rwa [← hs]), by rw [hs]⟩
  cases h with
  | refused | ignored | said | routed | listed | pinged | created => exact hsame (fun _ => rfl) rfl
  | joined hch hin => exact hsame (fun _ => nameOf_joined hin) rfl
  | left hmsg hl =>
    exact hsame (fun _ => nameOf_dropParticipant.trans (nameOf_withoutMember hl)) rfl
  | renamed hl =>
    refine ⟨fun b hb => by rw [nameOf_renamed, if_neg hb], fun n hn => ?_, ?_⟩
    · rw [nameOf_renamed, if_pos rfl] at hn
      exact (Option.some.inj hn).symm
    · rw [nameOf_renamed, if_pos rfl, nameOf_of_lookup hl]
      simp
  | bound hl => exact hsame (fun _ => nameOf_rekeyed hl) rfl
  | echoed hid hin => exact hsame (fun _ => nameOf_echoed hin) rfl

end Names

/-! ## Tasks and queues -/

/-- The message an action puts into a client's queue, if the client has one. -/
def Action.addressed (s : ServerState) : Action → SocketAddr → Option ServerMessage
  | .send addr msg, c => if c = addr then some msg else none
  | .broadcast ch ex msg, c => if s.channelOf c = some ch ∧ ex ≠ some c then some msg else none
  | _, _ => none

/-- A message goes to a client by itself, or to the others of its channel too. -/
theorem Action.addressed_eq_some {s : ServerState} {action : Action} {c : SocketAddr}
    {msg : ServerMessage} (h : action.addressed s c = some msg) :
    action = .send c msg ∨ ∃ ch ex, action = .broadcast ch ex msg ∧ s.channelOf c = some ch ∧
      ex ≠ some c := by
  cases action with
  | send addr m =>
    rw [Action.addressed] at h
    split at h
    · rename_i hc
      rw [hc, Option.some.inj h]
      exact .inl rfl
    · exact absurd h (by simp)
  | broadcast ch ex m =>
    rw [Action.addressed] at h
    split at h
    · rename_i hin
      rw [Option.some.inj h]
      exact .inr ⟨ch, ex, rfl, hin⟩
    · exact absurd h (by simp)
  | _ => exact absurd h (by simp [Action.addressed])

namespace World

section Tasks

variable {env : Env} {w : World} {t u : Task} {a c : SocketAddr} {rest : List Action}
  {action : Action} {msg : ServerMessage}

/-- The task is running. -/
def Live (w : World) : Task → Prop
  | some a => a ∈ w.connections
  | none => True

theorem pending_some_of_lookup {conn : Connection} (hl : w.connections.lookup a = some conn) :
    w.pending (some a) = conn.pending := by
  simp only [pending, hl]

theorem pending_some_of_notMem (hn : a ∉ w.connections) : w.pending (some a) = [] := by
  simp only [pending, (notMem_iff_lookup _ _).1 hn]

theorem live_of_pending (h : w.pending t = action :: rest) : w.Live t := by
  cases t with
  | none => trivial
  | some a =>
    by_contra hn
    rw [pending_some_of_notMem hn] at h
    exact absurd h (by simp)

/-- A connection's task has taken the registry to `s'` and stands at `conn`. -/
def put (w : World) (s' : ServerState) (a : SocketAddr) (conn : Connection) : World :=
  { w with state := s', connections := w.connections.insert a conn }

theorem pending_put {s' : ServerState} {conn : Connection} :
    (w.put s' a conn).pending u = if u = some a then conn.pending else w.pending u := by
  cases u with
  | none => rfl
  | some b =>
    simp only [pending, put, lookup_insert_if, Option.some.injEq]
    by_cases hb : b = a <;> simp [hb]

theorem mem_connections_put {s' : ServerState} {conn : Connection} {b : SocketAddr} :
    b ∈ (w.put s' a conn).connections ↔ b = a ∨ b ∈ w.connections := Finmap.mem_insert

theorem pending_congr {w' : World} (hc : w'.connections = w.connections)
    (hm : w'.maintenance = w.maintenance) : w'.pending u = w.pending u := by
  cases u with
  | none => exact hm
  | some b => simp only [pending, hc]

theorem setPending_of_lookup {conn : Connection} (hl : w.connections.lookup a = some conn) :
    w.setPending (some a) rest = w.put w.state a ⟨conn.name, rest⟩ := by
  rw [setPending, Table.modify, hl]
  rfl

theorem pending_setPending (h : w.Live t) :
    (w.setPending t rest).pending u = if u = t then rest else w.pending u := by
  cases t with
  | none => cases u <;> simp [setPending, pending]
  | some a =>
    obtain ⟨conn, hl⟩ := (mem_iff_lookup _ _).1 h
    rw [setPending_of_lookup hl, pending_put]

@[simp] theorem state_setPending : (w.setPending t rest).state = w.state := by
  cases t <;> rfl

@[simp] theorem senders_setPending : (w.setPending t rest).senders = w.senders := by
  cases t <;> rfl

theorem mem_connections_setPending {b : SocketAddr} :
    b ∈ (w.setPending t rest).connections ↔ b ∈ w.connections := by
  cases t with
  | none => rfl
  | some a =>
    simp only [setPending, mem_iff_lookup, lookup_modify]
    by_cases hb : b = a
    · subst hb
      cases w.connections.lookup b <;> simp
    · simp [hb]

/-- A connection's own copy of its name. -/
def connName (w : World) (a : SocketAddr) : Option String :=
  (w.connections.lookup a).map Connection.name

theorem connName_put {s' : ServerState} {conn : Connection} {b : SocketAddr} :
    (w.put s' a conn).connName b = if b = a then some conn.name else w.connName b := by
  rw [connName, put, lookup_insert_if, connName]
  split <;> rfl

@[simp] theorem connName_setPending {b : SocketAddr} :
    (w.setPending t rest).connName b = w.connName b := by
  cases t with
  | none => rfl
  | some a =>
    rw [connName, setPending, lookup_modify]
    by_cases hb : b = a
    · rw [if_pos hb, hb, connName]
      cases w.connections.lookup a <;> rfl
    · rw [if_neg hb, connName]

theorem enqueueAll_cons {addrs : List SocketAddr} :
    w.enqueueAll msg (a :: addrs) = (w.enqueue a msg).enqueueAll msg addrs := rfl

/-- Putting a message into queues touches nothing but the queues. -/
theorem enqueueAll_eq (addrs : List SocketAddr) :
    w.enqueueAll msg addrs = { w with senders := (w.enqueueAll msg addrs).senders } := by
  induction addrs generalizing w with
  | nil => rfl
  | cons a addrs ih =>
    rw [enqueueAll_cons, ih]
    rfl

theorem lookup_senders_enqueueAll {addrs : List SocketAddr} (hnd : addrs.Nodup) :
    (w.enqueueAll msg addrs).senders.lookup c =
      (w.senders.lookup c).map (· ++ if c ∈ addrs then [msg] else []) := by
  induction addrs generalizing w with
  | nil => simp [enqueueAll]
  | cons a addrs ih =>
    obtain ⟨ha, hnd⟩ := List.nodup_cons.1 hnd
    rw [enqueueAll_cons, ih hnd, enqueue, lookup_modify]
    by_cases hc : c = a
    · subst hc
      rw [if_pos rfl, Option.map_map]
      simp [ha, Function.comp_def]
    · simp [hc]

/-- Whom a broadcast to a channel is for. -/
theorem mem_broadcastChannelAddrs {s : ServerState} {ch : ChannelId} {ex : Option SocketAddr} :
    c ∈ s.broadcastChannelAddrs ch ex ↔ s.channelOf c = some ch ∧ ex ≠ some c := by
  simp only [broadcastChannelAddrs, mem_collect, Bool.and_eq_true, decide_eq_true_eq,
    channelOf_eq_some]
  constructor
  · rintro ⟨a, i, hl, ⟨hch, hex⟩, rfl⟩
    exact ⟨⟨i, hl, hch⟩, hex⟩
  · rintro ⟨⟨i, hl, hch⟩, hex⟩
    exact ⟨c, i, hl, ⟨hch, hex⟩, rfl⟩

/-- Opening and dropping a queue aside, an action only appends to queues. -/
theorem lookup_senders_act (hopen : ∀ a, action ≠ .openQueue a)
    (hdrop : ∀ a, action ≠ .dropQueue a) :
    (w.act env action).1.senders.lookup c =
      (w.senders.lookup c).map (· ++ (action.addressed w.state c).toList) := by
  cases action with
  | openQueue a => exact absurd rfl (hopen a)
  | dropQueue a => exact absurd rfl (hdrop a)
  | send addr msg =>
    simp only [act, enqueue, lookup_modify, Action.addressed]
    by_cases hc : c = addr
    · subst hc
      simp
    · simp [hc]
  | broadcast ch ex msg =>
    have hnd : (env.addrOrder.toList (w.state.broadcastChannelAddrs ch ex)).Nodup :=
      env.addrOrder.nodup_toList.2 (nodup_collect_key _ _)
    simp only [act, Action.addressed]
    rw [lookup_senders_enqueueAll hnd]
    simp only [HashOrder.mem_toList, mem_broadcastChannelAddrs]
    split <;> rfl
  | readChannelList | fanOut => simp [act, Action.addressed]
  | close a => simp [act, Action.addressed]
  | routeDirect a toPubkey msg =>
    simp only [act, Action.addressed]
    cases w.state.lookupPubkey toPubkey <;> simp
  | removeClient a =>
    simp only [act, Action.addressed]
    split <;> simp

/-- Only taking a client out of the registry changes the registry. -/
theorem state_act (hrem : ∀ a, action ≠ .removeClient a) :
    (w.act env action).1.state = w.state := by
  cases action with
  | removeClient a => exact absurd rfl (hrem a)
  | broadcast ch ex msg => simp only [act]; rw [enqueueAll_eq]
  | routeDirect a toPubkey msg => simp only [act]; split <;> rfl
  | _ => rfl

theorem connections_act (hclose : ∀ a, action ≠ .close a) :
    (w.act env action).1.connections = w.connections := by
  cases action with
  | close a => exact absurd rfl (hclose a)
  | broadcast ch ex msg => simp only [act]; rw [enqueueAll_eq]
  | routeDirect a toPubkey msg => simp only [act]; split <;> rfl
  | removeClient a => simp only [act]; split <;> rfl
  | _ => rfl

theorem maintenance_act : (w.act env action).1.maintenance = w.maintenance := by
  cases action with
  | broadcast ch ex msg => simp only [act]; rw [enqueueAll_eq]
  | routeDirect a toPubkey msg => simp only [act]; split <;> rfl
  | removeClient a => simp only [act]; split <;> rfl
  | _ => rfl

/-- The registry after a client has been taken out of it, and what its task has still to say. -/
theorem act_removeClient_of_lookup {i : ClientInfo} (hl : w.state.clients.lookup a = some i) :
    w.act env (.removeClient a) = match i.channel with
      | some ch => ({ w with
          state := (w.state.withoutClient a i).dropParticipant env ch i.udpAddr },
          .broadcast ch none (.peerLeft i.name) :: pushIfPublic ch)
      | none => ({ w with state := w.state.withoutClient a i }, []) := by
  simp only [act, removeClient_of_lookup hl]
  cases i.channel <;> rfl

theorem act_removeClient_of_notMem (hn : a ∉ w.state.clients) :
    w.act env (.removeClient a) = (w, []) := by
  simp only [act, removeClient_of_notMem hn]

end Tasks

/-! ## Everything a step can do -/

section Moves

variable {env : Env} {w w' : World} {ev : Event}

/-- Everything a step of the world can do. -/
inductive Move (env : Env) (w : World) : Event → World → Prop
  | accepted {a : SocketAddr} (ha : a ∉ w.connections)
      (hr : w.state.registerClient a = (.ok w.state.nextName, w.state.registered a)) :
      Move env w (.accept a) (w.put (w.state.registered a) a ⟨w.state.nextName, [.openQueue a,
        .send a (.welcome Config.packageVersion Config.protocolVersion),
        .send a (.nameChanged "" w.state.nextName)]⟩)
  | turnedAway {a : SocketAddr} : Move env w (.accept a) w
  | handled {a : SocketAddr} {msg : ClientMessage} {conn : Connection} {s' : ServerState}
      {name : String} {acts : List Action} (hl : w.connections.lookup a = some conn)
      (hidle : conn.pending = []) (h : Handled env w.state a conn.name msg s' name acts) :
      Move env w (.request a msg) (w.put s' a ⟨name, acts⟩)
  | limited {a : SocketAddr} (ha : a ∈ w.connections) (hidle : w.pending (some a) = []) :
      Move env w (.rateLimited a)
        (w.setPending (some a) [.send a (.error "rate limited, slow down")])
  | hungUp {a : SocketAddr} (ha : a ∈ w.connections) (hidle : w.pending (some a) = []) :
      Move env w (.hangUp a)
        (w.setPending (some a) [.dropQueue a, .removeClient a, .close a])
  | advanced {t : Task} {action : Action} {rest : List Action}
      (h : w.pending t = action :: rest) :
      Move env w (.advance t)
        ((w.act env action).1.setPending t ((w.act env action).2 ++ rest))
  | swept (h : w.maintenance = []) : Move env w .tick (w.sweep env)
  | greeted {token : UInt64} {src : SocketAddr} :
      Move env w (.udpHello token src)
        { w with state := (w.state.registerUdpByToken env token src).2 }
  | shutDown : Move env w .shutdown
      (w.enqueueAll (.error "server shutting down") (env.addrOrder.toList w.senders.keys.val))

/-- **Every step is one of these moves.** -/
theorem step_move {e : Env × Event} (h : w.step e = some w') : Move e.1 w e.2 w' := by
  obtain ⟨env, ev⟩ := e
  cases ev with
  | accept a =>
    simp only [step] at h
    split at h
    · exact absurd h (by simp)
    · rename_i ha
      cases h
      obtain ⟨heq, err, hr⟩ | ⟨hr, heq⟩ :=
        registerClient_cases (s := w.state) (a := a) (Prod.mk.eta).symm
      · have he : w.state.registerClient a = (.error err, w.state) := Prod.ext hr heq
        simp only [accept, he]
        exact .turnedAway
      · have he : w.state.registerClient a = (.ok w.state.nextName, w.state.registered a) :=
          Prod.ext hr heq
        simp only [accept, he]
        exact .accepted ha he
  | request a msg =>
    simp only [step] at h
    split at h
    · rename_i conn hl
      split at h
      · rename_i hidle
        obtain ⟨⟨s', name, acts⟩, hr, rfl⟩ := Option.map_eq_some_iff.1 h
        exact .handled hl hidle (handleMessage_handled hr)
      · exact absurd h (by simp)
    · exact absurd h (by simp)
  | rateLimited a =>
    simp only [step] at h
    split at h
    · rename_i hi
      cases h
      exact .limited hi.1 hi.2
    · exact absurd h (by simp)
  | hangUp a =>
    simp only [step] at h
    split at h
    · rename_i hi
      cases h
      exact .hungUp hi.1 hi.2
    · exact absurd h (by simp)
  | advance t =>
    simp only [step] at h
    split at h
    · rename_i action rest hp
      cases h
      exact .advanced hp
    · exact absurd h (by simp)
  | tick =>
    simp only [step] at h
    split at h
    · rename_i hm
      cases h
      exact .swept hm
    · exact absurd h (by simp)
  | udpHello token src => cases h; exact .greeted
  | shutdown => cases h; exact .shutDown

end Moves

end World

/-! ## The discipline of the tasks -/

section Discipline

variable {env : Env} {s s' : ServerState} {w w' : World} {a b : SocketAddr} {t u : Task}
  {action : Action} {rest acts : List Action} {ev : World.Event}

/-- The actions that take a connection down. -/
def Action.Ends : Action → Prop
  | .dropQueue _ | .removeClient _ | .close _ => True
  | _ => False

/-- Where a connection's task can stand: at work, at one of the first two steps of its
end, or past them and only left to say so. -/
inductive Shape (s : ServerState) (a : SocketAddr) : List Action → Prop
  | working {acts : List Action} (h : ∀ x ∈ acts, ¬ x.Ends) : Shape s a acts
  | ending : Shape s a [.dropQueue a, .removeClient a, .close a]
  | removing : Shape s a [.removeClient a, .close a]
  | leaving {acts : List Action} (ha : a ∉ s.clients) (h : ∀ x ∈ acts, ¬ x.Ends) :
      Shape s a (acts ++ [.close a])

theorem Shape.mono (h : Shape s a acts) (hs : a ∉ s.clients → a ∉ s'.clients) :
    Shape s' a acts := by
  cases h with
  | working h => exact .working h
  | ending => exact .ending
  | removing => exact .removing
  | leaving ha h => exact .leaving (hs ha) h

/-- The discipline that the tasks keep among themselves. -/
structure Orderly (w : World) : Prop where
  /-- A client is registered, under its connection's name, only while the connection is open. -/
  named : ∀ a n, w.state.nameOf a = some n → w.connName a = some n
  shape : ∀ a ∈ w.connections, Shape w.state a (w.pending (some a))
  sweep : ∀ x ∈ w.maintenance, ¬ x.Ends

theorem Orderly.mem_connections (ho : Orderly w) (ha : a ∈ w.state.clients) :
    a ∈ w.connections := by
  obtain ⟨c, hl⟩ := (mem_iff_lookup _ _).1 ha
  obtain ⟨conn, hc, -⟩ := Option.map_eq_some_iff.1 (ho.named a c.name (nameOf_of_lookup hl))
  exact Finmap.mem_of_lookup_eq_some hc

/-- An action that ends a connection is its own task's; one that closes it is the last. -/
theorem Orderly.ends (ho : Orderly w) (h : w.pending t = action :: rest) :
    (∀ b, action = .dropQueue b → t = some b ∧ rest = [.removeClient b, .close b]) ∧
      (∀ b, action = .removeClient b → t = some b ∧ rest = [.close b]) ∧
      ∀ b, action = .close b → t = some b ∧ rest = [] ∧ b ∉ w.state.clients := by
  cases t with
  | none =>
    have hno : ¬ action.Ends := ho.sweep action (by
      show action ∈ w.pending none
      rw [h]
      exact List.mem_cons_self)
    refine ⟨?_, ?_, ?_⟩ <;> rintro b rfl <;> exact absurd trivial hno
  | some a =>
    have hs := ho.shape a (World.live_of_pending h)
    rw [h] at hs
    generalize hacts : action :: rest = acts at hs
    cases hs with
    | working hw =>
      have hno : ¬ action.Ends := hw action (hacts ▸ List.mem_cons_self)
      refine ⟨?_, ?_, ?_⟩ <;> rintro b rfl <;> exact absurd trivial hno
    | ending =>
      obtain ⟨rfl, rfl⟩ := List.cons.inj hacts
      refine ⟨?_, ?_, ?_⟩ <;> intro b hb <;> cases hb
      exact ⟨rfl, rfl⟩
    | removing =>
      obtain ⟨rfl, rfl⟩ := List.cons.inj hacts
      refine ⟨?_, ?_, ?_⟩ <;> intro b hb <;> cases hb
      exact ⟨rfl, rfl⟩
    | @leaving acts ha hw =>
      cases acts with
      | nil =>
        obtain ⟨rfl, rfl⟩ := List.cons.inj hacts
        refine ⟨?_, ?_, ?_⟩ <;> intro b hb <;> cases hb
        exact ⟨rfl, rfl, ha⟩
      | cons x xs =>
        obtain ⟨rfl, rfl⟩ := List.cons.inj hacts
        have hno : ¬ action.Ends := hw action List.mem_cons_self
        refine ⟨?_, ?_, ?_⟩ <;> rintro b rfl <;> exact absurd trivial hno

/-- What is left of each task after an action. -/
theorem Orderly.pending_advance (ho : Orderly w) (env : Env) (h : w.pending t = action :: rest) :
    ((w.act env action).1.setPending t ((w.act env action).2 ++ rest)).pending u =
      if u = t then (w.act env action).2 ++ rest else w.pending u := by
  by_cases hc : ∃ b, action = .close b
  · obtain ⟨b, rfl⟩ := hc
    obtain ⟨rfl, rfl, -⟩ := (ho.ends h).2.2 b rfl
    simp only [World.act, List.append_nil]
    cases u with
    | none => rfl
    | some c =>
      simp only [World.pending, World.setPending, lookup_modify, lookup_erase_if,
        Option.some.injEq]
      by_cases hcb : c = b <;> simp [hcb]
  · have hcon : (w.act env action).1.connections = w.connections :=
      World.connections_act fun b hb => hc ⟨b, hb⟩
    have hlive : (w.act env action).1.Live t := by
      have := World.live_of_pending h
      cases t with
      | none => trivial
      | some a => show a ∈ _; rwa [hcon]
    rw [World.pending_setPending hlive, World.pending_congr hcon World.maintenance_act]

theorem mem_pushIfPublic {x : Action} {ch : ChannelId} :
    x ∈ pushIfPublic ch ↔
      x = .readChannelList ∧ startsWith ch Config.publicChannelPrefix = true := by
  unfold pushIfPublic
  split <;> simp [*]

theorem not_ends_of_mem_push {x : Action} {ch : ChannelId} (hx : x ∈ pushIfPublic ch) :
    ¬ x.Ends := by
  rw [(mem_pushIfPublic.1 hx).1]
  exact id

/-- Everything an action can leave to do. -/
inductive Leaves (env : Env) (w : World) : Action → Action → Prop
  | listed : Leaves env w .readChannelList (.fanOut (w.state.listPublicChannels env))
  | pushed {channels : List ChannelInfo} {addr : SocketAddr} :
      Leaves env w (.fanOut channels) (.send addr (.channelList channels))
  | routed {a target : SocketAddr} {toPubkey : Bytes} {msg : ServerMessage} :
      Leaves env w (.routeDirect a toPubkey msg) (.send target msg)
  | unreachable {a : SocketAddr} {toPubkey : Bytes} {msg : ServerMessage} :
      Leaves env w (.routeDirect a toPubkey msg) (.send a (.error "recipient not online"))
  | gone {a : SocketAddr} {ch : ChannelId} {n : String} (hin : w.state.channelOf a = some ch)
      (hn : w.state.nameOf a = some n) :
      Leaves env w (.removeClient a) (.broadcast ch none (.peerLeft n))
  | push {a : SocketAddr} : Leaves env w (.removeClient a) .readChannelList

theorem leaves_of_mem_act {x : Action} (hx : x ∈ (w.act env action).2) :
    Leaves env w action x := by
  cases action with
  | openQueue | send | broadcast | dropQueue | close =>
    exact absurd hx (List.not_mem_nil)
  | readChannelList =>
    obtain rfl := List.mem_singleton.1 hx
    exact .listed
  | fanOut channels =>
    obtain ⟨addr, -, rfl⟩ := List.mem_map.1 hx
    exact .pushed
  | routeDirect a toPubkey msg =>
    simp only [World.act] at hx
    split at hx <;> obtain rfl := List.mem_singleton.1 hx
    · exact .routed
    · exact .unreachable
  | removeClient a =>
    cases hl : w.state.clients.lookup a with
    | none =>
      rw [World.act_removeClient_of_notMem ((notMem_iff_lookup _ _).2 hl)] at hx
      exact absurd hx List.not_mem_nil
    | some i =>
      rw [World.act_removeClient_of_lookup hl] at hx
      cases hch : i.channel with
      | none => simp [hch] at hx
      | some ch =>
        simp only [hch] at hx
        rcases List.mem_cons.1 hx with rfl | hx
        · exact .gone ((channelOf_of_lookup hl).trans hch) (nameOf_of_lookup hl)
        · obtain rfl := (mem_pushIfPublic.1 hx).1
          exact .push

/-- Once under way, an action leaves nothing behind that would end a connection. -/
theorem not_ends_of_mem_act {x : Action} (hx : x ∈ (w.act env action).2) : ¬ x.Ends := by
  cases leaves_of_mem_act hx <;> exact id

/-- A handler leaves nothing behind that would end a connection. -/
theorem Handled.not_ends {msg : ClientMessage} {name name' : String}
    (h : Handled env s a name msg s' name' acts) : ∀ x ∈ acts, ¬ x.Ends := by
  cases h with
  | refused | said | routed | listed | pinged | echoed =>
    intro x hx
    obtain rfl := List.mem_singleton.1 hx
    exact id
  | ignored | bound => exact fun x hx => absurd hx (List.not_mem_nil)
  | created =>
    intro x hx
    rcases List.mem_cons.1 hx with rfl | hx
    · exact id
    · exact not_ends_of_mem_push hx
  | joined | left =>
    intro x hx
    rcases List.mem_cons.1 hx with rfl | hx
    · exact id
    rcases List.mem_cons.1 hx with rfl | hx
    · exact id
    · exact not_ends_of_mem_push hx
  | @renamed newName c =>
    intro x hx
    rcases List.mem_cons.1 hx with rfl | hx
    · exact id
    · cases hch : c.channel with
      | none => simp [hch] at hx
      | some ch =>
        simp only [hch, List.mem_singleton] at hx
        obtain rfl := hx
        exact id

theorem nameOf_act : (w.act env action).1.state.nameOf b =
    if action = .removeClient b then none else w.state.nameOf b := by
  by_cases hr : ∃ a, action = .removeClient a
  · obtain ⟨a, rfl⟩ := hr
    simp only [Action.removeClient.injEq, eq_comm (a := a)]
    cases hl : w.state.clients.lookup a with
    | none =>
      have hn := (notMem_iff_lookup _ _).2 hl
      rw [World.act_removeClient_of_notMem hn]
      by_cases hb : b = a
      · rw [if_pos hb, hb, nameOf_eq_none.2 hn]
      · rw [if_neg hb]
    | some c =>
      rw [World.act_removeClient_of_lookup hl]
      cases c.channel with
      | none => exact nameOf_withoutClient
      | some ch => exact nameOf_dropParticipant.trans nameOf_withoutClient
  · rw [World.state_act fun a ha => hr ⟨a, ha⟩, if_neg fun hb => hr ⟨b, hb⟩]

/-- Closing a connection aside, an action leaves the connections their names. -/
theorem connName_act (hb : action ≠ .close b) :
    (w.act env action).1.connName b = w.connName b := by
  by_cases hc : ∃ a, action = .close a
  · obtain ⟨a, rfl⟩ := hc
    have hba : b ≠ a := fun h => hb (by rw [h])
    rw [World.connName, World.act, lookup_erase_if, if_neg hba, World.connName]
  · rw [World.connName, World.connections_act fun a ha => hc ⟨a, ha⟩, World.connName]

theorem Orderly.connName_advance (ho : Orderly w) (h : w.pending t = action :: rest)
    (hb : b ∈ w.state.clients) :
    ((w.act env action).1.setPending t ((w.act env action).2 ++ rest)).connName b =
      w.connName b := by
  rw [World.connName_setPending]
  refine connName_act ?_
  rintro rfl
  exact ((ho.ends h).2.2 b rfl).2.2 hb

theorem Orderly.shape_advance (ho : Orderly w) (h : w.pending (some a) = action :: rest)
    (ha : a ∈ ((w.act env action).1.setPending (some a)
      ((w.act env action).2 ++ rest)).connections) :
    Shape (w.act env action).1.state a ((w.act env action).2 ++ rest) := by
  have hs := ho.shape a (World.live_of_pending h)
  rw [h] at hs
  generalize hacts : action :: rest = acts at hs
  cases hs with
  | working hw =>
    subst hacts
    refine .working fun x hx => ?_
    rcases List.mem_append.1 hx with hx | hx
    · exact not_ends_of_mem_act hx
    · exact hw x (List.mem_cons_of_mem _ hx)
  | ending =>
    obtain ⟨rfl, rfl⟩ := List.cons.inj hacts
    exact .removing
  | removing =>
    obtain ⟨rfl, rfl⟩ := List.cons.inj hacts
    refine .leaving ?_ fun x hx => not_ends_of_mem_act hx
    rw [← nameOf_eq_none, nameOf_act, if_pos rfl]
  | @leaving acts hn hw =>
    cases acts with
    | nil =>
      obtain ⟨rfl, rfl⟩ := List.cons.inj hacts
      rw [World.mem_connections_setPending] at ha
      exact absurd rfl (Finmap.mem_erase.1 ha).1
    | cons x xs =>
      rw [List.cons_append] at hacts
      obtain ⟨rfl, rfl⟩ := List.cons.inj hacts
      rw [← List.append_assoc]
      refine .leaving ?_ fun y hy => ?_
      · have hno : ¬ action.Ends := hw action List.mem_cons_self
        rw [World.state_act (by rintro b rfl; exact hno trivial)]
        exact hn
      · rcases List.mem_append.1 hy with hy | hy
        · exact not_ends_of_mem_act hy
        · exact hw y (List.mem_cons_of_mem _ hy)

/-- A client is accepted under a name of its own. -/
theorem Orderly.accepted (ho : Orderly w) (hacts : ∀ x ∈ acts, ¬ x.Ends) :
    Orderly (w.put (w.state.registered a) a ⟨w.state.nextName, acts⟩) := by
  refine ⟨fun b n hn => ?_, fun b hb => ?_, ho.sweep⟩
  · rw [World.put, nameOf_registered] at hn
    rw [World.connName_put]
    split at hn
    · rename_i hba
      rw [if_pos hba, ← Option.some.inj hn]
    · rename_i hba
      rw [if_neg hba]
      exact ho.named b n hn
  · rw [World.pending_put]
    by_cases hba : b = a
    · rw [if_pos (congrArg some hba)]
      exact .working hacts
    · rw [if_neg (by simpa using hba)]
      have hb' : b ∈ w.connections := (World.mem_connections_put.1 hb).resolve_left hba
      refine (ho.shape b hb').mono fun hn hin => ?_
      exact hn ((Finmap.mem_insert.1 hin).resolve_left hba)

/-- A request is handled: the connection takes over the name of its client. -/
theorem Orderly.handled (ho : Orderly w) {msg : ClientMessage} {conn : Connection} {name : String}
    (hl : w.connections.lookup a = some conn)
    (h : Handled env w.state a conn.name msg s' name acts) :
    Orderly (w.put s' a ⟨name, acts⟩) := by
  have hconn : ∀ n, w.state.nameOf a = some n → n = conn.name := by
    intro n hn
    have hc := ho.named a n hn
    rw [World.connName, hl] at hc
    exact (Option.some.inj hc).symm
  obtain ⟨hothers, hself, hgone⟩ := h.nameOf hconn
  refine ⟨fun b n hn => ?_, fun b hb => ?_, ho.sweep⟩
  · rw [World.connName_put]
    by_cases hba : b = a
    · rw [if_pos hba, hself n (hba ▸ hn)]
    · rw [if_neg hba]
      exact ho.named b n (by rw [← hothers b hba]; exact hn)
  · rw [World.pending_put]
    by_cases hba : b = a
    · rw [if_pos (congrArg some hba)]
      exact .working h.not_ends
    · rw [if_neg (by simpa using hba)]
      have hb' : b ∈ w.connections := (World.mem_connections_put.1 hb).resolve_left hba
      refine (ho.shape b hb').mono fun hn => ?_
      rw [← nameOf_eq_none] at hn ⊢
      exact (hothers b hba).trans hn

/-- A client that waits for nothing gets something to do. -/
theorem Orderly.assigned (ho : Orderly w) (ha : a ∈ w.connections) (hshape : Shape w.state a acts) :
    Orderly (w.setPending (some a) acts) := by
  refine ⟨fun b n hn => ?_, fun b hb => ?_, ho.sweep⟩
  · rw [World.connName_setPending]
    exact ho.named b n hn
  · rw [World.pending_setPending (t := some a) ha]
    by_cases hba : b = a
    · rw [if_pos (congrArg some hba), hba]
      exact hshape
    · rw [if_neg (by simpa using hba)]
      exact ho.shape b (World.mem_connections_setPending.1 hb)

/-- A task does its next action. -/
theorem Orderly.advanced (ho : Orderly w) (h : w.pending t = action :: rest) :
    Orderly ((w.act env action).1.setPending t ((w.act env action).2 ++ rest)) := by
  refine ⟨fun b n hn => ?_, fun b hb => ?_, fun x hx => ?_⟩
  · rw [World.state_setPending, nameOf_act] at hn
    split at hn
    · exact absurd hn (by simp)
    · rw [ho.connName_advance h (mem_clients_of_nameOf hn)]
      exact ho.named b n hn
  · rw [ho.pending_advance env h, World.state_setPending]
    by_cases hbt : some b = t
    · subst hbt
      rw [if_pos rfl]
      exact ho.shape_advance h hb
    · rw [if_neg hbt]
      have hb' : b ∈ w.connections := by
        rw [World.mem_connections_setPending] at hb
        by_cases hc : ∃ a, action = .close a
        · obtain ⟨a, rfl⟩ := hc
          exact (Finmap.mem_erase.1 hb).2
        · rwa [World.connections_act fun a ha => hc ⟨a, ha⟩] at hb
      refine (ho.shape b hb').mono fun hn => ?_
      rw [← nameOf_eq_none] at hn ⊢
      rw [nameOf_act, hn, ite_self]
  · have hmain := ho.pending_advance env h (u := none)
    rw [World.pending] at hmain
    rw [hmain] at hx
    split at hx
    · rename_i ht
      rcases List.mem_append.1 hx with hx | hx
      · exact not_ends_of_mem_act hx
      · refine ho.sweep x ?_
        have hp : w.maintenance = action :: rest := by rw [← h, ← ht]; rfl
        rw [hp]
        exact List.mem_cons_of_mem _ hx
    · exact ho.sweep x hx

/-- **Every step keeps the discipline.** -/
theorem Orderly.move (ho : Orderly w) (hm : World.Move env w ev w') : Orderly w' := by
  cases hm with
  | turnedAway => exact ho
  | accepted => exact ho.accepted (by simp [Action.Ends])
  | handled hl hidle h => exact ho.handled hl h
  | limited ha hidle => exact ho.assigned ha (.working (by simp [Action.Ends]))
  | hungUp ha hidle => exact ho.assigned ha .ending
  | advanced h => exact ho.advanced h
  | swept hm =>
    refine ⟨fun b n hn => ho.named b n ?_, fun b hb => (ho.shape b hb).mono ?_, fun x hx => ?_⟩
    · exact (nameOf_congr cleanupWith_clients).symm.trans hn
    · intro hn
      rw [← nameOf_eq_none] at hn ⊢
      exact (nameOf_congr cleanupWith_clients).trans hn
    · simp only [World.sweep] at hx
      split at hx
      · obtain rfl := List.mem_singleton.1 hx
        exact id
      · exact absurd hx List.not_mem_nil
  | greeted =>
    refine ⟨fun b n hn => ho.named b n ?_, fun b hb => (ho.shape b hb).mono ?_, ho.sweep⟩
    · exact nameOf_registerUdpByToken.symm.trans hn
    · intro hn
      rw [← nameOf_eq_none] at hn ⊢
      exact nameOf_registerUdpByToken.trans hn
  | shutDown =>
    rw [World.enqueueAll_eq]
    exact ⟨ho.named, ho.shape, ho.sweep⟩

/-! ## The registry underneath -/

/-- What the handlers check before they call the registry: the listener's addresses are
fresh, names are of the right length and identity keys of the right size. -/
structure Admitted (s : ServerState) (e : Call) : Prop where
  address : FreshAddress s e
  name : ∀ a n, e.2 = .renameClient a n → n ≠ "" ∧ byteLen n ≤ Config.maxNameLen
  pubkey : ∀ a pk, e.2 = .setPubkey a pk → pk.length = 32

/-- An operation whose arguments nobody has to check. -/
theorem admitted_of_plain {op : Op} (hreg : ∀ a, op ≠ .registerClient a)
    (hname : ∀ a n, op ≠ .renameClient a n) (hkey : ∀ a pk, op ≠ .setPubkey a pk) :
    Admitted s (env, op) where
  address a ha := absurd ha (hreg a)
  name a n ha := absurd ha (hname a n)
  pubkey a pk ha := absurd ha (hkey a pk)

/-- What an event asks of the registry: the operation it is served with, if with any. -/
def World.Event.Asks : World.Event → Op → Prop
  | .accept a, .registerClient b => b = a
  | .request _ (.createChannel name), .createChannel n => n = name
  | .request a (.joinChannel ch), .joinChannel b x => b = a ∧ x = ch
  | .request a .leaveChannel, .leaveChannel b => b = a
  | .request a .stopEchoTest, .leaveChannel b => b = a
  | .request a (.setName _), .renameClient b _ => b = a
  | .request a (.hello _ _ _), .setPubkey b _ => b = a
  | .request a .startEchoTest, .startEchoTest b => b = a
  | .advance _, .removeClient _ => True
  | .tick, .cleanupWith _ _ => True
  | .udpHello token src, .registerUdpByToken t u => t = token ∧ u = src
  | _, _ => False

/-- A handler's first step is at most one admitted operation, the one that was asked for. -/
theorem Handled.call {msg : ClientMessage} {name name' : String}
    (h : Handled env s a name msg s' name' acts) :
    s' = s ∨ ∃ op, World.Event.Asks (.request a msg) op ∧ Admitted s (env, op) ∧
      exec env s op = some s' := by
  cases h with
  | refused | ignored | said | routed | listed | pinged => exact .inl rfl
  | @created chanName id hid hname hr =>
    exact .inr ⟨.createChannel chanName, rfl, admitted_of_plain (by simp) (by simp) (by simp), hr⟩
  | @joined ch token hch ha hout hr =>
    exact .inr ⟨.joinChannel a ch, ⟨rfl, rfl⟩, admitted_of_plain (by simp) (by simp) (by simp), hr⟩
  | echoed hid ha hout hdraw hr =>
    exact .inr ⟨.startEchoTest a, rfl, admitted_of_plain (by simp) (by simp) (by simp), hr⟩
  | left hmsg hl hch =>
    refine .inr ⟨.leaveChannel a, ?_, admitted_of_plain (by simp) (by simp) (by simp), ?_⟩
    · rcases hmsg with rfl | rfl <;> rfl
    · rw [exec, leaveChannel_of_lookup hl hch]
  | @renamed newName c hl hne hlen =>
    refine .inr ⟨.renameClient a (trim newName), rfl, ⟨by simp [FreshAddress], ?_, by simp⟩, ?_⟩
    · intro b n hb
      cases hb
      exact ⟨hne, hlen⟩
    · simp only [exec, renameClient, hl, ServerState.renamed]
  | @bound version protocol pk c hl hlen =>
    refine .inr ⟨.setPubkey a pk, rfl, ⟨by simp [FreshAddress], by simp, ?_⟩, ?_⟩
    · intro b q hb
      cases hb
      exact hlen
    · rw [exec, setPubkey_of_lookup hl]

/-- **A step of the server is at most one admitted operation of the registry**, the one
that its event asks for. -/
theorem World.Move.call (ho : Orderly w) (hm : World.Move env w ev w') :
    w'.state = w.state ∨
      ∃ op, ev.Asks op ∧ Admitted w.state (env, op) ∧ exec env w.state op = some w'.state := by
  cases hm with
  | turnedAway => exact .inl rfl
  | limited | hungUp => exact .inl World.state_setPending
  | @accepted a ha hr =>
    refine .inr ⟨.registerClient a, rfl, ⟨fun b hb hin => ?_, by simp, by simp⟩, ?_⟩
    swap
    · rw [exec, hr]
      rfl
    cases hb
    exact ha (ho.mem_connections hin)
  | handled hl hidle h => exact h.call
  | @advanced t action rest h =>
    rw [World.state_setPending]
    by_cases hr : ∃ a, action = .removeClient a
    · obtain ⟨a, rfl⟩ := hr
      refine .inr ⟨.removeClient a, trivial, admitted_of_plain (by simp) (by simp) (by simp), ?_⟩
      simp only [World.act, exec]
      split <;> simp [*]
    · exact .inl (World.state_act fun a ha => hr ⟨a, ha⟩)
  | swept =>
    exact .inr ⟨.cleanupWith _ _, trivial, admitted_of_plain (by simp) (by simp) (by simp), rfl⟩
  | @greeted token src =>
    exact .inr ⟨.registerUdpByToken token src, ⟨rfl, rfl⟩,
      admitted_of_plain (by simp) (by simp) (by simp), rfl⟩
  | shutDown =>
    rw [World.enqueueAll_eq]
    exact .inl rfl

/-- Whatever the event, it is at most one admitted operation. -/
theorem World.Move.registry (ho : Orderly w) (hm : World.Move env w ev w') :
    w'.state = w.state ∨
      ∃ op, Admitted w.state (env, op) ∧ exec env w.state op = some w'.state :=
  (hm.call ho).imp_right fun ⟨op, _, h⟩ => ⟨op, h⟩

/-- What a request does to the registry is what its handler does. -/
theorem World.step_request {msg : ClientMessage}
    (h : w.step (env, .request a msg) = some w') :
    ∃ name name' acts, handleMessage env w.state a name msg = some (w'.state, name', acts) := by
  simp only [World.step] at h
  split at h
  · rename_i conn hl
    split at h
    · obtain ⟨⟨s', name', acts⟩, hr, rfl⟩ := Option.map_eq_some_iff.1 h
      exact ⟨conn.name, name', acts, hr⟩
    · exact absurd h (by simp)
  · exact absurd h (by simp)

/-- A handler that answers an operation leaves the registry as the operation does, whatever
the answer. -/
theorem World.step_operation {α : Type} {msg : ClientMessage} {x : Option (α × ServerState)}
    {answer : String → α × ServerState → ServerState × List Action}
    (hmsg : ∀ name, handleMessage env w.state a name msg =
      (x.map (answer name)).map fun r => (r.1, name, r.2))
    (hanswer : ∀ name r s', (answer name (r, s')).1 = s')
    (h : w.step (env, .request a msg) = some w') : x.map Prod.snd = some w'.state := by
  obtain ⟨name, name', acts, hm⟩ := World.step_request h
  rw [hmsg] at hm
  obtain ⟨reply, hreply, he⟩ := Option.map_eq_some_iff.1 hm
  obtain ⟨⟨r, s'⟩, hx, rfl⟩ := Option.map_eq_some_iff.1 hreply
  rw [hx, Option.map_some, ← hanswer name r s']
  exact congrArg (fun t => some t.1) he

/-! ## Runs of the server -/

/-- The registry as `main` sets it up: some persistent public channels. -/
def Started (limits : Limits) (s : ServerState) : Prop :=
  Reachable Server.step (fun _ e => ∃ name, e.2 = .createPersistentChannel name) (.new limits) s

theorem Started.clients {limits : Limits} (hs : Started limits s) : s.clients = ∅ := by
  refine hs.induct (fun s => s.clients = ∅) rfl ?_
  rintro s ⟨env, op⟩ s' hi ⟨name, rfl⟩ h
  cases exec_change h with
  | refused => exact hi
  | established => exact hi

/-- Nobody is in a channel yet. -/
theorem Started.channelOf {limits : Limits} (hs : Started limits s) : s.channelOf a = none := by
  rw [ServerState.channelOf, hs.clients]
  rfl

theorem Started.reachable {limits : Limits} (hs : Started limits s) :
    Reachable Server.step Admitted (.new limits) s := by
  obtain ⟨es, hes, hrun⟩ := hs
  refine ⟨es, hes.mono ?_, hrun⟩
  rintro s ⟨env, op⟩ ⟨name, rfl⟩
  exact admitted_of_plain (by simp) (by simp) (by simp)

theorem orderly_listening (hs : s.clients = ∅) : Orderly (.listening s) where
  named a n hn := by
    rw [nameOf, World.listening, hs] at hn
    exact absurd hn (by simp)
  shape a ha := absurd ha Finmap.notMem_empty
  sweep x hx := absurd hx List.not_mem_nil

/-- **The server runs its registry.**  Whatever order its tasks take their steps in, the
tasks keep their discipline, and the registry goes through a run of admitted operations. -/
theorem reachable_registry {limits : Limits} {adm : World → Env × World.Event → Prop}
    (hs : Started limits s) (h : Reachable World.step adm (.listening s) w) :
    Orderly w ∧ Reachable Server.step Admitted (.new limits) w.state := by
  refine h.induct (fun w => Orderly w ∧ Reachable Server.step Admitted (.new limits) w.state)
    ⟨orderly_listening hs.clients, hs.reachable⟩ ?_
  rintro w e w' ⟨ho, hr⟩ - hstep
  have hm := World.step_move hstep
  refine ⟨ho.move hm, ?_⟩
  rcases hm.registry ho with heq | ⟨op, hadm, hexec⟩
  · rwa [heq]
  · exact hr.next hadm hexec

end Discipline

end Server
end TcVoice
