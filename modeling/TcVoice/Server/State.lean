import TcVoice.Lib.Table
import TcVoice.Shared.Protocol

/-!
# The server's registry

`crates/server/src/state.rs`: who is connected, which channels exist, who is in
them, and which UDP addresses their voice is relayed to.  Every function here is
one lock-protected operation of `ServerState`; it takes the state before and
returns its result with the state after.

What an operation reads from outside the registry is in its `Env`: the clock,
the random draws and the order a hash table is traversed in.  The loops that
draw until they find an unused value search the draws listed there, and an
operation that runs out of them has not returned yet (`none`).

Metrics and log lines are left out, and so is the rate-limit multiplier, which
the registry only stores.
-/

namespace TcVoice

/-! ## Socket addresses -/

/-- An IP address. -/
inductive IpAddr where
  | v4 (bits : BitVec 32)
  | v6 (bits : BitVec 128)
  deriving DecidableEq, Repr

/-- `IpAddr::to_canonical`: a v4-mapped IPv6 address (`::ffff:a.b.c.d`) as the IPv4 one. -/
def IpAddr.toCanonical : IpAddr → IpAddr
  | .v4 bits => .v4 bits
  | .v6 bits => if bits >>> 32 = 0xffff then .v4 (bits.setWidth 32) else .v6 bits

/-- A socket address. -/
inductive SocketAddr where
  | v4 (ip : BitVec 32) (port : BitVec 16)
  | v6 (ip : BitVec 128) (port : BitVec 16) (flowinfo scopeId : BitVec 32)
  deriving DecidableEq, Repr

/-- `SocketAddr::ip`. -/
def SocketAddr.ip : SocketAddr → IpAddr
  | .v4 ip _ => .v4 ip
  | .v6 ip _ _ _ => .v6 ip

namespace Server

/-! ## The state -/

/-- What the registry knows of a connected client. -/
structure ClientInfo where
  name : String
  channel : Option ChannelId
  udpAddr : Option SocketAddr
  pubkey : Option Bytes
  deriving DecidableEq, Repr

/-- Resource limits; `0` is unlimited. -/
structure Limits where
  maxChannels : ℕ
  maxClients : ℕ
  deriving DecidableEq, Repr

/-- The tables behind the registry's lock. -/
structure Inner where
  /-- The UDP addresses registered in each channel. -/
  channels : Table ChannelId (Finset SocketAddr)
  /-- The clients by TCP address. -/
  clients : Table SocketAddr ClientInfo
  /-- Identity key to TCP address, for direct messages. -/
  pubkeyIndex : Table Bytes SocketAddr
  /-- The voice key of each channel. -/
  channelKeys : Table ChannelId Bytes
  /-- When each channel was created. -/
  channelCreatedAt : Table ChannelId ℕ
  /-- Channels that survive being empty. -/
  persistent : Finset ChannelId
  /-- UDP hello tokens: the TCP address and channel they stand for, and their age. -/
  udpTokens : Table UInt64 (SocketAddr × ChannelId × ℕ)
  /-- Counter for the names handed out. -/
  nameCounter : UInt64
  limits : Limits

/-- The registry, with the relay's cache of each channel's peers. -/
structure ServerState extends Inner where
  peerCache : Table ChannelId (List SocketAddr)

/-- What the outside world supplies to one operation. -/
structure Env where
  /-- The clock, in nanoseconds. -/
  now : ℕ
  /-- Draws for channel ids, in the order they are made. -/
  ids : List IdDraw
  /-- The draw for a voice key. -/
  key : Vector UInt8 Config.voiceKeyLen
  /-- Draws for UDP tokens, in the order they are made. -/
  tokens : List UInt64
  /-- Traversal order of a set of addresses. -/
  addrOrder : HashOrder SocketAddr
  /-- Traversal order of names and ids. -/
  nameOrder : HashOrder String
  /-- Traversal order of the public channels. -/
  listOrder : HashOrder ChannelInfo

/-- What a join hands to the client. -/
structure JoinParams where
  participants : List String
  udpToken : UInt64
  voiceKey : Bytes
  deriving DecidableEq, Repr

/-- `ServerState::new`. -/
def ServerState.new (limits : Limits) : ServerState where
  channels := ∅
  clients := ∅
  pubkeyIndex := ∅
  channelKeys := ∅
  channelCreatedAt := ∅
  persistent := ∅
  udpTokens := ∅
  nameCounter := 0
  limits := limits
  peerCache := ∅

namespace ServerState

/-- The channel a client is in, if it is connected and in one. -/
def channelOf (s : ServerState) (a : SocketAddr) : Option ChannelId :=
  (s.clients.lookup a).bind ClientInfo.channel

/-- The UDP address a client has registered. -/
def udpOf (s : ServerState) (a : SocketAddr) : Option SocketAddr :=
  (s.clients.lookup a).bind ClientInfo.udpAddr

/-- The participant set of a channel, empty when there is no such channel. -/
def participants (s : ServerState) (ch : ChannelId) : Finset SocketAddr :=
  (s.channels.lookup ch).getD ∅

/-- Is some connected client in the channel? -/
def occupied (s : ServerState) (ch : ChannelId) : Bool :=
  s.clients.any fun _ c => decide (c.channel = some ch)

/-- Is there no room for one more channel? -/
def channelsFull (s : ServerState) : Bool :=
  decide (0 < s.limits.maxChannels ∧ s.limits.maxChannels ≤ s.channels.len)

/-! ## The peer cache -/

/-- `update_channel_peers`: store the channel's participants in the cache.
Swapping the entry that is there and adding a new one come to the same map. -/
def updateChannelPeers (env : Env) (s : ServerState) (ch : ChannelId) : ServerState :=
  { s with peerCache := s.peerCache.insert ch (env.addrOrder.toList (s.participants ch).val) }

/-- `remove_channel_from_cache`. -/
def removeChannelFromCache (s : ServerState) (ch : ChannelId) : ServerState :=
  if ch ∉ s.peerCache then s else { s with peerCache := s.peerCache.erase ch }

/-- `fill_channel_peers`: overwrite the buffer with the channel's peers but the sender. -/
def fillChannelPeers (s : ServerState) (ch : ChannelId) (exclude : SocketAddr)
    (out : List SocketAddr) : List SocketAddr :=
  let out := out.take 0
  match s.peerCache.lookup ch with
  | some peers => out ++ peers.filter (· ≠ exclude)
  | none => out

/-! ## Clients -/

/-- `register_client`: the assigned name, or an error at capacity. -/
def registerClient (s : ServerState) (a : SocketAddr) : Except String String × ServerState :=
  if 0 < s.limits.maxClients ∧ s.limits.maxClients ≤ s.clients.len then
    (.error "server full", s)
  else
    let counter := s.nameCounter + 1
    let name := "user-" ++ toString counter.toNat
    (.ok name, { s with
      nameCounter := counter
      clients := s.clients.insert a ⟨name, none, none, none⟩ })

/-- Drop an identity key, if there is one, from the index. -/
def unbindKey (index : Table Bytes SocketAddr) (key : Option Bytes) : Table Bytes SocketAddr :=
  match key with
  | some pk => index.erase pk
  | none => index

/-- `set_pubkey`: bind an identity key to a connection, last writer wins. -/
def setPubkey (s : ServerState) (a : SocketAddr) (pk : Bytes) : ServerState :=
  match s.clients.lookup a with
  | none => s
  | some c =>
    let index := if c.pubkey ≠ some pk then unbindKey s.pubkeyIndex c.pubkey else s.pubkeyIndex
    { s with
      clients := s.clients.insert a { c with pubkey := some pk }
      pubkeyIndex := index.insert pk a }

/-- `lookup_pubkey`. -/
def lookupPubkey (s : ServerState) (pk : Bytes) : Option SocketAddr := s.pubkeyIndex.lookup pk

/-- `rename_client`: the old name and the client's channel. -/
def renameClient (s : ServerState) (a : SocketAddr) (newName : String) :
    Option (String × Option ChannelId) × ServerState :=
  match s.clients.lookup a with
  | none => (none, s)
  | some c =>
    (some (c.name, c.channel), { s with clients := s.clients.insert a { c with name := newName } })

/-- `get_client`. -/
def getClient (s : ServerState) (a : SocketAddr) : Option ClientInfo := s.clients.lookup a

/-- Take a leaver's UDP address, if it had one, out of a participant set. -/
def removeAddr (udp : Option SocketAddr) (ps : Finset SocketAddr) : Finset SocketAddr :=
  match udp with
  | some u => ps.erase u
  | none => ps

/-- The end of `remove_client` and of `leave_channel`: take the leaver's UDP address
out of the channel, destroy the channel if that leaves the set empty (unless it is
persistent), and bring the peer cache up to date. -/
def dropParticipant (env : Env) (s : ServerState) (ch : ChannelId) (udp : Option SocketAddr) :
    ServerState :=
  match s.channels.lookup ch with
  | some ps =>
    let ps' := removeAddr udp ps
    if ps' = ∅ ∧ ch ∉ s.persistent then
      removeChannelFromCache { s with
        channels := s.channels.erase ch
        channelKeys := s.channelKeys.erase ch
        channelCreatedAt := s.channelCreatedAt.erase ch } ch
    else updateChannelPeers env { s with channels := s.channels.insert ch ps' } ch
  | none => updateChannelPeers env s ch

/-- The tokens that do not stand for the client `a`. -/
def tokensWithout (s : ServerState) (a : SocketAddr) :
    Table UInt64 (SocketAddr × ChannelId × ℕ) :=
  s.udpTokens.retain fun _ t => decide (t.1 ≠ a)

/-- `remove_client`: the name and channel the client had. -/
def removeClient (env : Env) (s : ServerState) (a : SocketAddr) :
    Option (String × Option ChannelId) × ServerState :=
  match s.clients.lookup a with
  | none => (none, s)
  | some c =>
    let s₁ := { s with
      clients := s.clients.erase a
      pubkeyIndex := unbindKey s.pubkeyIndex c.pubkey
      udpTokens := s.tokensWithout a }
    (some (c.name, c.channel), match c.channel with
      | some ch => dropParticipant env s₁ ch c.udpAddr
      | none => s₁)

/-! ## Channels -/

/-- Add a channel with an empty participant set, a fresh key and its creation time. -/
def addChannel (env : Env) (s : ServerState) (id : ChannelId) : ServerState :=
  { s with
    channels := s.channels.insert id ∅
    channelKeys := s.channelKeys.insert id env.key.toList
    channelCreatedAt := s.channelCreatedAt.insert id env.now }

/-- The first drawn id under `pre` that no channel has. -/
def freshId (env : Env) (s : ServerState) (pre : String) : Option ChannelId :=
  (env.ids.map fun draw => pre ++ generateChannelId draw).find? fun id => decide (id ∉ s.channels)

/-- `create_channel`: a public channel for a name, a private one without. -/
def createChannel (env : Env) (s : ServerState) (name : Option String) :
    Option (Except String ChannelId × ServerState) :=
  if s.channelsFull then some (.error "channel limit reached", s)
  else
    match name with
    | some name =>
      let id := Config.publicChannelPrefix ++ name
      if id ∈ s.channels then some (.error ("channel '" ++ id ++ "' already exists"), s)
      else some (.ok id, s.addChannel env id)
    | none => (s.freshId env "").map fun id => (.ok id, s.addChannel env id)

/-- `create_persistent_channel`: a public channel that is never reaped. -/
def createPersistentChannel (env : Env) (s : ServerState) (name : String) :
    Option (Except String ChannelId × ServerState) :=
  (s.createChannel env (some name)).map fun
    | (.ok id, s') => (.ok id, { s' with persistent := insert id s'.persistent })
    | (.error e, s') => (.error e, s')

/-- The public channels with the number of clients in each, in no particular order. -/
def publicChannels (s : ServerState) : Multiset ChannelInfo :=
  s.channels.collect (fun id _ => startsWith id Config.publicChannelPrefix) fun id _ =>
    ⟨id, (s.clients.collect (fun _ c => decide (c.channel = some id)) fun a _ => a).card⟩

/-- `list_public_channels`. -/
def listPublicChannels (env : Env) (s : ServerState) : List ChannelInfo :=
  env.listOrder.toList s.publicChannels

/-- The first drawn token that is not zero and not in use. -/
def freshToken (env : Env) (s : ServerState) : Option UInt64 :=
  env.tokens.find? fun t => t != 0 && decide (t ∉ s.udpTokens)

/-- The names of the clients in a channel, in no particular order. -/
def memberNames (s : ServerState) (ch : ChannelId) : Multiset String :=
  s.clients.collect (fun _ c => decide (c.channel = some ch)) fun _ c => c.name

/-- Put a client into a channel. -/
def setChannel (s : ServerState) (a : SocketAddr) (ch : ChannelId) : ServerState :=
  { s with clients := s.clients.modify a fun c => { c with channel := some ch } }

/-- Remember a token for a client in a channel. -/
def addToken (env : Env) (s : ServerState) (token : UInt64) (a : SocketAddr) (ch : ChannelId) :
    ServerState :=
  { s with udpTokens := s.udpTokens.insert token (a, ch, env.now) }

/-- Does a join rotate the voice key?  The first client into an otherwise empty
persistent channel gets a fresh one. -/
def rotatesKey (s : ServerState) (ch : ChannelId) : Bool :=
  !s.occupied ch && decide (ch ∈ s.persistent)

/-- The forward-secrecy step of a join: mint a fresh key when the rule asks for one. -/
def rotateKey (env : Env) (s : ServerState) (ch : ChannelId) : ServerState :=
  if s.rotatesKey ch then { s with channelKeys := s.channelKeys.insert ch env.key.toList } else s

/-- `join_channel`. -/
def joinChannel (env : Env) (s : ServerState) (a : SocketAddr) (ch : ChannelId) :
    Option (Except String JoinParams × ServerState) :=
  if ch ∉ s.channels then some (.error ("channel '" ++ ch ++ "' not found"), s)
  else
    match s.clients.lookup a with
    | none => some (.error "client not registered", s)
    | some c =>
      if c.channel.isSome then some (.error "already in a channel, leave first", s)
      else
        let s₂ := (s.rotateKey env ch).setChannel a ch
        (s₂.freshToken env).map fun token =>
          let s₃ := s₂.addToken env token a ch
          (.ok {
            participants := env.nameOrder.toList (s₃.memberNames ch)
            udpToken := token
            voiceKey := (s₃.channelKeys.lookup ch).getD [] }, s₃)

/-- `start_echo_test`: create an echo channel and join it. -/
def startEchoTest (env : Env) (s : ServerState) (a : SocketAddr) :
    Option (Except String (ChannelId × UInt64 × Bytes) × ServerState) :=
  if s.channelsFull then some (.error "channel limit reached", s)
  else
    match s.clients.lookup a with
    | none => some (.error "client not registered", s)
    | some c =>
      if c.channel.isSome then some (.error "already in a channel, leave first", s)
      else
        (s.freshId env Config.echoChannelPrefix).bind fun id =>
          let s₁ := s.addChannel env id
          (s₁.freshToken env).map fun token =>
            (.ok (id, token, env.key.toList), (s₁.addToken env token a id).setChannel a id)

/-- `leave_channel`: the client's name and the channel it left. -/
def leaveChannel (env : Env) (s : ServerState) (a : SocketAddr) :
    Option (String × ChannelId) × ServerState :=
  match s.clients.lookup a with
  | none => (none, s)
  | some c =>
    match c.channel with
    | none => (none, s)
    | some ch =>
      let s₁ := { s with
        clients := s.clients.insert a { c with channel := none, udpAddr := none }
        udpTokens := s.tokensWithout a }
      (some (c.name, ch), dropParticipant env s₁ ch c.udpAddr)

/-! ## UDP registration -/

/-- Put a client's new UDP address into a participant set, in place of its old one. -/
def rebindAddr (prev : Option SocketAddr) (udp : SocketAddr) (ps : Finset SocketAddr) :
    Finset SocketAddr :=
  insert udp (match prev with
    | some old => if old ≠ udp then ps.erase old else ps
    | none => ps)

/-- `register_udp_by_token`: bind the source of a UDP hello to the token's client. -/
def registerUdpByToken (env : Env) (s : ServerState) (token : UInt64) (udp : SocketAddr) :
    Bool × ServerState :=
  match s.udpTokens.lookup token with
  | none => (false, s)
  | some (tcp, ch, _) =>
    if tcp.ip.toCanonical ≠ udp.ip.toCanonical then (false, s)
    else
      let s₁ := { s with udpTokens := s.udpTokens.modify token fun t => (t.1, t.2.1, env.now) }
      match s₁.clients.lookup tcp with
      | none => (false, s₁)
      | some c =>
        let s₂ := { s₁ with clients := s₁.clients.insert tcp { c with udpAddr := some udp } }
        let s₃ := { s₂ with channels := s₂.channels.modify ch (rebindAddr c.udpAddr udp) }
        (true, updateChannelPeers env s₃ ch)

/-- `broadcast_channel_addrs`: the members of a channel but the excluded one. -/
def broadcastChannelAddrs (s : ServerState) (ch : ChannelId) (exclude : Option SocketAddr) :
    Multiset SocketAddr :=
  s.clients.collect (fun a c => decide (c.channel = some ch) && decide (exclude ≠ some a))
    fun a _ => a

/-! ## Maintenance -/

/-- A channel the sweep takes away: no participant, no member, not persistent, and
past its grace period. -/
def isReapable (env : Env) (s : ServerState) (grace : ℕ) (id : ChannelId)
    (ps : Finset SocketAddr) : Bool :=
  decide (ps = ∅) && !s.occupied id && decide (id ∉ s.persistent) &&
    match s.channelCreatedAt.lookup id with
    | some t => decide (grace < env.now - t)
    | none => true

/-- Take one channel away, with the stale tokens for it. -/
def reapChannel (s : ServerState) (id : ChannelId) : ServerState :=
  { s with
    channels := s.channels.erase id
    channelKeys := s.channelKeys.erase id
    channelCreatedAt := s.channelCreatedAt.erase id
    udpTokens := s.udpTokens.retain fun _ t => decide (t.2.1 ≠ id) }

/-- Is the token's client still in the token's channel? -/
def isLive (s : ServerState) (t : SocketAddr × ChannelId × ℕ) : Bool :=
  decide (s.channelOf t.1 = some t.2.1)

/-- `cleanup_with`: reap the empty channels and expire the aged tokens. -/
def cleanupWith (env : Env) (s : ServerState) (grace tokenTtl : ℕ) :
    List ChannelId × ServerState :=
  let empty := env.nameOrder.toList (s.channels.collect (s.isReapable env grace) fun id _ => id)
  let s₁ := empty.foldl reapChannel s
  (empty, { s₁ with
    udpTokens := s₁.udpTokens.retain fun _ t =>
      s₁.isLive t || decide (env.now - t.2.2 < tokenTtl) })

/-- `cleanup_empty_channels`: the sweep with the server's grace period and token TTL. -/
def cleanupEmptyChannels (env : Env) (s : ServerState) : List ChannelId × ServerState :=
  s.cleanupWith env (Config.maintenanceIntervalSecs * 2 * 1000000000)
    (Config.udpTokenTtlSecs * 1000000000)

end ServerState
end Server
end TcVoice
