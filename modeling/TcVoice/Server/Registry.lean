import TcVoice.Lib.Runs
import TcVoice.Server.Laws
import Mathlib.Data.List.Lex

/-!
# Runs of the registry

The operations of `TcVoice.Server.State` as the steps of one system, in any
order, with any arguments, at any clock reading and under any random draws.

* `Op`, `exec`, `step` — an operation with its arguments, and its effect.
* `Change`, `exec_change` — **everything a step can do**: each way an operation
  ends, with the conditions it ended that way under and the state it left.
  Every invariant of the registry is a case analysis of `Change`.
* `FreshAddress` — what the TCP listener guarantees of `register_client`.
* `forall_departing_iff` — what is asked of departures, asked of one.
* `Env.sample` — a small world to run examples in.
-/

namespace TcVoice
namespace Server

open Runs Table ServerState

/-! ## Operations -/

/-- A registry operation with its arguments. -/
inductive Op where
  | registerClient (a : SocketAddr)
  | setPubkey (a : SocketAddr) (pk : Bytes)
  | renameClient (a : SocketAddr) (name : String)
  | removeClient (a : SocketAddr)
  | createChannel (name : Option String)
  | createPersistentChannel (name : String)
  | joinChannel (a : SocketAddr) (ch : ChannelId)
  | startEchoTest (a : SocketAddr)
  | leaveChannel (a : SocketAddr)
  | registerUdpByToken (token : UInt64) (udp : SocketAddr)
  | cleanupWith (grace tokenTtl : ℕ)
  deriving DecidableEq, Repr

/-- The state after an operation; `none` while one of its draw loops is still running. -/
def exec (env : Env) (s : ServerState) : Op → Option ServerState
  | .registerClient a => some (s.registerClient a).2
  | .setPubkey a pk => some (s.setPubkey a pk)
  | .renameClient a name => some (s.renameClient a name).2
  | .removeClient a => some (s.removeClient env a).2
  | .createChannel name => (s.createChannel env name).map Prod.snd
  | .createPersistentChannel name => (s.createPersistentChannel env name).map Prod.snd
  | .joinChannel a ch => (s.joinChannel env a ch).map Prod.snd
  | .startEchoTest a => (s.startEchoTest env a).map Prod.snd
  | .leaveChannel a => some (s.leaveChannel env a).2
  | .registerUdpByToken token udp => some (s.registerUdpByToken env token udp).2
  | .cleanupWith grace ttl => some (s.cleanupWith env grace ttl).2

/-- One operation, with what the outside world supplied to it. -/
abbrev Call := Env × Op

/-- The step of the system: one call. -/
def step (s : ServerState) (e : Call) : Option ServerState := exec e.1 s e.2

/-- The TCP listener never hands out the address of a connection that is still open. -/
def FreshAddress (s : ServerState) (e : Call) : Prop :=
  ∀ a, e.2 = .registerClient a → a ∉ s.clients

instance (s : ServerState) (e : Call) : Decidable (FreshAddress s e) :=
  match e with
  | (_, .registerClient a) =>
    decidable_of_iff (a ∉ s.clients) ⟨fun h b hb => by cases hb; exact h, fun h => h a rfl⟩
  | (_, .setPubkey ..) | (_, .renameClient ..) | (_, .removeClient ..) | (_, .createChannel ..)
  | (_, .createPersistentChannel ..) | (_, .joinChannel ..) | (_, .startEchoTest ..)
  | (_, .leaveChannel ..) | (_, .registerUdpByToken ..) | (_, .cleanupWith ..) =>
    isTrue fun _ h => by cases h

/-! ## What a step can do -/

/-- Why an operation leaves the registry as it was. -/
def Refused (env : Env) (s : ServerState) : Op → Prop
  | .registerClient a => ∃ e, s.registerClient a = (.error e, s)
  | .setPubkey a _ | .renameClient a _ | .removeClient a => a ∉ s.clients
  | .createChannel name => ∃ e, s.createChannel env name = some (.error e, s)
  | .createPersistentChannel name => ∃ e, s.createPersistentChannel env name = some (.error e, s)
  | .joinChannel a ch => ∃ e, s.joinChannel env a ch = some (.error e, s)
  | .startEchoTest a => ∃ e, s.startEchoTest env a = some (.error e, s)
  | .leaveChannel a => s.channelOf a = none
  | .registerUdpByToken token udp => ∀ tcp ch created,
      s.udpTokens.lookup token = some (tcp, ch, created) →
        tcp.ip.toCanonical ≠ udp.ip.toCanonical
  | .cleanupWith _ _ => False

/-- Everything a step can do: how the operation ended, and the state it left. -/
inductive Change (env : Env) (s : ServerState) : Op → ServerState → Prop
  | refused {op : Op} (h : Refused env s op) : Change env s op s
  | registered {a : SocketAddr} : Change env s (.registerClient a) (s.registered a)
  | rekeyed {a : SocketAddr} {pk : Bytes} {c : ClientInfo} (h : s.clients.lookup a = some c) :
      Change env s (.setPubkey a pk) (s.rekeyed a c pk)
  | renamed {a : SocketAddr} {name : String} {c : ClientInfo} (h : s.clients.lookup a = some c) :
      Change env s (.renameClient a name) (s.renamed a c name)
  | removed {a : SocketAddr} {c : ClientInfo} (h : s.clients.lookup a = some c)
      (hch : c.channel = none) : Change env s (.removeClient a) (s.withoutClient a c)
  | hungUp {a : SocketAddr} {c : ClientInfo} {ch : ChannelId} (h : s.clients.lookup a = some c)
      (hch : c.channel = some ch) :
      Change env s (.removeClient a) ((s.withoutClient a c).dropParticipant env ch c.udpAddr)
  | created {name : Option String} {id : ChannelId} (hid : id ∉ s.channels) (hname : IdFor name id)
      (hr : s.createChannel env name = some (.ok id, s.addChannel env id)) :
      Change env s (.createChannel name) (s.addChannel env id)
  | established {name : String} {id : ChannelId} (hid : id ∉ s.channels)
      (hname : id = Config.publicChannelPrefix ++ name)
      (hr : s.createPersistentChannel env name =
        some (.ok id, { s.addChannel env id with persistent := insert id s.persistent })) :
      Change env s (.createPersistentChannel name)
        { s.addChannel env id with persistent := insert id s.persistent }
  | joined {a : SocketAddr} {ch : ChannelId} {token : UInt64} (hch : ch ∈ s.channels)
      (ha : a ∈ s.clients) (hout : s.channelOf a = none) (h0 : token ≠ 0)
      (htok : token ∉ s.udpTokens)
      (hr : s.joinChannel env a ch = some (.ok {
        participants := env.nameOrder.toList ((s.joined env a ch token).memberNames ch)
        udpToken := token
        voiceKey := ((s.joined env a ch token).channelKeys.lookup ch).getD [] },
        s.joined env a ch token)) :
      Change env s (.joinChannel a ch) (s.joined env a ch token)
  | echoed {a : SocketAddr} {id : ChannelId} {token : UInt64} (hid : id ∉ s.channels)
      (ha : a ∈ s.clients) (hout : s.channelOf a = none) (h0 : token ≠ 0)
      (htok : token ∉ s.udpTokens)
      (hdraw : ∃ draw, id = Config.echoChannelPrefix ++ generateChannelId draw)
      (hr : s.startEchoTest env a =
        some (.ok (id, token, env.key.toList), s.echoed env a id token)) :
      Change env s (.startEchoTest a) (s.echoed env a id token)
  | left {a : SocketAddr} {c : ClientInfo} {ch : ChannelId} (h : s.clients.lookup a = some c)
      (hch : c.channel = some ch) :
      Change env s (.leaveChannel a) ((s.withoutMember a c).dropParticipant env ch c.udpAddr)
  | renewed {token : UInt64} {udp tcp : SocketAddr} {ch : ChannelId} {created : ℕ}
      (ht : s.udpTokens.lookup token = some (tcp, ch, created)) (htcp : tcp ∉ s.clients) :
      Change env s (.registerUdpByToken token udp)
        { s with udpTokens := s.udpTokens.modify token fun t => (t.1, t.2.1, env.now) }
  | greeted {token : UInt64} {udp tcp : SocketAddr} {ch : ChannelId} {created : ℕ}
      {c : ClientInfo} (ht : s.udpTokens.lookup token = some (tcp, ch, created))
      (hip : tcp.ip.toCanonical = udp.ip.toCanonical) (hc : s.clients.lookup tcp = some c) :
      Change env s (.registerUdpByToken token udp) (s.greeted env token tcp c ch udp)
  | swept {grace ttl : ℕ} : Change env s (.cleanupWith grace ttl) (s.cleanupWith env grace ttl).2

/-- **Every step is one of these changes.** -/
theorem exec_change {env : Env} {s s' : ServerState} {op : Op} (h : exec env s op = some s') :
    Change env s op s' := by
  cases op with
  | registerClient a =>
    cases h
    obtain ⟨heq, e, hr⟩ | ⟨-, heq⟩ :=
      registerClient_cases (s := s) (a := a) (Prod.mk.eta).symm
    · rw [heq]; exact .refused ⟨e, Prod.ext hr heq⟩
    · rw [heq]; exact .registered
  | setPubkey a pk =>
    cases h
    cases hl : s.clients.lookup a with
    | none =>
      have hn := (notMem_iff_lookup _ _).2 hl
      rw [setPubkey_of_notMem hn]
      exact .refused hn
    | some c => rw [setPubkey_of_lookup hl]; exact .rekeyed hl
  | renameClient a name =>
    cases h
    obtain ⟨hl, -, heq⟩ | ⟨c, hl, -, heq⟩ :=
      renameClient_cases (Prod.mk.eta (p := s.renameClient a name)).symm
    · rw [heq]; exact .refused ((notMem_iff_lookup _ _).2 hl)
    · rw [heq]; exact .renamed hl
  | removeClient a =>
    cases h
    cases hl : s.clients.lookup a with
    | none =>
      have hn := (notMem_iff_lookup _ _).2 hl
      rw [removeClient_of_notMem hn]
      exact .refused hn
    | some c =>
      rw [removeClient_of_lookup hl]
      cases hch : c.channel with
      | none => exact .removed hl hch
      | some ch => exact .hungUp hl hch
  | createChannel name =>
    obtain ⟨⟨r, s₁⟩, hc, rfl⟩ := Option.map_eq_some_iff.1 h
    obtain ⟨rfl, e, rfl⟩ | ⟨id, rfl, hid, rfl, hname⟩ := createChannel_cases hc
    · exact .refused ⟨e, hc⟩
    · exact .created hid hname hc
  | createPersistentChannel name =>
    obtain ⟨⟨r, s₁⟩, hc, rfl⟩ := Option.map_eq_some_iff.1 h
    obtain ⟨rfl, e, rfl⟩ | ⟨id, rfl, hname, hid, rfl⟩ := createPersistentChannel_cases hc
    · exact .refused ⟨e, hc⟩
    · exact .established hid hname hc
  | joinChannel a ch =>
    obtain ⟨⟨r, s₁⟩, hc, rfl⟩ := Option.map_eq_some_iff.1 h
    obtain ⟨rfl, e, rfl⟩ | ⟨token, hch, ha, hout, h0, htok, rfl, rfl⟩ := joinChannel_cases hc
    · exact .refused ⟨e, hc⟩
    · exact .joined hch ha hout h0 htok hc
  | startEchoTest a =>
    obtain ⟨⟨r, s₁⟩, hc, rfl⟩ := Option.map_eq_some_iff.1 h
    obtain ⟨rfl, e, rfl⟩ | ⟨id, token, hid, ha, hout, h0, htok, hdraw, rfl, rfl⟩ :=
      startEchoTest_cases hc
    · exact .refused ⟨e, hc⟩
    · exact .echoed hid ha hout h0 htok hdraw hc
  | leaveChannel a =>
    cases h
    cases hout : s.channelOf a with
    | none => rw [leaveChannel_of_channelOf_none hout]; exact .refused hout
    | some ch =>
      obtain ⟨c, hl, hch⟩ := channelOf_eq_some.1 hout
      rw [leaveChannel_of_lookup hl hch]
      exact .left hl hch
  | registerUdpByToken token udp =>
    cases h
    obtain ⟨-, heq, hno⟩ | ⟨tcp, ch, created, ht, htcp, -, heq⟩ |
        ⟨tcp, ch, created, c, ht, hip, hc, -, heq⟩ :=
      registerUdpByToken_cases (Prod.mk.eta (p := s.registerUdpByToken env token udp)).symm
    · rw [heq]; exact .refused hno
    · rw [heq]; exact .renewed ht htcp
    · rw [heq]; exact .greeted ht hip hc
  | cleanupWith grace ttl => cases h; exact .swept

/-! ## Who departs -/

/-- A client that is refused a departure is in no channel. -/
theorem channelOf_of_refused {env : Env} {s : ServerState} {op : Op} {a : SocketAddr}
    (h : Refused env s op) (hop : op = .leaveChannel a ∨ op = .removeClient a) :
    s.channelOf a = none := by
  rcases hop with rfl | rfl
  · exact h
  · have hnone : s.clients.lookup a = none := (notMem_iff_lookup _ _).1 h
    rw [channelOf, hnone]
    rfl

/-- What is said of every client that leaves or is disconnected in a step, and of the channel
it is in, is said of the one that does. -/
theorem forall_departing_iff {s : ServerState} {op : Op} {P : SocketAddr → ChannelId → Prop}
    {a : SocketAddr} {ch : ChannelId} (hop : op = .leaveChannel a ∨ op = .removeClient a)
    (ha : s.channelOf a = some ch) :
    (∀ b, (op = .leaveChannel b ∨ op = .removeClient b) →
        ∀ x, s.channelOf b = some x → P b x) ↔ P a ch := by
  constructor
  · intro h
    exact h a hop ch ha
  · intro hp b hb x hx
    obtain rfl : a = b := by
      rcases hop with rfl | rfl <;> rcases hb with h | h <;> cases h <;> rfl
    cases Option.some.inj (ha.symm.trans hx)
    exact hp

/-! ## A world to run examples in -/

/-- Numbers to sort addresses by. -/
def addrKey : SocketAddr → List ℕ
  | .v4 ip port => [ip.toNat, port.toNat]
  | .v6 ip port flowinfo scopeId => [ip.toNat, port.toNat, flowinfo.toNat, scopeId.toNat]

theorem addrKey_injective : Function.Injective addrKey := by
  rintro (⟨ip, port⟩ | ⟨ip, port, flowinfo, scopeId⟩) (⟨ip', port'⟩ | ⟨ip', port', flow', scope'⟩) h
    <;> simp_all [addrKey, BitVec.toNat_inj]

/-- Numbers to sort names and ids by. -/
def nameKey (s : String) : List ℕ := s.toList.map Char.toNat

theorem nameKey_injective : Function.Injective nameKey := by
  intro s s' h
  have hchars : Function.Injective Char.toNat := fun _ _ => Char.toNat_inj.1
  exact String.toList_injective (List.map_injective_iff.2 hchars h)

/-- Numbers to sort the public channels by. -/
def infoKey (i : ChannelInfo) : List ℕ := i.participantCount :: nameKey i.channelId

theorem infoKey_injective : Function.Injective infoKey := by
  rintro ⟨id, n⟩ ⟨id', n'⟩ h
  obtain ⟨hn, hid⟩ := List.cons.inj h
  exact congrArg₂ ChannelInfo.mk (nameKey_injective hid) hn

/-- A world whose clock stands at zero, that draws one key and one token, and
visits its hash tables in sorted order. -/
def Env.sample (key : UInt8) (token : UInt64) : Env where
  now := 0
  ids := []
  key := Vector.replicate _ key
  tokens := [token]
  addrOrder := .byKey addrKey addrKey_injective
  nameOrder := .byKey nameKey nameKey_injective
  listOrder := .byKey infoKey infoKey_injective

end Server
end TcVoice
