import Mathlib.Data.Vector.Basic
import TcVoice.Shared.Config

/-!
# Channel ids and control messages

The ids and the two message types of `crates/shared/src/protocol.rs`: what
travels on the TCP control connection, from client to server (`ClientMessage`)
and from server to client (`ServerMessage`).

* `generateChannelId` — a random id from five draws in `charset`.
* `startsWith`, with `generateChannelId_not_public` — a generated id never
  carries the prefix of a public channel, and an echo id never does either.
-/

namespace TcVoice

/-- A channel id. -/
abbrev ChannelId := String

/-- A byte vector (`Vec<u8>`). -/
abbrev Bytes := List UInt8

/-- `str::len`: the length in bytes. -/
def byteLen (s : String) : ℕ := s.utf8ByteSize

/-- `str::starts_with`. -/
def startsWith (s pre : String) : Bool := pre.toList.isPrefixOf s.toList

/-! ## Generated ids -/

/-- The letters `generate_channel_id` draws from. -/
def charset : List Char := "abcdefghjkmnpqrstuvwxyz23456789".toList

/-- The draws behind one generated id: an index into `charset` for each letter. -/
abbrev IdDraw := Vector (Fin 31) Config.channelIdLen

/-- `generate_channel_id`. -/
def generateChannelId (draw : IdDraw) : ChannelId :=
  String.ofList (draw.toList.map fun i : Fin 31 => charset.getD i 'a')

theorem charset_getD_mem (i : Fin 31) : charset.getD i 'a' ∈ charset := by
  revert i
  decide

theorem toList_generateChannelId (draw : IdDraw) :
    (generateChannelId draw).toList = draw.toList.map fun i : Fin 31 => charset.getD i 'a' := by
  rw [generateChannelId, String.toList_ofList]

/-- A generated id is `CHANNEL_ID_LEN` letters of the charset. -/
theorem generateChannelId_spec (draw : IdDraw) :
    (generateChannelId draw).toList.length = Config.channelIdLen ∧
      ∀ c ∈ (generateChannelId draw).toList, c ∈ charset := by
  rw [toList_generateChannelId]
  refine ⟨by simp, fun c hc => ?_⟩
  obtain ⟨i, -, rfl⟩ := List.mem_map.1 hc
  exact charset_getD_mem i

theorem startsWith_iff {s pre : String} :
    startsWith s pre = true ↔ pre.toList <+: s.toList := List.isPrefixOf_iff_prefix

/-- The letters of a generated id leave no room for the dash of the public prefix. -/
theorem generateChannelId_not_public (draw : IdDraw) :
    startsWith (generateChannelId draw) Config.publicChannelPrefix = false := by
  rw [Bool.eq_false_iff]
  intro h
  have hdash : '-' ∈ (generateChannelId draw).toList :=
    (startsWith_iff.1 h).subset (by decide)
  exact absurd ((generateChannelId_spec draw).2 _ hdash) (by decide)

theorem startsWith_append (pre s : String) : startsWith (pre ++ s) pre = true := by
  rw [startsWith_iff, String.toList_append]
  exact List.prefix_append _ _

/-- An echo channel is not a public one. -/
theorem echo_not_public (s : String) :
    startsWith (Config.echoChannelPrefix ++ s) Config.publicChannelPrefix = false := by
  rw [Bool.eq_false_iff]
  intro h
  have hpre := startsWith_iff.1 h
  rw [String.toList_append] at hpre
  obtain ⟨t, ht⟩ := hpre
  have hhead := congrArg List.head? ht
  simp [Config.publicChannelPrefix, Config.echoChannelPrefix] at hhead

/-! ## Messages -/

/-- Control messages from a client to the server. -/
inductive ClientMessage where
  /-- First message after connect: the client's version and identity. -/
  | hello (version : String) (protocol : ℕ) (pubkey : Option Bytes)
  /-- Create a channel; a name makes it the public channel `pub-<name>`. -/
  | createChannel (name : Option String)
  | joinChannel (channelId : ChannelId)
  | leaveChannel
  /-- List the public channels. -/
  | listChannels
  | chatMessage (text : String)
  /-- A message to the peer with this identity key. -/
  | directMessage (toPubkey : Bytes) (text : String)
  | setName (name : String)
  | ping
  /-- Start a sound check in an echo channel of the client's own. -/
  | startEchoTest
  | stopEchoTest
  deriving DecidableEq, Repr

/-- A public channel in a channel list. -/
structure ChannelInfo where
  channelId : ChannelId
  participantCount : ℕ
  deriving DecidableEq, Repr

/-- Control messages from the server to a client. -/
inductive ServerMessage where
  /-- First message after connect. -/
  | welcome (version : String) (protocol : ℕ)
  | channelCreated (channelId : ChannelId)
  /-- The join params: who is there, the UDP hello token and the voice key. -/
  | joinedChannel (channelId : ChannelId) (participants : List String) (udpToken : UInt64)
      (voiceKey : Bytes)
  | peerJoined (peerName : String)
  | peerLeft (peerName : String)
  | leftChannel
  | chatMessage (sender text : String)
  | directMessage (fromPubkey : Bytes) (fromName text : String)
  /-- A rename; an empty old name tells a client what it was called on connect. -/
  | nameChanged (oldName newName : String)
  | channelList (channels : List ChannelInfo)
  | error (message : String)
  | pong
  /-- The join params of a sound check's echo channel. -/
  | echoTestReady (channelId : ChannelId) (udpToken : UInt64) (voiceKey : Bytes)
  deriving DecidableEq, Repr

end TcVoice
