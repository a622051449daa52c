import Mathlib.Algebra.BigOperators.Group.List.Basic
import Mathlib.Algebra.GroupWithZero.Nat
import TcVoice.Shared.Protocol

/-!
# Serialised sizes

The messages travel as `bincode` writes them, with its default options: a variant's
tag in four bytes, integers at their width, and every string and vector behind its
length in eight.  What the code relies on is the size that comes to.

* `ServerMessage.serializedSize`, `ClientMessage.serializedSize` — the size of a message.
* `Bincode` — a serialiser of these sizes, which is all the results ask of it;
  `Bincode.fixint` writes the bytes.
-/

namespace TcVoice

/-! ## Sizes -/

/-- A string behind its length. -/
def stringSize (s : String) : ℕ := 8 + byteLen s

/-- A byte vector behind its length. -/
def bytesSize (b : Bytes) : ℕ := 8 + b.length

/-- A public channel: its id and its count in four bytes. -/
def ChannelInfo.serializedSize (c : ChannelInfo) : ℕ := stringSize c.channelId + 4

/-- The size of a message to a client. -/
def ServerMessage.serializedSize : ServerMessage → ℕ
  | .welcome version _ => 4 + stringSize version + 2
  | .channelCreated id => 4 + stringSize id
  | .joinedChannel id participants _ key =>
    4 + stringSize id + (8 + (participants.map stringSize).sum) + 8 + bytesSize key
  | .peerJoined name => 4 + stringSize name
  | .peerLeft name => 4 + stringSize name
  | .leftChannel => 4
  | .chatMessage sender text => 4 + stringSize sender + stringSize text
  | .directMessage fromPubkey fromName text =>
    4 + bytesSize fromPubkey + stringSize fromName + stringSize text
  | .nameChanged oldName newName => 4 + stringSize oldName + stringSize newName
  | .channelList channels => 4 + (8 + (channels.map ChannelInfo.serializedSize).sum)
  | .error message => 4 + stringSize message
  | .pong => 4
  | .echoTestReady id _ key => 4 + stringSize id + 8 + bytesSize key

/-- The size of a message to the server. -/
def ClientMessage.serializedSize : ClientMessage → ℕ
  | .hello version _ pubkey => 4 + stringSize version + 2 + (1 + (pubkey.map bytesSize).getD 0)
  | .createChannel name => 4 + (1 + (name.map stringSize).getD 0)
  | .joinChannel channelId => 4 + stringSize channelId
  | .chatMessage text => 4 + stringSize text
  | .directMessage toPubkey text => 4 + bytesSize toPubkey + stringSize text
  | .setName name => 4 + stringSize name
  | .leaveChannel | .listChannels | .ping | .startEchoTest | .stopEchoTest => 4

/-- `bincode::serialize` of the messages to clients, as far as the code relies on it. -/
structure Bincode where
  serialize : ServerMessage → Bytes
  length_serialize : ∀ msg, (serialize msg).length = msg.serializedSize

/-! ## The bytes -/

/-- An integer in `k` bytes, the lowest first. -/
def toLeBytes (k n : ℕ) : Bytes := (List.range k).map fun i => .ofNat (n / 256 ^ i)

/-- The bytes of a string. -/
def stringBytes (s : String) : Bytes := toLeBytes 8 (byteLen s) ++ s.toByteArray.data.toList

/-- Some bytes behind their number. -/
def vecBytes (b : Bytes) : Bytes := toLeBytes 8 b.length ++ b

def ChannelInfo.bytes (c : ChannelInfo) : Bytes :=
  stringBytes c.channelId ++ toLeBytes 4 c.participantCount

/-- A message to a client: the tag of its variant and its fields in order. -/
def ServerMessage.bytes : ServerMessage → Bytes
  | .welcome version protocol => toLeBytes 4 0 ++ stringBytes version ++ toLeBytes 2 protocol
  | .channelCreated id => toLeBytes 4 1 ++ stringBytes id
  | .joinedChannel id participants token key =>
    toLeBytes 4 2 ++ stringBytes id ++
      (toLeBytes 8 participants.length ++ participants.flatMap stringBytes) ++
      toLeBytes 8 token.toNat ++ vecBytes key
  | .peerJoined name => toLeBytes 4 3 ++ stringBytes name
  | .peerLeft name => toLeBytes 4 4 ++ stringBytes name
  | .leftChannel => toLeBytes 4 5
  | .chatMessage sender text => toLeBytes 4 6 ++ stringBytes sender ++ stringBytes text
  | .directMessage fromPubkey fromName text =>
    toLeBytes 4 7 ++ vecBytes fromPubkey ++ stringBytes fromName ++ stringBytes text
  | .nameChanged oldName newName => toLeBytes 4 8 ++ stringBytes oldName ++ stringBytes newName
  | .channelList channels =>
    toLeBytes 4 9 ++ (toLeBytes 8 channels.length ++ channels.flatMap ChannelInfo.bytes)
  | .error message => toLeBytes 4 10 ++ stringBytes message
  | .pong => toLeBytes 4 11
  | .echoTestReady id token key =>
    toLeBytes 4 12 ++ stringBytes id ++ toLeBytes 8 token.toNat ++ vecBytes key

@[simp] theorem length_toLeBytes (k n : ℕ) : (toLeBytes k n).length = k := by
  simp [toLeBytes]

@[simp] theorem length_stringBytes (s : String) : (stringBytes s).length = stringSize s := by
  rw [stringBytes, List.length_append, length_toLeBytes]
  rfl

@[simp] theorem length_vecBytes (b : Bytes) : (vecBytes b).length = bytesSize b := by
  rw [vecBytes, List.length_append, length_toLeBytes, bytesSize]

@[simp] theorem ChannelInfo.length_bytes (c : ChannelInfo) : c.bytes.length = c.serializedSize := by
  rw [bytes, List.length_append, length_stringBytes, length_toLeBytes, serializedSize]

theorem ServerMessage.length_bytes (msg : ServerMessage) :
    msg.bytes.length = msg.serializedSize := by
  cases msg <;> simp [bytes, serializedSize, List.length_flatMap, Nat.add_assoc]

/-- The serialiser that writes these bytes. -/
def Bincode.fixint : Bincode where
  serialize := ServerMessage.bytes
  length_serialize := ServerMessage.length_bytes

end TcVoice
