import TcVoice.Shared.VoicePacket

/-!
# Voice packets from sender to listener

What the capture thread puts into a datagram and what a listener takes out of it:
`build_packet`, `decrypt_packet`, `parse_packet_name` and `ingest` of
`crates/client/src/voice.rs`, over the packet format of the shared crate.

* `Cipher` — the AEAD with the key of the session, which is not part of the repository:
  all that is asked of it is that it decrypts what it has encrypted.
* `buildPacket_eq` — a packet that is built is a `VoicePacket` with a nonce and
  sealed bytes for audio, whatever was in the buffer before.
* `packet_end_to_end` — **what the sender put in comes out at the relay and at the
  listener**.
* `name_heard_iff` — **a name that is cut in the middle of a character silences its
  sender**; `name_silences` is such a name.
-/

namespace TcVoice

/-! ## The cipher -/

/-- `XNonce`. -/
abbrev Nonce := {b : Bytes // b.length = Config.xchacha20NonceSize}

/-- The tag of a sealed message. -/
abbrev Tag := {b : Bytes // b.length = Config.poly1305TagSize}

/-- An AEAD with its key, for messages without associated data. -/
structure Cipher where
  /-- `encrypt_in_place_detached`: the message encrypted, and its tag. -/
  encryptInPlaceDetached : Nonce → Bytes → Option (Bytes × Tag)
  /-- `decrypt_in_place`, of an encrypted message with its tag. -/
  decryptInPlace : Nonce → Bytes → Option Bytes

namespace Cipher

/-- It decrypts what it has encrypted under the same nonce. -/
def Decrypts (cipher : Cipher) : Prop := ∀ nonce message encrypted tag,
  cipher.encryptInPlaceDetached nonce message = some (encrypted, tag) →
    cipher.decryptInPlace nonce (encrypted ++ tag.1) = some message

/-- It encrypts whatever it is given. -/
def Encrypts (cipher : Cipher) : Prop :=
  ∀ nonce message, (cipher.encryptInPlaceDetached nonce message).isSome = true

/-- It encrypts in place: byte by byte. -/
def KeepsLength (cipher : Cipher) : Prop := ∀ nonce message encrypted tag,
  cipher.encryptInPlaceDetached nonce message = some (encrypted, tag) →
    encrypted.length = message.length

/-- A message combined with a key stream. -/
def xored (stream : ℕ → UInt8) (message : Bytes) : Bytes :=
  message.mapIdx fun i b => b ^^^ stream i

/-- The construction of XChaCha20-Poly1305, from any key stream and any authenticator: the
message is combined with the key stream, and what comes out is authenticated. -/
def ofStream (stream : Nonce → ℕ → UInt8) (authenticate : Nonce → Bytes → Tag) : Cipher where
  encryptInPlaceDetached nonce message :=
    let encrypted := xored (stream nonce) message
    some (encrypted, authenticate nonce encrypted)
  decryptInPlace nonce data :=
    let encrypted := data.take (data.length - Config.poly1305TagSize)
    if (authenticate nonce encrypted).1 = data.drop encrypted.length then
      some (xored (stream nonce) encrypted)
    else none

/-- A small one: its key stream counts, and its tag repeats the checksum of the bytes. -/
def sample : Cipher :=
  ofStream (fun nonce i => .ofNat (i + nonce.1.length)) fun _ encrypted =>
    ⟨List.replicate Config.poly1305TagSize (encrypted.foldl (· ^^^ ·) 0), List.length_replicate⟩

variable {stream : Nonce → ℕ → UInt8} {authenticate : Nonce → Bytes → Tag}

theorem xored_xored (stream : ℕ → UInt8) (message : Bytes) :
    xored stream (xored stream message) = message := by
  unfold xored
  apply List.ext_getElem
  · simp only [List.length_mapIdx]
  · intro i _ _
    simp only [List.getElem_mapIdx, UInt8.xor_assoc, UInt8.xor_self, UInt8.xor_zero]

theorem ofStream_keepsLength : (ofStream stream authenticate).KeepsLength := by
  intro nonce message encrypted tag h
  cases h
  exact List.length_mapIdx

theorem ofStream_decrypts : (ofStream stream authenticate).Decrypts := by
  intro nonce message encrypted tag h
  cases h
  have hlen : (xored (stream nonce) message ++
      (authenticate nonce (xored (stream nonce) message)).1).length - Config.poly1305TagSize =
        (xored (stream nonce) message).length := by
    rw [List.length_append, (authenticate nonce (xored (stream nonce) message)).2]
    omega
  simp only [ofStream, hlen, List.take_left, List.drop_left, if_pos, xored_xored]

theorem sample_decrypts : sample.Decrypts := ofStream_decrypts

theorem sample_keepsLength : sample.KeepsLength := ofStream_keepsLength

end Cipher

/-! ## The sender -/

/-- `clear` of a buffer that is used again. -/
def clear (_buf : Bytes) : Bytes := []

/-- The name that `spawn_capture_thread` puts into every packet, cut to fit its length. -/
def nameBytes (senderName : String) : Bytes := (asBytes senderName).take 255

/-- `build_packet`: whether the packet could be encrypted, and the buffer.  The nonce is the
one that is drawn for the packet. -/
def buildPacket (cipher : Cipher) (nonce : Nonce) (packetBuf : Bytes) (sequence : UInt32)
    (channelId : ChannelId) (nameBytes opusData : Bytes) : Bool × Bytes :=
  let packetBuf := clear packetBuf
  let packetBuf := packetBuf ++ toBeBytes sequence.toNat
  let idBytes := asBytes channelId
  let packetBuf := packetBuf ++ [.ofNat idBytes.length]
  let packetBuf := packetBuf ++ idBytes
  let packetBuf := packetBuf ++ nonce.1
  let plaintextStart := packetBuf.length
  let packetBuf := packetBuf ++ [.ofNat nameBytes.length]
  let packetBuf := packetBuf ++ nameBytes
  let packetBuf := packetBuf ++ opusData
  match cipher.encryptInPlaceDetached nonce (packetBuf.drop plaintextStart) with
  | some (encrypted, tag) => (true, packetBuf.take plaintextStart ++ encrypted ++ tag.1)
  | none => (false, packetBuf)

/-- A nonce of zeros. -/
def sampleNonce : Nonce := ⟨List.replicate Config.xchacha20NonceSize 0, List.length_replicate⟩

/-- What is encrypted: the name behind its length, and the audio. -/
def plaintext (nameBytes opusData : Bytes) : Bytes :=
  .ofNat nameBytes.length :: (nameBytes ++ opusData)

/-! ## The listener -/

/-- A packet that can be decrypted begins with a nonce. -/
theorem length_nonce {encrypted : Bytes}
    (h : ¬ encrypted.length < Config.xchacha20NonceSize + Config.poly1305TagSize) :
    (encrypted.take Config.xchacha20NonceSize).length = Config.xchacha20NonceSize :=
  List.length_take_of_le ((Nat.le_add_right _ _).trans (not_lt.1 h))

/-- `decrypt_packet`: whether the packet could be decrypted, and the buffer. -/
def decryptPacket (cipher : Cipher) (encrypted out : Bytes) : Bool × Bytes :=
  if h : encrypted.length < Config.xchacha20NonceSize + Config.poly1305TagSize then (false, out)
  else
    let nonce : Nonce := ⟨encrypted.take Config.xchacha20NonceSize, length_nonce h⟩
    let out := clear out
    let out := out ++ encrypted.drop Config.xchacha20NonceSize
    match cipher.decryptInPlace nonce out with
    | some message => (true, message)
    | none => (false, out)

/-- `parse_packet_name`: the name of the sender and where the audio starts. -/
def parsePacketName : Bytes → Option (String × ℕ)
  | [] => none
  | b :: rest =>
    let nameLen := b.toNat
    if (b :: rest).length < 1 + nameLen then none
    else (fromUtf8 (rest.take nameLen)).map fun name => (name, 1 + nameLen)

/-- What `ingest` reads of its configuration. -/
structure RecvCfg where
  cipher : Cipher
  udpToken : UInt64
  ownName : String
  echoTest : Bool

/-- `ingest`: whether the relay is known to have the listener's address, the buffer, and the
name, sequence number and audio that are handed to the speaking meter and to playout. -/
def ingest (cfg : RecvCfg) (registered : Bool) (datagram decryptBuf : Bytes) :
    Bool × Bytes × Option (String × UInt32 × Bytes) :=
  if !registered && decodeUdpHello datagram == some cfg.udpToken then (true, decryptBuf, none)
  else
    match VoicePacket.parseVoiceData datagram with
    | none => (registered, decryptBuf, none)
    | some (sequence, encrypted) =>
      match decryptPacket cfg.cipher encrypted decryptBuf with
      | (false, decryptBuf) => (true, decryptBuf, none)
      | (true, decryptBuf) =>
        match parsePacketName decryptBuf with
        | none => (true, decryptBuf, none)
        | some (name, opusOffset) =>
          if !cfg.echoTest && name == cfg.ownName then (true, decryptBuf, none)
          else (true, decryptBuf, some (name, sequence, decryptBuf.drop opusOffset))

/-! ## A packet on its way -/

section Laws

variable {cipher : Cipher} {nonce : Nonce} {packetBuf packet out opusData name : Bytes}
  {sequence : UInt32} {channelId : ChannelId} {senderName : String}

/-- The header that stands in front of the nonce. -/
def packetHeader (sequence : UInt32) (channelId : ChannelId) : Bytes :=
  toBeBytes sequence.toNat ++ [.ofNat (asBytes channelId).length] ++ asBytes channelId

theorem buildPacket_unfold : buildPacket cipher nonce packetBuf sequence channelId name opusData =
    match cipher.encryptInPlaceDetached nonce (plaintext name opusData) with
    | some (encrypted, tag) =>
      (true, packetHeader sequence channelId ++ nonce.1 ++ encrypted ++ tag.1)
    | none => (false, packetHeader sequence channelId ++ nonce.1 ++ plaintext name opusData) := by
  have hbuf : ∀ header : Bytes, header ++ [UInt8.ofNat name.length] ++ name ++ opusData =
      header ++ plaintext name opusData := fun header => by
    simp only [plaintext, List.append_assoc, List.cons_append, List.nil_append]
  unfold buildPacket
  simp only [clear, List.nil_append, hbuf, List.drop_left, List.take_left]
  rfl

/-- A packet that is built is the encoding of a voice packet, with the nonce, the sealed
message and its tag in place of the audio. -/
theorem buildPacket_eq
    (h : buildPacket cipher nonce packetBuf sequence channelId name opusData = (true, packet)) :
    ∃ encrypted tag,
      cipher.encryptInPlaceDetached nonce (plaintext name opusData) = some (encrypted, tag) ∧
      packet = VoicePacket.encode ⟨sequence, channelId, nonce.1 ++ (encrypted ++ tag.1)⟩ := by
  rw [buildPacket_unfold] at h
  split at h
  · rename_i encrypted tag hseal
    refine ⟨encrypted, tag, hseal, ?_⟩
    rw [← (Prod.mk.inj h).2, packetHeader]
    simp only [VoicePacket.encode, List.append_assoc, List.cons_append, List.nil_append]
  · cases h

theorem length_plaintext (opusData : Bytes) :
    (plaintext name opusData).length = 1 + name.length + opusData.length := by
  unfold plaintext
  rw [List.length_cons, List.length_append]
  omega

/-- With a cipher that encrypts whatever it is given, a packet is always built. -/
theorem buildPacket_built (hcipher : cipher.Encrypts) (nonce : Nonce) (packetBuf : Bytes)
    (sequence : UInt32) (channelId : ChannelId) (name opusData : Bytes) :
    ∃ packet, buildPacket cipher nonce packetBuf sequence channelId name opusData =
      (true, packet) := by
  obtain ⟨⟨encrypted, tag⟩, hseal⟩ :=
    Option.isSome_iff_exists.1 (hcipher nonce (plaintext name opusData))
  rw [buildPacket_unfold, hseal]
  exact ⟨_, rfl⟩

/-- The length of a packet that is encrypted in place is that of its parts. -/
theorem length_packet (hlength : cipher.KeepsLength)
    (h : buildPacket cipher nonce packetBuf sequence channelId name opusData = (true, packet)) :
    packet.length = 4 + 1 + byteLen channelId + Config.xchacha20NonceSize + 1 + name.length +
      opusData.length + Config.poly1305TagSize := by
  obtain ⟨encrypted, tag, hseal, rfl⟩ := buildPacket_eq h
  have hlen := hlength nonce _ encrypted tag hseal
  rw [length_plaintext] at hlen
  simp only [VoicePacket.encode, List.length_append, List.length_cons, length_asBytes, nonce.2,
    tag.2, hlen]
  simp only [toBeBytes, List.length_cons, List.length_nil]
  omega

/-- A packet with a sealed message for audio is accepted as voice, and by the relay. -/
theorem parse_sealed (nonce : Nonce) (encrypted : Bytes) (tag : Tag) (hseq : sequence ≠ 0)
    (hid : byteLen channelId ≤ 255) :
    let packet := VoicePacket.encode ⟨sequence, channelId, nonce.1 ++ (encrypted ++ tag.1)⟩
    decodeUdpHello packet = none ∧ VoicePacket.parseChannelId packet = some channelId ∧
      VoicePacket.parseVoiceData packet = some (sequence, nonce.1 ++ (encrypted ++ tag.1)) := by
  intro packet
  have hne : nonce.1 ++ (encrypted ++ tag.1) ≠ [] := by
    apply List.ne_nil_of_length_pos
    rw [List.length_append, nonce.2]
    exact Nat.lt_of_lt_of_le (by decide) (Nat.le_add_right _ _)
  have hdec : VoicePacket.decode packet =
      some ⟨sequence, channelId, nonce.1 ++ (encrypted ++ tag.1)⟩ :=
    VoicePacket.decode_encode hid hne hseq
  obtain ⟨hvoice, hchannel⟩ := VoicePacket.decode_eq_some_iff.1 hdec
  refine ⟨?_, hchannel, hvoice⟩
  cases hhello : decodeUdpHello packet with
  | none => rfl
  | some token =>
    rw [VoicePacket.decode_eq_none_of_hello hhello] at hdec
    cases hdec

/-- What was sealed with a nonce is decrypted behind it. -/
theorem decryptPacket_sealed (hcipher : cipher.Decrypts) {message encrypted : Bytes} {tag : Tag}
    (hseal : cipher.encryptInPlaceDetached nonce message = some (encrypted, tag)) (out : Bytes) :
    decryptPacket cipher (nonce.1 ++ (encrypted ++ tag.1)) out = (true, message) := by
  have hlen : ¬ (nonce.1 ++ (encrypted ++ tag.1)).length <
      Config.xchacha20NonceSize + Config.poly1305TagSize := by
    rw [List.length_append, List.length_append, nonce.2, tag.2]
    omega
  have hnonce : (nonce.1 ++ (encrypted ++ tag.1)).take Config.xchacha20NonceSize =
      nonce.1 := List.take_left' nonce.2
  have hrest : (nonce.1 ++ (encrypted ++ tag.1)).drop Config.xchacha20NonceSize =
      encrypted ++ tag.1 := List.drop_left' nonce.2
  unfold decryptPacket
  simp only [dif_neg hlen, hnonce, hrest, clear, List.nil_append,
    hcipher nonce message encrypted tag hseal]

/-- A name behind a length that fits is read from the message if it is UTF-8. -/
theorem parsePacketName_plaintext (hname : name.length ≤ 255) (opusData : Bytes) :
    parsePacketName (plaintext name opusData) =
      (fromUtf8 name).map fun s => (s, 1 + name.length) := by
  have hbyte : (UInt8.ofNat name.length).toNat = name.length :=
    VoicePacket.toNat_ofNat_of_le hname
  unfold plaintext parsePacketName
  simp only [hbyte]
  rw [if_neg, List.take_left]
  simp only [List.length_cons, List.length_append]
  omega

theorem drop_plaintext (opusData : Bytes) :
    (plaintext name opusData).drop (1 + name.length) = opusData := by
  rw [plaintext, Nat.add_comm, List.drop_succ_cons, List.drop_left]

/-- **Voice from end to end.**  With a cipher that decrypts what it has encrypted: a packet
that could be built, in a buffer with anything in it, is not taken for a hello; the relay
reads the channel it is for; and the listener, whose buffer has anything in it too, reads the
sequence number, the name of the sender and, behind it, the audio. -/
theorem packet_end_to_end (cipher : Cipher) (hcipher : cipher.Decrypts) (nonce : Nonce)
    (packetBuf out : Bytes) (sequence : UInt32) (channelId : ChannelId) (senderName : String)
    (opusData packet : Bytes) (hseq : sequence ≠ 0) (hid : byteLen channelId ≤ 255)
    (hname : byteLen senderName ≤ 255) (hbuild : buildPacket cipher nonce packetBuf
      sequence channelId (nameBytes senderName) opusData = (true, packet)) :
    decodeUdpHello packet = none ∧ VoicePacket.parseChannelId packet = some channelId ∧
      ∃ encrypted message opusOffset,
        VoicePacket.parseVoiceData packet = some (sequence, encrypted) ∧
        decryptPacket cipher encrypted out = (true, message) ∧
        parsePacketName message = some (senderName, opusOffset) ∧
        message.drop opusOffset = opusData := by
  obtain ⟨encrypted, tag, hseal, rfl⟩ := buildPacket_eq hbuild
  obtain ⟨hhello, hchannel, hvoice⟩ := parse_sealed nonce encrypted tag hseq hid
  rw [← length_asBytes] at hname
  have hwhole : nameBytes senderName = asBytes senderName := List.take_of_length_le hname
  refine ⟨hhello, hchannel, _, _, _, hvoice, decryptPacket_sealed hcipher hseal out, ?_,
    drop_plaintext opusData⟩
  rw [hwhole, parsePacketName_plaintext hname, fromUtf8_asBytes]
  rfl

/-- One byte of audio of `ann`, in a buffer that still holds another packet. -/
theorem packet_end_to_end_sample : ∃ packet,
    buildPacket .sample sampleNonce [1, 2, 3] 1 "a" (nameBytes "ann") [7] = (true, packet) ∧
      VoicePacket.parseChannelId packet = some "a" :=
  ⟨_, rfl, (packet_end_to_end .sample Cipher.sample_decrypts sampleNonce [1, 2, 3] [4] 1 "a"
    "ann" [7] _ (by decide) (by decide) (by decide) rfl).2.1⟩

/-! ## Names that silence their sender -/

/-- The cut at 255 bytes does not go through a character: there is none, or some number of
whole characters takes exactly 255 bytes. -/
def CutsBetweenCharacters (senderName : String) : Prop :=
  byteLen senderName ≤ 255 ∨ ∃ k, byteLen (String.ofList (senderName.toList.take k)) = 255

theorem length_nameBytes_le (senderName : String) : (nameBytes senderName).length ≤ 255 :=
  List.length_take_le _ _

/-- Whatever is read from the name bytes is the beginning of the name. -/
theorem prefix_of_nameBytes {head : String} (h : fromUtf8 (nameBytes senderName) = some head) :
    head.toList <+: senderName.toList := by
  apply toList_prefix
  rw [fromUtf8_eq_some.1 h]
  exact List.take_prefix _ _

/-- The name bytes are UTF-8 exactly where they end with a character. -/
theorem nameBytes_valid_iff :
    (∃ head, fromUtf8 (nameBytes senderName) = some head) ↔ CutsBetweenCharacters senderName := by
  constructor
  · rintro ⟨head, hhead⟩
    by_cases hlong : byteLen senderName ≤ 255
    · exact .inl hlong
    · refine .inr ⟨head.toList.length, ?_⟩
      obtain ⟨later, hlater⟩ := prefix_of_nameBytes hhead
      rw [← hlater, List.take_left, String.ofList_toList, ← length_asBytes,
        fromUtf8_eq_some.1 hhead, nameBytes, List.length_take, length_asBytes]
      omega
  · rintro (hshort | ⟨k, hk⟩)
    · refine ⟨senderName, fromUtf8_eq_some.2 ?_⟩
      rw [nameBytes, List.take_of_length_le]
      exact hshort
    · refine ⟨String.ofList (senderName.toList.take k), fromUtf8_eq_some.2 ?_⟩
      have hsplit : asBytes senderName = asBytes (String.ofList (senderName.toList.take k)) ++
          asBytes (String.ofList (senderName.toList.drop k)) := by
        rw [← asBytes_append, ← String.ofList_append, List.take_append_drop,
          String.ofList_toList]
      rw [← length_asBytes] at hk
      rw [nameBytes, hsplit, List.take_left' hk]

/-- What a listener makes of a packet with a sealed message. -/
theorem ingest_sealed {cfg : RecvCfg} (hcipher : cfg.cipher.Decrypts) {message encrypted : Bytes}
    {tag : Tag} (hseq : sequence ≠ 0) (hid : byteLen channelId ≤ 255)
    (hseal : cfg.cipher.encryptInPlaceDetached nonce message = some (encrypted, tag))
    (registered : Bool) (out : Bytes) :
    (ingest cfg registered
        (VoicePacket.encode ⟨sequence, channelId, nonce.1 ++ (encrypted ++ tag.1)⟩) out).2.2 =
      (parsePacketName message).bind fun r =>
        if !cfg.echoTest && r.1 == cfg.ownName then none
        else some (r.1, sequence, message.drop r.2) := by
  obtain ⟨hhello, -, hvoice⟩ := parse_sealed nonce encrypted tag hseq hid
  have hnohello : ((none : Option UInt64) == some cfg.udpToken) = false := rfl
  unfold ingest
  simp only [hhello, hnohello, Bool.and_false, Bool.false_eq_true, if_false, hvoice,
    decryptPacket_sealed hcipher hseal out]
  cases parsePacketName message with
  | none => rfl
  | some r =>
    simp only [Option.bind_some]
    split <;> rfl

/-- No listener takes a packet whose name bytes are not UTF-8. -/
theorem ingest_silenced (hcipher : cipher.Decrypts) (hseq : sequence ≠ 0)
    (hid : byteLen channelId ≤ 255)
    (hbuild : buildPacket cipher nonce packetBuf sequence channelId (nameBytes senderName)
      opusData = (true, packet)) (hcut : ¬ CutsBetweenCharacters senderName)
    (cfg : RecvCfg) (hcfg : cfg.cipher = cipher) (registered : Bool) (out : Bytes) :
    (ingest cfg registered packet out).2.2 = none := by
  subst hcfg
  obtain ⟨encrypted, tag, hseal, rfl⟩ := buildPacket_eq hbuild
  rw [ingest_sealed hcipher hseq hid hseal,
    parsePacketName_plaintext (length_nameBytes_le senderName)]
  cases hutf8 : fromUtf8 (nameBytes senderName) with
  | none => rfl
  | some head => exact absurd (nameBytes_valid_iff.1 ⟨head, hutf8⟩) hcut

/-- **When a name is heard.**  Of every packet that is built with a name: the length of the
name fits its byte, and from the decrypted message the listener reads a beginning of the name
exactly when the cut at 255 bytes does not go through a character.  If it does, no listener
takes any packet of the sender. -/
theorem name_heard_iff (cipher : Cipher) (hcipher : cipher.Decrypts) (nonce : Nonce)
    (packetBuf out : Bytes) (sequence : UInt32) (channelId : ChannelId) (senderName : String)
    (opusData packet : Bytes)
    (hbuild : buildPacket cipher nonce packetBuf sequence channelId (nameBytes senderName)
      opusData = (true, packet)) :
    (nameBytes senderName).length ≤ 255 ∧
    (∃ encrypted message, packet = VoicePacket.encode ⟨sequence, channelId, encrypted⟩ ∧
      decryptPacket cipher encrypted out = (true, message) ∧
      ((∃ head opusOffset, parsePacketName message = some (head, opusOffset) ∧
        head.toList <+: senderName.toList) ↔ CutsBetweenCharacters senderName)) ∧
    (¬ CutsBetweenCharacters senderName → sequence ≠ 0 → byteLen channelId ≤ 255 →
      ∀ (cfg : RecvCfg) (registered : Bool), cfg.cipher = cipher →
        (ingest cfg registered packet out).2.2 = none) := by
  refine ⟨length_nameBytes_le senderName, ?_, ?_⟩
  · obtain ⟨encrypted, tag, hseal, heq⟩ := buildPacket_eq hbuild
    refine ⟨_, _, heq, decryptPacket_sealed hcipher hseal out, ?_⟩
    rw [← nameBytes_valid_iff, parsePacketName_plaintext (length_nameBytes_le senderName)]
    constructor
    · rintro ⟨head, opusOffset, hparse, -⟩
      obtain ⟨s, hs, -⟩ := Option.map_eq_some_iff.1 hparse
      exact ⟨s, hs⟩
    · rintro ⟨head, hhead⟩
      refine ⟨head, 1 + (nameBytes senderName).length, ?_, prefix_of_nameBytes hhead⟩
      rw [hhead]
      rfl
  · intro hcut hseq hid cfg registered hcfg
    exact ingest_silenced hcipher hseq hid hbuild hcut cfg hcfg registered out

/-- `ann` is heard. -/
theorem name_heard_iff_sample : ∃ packet,
    buildPacket .sample sampleNonce [] 1 "a" (nameBytes "ann") [7] = (true, packet) ∧
      (nameBytes "ann").length ≤ 255 :=
  ⟨_, rfl, (name_heard_iff .sample Cipher.sample_decrypts sampleNonce [] [] 1 "a" "ann" [7] _
    rfl).1⟩

/-- A name of 128 characters of two bytes each. -/
def longName : String := String.ofList (List.replicate 128 'я')

/-- The first characters of it are never 255 bytes. -/
theorem longName_cut : ¬ CutsBetweenCharacters longName := by
  have hlen : ∀ n, byteLen (String.ofList (List.replicate n 'я')) = 2 * n := by
    intro n
    induction n with
    | zero => rfl
    | succ n ih =>
      rw [List.replicate_succ', String.ofList_append, ← length_asBytes, asBytes_append,
        List.length_append, length_asBytes, ih]
      show 2 * n + 2 = _
      omega
  unfold CutsBetweenCharacters longName
  rw [hlen, String.toList_ofList]
  rintro (hshort | ⟨k, hk⟩)
  · omega
  · rw [List.take_replicate, hlen] at hk
    omega

/-- **A name of 128 Cyrillic letters silences its sender**: its packets are built, and no
listener takes them. -/
theorem name_silences : ∃ packet,
    buildPacket .sample sampleNonce [] 1 "a" (nameBytes longName) [7] = (true, packet) ∧
      ∀ (cfg : RecvCfg) (registered : Bool) (out : Bytes), cfg.cipher = .sample →
        (ingest cfg registered packet out).2.2 = none :=
  ⟨_, rfl, fun cfg registered out hcfg =>
    ingest_silenced Cipher.sample_decrypts (by decide) (by decide) rfl longName_cut cfg hcfg
      registered out⟩

end Laws

end TcVoice
