import TcVoice.Shared.Framing

/-!
# UDP packets

The UDP half of `crates/shared/src/protocol.rs`: the hello that registers an
address, and the voice packet with the channel it is for.

* `encodeUdpHello`, `decodeUdpHello` — a token in twelve bytes, and back.
* `VoicePacket.encode`, `VoicePacket.decode`, `VoicePacket.parseChannelId` — the
  channel id travels behind its length in one byte.
* `VoicePacket.decode_encode`, `VoicePacket.parseChannelId_encode` — **an id of
  at most 255 bytes comes back as it was sent**.
* `VoicePacket.parseVoiceData` — the receiver's parser; `VoicePacket.codec_laws` —
  **the decoder and the two zero-copy parsers agree on whatever arrives**.
-/

namespace TcVoice

/-! ## Strings as bytes -/

/-- `str::as_bytes`. -/
def asBytes (s : String) : Bytes := s.toByteArray.data.toList

/-- `str::from_utf8`. -/
def fromUtf8 (b : Bytes) : Option String := String.fromUTF8? ⟨b.toArray⟩

theorem length_asBytes (s : String) : (asBytes s).length = byteLen s := rfl

/-- Exactly the bytes of a string are read as that string. -/
theorem fromUtf8_eq_some {b : Bytes} {s : String} : fromUtf8 b = some s ↔ asBytes s = b := by
  unfold fromUtf8 String.fromUTF8? asBytes
  constructor
  · intro h
    split at h
    · cases h
      rfl
    · cases h
  · rintro rfl
    have hbytes : (⟨s.toByteArray.data.toList.toArray⟩ : ByteArray) = s.toByteArray := by
      rw [Array.toArray_toList]
    rw [hbytes, dif_pos s.isValidUTF8]
    rfl

theorem fromUtf8_asBytes (s : String) : fromUtf8 (asBytes s) = some s := fromUtf8_eq_some.2 rfl

theorem asBytes_append (s t : String) : asBytes (s ++ t) = asBytes s ++ asBytes t := by
  simp only [asBytes, String.toByteArray_append, ByteArray.data_append, Array.toList_append]

/-- A string whose bytes begin those of another is the beginning of the other. -/
theorem toList_prefix {s t : String} (h : asBytes s <+: asBytes t) : s.toList <+: t.toList := by
  obtain ⟨later, hlater⟩ := h
  apply List.isPrefix_of_utf8Encode_append_eq_utf8Encode ⟨later.toArray⟩
  rw [String.utf8Encode_toList, String.utf8Encode_toList]
  apply ByteArray.ext
  apply Array.toList_inj.1
  rw [ByteArray.data_append, Array.toList_append]
  exact hlater

/-! ## Hellos -/

/-- `u64::to_be_bytes`. -/
def toBeBytes64 (n : ℕ) : Bytes := toBeBytes (n / 2 ^ 32) ++ toBeBytes n

/-- `u64::from_be_bytes`, from the two halves. -/
def fromBeBytes64 (high low : ℕ) : ℕ := high * 2 ^ 32 + low

/-- `encode_udp_hello`. -/
def encodeUdpHello (token : UInt64) : Bytes := toBeBytes 0 ++ toBeBytes64 token.toNat

/-- `decode_udp_hello`: the token, if these are the twelve bytes of a hello. -/
def decodeUdpHello : Bytes → Option UInt64
  | [b₀, b₁, b₂, b₃, b₄, b₅, b₆, b₇, b₈, b₉, b₁₀, b₁₁] =>
    if fromBeBytes b₀ b₁ b₂ b₃ ≠ 0 then none
    else some (.ofNat (fromBeBytes64 (fromBeBytes b₄ b₅ b₆ b₇) (fromBeBytes b₈ b₉ b₁₀ b₁₁)))
  | _ => none

theorem decodeUdpHello_encodeUdpHello (token : UInt64) :
    decodeUdpHello (encodeUdpHello token) = some token := by
  obtain ⟨z₀, z₁, z₂, z₃, hz, hzero⟩ := toBeBytes_eq 0
  obtain ⟨h₀, h₁, h₂, h₃, hh, hhigh⟩ := toBeBytes_eq (token.toNat / 2 ^ 32)
  obtain ⟨l₀, l₁, l₂, l₃, hl, hlow⟩ := toBeBytes_eq token.toNat
  simp only [encodeUdpHello, toBeBytes64, hz, hh, hl, List.cons_append, List.nil_append,
    decodeUdpHello, hzero, hhigh, hlow, fromBeBytes64]
  have hlt := UInt64.toNat_lt token
  have hsplit : token.toNat / 2 ^ 32 % 2 ^ 32 * 2 ^ 32 + token.toNat % 2 ^ 32 = token.toNat := by
    omega
  rw [hsplit, UInt64.ofNat_toNat]
  rfl

/-- The bytes of a number that was read from bytes are those bytes. -/
theorem toBeBytes_of_mod {n : ℕ} {b₀ b₁ b₂ b₃ : UInt8}
    (h : n % 2 ^ 32 = fromBeBytes b₀ b₁ b₂ b₃) : toBeBytes n = [b₀, b₁, b₂, b₃] := by
  have hdigit : ∀ (m : ℕ) (b : UInt8), m % 256 = b.toNat → UInt8.ofNat m = b := fun m b hm =>
    UInt8.toNat_inj.1 (by rw [UInt8.toNat_ofNat', ← hm])
  have h₀ := UInt8.toNat_lt b₀
  have h₁ := UInt8.toNat_lt b₁
  have h₂ := UInt8.toNat_lt b₂
  have h₃ := UInt8.toNat_lt b₃
  simp only [fromBeBytes] at h
  simp only [toBeBytes]
  rw [hdigit _ b₀ (by omega), hdigit _ b₁ (by omega), hdigit _ b₂ (by omega),
    hdigit _ b₃ (by omega)]

theorem fromBeBytes_lt (b₀ b₁ b₂ b₃ : UInt8) : fromBeBytes b₀ b₁ b₂ b₃ < 2 ^ 32 := by
  have h₁ := UInt8.toNat_lt b₁
  have h₂ := UInt8.toNat_lt b₂
  have h₃ := UInt8.toNat_lt b₃
  have h₀ := UInt8.toNat_lt b₀
  simp only [fromBeBytes]
  omega

/-- Nothing else is read as a hello with this token. -/
theorem eq_encodeUdpHello {data : Bytes} {token : UInt64}
    (h : decodeUdpHello data = some token) : data = encodeUdpHello token := by
  unfold decodeUdpHello at h
  split at h
  · rename_i b₀ b₁ b₂ b₃ b₄ b₅ b₆ b₇ b₈ b₉ b₁₀ b₁₁
    split at h
    · cases h
    rename_i hzero
    have hhigh := fromBeBytes_lt b₄ b₅ b₆ b₇
    have hlow := fromBeBytes_lt b₈ b₉ b₁₀ b₁₁
    have htoken : token.toNat =
        fromBeBytes b₄ b₅ b₆ b₇ * 2 ^ 32 + fromBeBytes b₈ b₉ b₁₀ b₁₁ := by
      rw [← Option.some.inj h, UInt64.toNat_ofNat', fromBeBytes64]
      omega
    have hupper : token.toNat / 2 ^ 32 % 2 ^ 32 = fromBeBytes b₄ b₅ b₆ b₇ := by omega
    have hlower : token.toNat % 2 ^ 32 = fromBeBytes b₈ b₉ b₁₀ b₁₁ := by omega
    rw [encodeUdpHello, toBeBytes64, toBeBytes_of_mod (not_not.1 hzero).symm,
      toBeBytes_of_mod hupper, toBeBytes_of_mod hlower]
    rfl
  · cases h

/-! ## Voice -/

/-- A voice packet: a positive sequence number, the channel and the encrypted audio. -/
structure VoicePacket where
  sequence : UInt32
  channelId : ChannelId
  opusData : Bytes
  deriving DecidableEq, Repr

namespace VoicePacket

/-- `VoicePacket::encode`; the length of the id is cut to a byte (`as u8`). -/
def encode (p : VoicePacket) : Bytes :=
  let idBytes := asBytes p.channelId
  toBeBytes p.sequence.toNat ++ .ofNat idBytes.length :: (idBytes ++ p.opusData)

/-- `VoicePacket::decode`. -/
def decode : Bytes → Option VoicePacket
  | b₀ :: b₁ :: b₂ :: b₃ :: b₄ :: b₅ :: rest =>
    let sequence := fromBeBytes b₀ b₁ b₂ b₃
    if sequence = 0 then none
    else
      let idLen := b₄.toNat
      let data := b₅ :: rest
      if data.length < idLen + 1 then none
      else (fromUtf8 (data.take idLen)).map fun channelId =>
        ⟨.ofNat sequence, channelId, data.drop idLen⟩
  | _ => none

/-- `VoicePacket::parse_voice_data`: the sequence number and the encrypted audio. -/
def parseVoiceData : Bytes → Option (UInt32 × Bytes)
  | b₀ :: b₁ :: b₂ :: b₃ :: b₄ :: b₅ :: rest =>
    let sequence := fromBeBytes b₀ b₁ b₂ b₃
    if sequence = 0 then none
    else
      let idLen := b₄.toNat
      let data := b₅ :: rest
      if data.length < idLen + 1 then none else some (.ofNat sequence, data.drop idLen)
  | _ => none

/-- `VoicePacket::parse_channel_id`. -/
def parseChannelId : Bytes → Option ChannelId
  | _ :: _ :: _ :: _ :: b₄ :: b₅ :: rest =>
    let idLen := b₄.toNat
    let data := b₅ :: rest
    if data.length < idLen then none else fromUtf8 (data.take idLen)
  | _ => none

variable {p : VoicePacket}

/-- The packet without its header: what stands behind the length of the id. -/
theorem encode_eq (hopus : p.opusData ≠ []) : ∃ b₀ b₁ b₂ b₃ b₅ rest,
    p.encode = b₀ :: b₁ :: b₂ :: b₃ :: .ofNat (byteLen p.channelId) :: b₅ :: rest ∧
      b₅ :: rest = asBytes p.channelId ++ p.opusData ∧
      fromBeBytes b₀ b₁ b₂ b₃ = p.sequence.toNat := by
  obtain ⟨b₀, b₁, b₂, b₃, hseq, hval⟩ := toBeBytes_eq p.sequence.toNat
  rw [Nat.mod_eq_of_lt (UInt32.toNat_lt _)] at hval
  cases hdata : asBytes p.channelId ++ p.opusData with
  | nil => exact absurd (List.append_eq_nil_iff.1 hdata).2 hopus
  | cons b₅ rest =>
    refine ⟨b₀, b₁, b₂, b₃, b₅, rest, ?_, rfl, hval⟩
    simp only [encode, hseq, hdata, length_asBytes, List.cons_append, List.nil_append]

theorem toNat_ofNat_of_le {n : ℕ} (h : n ≤ 255) : (UInt8.ofNat n).toNat = n :=
  UInt8.toNat_ofNat_of_lt' (Nat.lt_succ_of_le h)

/-- The id behind a length that fits into its byte is read whole. -/
theorem take_idLen (hid : byteLen p.channelId ≤ 255) :
    (asBytes p.channelId ++ p.opusData).take (UInt8.ofNat (byteLen p.channelId)).toNat =
      asBytes p.channelId := by
  rw [toNat_ofNat_of_le hid, ← length_asBytes, List.take_left]

/-- **An id of at most 255 bytes is read from its packet as it was written.** -/
theorem parseChannelId_encode (hid : byteLen p.channelId ≤ 255) (hopus : p.opusData ≠ []) :
    parseChannelId p.encode = some p.channelId := by
  obtain ⟨b₀, b₁, b₂, b₃, b₅, rest, henc, hdata, -⟩ := encode_eq hopus
  have hlen : ¬ (asBytes p.channelId ++ p.opusData).length <
      (UInt8.ofNat (byteLen p.channelId)).toNat := by
    rw [toNat_ofNat_of_le hid, List.length_append, length_asBytes]
    omega
  rw [henc, parseChannelId]
  simp only [hdata]
  rw [if_neg hlen, take_idLen hid, fromUtf8_asBytes]

/-- An id that is read from a packet was behind a length of one byte. -/
theorem byteLen_of_parseChannelId {data : Bytes} {id : ChannelId}
    (h : parseChannelId data = some id) : byteLen id ≤ 255 := by
  unfold parseChannelId at h
  split at h
  · rename_i b₄ b₅ rest
    simp only at h
    split at h
    · cases h
    · have hbytes := congrArg List.length (fromUtf8_eq_some.1 h)
      have hle := UInt8.toNat_lt b₄
      rw [length_asBytes, List.length_take] at hbytes
      omega
  · cases h

/-- **A packet comes back from its bytes** if its id is of at most 255 bytes. -/
theorem decode_encode (hid : byteLen p.channelId ≤ 255) (hopus : p.opusData ≠ [])
    (hseq : p.sequence ≠ 0) : decode p.encode = some p := by
  obtain ⟨b₀, b₁, b₂, b₃, b₅, rest, henc, hdata, hval⟩ := encode_eq hopus
  have hlen : ¬ (asBytes p.channelId ++ p.opusData).length <
      (UInt8.ofNat (byteLen p.channelId)).toNat + 1 := by
    have hpos := List.length_pos_iff.2 hopus
    rw [toNat_ofNat_of_le hid, List.length_append, length_asBytes]
    omega
  have hne : p.sequence.toNat ≠ 0 := fun h0 => hseq (UInt32.toNat_inj.1 h0)
  rw [henc, decode]
  simp only [hdata, hval]
  rw [if_neg hne, if_neg hlen, take_idLen hid, fromUtf8_asBytes, toNat_ofNat_of_le hid,
    ← length_asBytes, List.drop_left, UInt32.ofNat_toNat]
  rfl

/-- The full decoder reads a packet as its two partial parsers do together. -/
theorem decode_eq_parsers (data : Bytes) :
    decode data = (parseVoiceData data).bind fun voice =>
      (parseChannelId data).map fun channelId => ⟨voice.1, channelId, voice.2⟩ := by
  unfold decode parseVoiceData parseChannelId
  split
  · simp only
    split
    · rfl
    · split
      · rfl
      · rename_i hlen
        rw [if_neg (by omega)]
        rfl
  · rfl

/-- The two partial parsers accept a packet exactly where the full decoder does, and read
the same out of it. -/
theorem decode_eq_some_iff {data : Bytes} {sequence : UInt32} {channelId : ChannelId}
    {opusData : Bytes} :
    decode data = some ⟨sequence, channelId, opusData⟩ ↔
      parseVoiceData data = some (sequence, opusData) ∧
        parseChannelId data = some channelId := by
  rw [decode_eq_parsers]
  constructor
  · intro h
    obtain ⟨voice, hvoice, hrest⟩ := Option.bind_eq_some_iff.1 h
    obtain ⟨id, hid, heq⟩ := Option.map_eq_some_iff.1 hrest
    cases heq
    exact ⟨hvoice, hid⟩
  · intro h
    rw [h.1, h.2]
    rfl

/-- What is decoded as voice has a header with a positive sequence number in front of it. -/
theorem decode_header {data : Bytes} (h : decode data = some p) :
    ∃ b₀ b₁ b₂ b₃ b₄ b₅ rest, data = b₀ :: b₁ :: b₂ :: b₃ :: b₄ :: b₅ :: rest ∧
      fromBeBytes b₀ b₁ b₂ b₃ ≠ 0 ∧ b₄.toNat + 1 ≤ (b₅ :: rest).length ∧
      asBytes p.channelId = (b₅ :: rest).take b₄.toNat ∧
      p.sequence = .ofNat (fromBeBytes b₀ b₁ b₂ b₃) ∧ p.opusData = (b₅ :: rest).drop b₄.toNat := by
  unfold decode at h
  split at h
  · rename_i b₀ b₁ b₂ b₃ b₄ b₅ rest
    simp only at h
    split at h
    · cases h
    rename_i hseq
    split at h
    · cases h
    rename_i hlen
    obtain ⟨id, hid, heq⟩ := Option.map_eq_some_iff.1 h
    cases heq
    exact ⟨b₀, b₁, b₂, b₃, b₄, b₅, rest, rfl, hseq, not_lt.1 hlen, fromUtf8_eq_some.1 hid,
      rfl, rfl⟩
  · cases h

/-- **Nothing but the bytes of a packet is decoded as that packet.** -/
theorem encode_of_decode {data : Bytes} (h : decode data = some p) : p.encode = data := by
  obtain ⟨b₀, b₁, b₂, b₃, b₄, b₅, rest, rfl, -, hlen, hid, hseq, hopus⟩ := decode_header h
  have hval : p.sequence.toNat % 2 ^ 32 = fromBeBytes b₀ b₁ b₂ b₃ := by
    rw [hseq, UInt32.toNat_ofNat', Nat.mod_mod]
    exact Nat.mod_eq_of_lt (fromBeBytes_lt b₀ b₁ b₂ b₃)
  have hidLen : ((b₅ :: rest).take b₄.toNat).length = b₄.toNat := by
    rw [List.length_take]
    omega
  unfold encode
  simp only [toBeBytes_of_mod hval, hid, hidLen, UInt8.ofNat_toNat, hopus, List.take_append_drop]
  rfl

/-- No bytes are both voice and a hello. -/
theorem decode_eq_none_of_hello {data : Bytes} {token : UInt64}
    (h : decodeUdpHello data = some token) : decode data = none := by
  cases hdec : decode data with
  | none => rfl
  | some p =>
    obtain ⟨b₀, b₁, b₂, b₃, b₄, b₅, rest, rfl, hseq, -⟩ := decode_header hdec
    unfold decodeUdpHello at h
    split at h
    · rename_i heq
      cases heq
      rw [if_pos hseq] at h
      cases h
    · cases h

/-- **The codec of voice packets.**  A packet that can be sent comes back from its bytes;
only these bytes are decoded as it; the two zero-copy parsers agree with the full decoder on
whatever arrives; and no bytes are taken both for voice and for a hello. -/
theorem codec_laws :
    (∀ p : VoicePacket, p.sequence ≠ 0 → byteLen p.channelId ≤ 255 → p.opusData ≠ [] →
      decode p.encode = some p) ∧
    (∀ data p, decode data = some p → p.encode = data) ∧
    (∀ data sequence channelId opusData, decode data = some ⟨sequence, channelId, opusData⟩ ↔
      parseVoiceData data = some (sequence, opusData) ∧
        parseChannelId data = some channelId) ∧
    (∀ data, decode data = none ∨ decodeUdpHello data = none) := by
  refine ⟨?_, ?_, ?_, ?_⟩
  · intro p hseq hid hopus
    exact decode_encode hid hopus hseq
  · intro data p h
    exact encode_of_decode h
  · intro data sequence channelId opusData
    exact decode_eq_some_iff
  · intro data
    cases hhello : decodeUdpHello data with
    | none => exact .inr rfl
    | some token => exact .inl (decode_eq_none_of_hello hhello)

/-- A packet of one byte for the channel `a`. -/
theorem codec_laws_one : decode (encode ⟨1, "a", [7]⟩) = some ⟨1, "a", [7]⟩ :=
  codec_laws.1 ⟨1, "a", [7]⟩ (by decide) (by decide) (by decide)

end VoicePacket

end TcVoice
