import TcVoice.Shared.VoicePacket
import TcVoice.Server.BatchSender
import TcVoice.Server.Coherence
import TcVoice.Server.Hello
import TcVoice.Server.Participants
import TcVoice.Server.PeerCache

/-!
# The voice relay

`relay_loop` of `crates/server/src/udp.rs`: one loop for hellos, keepalives,
voice and junk, run by any number of workers over the shared registry, each with
a peer buffer and a batch of its own.

* `relayRound` — one turn of the loop, with what it hands to the kernel.
* `Relay`, `Relay.step` — the workers and the registry, in any interleaving.
* `audience` — whom a datagram is for, by what the registry says.
* `Greets`, `Greeted` — an address completes a hello, in a step and along a run.
* `relay_contained` — **voice goes to its audience, a hello's answer to its
  source, and nothing to anybody who has not completed a hello**.
-/

namespace TcVoice
namespace Server

open Runs Table ServerState

variable {env : Env} {s s' : ServerState} {op : Op} {ch : ChannelId} {u src : SocketAddr}
  {token : UInt64}

/-! ## One turn of the loop -/

/-- A datagram as `recv_from` gives it: no longer than the buffer. -/
structure Datagram where
  bytes : Bytes
  length_le : bytes.length ≤ Config.maxUdpPacket + 64

/-- `ECHO_NO_EXCLUDE`: `0.0.0.0:0`. -/
def echoNoExclude : SocketAddr := .v4 0 0

/-- What a worker keeps from one datagram to the next. -/
structure Worker where
  peers : List SocketAddr
  batch : BatchSender

/-- A worker at the start of `relay_loop`. -/
def Worker.new : Worker := ⟨[], .new⟩

/-- One turn of `relay_loop`, with what it hands to the kernel. -/
def relayRound (env : Env) (s : ServerState) (wk : Worker) (d : Datagram) (src : SocketAddr) :
    ServerState × Worker × List Submission :=
  match decodeUdpHello d.bytes with
  | some token =>
    -- A keepalive is counted, never registered or forwarded.
    if token = 0 then (s, wk, [])
    else
      match s.registerUdpByToken env token src with
      | (true, s') => (s', wk, [some (src, encodeUdpHello token)])
      | (false, s') => (s', wk, [])
  | none =>
    match VoicePacket.parseChannelId d.bytes with
    | none => (s, wk, [])
    | some ch =>
      let peers :=
        if startsWith ch Config.echoChannelPrefix then
          s.fillChannelPeers ch echoNoExclude wk.peers
        else s.fillChannelPeers ch src wk.peers
      let r := wk.batch.sendToAll d.bytes peers
      (s, ⟨peers, r.1⟩, r.2)

/-! ## The relay in its surroundings -/

/-- The registry and the workers. -/
structure Relay where
  state : ServerState
  workers : ℕ → Worker

namespace Relay

/-- The relay at the start of the server. -/
def new (limits : Limits) : Relay := ⟨.new limits, fun _ => .new⟩

inductive Event where
  /-- A worker receives a datagram. -/
  | received (worker : ℕ) (d : Datagram) (src : SocketAddr)
  /-- Another task calls the registry. -/
  | called (op : Op)

/-- One step: a turn of one worker, or a call to the registry from elsewhere. -/
def step (r : Relay) (e : Env × Event) : Option Relay :=
  match e.2 with
  | .received i d src =>
    let round := relayRound e.1 r.state (r.workers i) d src
    some ⟨round.1, Function.update r.workers i round.2.1⟩
  | .called op => (exec e.1 r.state op).map fun s => { r with state := s }

/-- What a step hands to the kernel. -/
def sent (r : Relay) (e : Env × Event) : List Submission :=
  match e.2 with
  | .received i d src => (relayRound e.1 r.state (r.workers i) d src).2.2
  | .called _ => []

end Relay

/-! ## What it should do -/

/-- Whom a datagram is for: the addresses registered in the channel it names, but not its own
source unless the channel is an echo channel; nobody if it is a hello or names no channel. -/
def audience (s : ServerState) (data : Bytes) (src : SocketAddr) : Finset SocketAddr :=
  match decodeUdpHello data, VoicePacket.parseChannelId data with
  | none, some ch =>
    if startsWith ch Config.echoChannelPrefix then s.participants ch
    else (s.participants ch).erase src
  | _, _ => ∅

theorem mem_audience {data : Bytes} (h : u ∈ audience s data src) :
    ∃ ch, u ∈ s.participants ch := by
  unfold audience at h
  split at h
  · rename_i ch _ _
    split at h
    · exact ⟨ch, h⟩
    · exact ⟨ch, Finset.mem_of_mem_erase h⟩
  · exact absurd h (Finset.notMem_empty u)

/-- The address completes a hello in this step: its token is known, for a registered client,
and it is behind the IP address of that client's connection. -/
def Greets (r : Relay) (e : Env × Relay.Event) (u : SocketAddr) : Prop :=
  match e.2 with
  | .received _ d src =>
    src = u ∧ ∃ token, decodeUdpHello d.bytes = some token ∧ token ≠ 0 ∧ Accepts r.state token u
  | .called op => ∃ token, op = .registerUdpByToken token u ∧ Accepts r.state token u

/-- The address completes a hello in some step of the run. -/
def Greeted (r : Relay) : List (Env × Relay.Event) → SocketAddr → Prop
  | [], _ => False
  | e :: es, u => Greets r e u ∨ ∃ r', r.step e = some r' ∧ Greeted r' es u

/-- The other end of a TCP connection has an IP address. -/
def HasPeer (_ : Relay) (e : Env × Relay.Event) : Prop :=
  ∀ a, e.2 = .called (.registerClient a) → a.ip.toCanonical ≠ echoNoExclude.ip

instance (r : Relay) (e : Env × Relay.Event) : Decidable (HasPeer r e) :=
  match e with
  | (_, .called (.registerClient a)) =>
    decidable_of_iff (a.ip.toCanonical ≠ echoNoExclude.ip)
      ⟨fun h b hb => by cases hb; exact h, fun h => h a rfl⟩
  | (_, .received ..) | (_, .called (.setPubkey ..)) | (_, .called (.renameClient ..))
  | (_, .called (.removeClient ..)) | (_, .called (.createChannel ..))
  | (_, .called (.createPersistentChannel ..)) | (_, .called (.joinChannel ..))
  | (_, .called (.startEchoTest ..)) | (_, .called (.leaveChannel ..))
  | (_, .called (.registerUdpByToken ..)) | (_, .called (.cleanupWith ..)) =>
    isTrue fun _ h => by cases h

/-! ## What one turn does -/

section Round

variable {wk : Worker} {d : Datagram}

/-- A turn of the loop leaves the registry alone, or serves a hello. -/
theorem relayRound_state : (relayRound env s wk d src).1 = s ∨
    ∃ token, decodeUdpHello d.bytes = some token ∧ token ≠ 0 ∧
      exec env s (.registerUdpByToken token src) = some (relayRound env s wk d src).1 := by
  unfold relayRound
  split
  · rename_i token hd
    split
    · exact .inl rfl
    · rename_i h0
      refine .inr ⟨token, hd, h0, ?_⟩
      split <;> simp [exec, *]
  · split <;> exact .inl rfl

theorem relayRound_coherent (h : wk.batch.Coherent) :
    (relayRound env s wk d src).2.1.batch.Coherent := by
  unfold relayRound
  split
  · split
    · exact h
    · split <;> exact h
  · split
    · exact h
    · exact (BatchSender.sendToAll_spec h).1

/-- What is no hello is sent to its audience, byte for byte. -/
theorem relayRound_voice (hb : wk.batch.Coherent) (hm : CacheMatches s)
    (hno : ∀ ch, echoNoExclude ∉ s.participants ch) (hd : decodeUdpHello d.bytes = none) :
    ((relayRound env s wk d src).2.2 : Multiset Submission) =
      (audience s d.bytes src).val.map fun u => some (u, d.bytes) := by
  simp only [relayRound, audience, hd]
  cases hch : VoicePacket.parseChannelId d.bytes with
  | none => rfl
  | some ch =>
    simp only
    rw [(BatchSender.sendToAll_spec hb).2, sendToAll, ← Multiset.map_coe]
    split
    · rw [hm.fillChannelPeers, scanChannelPeers, Finset.erase_eq_of_notMem (hno ch)]
    · rw [hm.fillChannelPeers, scanChannelPeers]

/-- A hello is answered with itself, to its source, if it is accepted. -/
theorem relayRound_hello (hd : decodeUdpHello d.bytes = some token) :
    (token ≠ 0 ∧ Accepts s token src ∧
        (relayRound env s wk d src).2.2 = [some (src, d.bytes)]) ∨
      (¬ (token ≠ 0 ∧ Accepts s token src) ∧ (relayRound env s wk d src).2.2 = []) := by
  simp only [relayRound, hd]
  by_cases h0 : token = 0
  · rw [if_pos h0]
    exact .inr ⟨fun h => h.1 h0, rfl⟩
  rw [if_neg h0]
  cases hr : s.registerUdpByToken env token src with
  | mk accepted s' =>
    have hiff : accepted = true ↔ Accepts s token src := by
      rw [← registerUdpByToken_iff, hr]
    cases accepted with
    | true => exact .inl ⟨h0, hiff.1 rfl, by rw [eq_encodeUdpHello hd]⟩
    | false => exact .inr ⟨fun h => absurd (hiff.2 h.2) (by simp), rfl⟩

end Round

/-! ## Who gets registered -/

/-- Only an accepted hello brings an address into a channel. -/
theorem mem_participants_change (hc : Change env s op s') (hu : u ∈ s'.participants ch) :
    u ∈ s.participants ch ∨ ∃ token, op = .registerUdpByToken token u ∧ Accepts s token u := by
  have hdrop : ∀ {s₁ : ServerState} {a x udp}, Departed s a s₁ →
      u ∈ (s₁.dropParticipant env x udp).participants ch → u ∈ s.participants ch := by
    intro s₁ a x udp hd h
    rw [participants_dropParticipant, hd.participants, hd.participants] at h
    split at h
    · rename_i hx
      rw [hx]
      exact (mem_removeAddr.1 h).1
    · exact h
  cases hc with
  | refused | registered | rekeyed | renamed | removed | renewed => exact .inl hu
  | @hungUp a c => exact .inl (hdrop (departed_withoutClient c) hu)
  | @left a c => exact .inl (hdrop (departed_withoutMember c) hu)
  | created hid | established hid | echoed hid =>
    exact .inl ((participants_addChannel env hid) ▸ hu)
  | joined =>
    rw [participants, channels_joined] at hu
    exact .inl hu
  | @greeted token udp tcp x created c ht hip hl =>
    by_cases hx : x ∈ s.channels
    · rw [participants_greeted hx] at hu
      split at hu
      · rename_i he
        rcases mem_rebindAddr.1 hu with rfl | ⟨hin, -⟩
        · exact .inr ⟨token, rfl, tcp, x, created, ht, Finmap.mem_of_lookup_eq_some hl, hip⟩
        · exact .inl (he ▸ hin)
      · exact .inl hu
    · rw [participants_greeted_of_notMem hx] at hu
      exact .inl hu
  | swept =>
    rw [participants_cleanupWith] at hu
    exact .inl hu

/-! ## Runs of the relay -/

section Runs

variable {r r' : Relay} {e : Env × Relay.Event}

/-- A step is at most one operation on the registry: a hello of its datagram, or the call. -/
theorem Relay.step_registry (h : r.step e = some r') : r'.state = r.state ∨
    ∃ op, exec e.1 r.state op = some r'.state ∧
      (∀ a, op = .registerClient a → e.2 = .called (.registerClient a)) ∧
      ∀ token u, op = .registerUdpByToken token u → Accepts r.state token u → Greets r e u := by
  obtain ⟨env, ev⟩ := e
  cases ev with
  | received i d src =>
    cases h
    refine relayRound_state.imp_right ?_
    rintro ⟨token, hd, h0, hexec⟩
    refine ⟨_, hexec, by simp, fun token' u he hacc => ?_⟩
    cases he
    exact ⟨rfl, token, hd, h0, hacc⟩
  | called op =>
    obtain ⟨s', hexec, he⟩ := Option.map_eq_some_iff.1 h
    cases he
    exact .inr ⟨op, hexec, fun a ha => by rw [ha], fun token u ho hacc => ⟨token, ho, hacc⟩⟩

/-- What holds between the steps: the cache matches, the batches are coherent, and nobody's
address is the one that excludes nobody. -/
structure Sound (r : Relay) : Prop where
  cache : CacheMatches r.state
  batches : ∀ i, (r.workers i).batch.Coherent
  peers : ∀ a, a ∈ r.state.clients → a.ip.toCanonical ≠ echoNoExclude.ip
  registered : ∀ ch, echoNoExclude ∉ r.state.participants ch

theorem sound_new (limits : Limits) : Sound (.new limits) where
  cache := cacheMatches_new limits
  batches _ := BatchSender.coherent_new
  peers _ h := absurd h Finmap.notMem_empty
  registered _ h := absurd (mem_channels_of_mem_participants h) Finmap.notMem_empty

/-- **One step.** -/
theorem Sound.step (hr : Sound r) (ha : HasPeer r e) (h : r.step e = some r') : Sound r' := by
  have hbatch : ∀ i, (r'.workers i).batch.Coherent := by
    obtain ⟨env, ev⟩ := e
    cases ev with
    | received i d src =>
      cases h
      intro j
      by_cases hj : j = i
      · subst hj
        simp only [Function.update_self]
        exact relayRound_coherent (hr.batches j)
      · simp only [Function.update_of_ne hj]
        exact hr.batches j
    | called op =>
      obtain ⟨s', -, he⟩ := Option.map_eq_some_iff.1 h
      cases he
      exact hr.batches
  rcases Relay.step_registry h with heq | ⟨op, hexec, hreg, -⟩
  · exact ⟨heq ▸ hr.cache, hbatch, heq ▸ hr.peers, heq ▸ hr.registered⟩
  have hc := exec_change hexec
  refine ⟨hr.cache.change hc, hbatch, fun b hb => ?_, fun ch hin => ?_⟩
  · rcases clients_exec hexec with hsub | ⟨-, a, c, hop, heq⟩
    · exact hr.peers b (hsub b hb)
    · rw [heq, Finmap.mem_insert] at hb
      rcases hb with rfl | hb
      · exact ha b (hreg b hop)
      · exact hr.peers b hb
  · rcases mem_participants_change hc hin with hin | ⟨token, -, tcp, x, created, -, hin, hip⟩
    · exact hr.registered ch hin
    · exact hr.peers tcp hin hip

/-- Whoever is registered after a run was before it, or has completed a hello in it. -/
theorem greeted_of_mem_participants {es : List (Env × Relay.Event)}
    (hrun : runFrom Relay.step r es = some r') (hu : u ∈ r'.state.participants ch) :
    u ∈ r.state.participants ch ∨ Greeted r es u := by
  induction es generalizing r with
  | nil =>
    cases hrun
    exact .inl hu
  | cons e es ih =>
    rw [runFrom_cons] at hrun
    obtain ⟨r₁, h₁, hrest⟩ := Option.bind_eq_some_iff.1 hrun
    rcases ih hrest with hin | hg
    · rcases Relay.step_registry h₁ with heq | ⟨op, hexec, -, hgreets⟩
      · exact .inl (heq ▸ hin)
      · rcases mem_participants_change (exec_change hexec) hin with hin | ⟨token, hop, hacc⟩
        · exact .inl hin
        · exact .inr (.inl (hgreets token u hop hacc))
    · exact .inr (.inr ⟨r₁, h₁, hg⟩)

/-- Completed in a run, or in the step after it. -/
theorem greeted_append {es : List (Env × Relay.Event)}
    (hrun : runFrom Relay.step r es = some r') (h : Greeted r es u ∨ Greets r' e u) :
    Greeted r (es ++ [e]) u := by
  induction es generalizing r with
  | nil =>
    cases hrun
    exact h.elim False.elim .inl
  | cons e₁ es ih =>
    rw [runFrom_cons] at hrun
    obtain ⟨r₁, h₁, hrest⟩ := Option.bind_eq_some_iff.1 hrun
    rcases h with (h | ⟨r₂, h₂, hg⟩) | h
    · exact .inl h
    · cases Option.some.inj (h₁.symm.trans h₂)
      exact .inr ⟨r₁, h₁, ih hrest (.inl hg)⟩
    · exact .inr ⟨r₁, h₁, ih hrest (.inr h)⟩

end Runs

/-- **Relay containment.**  In every run of the relay, with any number of workers and any
datagrams from any sources interleaved with any operations on the registry: a datagram that is
no hello is handed to the kernel for exactly its audience at that moment, once for each address
and with its bytes; a hello for its own source if it is accepted, with its own bytes, and for
nobody otherwise; and whatever is handed over is for an address that has completed a hello. -/
theorem relay_contained (limits : Limits) (es : List (Env × Relay.Event)) (r : Relay)
    (hpeer : EachStep Relay.step HasPeer (.new limits) es)
    (hrun : runFrom Relay.step (.new limits) es = some r) (env : Env) (worker : ℕ)
    (d : Datagram) (src : SocketAddr) :
    let e : Env × Relay.Event := (env, .received worker d src)
    (decodeUdpHello d.bytes = none → (r.sent e : Multiset Submission) =
        (audience r.state d.bytes src).val.map fun u => some (u, d.bytes)) ∧
      (∀ token, decodeUdpHello d.bytes = some token →
        (token ≠ 0 ∧ Accepts r.state token src ∧ r.sent e = [some (src, d.bytes)]) ∨
          (¬ (token ≠ 0 ∧ Accepts r.state token src) ∧ r.sent e = [])) ∧
      ∀ sub ∈ r.sent e, ∃ u, sub = some (u, d.bytes) ∧ Greeted (.new limits) (es ++ [e]) u := by
  intro e
  have hs : Sound r := inv_runFrom Sound (fun _ _ _ hr ha h => hr.step ha h) (sound_new limits)
    hpeer hrun
  have hvoice : decodeUdpHello d.bytes = none → (r.sent e : Multiset Submission) =
      (audience r.state d.bytes src).val.map fun u => some (u, d.bytes) :=
    relayRound_voice (hs.batches worker) hs.cache hs.registered
  have hhello : ∀ token, decodeUdpHello d.bytes = some token →
      (token ≠ 0 ∧ Accepts r.state token src ∧ r.sent e = [some (src, d.bytes)]) ∨
        (¬ (token ≠ 0 ∧ Accepts r.state token src) ∧ r.sent e = []) := fun _ => relayRound_hello
  refine ⟨hvoice, hhello, fun sub hsub => ?_⟩
  cases hd : decodeUdpHello d.bytes with
  | some token =>
    rcases hhello token hd with ⟨h0, hacc, hsent⟩ | ⟨-, hsent⟩
    · have hsub' : sub ∈ [some (src, d.bytes)] := hsent ▸ hsub
      refine ⟨src, List.mem_singleton.1 hsub', greeted_append hrun (.inr ?_)⟩
      exact ⟨rfl, token, hd, h0, hacc⟩
    · have hsub' : sub ∈ ([] : List Submission) := hsent ▸ hsub
      exact absurd hsub' List.not_mem_nil
  | none =>
    have hin : sub ∈ (r.sent e : Multiset Submission) := Multiset.mem_coe.2 hsub
    rw [hvoice hd] at hin
    obtain ⟨u, hu, rfl⟩ := Multiset.mem_map.1 hin
    obtain ⟨ch, hch⟩ := mem_audience hu
    refine ⟨u, rfl, greeted_append hrun (.inl ?_)⟩
    rcases greeted_of_mem_participants hrun hch with h | h
    · exact absurd (mem_channels_of_mem_participants h) Finmap.notMem_empty
    · exact h

/-- A hello with this token. -/
def helloDatagram (token : UInt64) : Datagram where
  bytes := encodeUdpHello token
  length_le := by simp [encodeUdpHello, toBeBytes64, toBeBytes]

/-- A voice packet for `pub-x`. -/
def voiceDatagram : Datagram where
  bytes := VoicePacket.encode ⟨1, "pub-x", [7]⟩
  length_le := by decide

/-- Two clients join `pub-x` and say their hello, each to another worker. -/
def greetingRun : List (Env × Relay.Event) :=
  [(.sample 7 1, .called (.registerClient (.v4 1 1))),
    (.sample 7 1, .called (.registerClient (.v4 2 2))),
    (.sample 7 1, .called (.createChannel (some "x"))),
    (.sample 7 1, .called (.joinChannel (.v4 1 1) "pub-x")),
    (.sample 7 2, .called (.joinChannel (.v4 2 2) "pub-x")),
    (.sample 7 1, .received 0 (helloDatagram 1) (.v4 1 11)),
    (.sample 7 1, .received 1 (helloDatagram 2) (.v4 2 22))]

/-- What the first says is for the second alone. -/
theorem relay_contained_greetingRun : ∃ r,
    runFrom Relay.step (.new ⟨0, 0⟩) greetingRun = some r ∧
      audience r.state voiceDatagram.bytes (.v4 1 11) = {.v4 2 22} ∧
      (r.sent (.sample 7 1, .received 0 voiceDatagram (.v4 1 11)) : Multiset Submission) =
        (audience r.state voiceDatagram.bytes (.v4 1 11)).val.map fun u =>
          some (u, voiceDatagram.bytes) := by
  obtain ⟨r, hrun, hps⟩ : ∃ r, runFrom Relay.step (.new ⟨0, 0⟩) greetingRun = some r ∧
      r.state.participants "pub-x" = {.v4 1 11, .v4 2 22} := ⟨_, rfl, by decide⟩
  have hd : decodeUdpHello voiceDatagram.bytes = none := by decide
  have hch : VoicePacket.parseChannelId voiceDatagram.bytes = some "pub-x" :=
    VoicePacket.parseChannelId_encode (p := ⟨1, "pub-x", [7]⟩) (by decide) (by simp)
  have hcontained := relay_contained ⟨0, 0⟩ greetingRun r (by decide) hrun (.sample 7 1) 0
    voiceDatagram (.v4 1 11)
  refine ⟨r, hrun, ?_, hcontained.1 hd⟩
  simp only [audience, hd, hch, hps]
  decide

end Server
end TcVoice
