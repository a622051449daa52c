import TcVoice.Client.Packet
import TcVoice.Server.Relay

/-!
# Registration of a voice call with the relay

`udp_connect_and_handshake`, `spawn_rehello_task`, `spawn_udp_send_task` and the receive task
of `crates/client/src/voice.rs` against the relay, over a network that loses, repeats and
reorders what it carries and gives the caller another address whenever it likes.

* `VoiceUdp`, `VoiceUdp.step` — the UDP side of a call: handshake, re-hello, keepalive.
* `Net`, `Net.step` — the call, the relay with everybody else, and the network between them.
* `Honest` — what holds of a call after any run.
* `registration_sound` — **a call that believes it is registered has been, and one that does
  not keeps saying hello**: one round trip that is not lost then registers it.
-/

namespace TcVoice
namespace Link

open Runs Server

/-! ## The UDP side of a call -/

/-- Where `start_voice` stands: about to send a hello, waiting for its answer, or back. -/
inductive Handshake where
  | sending (attempt : ℕ)
  | waiting (attempt : ℕ)
  | returned
  | failed
  deriving DecidableEq, Repr

/-- A call with its tasks and the flags they share. -/
structure VoiceUdp where
  cfg : RecvCfg
  voiceKey : Bytes
  handshake : Handshake
  registered : Bool
  stop : Bool
  /-- The delay the re-hello task sleeps, while there is one. -/
  rehello : Option ℕ
  /-- The send task runs. -/
  sending : Bool
  /-- The receive task runs. -/
  receiving : Bool
  decryptBuf : Bytes

namespace VoiceUdp

/-- A call as `start_voice` finds it. -/
def new (cfg : RecvCfg) (voiceKey : Bytes) : VoiceUdp :=
  ⟨cfg, voiceKey, .sending 0, false, false, none, false, false, []⟩

inductive Event where
  /-- `send` of a hello of the handshake returns. -/
  | hello (sent : Bool)
  /-- Nothing came within the interval, or `recv` failed. -/
  | silence
  /-- A datagram is read off the socket. -/
  | datagram (bytes : Bytes)
  /-- The re-hello task wakes up; its `send` succeeds or not. -/
  | rehello (sent : Bool)
  /-- The send task has had nothing to send for the keepalive interval. -/
  | idle (sent : Bool)
  /-- The send task is handed a packet. -/
  | packet (bytes : Bytes) (sent : Bool)
  /-- The handle is dropped. -/
  | dropped
  /-- The capture thread has ended, as it was told to or without an encoder, and with it the send
  task. -/
  | pipelineStopped

/-- The rest of `start_voice` after the handshake: the re-hello task first, then the key is
tried, and only then the other tasks are started. -/
def start (v : VoiceUdp) (acked : Bool) : VoiceUdp :=
  let v := { v with
    registered := acked
    rehello := if acked then none else some Config.udpRehelloBaseMs }
  if v.voiceKey.length = Config.voiceKeyLen then
    { v with handshake := .returned, sending := true, receiving := true }
  else { v with handshake := .failed }

/-- The next attempt, or the end of the handshake without an answer. -/
def noAck (v : VoiceUdp) (attempt : ℕ) : VoiceUdp :=
  if attempt + 1 < Config.udpHelloRetries then { v with handshake := .sending (attempt + 1) }
  else v.start false

/-- Size of the buffer the handshake reads an answer into. -/
def ackBufLen : ℕ := 16

/-- One event, with what is sent in it. -/
def step (v : VoiceUdp) : Event → Option (VoiceUdp × List Bytes)
  | .hello sent =>
    match v.handshake with
    | .sending attempt =>
      if sent then
        some ({ v with handshake := .waiting attempt }, [encodeUdpHello v.cfg.udpToken])
      else some ({ v with handshake := .failed }, [])
    | _ => none
  | .silence =>
    match v.handshake with
    | .waiting attempt => some (v.noAck attempt, [])
    | _ => none
  | .datagram bytes =>
    match v.handshake with
    | .waiting attempt =>
      if decodeUdpHello (bytes.take ackBufLen) = some v.cfg.udpToken then
        some (v.start true, [])
      else some (v.noAck attempt, [])
    | _ =>
      if v.receiving then
        let r := ingest v.cfg v.registered bytes v.decryptBuf
        some ({ v with registered := r.1, decryptBuf := r.2.1 }, [])
      else none
  | .rehello sent =>
    match v.rehello with
    | none => none
    | some delay =>
      if v.registered || v.stop then some ({ v with rehello := none }, [])
      else some ({ v with rehello := some (min (delay * 2) Config.udpRehelloMaxMs) },
        if sent then [encodeUdpHello v.cfg.udpToken] else [])
  | .idle sent =>
    if v.sending then some (v, if sent then [encodeUdpHello v.cfg.udpToken] else []) else none
  | .packet bytes sent => if v.sending then some (v, if sent then [bytes] else []) else none
  | .dropped =>
    if v.handshake = .returned ∧ v.stop = false then
      some ({ v with stop := true, receiving := false }, [])
    else none
  | .pipelineStopped =>
    if v.sending then some ({ v with sending := false }, []) else none

end VoiceUdp

/-! ## The call, the relay and the network -/

/-- The system, with what it has done so far. -/
structure Net where
  relay : Relay
  voice : VoiceUdp
  /-- The address the relay sees behind what the call sends now. -/
  addr : SocketAddr
  /-- The addresses it has seen so far. -/
  used : List SocketAddr
  /-- What the call has sent, and from where. -/
  sent : List (SocketAddr × Bytes)
  /-- What the relay has handed to the kernel. -/
  answers : List Submission
  /-- What the relay has been through. -/
  history : List (Env × Relay.Event)

namespace Net

/-- A call that starts behind an address. -/
def new (limits : Limits) (cfg : RecvCfg) (voiceKey : Bytes) (addr : SocketAddr) : Net :=
  ⟨.new limits, .new cfg voiceKey, addr, [addr], [], [], []⟩

inductive Event where
  /-- The relay receives anything from anybody, or another task calls the registry. -/
  | relay (e : Env × Relay.Event)
  /-- The call does something on its own. -/
  | voice (e : VoiceUdp.Event)
  /-- Something the relay has sent to an address of the call reaches it, now or again. -/
  | deliver (dest : SocketAddr) (bytes : Bytes)
  /-- The call gets another address. -/
  | rebind (addr : SocketAddr)

/-- One event. -/
def step (n : Net) : Event → Option Net
  | .relay e => (n.relay.step e).map fun r =>
      { n with
        relay := r
        answers := n.relay.sent e ++ n.answers
        history := n.history ++ [e] }
  | .voice (.datagram _) => none
  | .voice e => (n.voice.step e).map fun r =>
      { n with voice := r.1, sent := r.2.map (n.addr, ·) ++ n.sent }
  | .deliver dest bytes =>
    if dest ∈ n.used ∧ some (dest, bytes) ∈ n.answers then
      (n.voice.step (.datagram bytes)).map fun r => { n with voice := r.1 }
    else none
  | .rebind addr => some { n with addr, used := addr :: n.used }

/-- Connections have IP addresses. -/
def HasPeers (n : Net) (e : Event) : Prop :=
  match e with
  | .relay e => HasPeer n.relay e
  | _ => True

instance (n : Net) (e : Event) : Decidable (HasPeers n e) :=
  match e with
  | .relay e => inferInstanceAs (Decidable (HasPeer n.relay e))
  | .voice _ | .deliver .. | .rebind _ => isTrue trivial

end Net

/-! ## One event of a call -/

namespace VoiceUdp

variable {v : VoiceUdp} {e : Event} {r : VoiceUdp × List Bytes} {attempt : ℕ} {acked : Bool}

/-- What the tasks keep to: nobody receives before `start_voice` is back, and a call that is
back, not stopped and not registered says hello again, after a delay within the bounds. -/
structure Keeps (cfg : RecvCfg) (v : VoiceUdp) : Prop where
  cfg : v.cfg = cfg
  early : v.handshake ≠ .returned → v.receiving = false ∧ v.stop = false
  receives : v.handshake = .returned → v.stop = false → v.receiving = true
  retries : v.handshake = .returned → v.registered = false → v.stop = false →
    ∃ delay, v.rehello = some delay
  backoff : ∀ delay, v.rehello = some delay →
    Config.udpRehelloBaseMs ≤ delay ∧ delay ≤ Config.udpRehelloMaxMs

variable {cfg : RecvCfg}

theorem keeps_new (cfg : RecvCfg) (voiceKey : Bytes) : Keeps cfg (.new cfg voiceKey) where
  cfg := rfl
  early _ := ⟨rfl, rfl⟩
  receives h := by cases h
  retries h := by cases h
  backoff _ h := by cases h

theorem Keeps.start (h : Keeps cfg v) (hv : v.handshake ≠ .returned) (acked : Bool) :
    Keeps cfg (v.start acked) := by
  obtain ⟨hreceiving, hstop⟩ := h.early hv
  have hbackoff : ∀ delay, (if acked then none else some Config.udpRehelloBaseMs) = some delay →
      Config.udpRehelloBaseMs ≤ delay ∧ delay ≤ Config.udpRehelloMaxMs := by
    intro delay hd
    split at hd
    · cases hd
    · cases hd
      decide
  unfold VoiceUdp.start
  simp only
  split
  · refine ⟨h.cfg, fun hne => absurd rfl hne, fun _ _ => rfl, fun _ hreg _ => ?_, hbackoff⟩
    exact ⟨Config.udpRehelloBaseMs, if_neg (by simpa using hreg)⟩
  · exact ⟨h.cfg, fun _ => ⟨hreceiving, hstop⟩, (fun he => by cases he), (fun he => by cases he),
      hbackoff⟩

theorem Keeps.noAck (h : Keeps cfg v) (hv : v.handshake = .waiting attempt) :
    Keeps cfg (v.noAck attempt) := by
  have hne : v.handshake ≠ .returned := by simp [hv]
  unfold VoiceUdp.noAck
  split
  · exact ⟨h.cfg, fun _ => h.early hne, (fun he => by cases he), (fun he => by cases he),
      h.backoff⟩
  · exact h.start hne false

/-- **One event.** -/
theorem Keeps.step (h : Keeps cfg v) (hs : v.step e = some r) : Keeps cfg r.1 := by
  cases e with
  | hello sent =>
    simp only [VoiceUdp.step] at hs
    split at hs
    · rename_i attempt hv
      have hne : v.handshake ≠ .returned := by simp [hv]
      split at hs <;> cases hs <;>
        exact ⟨h.cfg, fun _ => h.early hne, (fun he => by cases he), (fun he => by cases he),
          h.backoff⟩
    · cases hs
  | silence =>
    simp only [VoiceUdp.step] at hs
    split at hs
    · rename_i attempt hv
      cases hs
      exact h.noAck hv
    · cases hs
  | datagram bytes =>
    simp only [VoiceUdp.step] at hs
    split at hs
    · rename_i attempt hv
      split at hs <;> cases hs
      · exact h.start (by simp [hv]) true
      · exact h.noAck hv
    · split at hs
      · rename_i hreceiving
        cases hs
        refine ⟨h.cfg, h.early, h.receives, fun hv hreg => h.retries hv ?_, h.backoff⟩
        -- `ingest` never takes the flag back.
        by_contra hreg'
        rw [Bool.not_eq_false] at hreg'
        revert hreg
        simp only [ingest, hreg', Bool.not_true, Bool.false_and, Bool.false_eq_true, if_false]
        repeat' split
        all_goals simp
      · cases hs
  | rehello sent =>
    simp only [VoiceUdp.step] at hs
    split at hs
    · cases hs
    · rename_i delay hd
      have hbounds := h.backoff delay hd
      split at hs
      · rename_i hstop
        cases hs
        refine ⟨h.cfg, h.early, h.receives, fun hv hreg hrun => ?_, (fun _ he => by cases he)⟩
        simp only at hreg hrun
        simp [hreg, hrun] at hstop
      · cases hs
        refine ⟨h.cfg, h.early, h.receives, fun _ _ _ => ⟨_, rfl⟩, fun d he => ?_⟩
        have hcap : Config.udpRehelloBaseMs ≤ Config.udpRehelloMaxMs := by decide
        obtain rfl := Option.some.inj he
        omega
  | idle sent =>
    simp only [VoiceUdp.step] at hs
    split at hs <;> cases hs
    exact h
  | packet bytes sent =>
    simp only [VoiceUdp.step] at hs
    split at hs <;> cases hs
    exact h
  | dropped =>
    simp only [VoiceUdp.step] at hs
    split at hs <;> cases hs
    rename_i hv
    exact ⟨h.cfg, fun hne => absurd hv.1 hne, (fun _ he => by cases he),
      (fun _ _ he => by cases he), h.backoff⟩
  | pipelineStopped =>
    simp only [VoiceUdp.step] at hs
    split at hs <;> cases hs
    exact ⟨h.cfg, h.early, h.receives, h.retries, h.backoff⟩

/-- Only a datagram makes a call believe that it is registered. -/
theorem registered_of_step (hs : v.step e = some r) (hreg : r.1.registered = true) :
    v.registered = true ∨ ∃ bytes, e = .datagram bytes := by
  cases e with
  | datagram bytes => exact .inr ⟨bytes, rfl⟩
  | hello sent =>
    simp only [VoiceUdp.step] at hs
    split at hs
    · split at hs <;> cases hs <;> exact .inl hreg
    · cases hs
  | silence =>
    simp only [VoiceUdp.step] at hs
    split at hs
    · cases hs
      simp only [noAck, VoiceUdp.start] at hreg
      split at hreg
      · exact .inl hreg
      · split at hreg <;> cases hreg
    · cases hs
  | rehello sent =>
    simp only [VoiceUdp.step] at hs
    split at hs
    · cases hs
    · split at hs <;> cases hs <;> exact .inl hreg
  | idle sent | packet bytes sent | dropped | pipelineStopped =>
    simp only [VoiceUdp.step] at hs
    split at hs <;> cases hs
    exact .inl hreg

end VoiceUdp

/-! ## Runs -/

section Runs

variable {limits : Limits} {cfg : RecvCfg} {es : List (Env × Relay.Event)} {r : Relay}
  {e : Env × Relay.Event} {u : SocketAddr} {bytes : Bytes} {n n' : Net}

/-- Whatever the relay sends goes to an address that has completed a hello. -/
theorem greeted_of_sent (hs : Sound r) (hrun : runFrom Relay.step (.new limits) es = some r)
    (hsub : some (u, bytes) ∈ r.sent e) : Greeted (.new limits) (es ++ [e]) u := by
  obtain ⟨env, ev⟩ := e
  cases ev with
  | called op => cases hsub
  | received worker d src =>
    cases hd : decodeUdpHello d.bytes with
    | some token =>
      have hhello : (token ≠ 0 ∧ Accepts r.state token src ∧
          r.sent (env, .received worker d src) = [some (src, d.bytes)]) ∨
          (¬ (token ≠ 0 ∧ Accepts r.state token src) ∧
            r.sent (env, .received worker d src) = []) := relayRound_hello hd
      rcases hhello with ⟨h0, hacc, hsent⟩ | ⟨-, hsent⟩
      · rw [hsent, List.mem_singleton] at hsub
        cases hsub
        exact greeted_append hrun (.inr ⟨rfl, token, hd, h0, hacc⟩)
      · rw [hsent] at hsub
        cases hsub
    | none =>
      have hvoice : (r.sent (env, .received worker d src) : Multiset Submission) =
          (audience r.state d.bytes src).val.map fun u => some (u, d.bytes) :=
        relayRound_voice (hs.batches worker) hs.cache hs.registered hd
      have hin := Multiset.mem_coe.2 hsub
      rw [hvoice] at hin
      obtain ⟨a, ha, he⟩ := Multiset.mem_map.1 hin
      cases he
      obtain ⟨ch, hch⟩ := mem_audience ha
      refine greeted_append hrun (.inl ?_)
      rcases greeted_of_mem_participants hrun hch with h | h
      · exact absurd (ServerState.mem_channels_of_mem_participants h) Finmap.notMem_empty
      · exact h

/-- What holds after any run. -/
structure Honest (limits : Limits) (cfg : RecvCfg) (n : Net) : Prop where
  relay : runFrom Relay.step (.new limits) n.history = some n.relay
  sound : Sound n.relay
  keeps : n.voice.Keeps cfg
  addr : n.addr ∈ n.used
  answers : ∀ u bytes, some (u, bytes) ∈ n.answers → Greeted (.new limits) n.history u
  registered : n.voice.registered = true → ∃ u ∈ n.used, Greeted (.new limits) n.history u

theorem honest_new (limits : Limits) (cfg : RecvCfg) (voiceKey : Bytes) (addr : SocketAddr) :
    Honest limits cfg (.new limits cfg voiceKey addr) where
  relay := rfl
  sound := sound_new limits
  keeps := VoiceUdp.keeps_new cfg voiceKey
  addr := List.mem_singleton_self addr
  answers _ _ h := absurd h List.not_mem_nil
  registered h := by cases h

namespace Honest

/-- The call does something without a datagram. -/
theorem voice {e : VoiceUdp.Event} {v : VoiceUdp} {sent : List (SocketAddr × Bytes)}
    {out : List Bytes} (h : Honest limits cfg n) (hs : n.voice.step e = some (v, out))
    (he : ∀ bytes, e ≠ .datagram bytes) : Honest limits cfg { n with voice := v, sent } where
  relay := h.relay
  sound := h.sound
  keeps := h.keeps.step hs
  addr := h.addr
  answers := h.answers
  registered hreg := by
    rcases VoiceUdp.registered_of_step hs hreg with hold | ⟨bytes, hb⟩
    · exact h.registered hold
    · exact absurd hb (he bytes)

theorem step {e : Net.Event} (h : Honest limits cfg n) (hp : n.HasPeers e)
    (hs : n.step e = some n') : Honest limits cfg n' := by
  cases e with
  | relay e =>
    obtain ⟨r, hr, he⟩ := Option.map_eq_some_iff.1 hs
    cases he
    have hmono : ∀ u, Greeted (.new limits) n.history u →
        Greeted (.new limits) (n.history ++ [e]) u :=
      fun u hu => greeted_append h.relay (.inl hu)
    refine ⟨?_, h.sound.step hp hr, h.keeps, h.addr, fun u bytes hin => ?_, fun hreg => ?_⟩
    · show runFrom Relay.step (.new limits) (n.history ++ [e]) = some r
      rw [runFrom_append, h.relay, Option.bind_some, runFrom_cons, hr]
      rfl
    · rcases List.mem_append.1 hin with hin | hin
      · exact greeted_of_sent h.sound h.relay hin
      · exact hmono u (h.answers u bytes hin)
    · obtain ⟨u, hu, hg⟩ := h.registered hreg
      exact ⟨u, hu, hmono u hg⟩
  | voice e =>
    cases e with
    | datagram bytes => cases hs
    | hello _ | silence | rehello _ | idle _ | packet _ _ | dropped | pipelineStopped =>
      obtain ⟨r, hr, he⟩ := Option.map_eq_some_iff.1 hs
      cases he
      exact h.voice hr (by simp)
  | deliver dest bytes =>
    simp only [Net.step] at hs
    split at hs
    · rename_i hin
      obtain ⟨r, hr, he⟩ := Option.map_eq_some_iff.1 hs
      cases he
      -- Whatever it is, the relay has sent it to an address of the call.
      exact ⟨h.relay, h.sound, h.keeps.step hr, h.addr, h.answers,
        fun _ => ⟨dest, hin.1, h.answers dest bytes hin.2⟩⟩
    · cases hs
  | rebind addr =>
    cases hs
    refine ⟨h.relay, h.sound, h.keeps, List.mem_cons_self, h.answers, fun hreg => ?_⟩
    obtain ⟨u, hu, hg⟩ := h.registered hreg
    exact ⟨u, List.mem_cons_of_mem _ hu, hg⟩

end Honest

/-- A re-hello that is not lost, with its answer, registers the call. -/
theorem registers {env : Env} {worker : ℕ} {d : Datagram} (h : Honest limits cfg n)
    (hreturned : n.voice.handshake = .returned) (hreg : n.voice.registered = false)
    (hstop : n.voice.stop = false) (hd : d.bytes = encodeUdpHello cfg.udpToken)
    (h0 : cfg.udpToken ≠ 0) (hacc : Accepts n.relay.state cfg.udpToken n.addr) :
    ∃ n', runFrom Net.step n [.voice (.rehello true), .relay (env, .received worker d n.addr),
        .deliver n.addr d.bytes] = some n' ∧
      (n.addr, d.bytes) ∈ n'.sent ∧ n'.voice.registered = true ∧
        ∀ sent, n'.voice.step (.rehello sent) = some ({ n'.voice with rehello := none }, []) := by
  obtain ⟨delay, hdelay⟩ := h.keeps.retries hreturned hreg hstop
  have hreceiving := h.keeps.receives hreturned hstop
  have hdec : decodeUdpHello d.bytes = some cfg.udpToken := by
    rw [hd, decodeUdpHello_encodeUdpHello]
  have hhello : (cfg.udpToken ≠ 0 ∧ Accepts n.relay.state cfg.udpToken n.addr ∧
      n.relay.sent (env, .received worker d n.addr) = [some (n.addr, d.bytes)]) ∨
      (¬ (cfg.udpToken ≠ 0 ∧ Accepts n.relay.state cfg.udpToken n.addr) ∧
        n.relay.sent (env, .received worker d n.addr) = []) := relayRound_hello hdec
  have hanswer : n.relay.sent (env, .received worker d n.addr) = [some (n.addr, d.bytes)] := by
    rcases hhello with ⟨-, -, hsent⟩ | ⟨hno, -⟩
    · exact hsent
    · exact absurd ⟨h0, hacc⟩ hno
  simp only [runFrom, Net.step, VoiceUdp.step, hdelay, hreg, hstop, Relay.step,
    Option.map_some, Option.bind_some, hreturned, hreceiving, ingest, hdec, h.keeps.cfg, ← hd]
  simp [h.addr, hanswer]

end Runs

/-- **Registration is honest, and retried.**  In every run of a call with the relay, with any
datagrams of anybody else's and any operations on the registry in between, over a network that
loses, repeats and reorders and changes the caller's address: a call that believes it is
registered has had an address that completed a hello; one that is back from the handshake,
running and not registered sleeps, for a delay within the bounds of the backoff, before it says
hello again; and if the relay would accept its hello, then one re-hello that arrives, at
whatever worker, with an answer that arrives, registers it and ends the re-hello task. -/
theorem registration_sound (limits : Limits) (cfg : RecvCfg) (voiceKey : Bytes)
    (addr : SocketAddr) (es : List Net.Event) (n : Net)
    (hpeer : EachStep Net.step Net.HasPeers (.new limits cfg voiceKey addr) es)
    (hrun : runFrom Net.step (.new limits cfg voiceKey addr) es = some n) :
    (n.voice.registered = true → ∃ u ∈ n.used, Greeted (.new limits) n.history u) ∧
      (n.voice.handshake = .returned → n.voice.registered = false → n.voice.stop = false →
        (∃ delay, n.voice.rehello = some delay ∧
          Config.udpRehelloBaseMs ≤ delay ∧ delay ≤ Config.udpRehelloMaxMs) ∧
        ∀ (env : Env) (worker : ℕ) (d : Datagram), d.bytes = encodeUdpHello cfg.udpToken →
          cfg.udpToken ≠ 0 → Accepts n.relay.state cfg.udpToken n.addr →
          ∃ n', runFrom Net.step n [.voice (.rehello true),
              .relay (env, .received worker d n.addr), .deliver n.addr d.bytes] = some n' ∧
            (n.addr, d.bytes) ∈ n'.sent ∧ n'.voice.registered = true ∧
            ∀ sent, n'.voice.step (.rehello sent) =
              some ({ n'.voice with rehello := none }, [])) := by
  have h : Honest limits cfg n := inv_runFrom (Honest limits cfg)
    (fun _ _ _ h hp hs => h.step hp hs) (honest_new limits cfg voiceKey addr) hpeer hrun
  refine ⟨h.registered, fun hreturned hreg hstop => ⟨?_, fun env worker d hd h0 hacc => ?_⟩⟩
  · obtain ⟨delay, hdelay⟩ := h.keeps.retries hreturned hreg hstop
    exact ⟨delay, hdelay, h.keeps.backoff delay hdelay⟩
  · exact registers h hreturned hreg hstop hd h0 hacc

/-- A call of the member of `pub-x` with token 1. -/
def sampleCfg : RecvCfg := ⟨.sample, 1, "ann", false⟩

/-- The hello of the call is lost three times. -/
def lostHandshake : List Net.Event :=
  [.relay (.sample 7 1, .called (.registerClient (.v4 1 1))),
    .relay (.sample 7 1, .called (.createChannel (some "x"))),
    .relay (.sample 7 1, .called (.joinChannel (.v4 1 1) "pub-x")),
    .voice (.hello true), .voice .silence, .voice (.hello true), .voice .silence,
    .voice (.hello true), .voice .silence]

/-- After a handshake that came to nothing, the first re-hello that is not lost registers
the call. -/
theorem registration_sound_lostHandshake : ∃ n n' : Net,
    runFrom Net.step (.new ⟨0, 0⟩ sampleCfg (List.replicate 32 7) (.v4 1 11)) lostHandshake =
        some n ∧ n.voice.registered = false ∧ n.voice.rehello = some 1000 ∧
      runFrom Net.step n [.voice (.rehello true),
        .relay (.sample 7 1, .received 0 (helloDatagram 1) (.v4 1 11)),
        .deliver (.v4 1 11) (helloDatagram 1).bytes] = some n' ∧
      n'.voice.registered = true := by
  obtain ⟨n, hrun, hreturned, hreg, hstop, hrehello, haddr, hacc⟩ : ∃ n : Net,
      runFrom Net.step (.new ⟨0, 0⟩ sampleCfg (List.replicate 32 7) (.v4 1 11)) lostHandshake =
        some n ∧ n.voice.handshake = .returned ∧ n.voice.registered = false ∧
      n.voice.stop = false ∧ n.voice.rehello = some 1000 ∧ n.addr = .v4 1 11 ∧
      (n.relay.state.registerUdpByToken (.sample 7 1) 1 (.v4 1 11)).1 = true :=
    ⟨_, rfl, rfl, rfl, rfl, rfl, rfl, by decide⟩
  have hsound := (registration_sound ⟨0, 0⟩ sampleCfg (List.replicate 32 7) (.v4 1 11)
    lostHandshake n (by decide) hrun).2 hreturned hreg hstop
  have hacc' : Accepts n.relay.state 1 n.addr := by
    rw [haddr]
    exact registerUdpByToken_iff.1 hacc
  obtain ⟨n', hrun', -, hreg', -⟩ :=
    hsound.2 (.sample 7 1) 0 (helloDatagram 1) rfl (by decide) hacc'
  rw [haddr] at hrun'
  exact ⟨n, n', hrun, hreg, hrehello, hrun', hreg'⟩

end Link
end TcVoice
