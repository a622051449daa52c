import TcVoice.Server.Relay

/-!
# Who can be reached

The relay sends voice to the address of a client's last accepted hello.  This file is about
how long that address stays good: which operations of which tasks leave it alone.

* `Reaches` — everything the relay needs to send a client its channel's voice.
* `LeavesAlone` — a step in which the client neither leaves nor says hello from elsewhere,
  and nobody else says hello from its address.
* `Reaches.change` — **one operation**: the client is reached as before.
* `reached_after_hello` — **from an accepted hello on, every voice datagram of the channel
  is handed to the kernel for the client**, until a step that does not leave it alone.
-/

namespace TcVoice
namespace Server

open Runs Table ServerState

variable {env : Env} {s s' : ServerState} {op : Op} {tcp a u : SocketAddr} {ch : ChannelId}
  {token t : UInt64}

/-! ## What the relay needs -/

/-- The token is the client's for the channel, the client has the address, its channel lists
the address, and it is nobody else's. -/
structure Reaches (s : ServerState) (token : UInt64) (tcp : SocketAddr) (ch : ChannelId)
    (a : SocketAddr) : Prop where
  token : s.tokenFor token = some (tcp, ch)
  client : s.udpOf tcp = some a
  participant : a ∈ s.participants ch
  sole : ∀ b, s.udpOf b = some a → b = tcp

/-- The step is a hello with this token from this address. -/
def SaysHello (e : Env × Relay.Event) (t : UInt64) (u : SocketAddr) : Prop :=
  match e.2 with
  | .received _ d src => src = u ∧ decodeUdpHello d.bytes = some t
  | .called op => op = .registerUdpByToken t u

/-- The client stays, and of the hellos that are accepted in the step those with its token are
those from its address. -/
structure LeavesAlone (token : UInt64) (tcp a : SocketAddr) (r : Relay)
    (e : Env × Relay.Event) : Prop where
  stays : e.2 ≠ .called (.leaveChannel tcp) ∧ e.2 ≠ .called (.removeClient tcp)
  hellos : ∀ t u, SaysHello e t u → Accepts r.state t u → (t = token ↔ u = a)

/-- The listener gives every connection an address of its own, with an IP address. -/
def Listens (r : Relay) (e : Env × Relay.Event) : Prop :=
  HasPeer r e ∧ ∀ b, e.2 = .called (.registerClient b) → b ∉ r.state.clients

instance (r : Relay) (e : Env × Relay.Event) : Decidable (Listens r e) :=
  match e with
  | (env, .called op) =>
    decidable_of_iff (HasPeer r (env, .called op) ∧ FreshAddress r.state (env, op))
      ⟨fun h => ⟨h.1, fun b hb => h.2 b (Relay.Event.called.inj hb)⟩,
        fun h => ⟨h.1, fun b hb => h.2 b (congrArg _ hb)⟩⟩
  | (_, .received ..) => isTrue ⟨(fun _ h => by cases h), (fun _ h => by cases h)⟩

/-! ## One operation -/

namespace Reaches

theorem mem_clients (h : Reaches s token tcp ch a) : tcp ∈ s.clients := by
  obtain ⟨c, hl, -⟩ := Option.bind_eq_some_iff.1 h.client
  exact Finmap.mem_of_lookup_eq_some hl

/-- It is about the token, the addresses and the participants of the channel alone. -/
theorem congr (h : Reaches s token tcp ch a) (htok : s'.tokenFor token = s.tokenFor token)
    (hudp : ∀ b, s'.udpOf b = s.udpOf b) (hps : s'.participants ch = s.participants ch) :
    Reaches s' token tcp ch a where
  token := htok.trans h.token
  client := (hudp tcp).trans h.client
  participant := hps.symm ▸ h.participant
  sole b hb := h.sole b ((hudp b).symm.trans hb)

/-- Somebody else goes, and takes an address along that is not the client's. -/
theorem depart {s₁ : ServerState} {b : SocketAddr} (h : Reaches s token tcp ch a)
    (hb : tcp ≠ b) (hd : Departed s b s₁) : Reaches s₁ token tcp ch a where
  token := hd.tokenFor_eq_some.2 ⟨h.token, hb⟩
  client := by rw [hd.udpOf, if_neg hb, h.client]
  participant := hd.participants.symm ▸ h.participant
  sole x hx := by
    rw [hd.udpOf] at hx
    split at hx
    · cases hx
    · exact h.sole x hx

theorem dropParticipant {x : ChannelId} {udp : Option SocketAddr}
    (h : Reaches s token tcp ch a) (hudp : udp ≠ some a) :
    Reaches (s.dropParticipant env x udp) token tcp ch a where
  token := (tokenFor_congr udpTokens_dropParticipant).trans h.token
  client := udpOf_dropParticipant.trans h.client
  participant := by
    rw [participants_dropParticipant]
    split
    · rename_i hx
      exact mem_removeAddr.2 ⟨hx ▸ h.participant, hudp⟩
    · exact h.participant
  sole b hb := h.sole b (udpOf_dropParticipant.symm.trans hb)

/-- A token that is issued is no token that is in use. -/
theorem issued {b : SocketAddr} {x : ChannelId} (h : Reaches s token tcp ch a)
    (ht : t ∉ s.udpTokens)
    (htok : ∀ y, s'.tokenFor y = if y = t then some (b, x) else s.tokenFor y)
    (hudp : ∀ b, s'.udpOf b = s.udpOf b) (hps : s'.participants ch = s.participants ch) :
    Reaches s' token tcp ch a := by
  refine h.congr ?_ hudp hps
  have hne : token ≠ t := by
    rintro rfl
    have hnone := tokenFor_of_notMem ht
    rw [h.token] at hnone
    cases hnone
  rw [htok, if_neg hne]

/-- The client says hello again from where it is. -/
theorem again {c : ClientInfo} (h : Reaches s token tcp ch a) :
    Reaches (s.greeted env token tcp c ch a) token tcp ch a where
  token := (tokenFor_renewed rfl).trans h.token
  client := by rw [udpOf_greeted, if_pos rfl]
  participant := by
    rw [participants_greeted (mem_channels_of_mem_participants h.participant), if_pos rfl]
    exact mem_rebindAddr_self
  sole b hb := by
    rw [udpOf_greeted] at hb
    split at hb
    · assumption
    · exact h.sole b hb

/-- Somebody else says hello from elsewhere, and gives up an address that is not the
client's. -/
theorem other {x : ChannelId} {b : SocketAddr} {c : ClientInfo} (h : Reaches s token tcp ch a)
    (hl : s.clients.lookup b = some c) (hb : b ≠ tcp) (hu : u ≠ a) :
    Reaches (s.greeted env t b c x u) token tcp ch a where
  token := (tokenFor_renewed rfl).trans h.token
  client := by rw [udpOf_greeted, if_neg hb.symm, h.client]
  participant := by
    by_cases hx : x ∈ s.channels
    · rw [participants_greeted hx]
      split
      · rename_i he
        refine mem_rebindAddr.2 (.inr ⟨he ▸ h.participant, fun hold => hb ?_⟩)
        exact h.sole b ((udpOf_of_lookup hl).trans hold.1)
      · exact h.participant
    · rw [participants_greeted_of_notMem hx]
      exact h.participant
  sole y hy := by
    rw [udpOf_greeted] at hy
    split at hy
    · exact absurd (Option.some.inj hy) hu
    · exact h.sole y hy

/-- **One operation.** -/
theorem change (h : Reaches s token tcp ch a) (hm : TokensMatch s)
    (hf : FreshAddress s (env, op)) (hstays : op ≠ .leaveChannel tcp ∧ op ≠ .removeClient tcp)
    (hhellos : ∀ t u, op = .registerUdpByToken t u → Accepts s t u → (t = token ↔ u = a))
    (hc : Change env s op s') : Reaches s' token tcp ch a := by
  have hstaysL : ∀ b, op = .leaveChannel b → tcp ≠ b := by
    rintro b rfl rfl
    exact hstays.1 rfl
  have hstaysR : ∀ b, op = .removeClient b → tcp ≠ b := by
    rintro b rfl rfl
    exact hstays.2 rfl
  cases hc with
  | refused => exact h
  | @registered b =>
    have hne : tcp ≠ b := by
      rintro rfl
      exact hf tcp rfl h.mem_clients
    refine ⟨h.token, ?_, h.participant, fun x hx => ?_⟩
    · rw [udpOf_insert rfl, if_neg hne, h.client]
    · rw [udpOf_insert rfl] at hx
      split at hx
      · cases hx
      · exact h.sole x hx
  | rekeyed hl => exact h.congr rfl (fun b => udpOf_rekeyed hl) rfl
  | renamed hl => exact h.congr rfl (fun b => udpOf_renamed hl) rfl
  | removed => exact h.depart (hstaysR _ rfl) (departed_withoutClient _)
  | @hungUp b c x hl =>
    refine (h.depart (hstaysR b rfl) (departed_withoutClient c)).dropParticipant fun hu => ?_
    exact hstaysR b rfl (h.sole b ((udpOf_of_lookup hl).trans hu)).symm
  | @left b c x hl =>
    refine (h.depart (hstaysL b rfl) (departed_withoutMember c)).dropParticipant fun hu => ?_
    exact hstaysL b rfl (h.sole b ((udpOf_of_lookup hl).trans hu)).symm
  | created hid | established hid =>
    exact h.congr rfl (fun b => rfl) (participants_addChannel env hid)
  | joined hch ha hout h0 htok =>
    refine h.issued htok (fun x => tokenFor_insert udpTokens_joined) (fun b => udpOf_joined ha) ?_
    rw [participants, channels_joined, participants]
  | echoed hid ha hout h0 htok =>
    exact h.issued htok (fun x => tokenFor_insert rfl) (fun b => udpOf_echoed ha)
      (participants_addChannel env hid)
  | renewed => exact h.congr (tokenFor_renewed rfl) (fun b => rfl) rfl
  | @greeted t u b x created c ht hip hl =>
    have hacc : Accepts s t u := ⟨b, x, created, ht, Finmap.mem_of_lookup_eq_some hl, hip⟩
    have htok : s.tokenFor t = some (b, x) := tokenFor_eq_some.2 ⟨created, ht⟩
    by_cases he : t = token
    · obtain rfl : u = a := (hhellos t u rfl hacc).1 he
      subst he
      cases Option.some.inj (htok.symm.trans h.token)
      exact h.again
    · -- One client has one token, so this is another client.
      have hb : b ≠ tcp := by
        rintro rfl
        have hx : x = ch := Option.some.inj
          ((hm.honest t b x htok).symm.trans (hm.honest token b ch h.token))
        exact he (hm.unique t token b ch (hx ▸ htok) h.token)
      exact h.other hl hb fun hu => he ((hhellos t u rfl hacc).2 hu)
  | swept =>
    exact h.congr (hm.tokenFor_cleanupWith token) (fun b => udpOf_cleanupWith)
      participants_cleanupWith

/-- An accepted hello makes the client reachable, if its channel exists and nobody else has
the address. -/
theorem of_greeted {created : ℕ} {c : ClientInfo}
    (ht : s.udpTokens.lookup token = some (tcp, ch, created)) (hch : ch ∈ s.channels)
    (hip : tcp.ip.toCanonical = a.ip.toCanonical) (hsole : ∀ b, s.udpOf b = some a → b = tcp) :
    Reaches (s.greeted env token tcp c ch a) token tcp ch a where
  token := (settled_greeted ht hip).token
  client := by rw [udpOf_greeted, if_pos rfl]
  participant := (settled_greeted ht hip).participant (mem_channels_greeted.2 hch)
  sole b hb := by
    rw [udpOf_greeted] at hb
    split at hb
    · assumption
    · exact hsole b hb

end Reaches

/-! ## Runs of the relay -/

section Runs

variable {r r' : Relay} {e : Env × Relay.Event}

/-- A step is at most one operation on the registry: the call, or the hello it is. -/
theorem Relay.step_cases (h : r.step e = some r') : r'.state = r.state ∨
    ∃ op, exec e.1 r.state op = some r'.state ∧
      (e.2 = .called op ∨ ∃ token u, op = .registerUdpByToken token u ∧ SaysHello e token u) := by
  obtain ⟨env, ev⟩ := e
  cases ev with
  | received i d src =>
    cases h
    refine relayRound_state.imp_right ?_
    rintro ⟨token, hd, -, hexec⟩
    exact ⟨_, hexec, .inr ⟨token, src, rfl, rfl, hd⟩⟩
  | called op =>
    obtain ⟨s', hexec, he⟩ := Option.map_eq_some_iff.1 h
    cases he
    exact .inr ⟨op, hexec, .inl rfl⟩

/-- The operation of a step meets what the listener promises. -/
theorem Listens.fresh (hl : Listens r e)
    (hop : e.2 = .called op ∨ ∃ token u, op = .registerUdpByToken token u ∧ SaysHello e token u) :
    FreshAddress r.state (e.1, op) := by
  intro b hb
  cases hb
  rcases hop with he | ⟨_, _, he, -⟩
  · exact hl.2 b he
  · cases he

/-- What holds of the relay between the steps, and of its tokens. -/
structure Lively (r : Relay) : Prop where
  sound : Sound r
  tokens : TokensMatch r.state

theorem lively_new (limits : Limits) : Lively (.new limits) :=
  ⟨sound_new limits, tokensMatch_new limits⟩

theorem Lively.step (hr : Lively r) (hl : Listens r e) (h : r.step e = some r') :
    Lively r' := by
  refine ⟨hr.sound.step hl.1 h, ?_⟩
  rcases Relay.step_cases h with heq | ⟨op, hexec, hop⟩
  · rw [heq]
    exact hr.tokens
  · exact hr.tokens.change (hl.fresh hop) (exec_change hexec)

theorem Reaches.step (hr : Reaches r.state token tcp ch a) (hm : TokensMatch r.state)
    (hl : Listens r e) (hk : LeavesAlone token tcp a r e) (h : r.step e = some r') :
    Reaches r'.state token tcp ch a := by
  rcases Relay.step_cases h with heq | ⟨op, hexec, hop⟩
  · rw [heq]
    exact hr
  refine hr.change hm (hl.fresh hop) ?_ ?_ (exec_change hexec)
  · rcases hop with he | ⟨_, _, rfl, -⟩
    · exact ⟨fun h => hk.stays.1 (h ▸ he), fun h => hk.stays.2 (h ▸ he)⟩
    · simp
  · rintro t u rfl hacc
    refine hk.hellos t u ?_ hacc
    rcases hop with he | ⟨_, _, he, hsays⟩
    · obtain ⟨env, ev⟩ := e
      cases he
      rfl
    · cases he
      exact hsays

/-- Whoever is reached is in the audience of what others say in the channel. -/
theorem Reaches.mem_audience {data : Bytes} {src : SocketAddr}
    (h : Reaches s token tcp ch a) (hd : decodeUdpHello data = none)
    (hch : VoicePacket.parseChannelId data = some ch) (hsrc : src ≠ a) :
    a ∈ audience s data src := by
  simp only [audience, hd, hch]
  split
  · exact h.participant
  · exact Finset.mem_erase.2 ⟨hsrc.symm, h.participant⟩

theorem Reaches.sent {d : Datagram} {src : SocketAddr} {worker : ℕ} (hr : Sound r)
    (h : Reaches r.state token tcp ch a) (hd : decodeUdpHello d.bytes = none)
    (hch : VoicePacket.parseChannelId d.bytes = some ch) (hsrc : src ≠ a) :
    some (a, d.bytes) ∈ r.sent (env, .received worker d src) := by
  rw [← Multiset.mem_coe]
  have hvoice : (r.sent (env, .received worker d src) : Multiset Submission) = _ :=
    relayRound_voice (hr.batches worker) hr.cache hr.registered hd
  rw [hvoice]
  exact Multiset.mem_map.2 ⟨a, h.mem_audience hd hch hsrc, rfl⟩

end Runs

/-- **From an accepted hello on.**  After any run of the relay a member of an existing channel
says hello, from behind the IP address of its connection and from an address that is nobody
else's.  Through any further steps of any tasks and workers, as long as the client stays, no
accepted hello with its token comes from elsewhere and none of anybody else's from its
address: every voice datagram that names the channel, from any other source and at whatever
worker, is handed to the kernel for that address. -/
theorem reached_after_hello (limits : Limits) (es es' : List (Env × Relay.Event))
    (r r₁ r₂ : Relay) (env : Env) (worker : ℕ) (d : Datagram) (token : UInt64)
    (tcp a : SocketAddr) (ch : ChannelId)
    (hlistens : EachStep Relay.step Listens (.new limits) es)
    (hrun : runFrom Relay.step (.new limits) es = some r)
    (hd : decodeUdpHello d.bytes = some token) (htok : r.state.tokenFor token = some (tcp, ch))
    (hch : ch ∈ r.state.channels) (hip : tcp.ip.toCanonical = a.ip.toCanonical)
    (hsole : ∀ b, r.state.udpOf b = some a → b = tcp)
    (hhello : r.step (env, .received worker d a) = some r₁)
    (hkeep : EachStep Relay.step (fun r e => Listens r e ∧ LeavesAlone token tcp a r e) r₁ es')
    (hrun' : runFrom Relay.step r₁ es' = some r₂) :
    r₂.state.tokenFor token = some (tcp, ch) ∧
      ∀ (env' : Env) (worker' : ℕ) (d' : Datagram) (src : SocketAddr),
        decodeUdpHello d'.bytes = none → VoicePacket.parseChannelId d'.bytes = some ch →
          src ≠ a → some (a, d'.bytes) ∈ r₂.sent (env', .received worker' d' src) := by
  have hr : Lively r := inv_runFrom Lively (fun _ _ _ hr hl h => hr.step hl h)
    (lively_new limits) hlistens hrun
  have hr₁ : Lively r₁ := by
    refine hr.step ⟨fun b hb => ?_, fun b hb => ?_⟩ hhello <;> cases hb
  have hin : r.state.channelOf tcp = some ch := hr.tokens.honest token tcp ch htok
  obtain ⟨c, hl, -⟩ := channelOf_eq_some.1 hin
  obtain ⟨created, ht⟩ := tokenFor_eq_some.1 htok
  have h0 : token ≠ 0 := hr.tokens.nonzero token (by simp [htok])
  have hreach : Reaches r₁.state token tcp ch a := by
    have hstate : r₁.state = r.state.greeted env token tcp c ch a := by
      cases hhello
      simp only [relayRound, hd, if_neg h0, registerUdpByToken, ht, hip, ne_eq, not_true_eq_false,
        if_false, hl, greeted]
    rw [hstate]
    exact .of_greeted ht hch hip hsole
  obtain ⟨hr₂, hreach₂⟩ := inv_runFrom
    (fun r => Lively r ∧ Reaches r.state token tcp ch a)
    (fun _ _ _ h hok hs => ⟨h.1.step hok.1 hs, h.2.step h.1.tokens hok.1 hok.2 hs⟩)
    ⟨hr₁, hreach⟩ hkeep hrun'
  exact ⟨hreach₂.token, fun env' worker' d' src hd' hch' hsrc =>
    hreach₂.sent hr₂.sound hd' hch' hsrc⟩

/-- Two clients join `pub-x`, and the first says hello; then the second does, and a sweep
comes by.  What the second says is for the first. -/
theorem reached_after_hello_greetingRun : ∃ r₂ : Relay,
    some (.v4 1 11, voiceDatagram.bytes) ∈
      r₂.sent (.sample 7 1, .received 3 voiceDatagram (.v4 2 22)) := by
  let es' : List (Env × Relay.Event) :=
    [(.sample 7 1, .received 1 (helloDatagram 2) (.v4 2 22)),
      (.sample 7 1, .called (.cleanupWith 0 0))]
  have hch : VoicePacket.parseChannelId voiceDatagram.bytes = some "pub-x" :=
    VoicePacket.parseChannelId_encode (p := ⟨1, "pub-x", [7]⟩) (by decide) (by simp)
  have hkeep : ∀ r : Relay, EachStep Relay.step
      (fun r e => Listens r e ∧ LeavesAlone 1 (.v4 1 1) (.v4 1 11) r e) r es' := by
    have h2 : decodeUdpHello (helloDatagram 2).bytes = some 2 := by decide
    intro r r' hr'
    refine ⟨⟨⟨(fun _ h => by cases h), (fun _ h => by cases h)⟩,
      ⟨by simp, fun t u hsays _ => ?_⟩⟩, fun r'' hr'' => ⟨⟨⟨(fun _ h => by cases h),
        (fun _ h => by cases h)⟩, ⟨by simp, fun t u hsays _ => ?_⟩⟩, trivial⟩⟩
    · obtain ⟨rfl, ht⟩ := hsays
      cases Option.some.inj (h2.symm.trans ht)
      decide
    · cases hsays
  obtain ⟨r, r₁, r₂, hrun, hhello, hrun', htok, hmem, hsole⟩ : ∃ r r₁ r₂ : Relay,
      runFrom Relay.step (.new ⟨0, 0⟩) (greetingRun.take 5) = some r ∧
      r.step (.sample 7 1, .received 0 (helloDatagram 1) (.v4 1 11)) = some r₁ ∧
      runFrom Relay.step r₁ es' = some r₂ ∧
      r.state.tokenFor 1 = some (.v4 1 1, "pub-x") ∧ "pub-x" ∈ r.state.channels ∧
      ∀ b ∈ r.state.clients.keys, r.state.udpOf b ≠ some (.v4 1 11) :=
    ⟨_, _, _, rfl, rfl, rfl, by decide, by decide, by decide⟩
  refine ⟨r₂, (reached_after_hello ⟨0, 0⟩ (greetingRun.take 5) es' r r₁ r₂ (.sample 7 1) 0
    (helloDatagram 1) 1 (.v4 1 1) (.v4 1 11) "pub-x" (by decide) hrun (by decide) htok hmem
    (by decide) (fun b hb => ?_) hhello (hkeep r₁) hrun').2 (.sample 7 1) 3 voiceDatagram
    (.v4 2 22) (by decide) hch (by decide)⟩
  obtain ⟨c, hl, -⟩ := Option.bind_eq_some_iff.1 hb
  exact absurd hb (hsole b (Finmap.mem_keys.2 (Finmap.mem_of_lookup_eq_some hl)))

end Server
end TcVoice
