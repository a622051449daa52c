import TcVoice.Server.Tokens

/-!
# UDP hellos

A client says hello with its token until it hears an acknowledgement, and again
whenever it has been silent.  A hello goes through the token table, the clients,
the participant sets and the cache in turn; this file is about it doing all of
that or nothing, and about the second hello doing nothing more.

* `TokensOwned` — every token is a registered client's, in every state.
* `SameButAge` — two states that differ in the age of one token, and perhaps in
  the order a cached list was read off in.
* `Settled` — what an accepted hello leaves behind; `Settled.again` is a hello
  said once more from there.
* `hello_reachable` — **when a hello is accepted, what a refused one changes and
  what a repeated one changes**.
-/

namespace TcVoice
namespace Server

open Runs Table ServerState

variable {env : Env} {s s' : ServerState} {op : Op} {a tcp udp : SocketAddr} {ch : ChannelId}
  {token : UInt64}

/-! ## Whose tokens there are -/

/-- Every token's client is registered. -/
def TokensOwned (s : ServerState) : Prop := ∀ t a ch, s.tokenFor t = some (a, ch) → a ∈ s.clients

theorem tokensOwned_new (limits : Limits) : TokensOwned (.new limits) := by
  intro t a ch h
  simp [tokenFor, ServerState.new] at h

namespace TokensOwned

/-- A step that issues no token and loses no client. -/
theorem congr (ho : TokensOwned s) (htok : ∀ t, s'.tokenFor t = s.tokenFor t)
    (hin : ∀ a, a ∈ s.clients → a ∈ s'.clients) : TokensOwned s' := fun t a ch h =>
  hin a (ho t a ch (by rwa [← htok]))

/-- A client that goes takes its tokens with it. -/
theorem depart {s₁ : ServerState} (ho : TokensOwned s) (hd : Departed s a s₁)
    (hin : ∀ b, b ∈ s.clients → b ≠ a → b ∈ s₁.clients) : TokensOwned s₁ := by
  intro t b ch h
  obtain ⟨ht, hb⟩ := hd.tokenFor_eq_some.1 h
  exact hin b (ho t b ch ht) hb

/-- A token is issued to a registered client. -/
theorem issue {t : UInt64} (ho : TokensOwned s) (ha : a ∈ s.clients)
    (htok : ∀ x, s'.tokenFor x = if x = t then some (a, ch) else s.tokenFor x)
    (hin : ∀ a, a ∈ s.clients → a ∈ s'.clients) : TokensOwned s' := by
  intro x b c h
  rw [htok] at h
  split at h
  · cases h
    exact hin a ha
  · exact hin b (ho x b c h)

theorem mem_insert_of_mem {c : ClientInfo} {b : SocketAddr} (h : b ∈ s.clients) :
    b ∈ s.clients.insert a c := Finmap.mem_insert.2 (.inr h)

theorem change (ho : TokensOwned s) (hc : Change env s op s') : TokensOwned s' := by
  cases hc with
  | refused => exact ho
  | registered | rekeyed | renamed => exact ho.congr (fun _ => rfl) fun _ => mem_insert_of_mem
  | created | established => exact ho.congr (fun _ => rfl) fun _ h => h
  | removed =>
    exact ho.depart (departed_withoutClient _) fun b hb hne => Finmap.mem_erase.2 ⟨hne, hb⟩
  | @hungUp a c ch =>
    have hd : TokensOwned (s.withoutClient a c) :=
      ho.depart (departed_withoutClient _) fun b hb hne => Finmap.mem_erase.2 ⟨hne, hb⟩
    exact hd.congr (fun t => tokenFor_congr udpTokens_dropParticipant) fun b hb => by
      rwa [clients_dropParticipant]
  | @left a c ch =>
    have hd : TokensOwned (s.withoutMember a c) :=
      ho.depart (departed_withoutMember _) fun b hb _ => mem_insert_of_mem hb
    exact hd.congr (fun t => tokenFor_congr udpTokens_dropParticipant) fun b hb => by
      rwa [clients_dropParticipant]
  | joined hch ha =>
    obtain ⟨c, hl⟩ := (mem_iff_lookup _ _).1 ha
    refine ho.issue ha (fun x => tokenFor_insert udpTokens_joined) fun b hb => ?_
    rw [clients_joined hl]
    exact mem_insert_of_mem hb
  | echoed hid ha =>
    obtain ⟨c, hl⟩ := (mem_iff_lookup _ _).1 ha
    refine ho.issue ha (fun x => tokenFor_insert rfl) fun b hb => ?_
    rw [clients_echoed hl]
    exact mem_insert_of_mem hb
  | renewed => exact ho.congr (fun t => tokenFor_renewed rfl) fun _ h => h
  | greeted => exact ho.congr (fun t => tokenFor_renewed rfl) fun _ => mem_insert_of_mem
  | swept =>
    intro t b c h
    obtain ⟨created, hl⟩ := tokenFor_eq_some.1 h
    rw [cleanupWith_clients]
    exact ho t b c (tokenFor_eq_some.2 ⟨created, (lookup_udpTokens_cleanupWith.1 hl).1⟩)

end TokensOwned

/-! ## Accepted hellos -/

/-- A hello is accepted when its token is known, for a registered client, and it comes from
the IP address of that client's connection. -/
def Accepts (s : ServerState) (token : UInt64) (udp : SocketAddr) : Prop :=
  ∃ tcp ch created, s.udpTokens.lookup token = some (tcp, ch, created) ∧ tcp ∈ s.clients ∧
    tcp.ip.toCanonical = udp.ip.toCanonical

theorem registerUdpByToken_iff :
    (s.registerUdpByToken env token udp).1 = true ↔ Accepts s token udp := by
  obtain ⟨hr, -, hno⟩ | ⟨tcp, ch, created, ht, htcp, hr, -⟩ |
      ⟨tcp, ch, created, c, ht, hip, hl, hr, -⟩ :=
    registerUdpByToken_cases (Prod.mk.eta (p := s.registerUdpByToken env token udp)).symm
  · refine iff_of_false (by simp [hr]) ?_
    rintro ⟨tcp, ch, created, ht, -, hip⟩
    exact hno tcp ch created ht hip
  · refine iff_of_false (by simp [hr]) ?_
    rintro ⟨tcp', ch', created', ht', hin, -⟩
    cases Option.some.inj (ht.symm.trans ht')
    exact htcp hin
  · exact iff_of_true hr ⟨tcp, ch, created, ht, Finmap.mem_of_lookup_eq_some hl, hip⟩

/-- Where every token is a registered client's, a refused hello changes nothing. -/
theorem TokensOwned.refused (ho : TokensOwned s)
    (h : (s.registerUdpByToken env token udp).1 = false) :
    (s.registerUdpByToken env token udp).2 = s := by
  obtain ⟨-, heq, -⟩ | ⟨tcp, ch, created, ht, htcp, -, -⟩ | ⟨_, _, _, _, -, -, -, hr, -⟩ :=
    registerUdpByToken_cases (Prod.mk.eta (p := s.registerUdpByToken env token udp)).symm
  · exact heq
  · exact absurd (ho token tcp ch (tokenFor_eq_some.2 ⟨created, ht⟩)) htcp
  · rw [hr] at h
    exact absurd h (by simp)

/-! ## Saying it again -/

/-- Nothing but the age of one token differs, and at most the order in which a cached list
was read off its set. -/
structure SameButAge (token : UInt64) (s s' : ServerState) : Prop where
  inner : s'.toInner = { s.toInner with udpTokens := s'.udpTokens }
  tokens : ∀ t, t ≠ token → s'.udpTokens.lookup t = s.udpTokens.lookup t
  owner : s'.tokenFor token = s.tokenFor token
  cache : ∀ x, (s'.peerCache.lookup x).map Multiset.ofList =
    (s.peerCache.lookup x).map Multiset.ofList

theorem SameButAge.refl (token : UInt64) (s : ServerState) : SameButAge token s s :=
  ⟨rfl, fun _ _ => rfl, rfl, fun _ => rfl⟩

theorem SameButAge.trans {s'' : ServerState} (h : SameButAge token s s')
    (h' : SameButAge token s' s'') : SameButAge token s s'' where
  inner := by rw [h'.inner, h.inner]
  tokens t ht := (h'.tokens t ht).trans (h.tokens t ht)
  owner := h'.owner.trans h.owner
  cache x := (h'.cache x).trans (h.cache x)

/-- What an accepted hello leaves behind: the client has the address, its channel lists the
address if it exists, and the cache has the channel's list in the order `o`. -/
structure Settled (token : UInt64) (tcp udp : SocketAddr) (ch : ChannelId)
    (o : HashOrder SocketAddr) (s : ServerState) : Prop where
  token : s.tokenFor token = some (tcp, ch)
  ip : tcp.ip.toCanonical = udp.ip.toCanonical
  client : s.udpOf tcp = some udp
  participant : ch ∈ s.channels → udp ∈ s.participants ch
  cached : s.peerCache.lookup ch = some (o.toList (s.participants ch).val)

theorem mem_rebindAddr_self {prev : Option SocketAddr} {ps : Finset SocketAddr} :
    udp ∈ rebindAddr prev udp ps := Finset.mem_insert_self _ _

theorem settled_greeted {created : ℕ} {c : ClientInfo}
    (ht : s.udpTokens.lookup token = some (tcp, ch, created))
    (hip : tcp.ip.toCanonical = udp.ip.toCanonical) :
    Settled token tcp udp ch env.addrOrder (s.greeted env token tcp c ch udp) where
  token := (tokenFor_renewed rfl).trans (tokenFor_eq_some.2 ⟨created, ht⟩)
  ip := hip
  client := by rw [udpOf_greeted, if_pos rfl]
  participant hch := by
    rw [participants_greeted (mem_channels_greeted.1 hch), if_pos rfl]
    exact mem_rebindAddr_self
  cached := by
    rw [greeted, lookup_peerCache_updateChannelPeers, if_pos rfl]
    rfl

/-- The state after the age of a token has been renewed and its channel's list read again. -/
def refreshed (env : Env) (s : ServerState) (token : UInt64) (ch : ChannelId) : ServerState :=
  updateChannelPeers env
    { s with udpTokens := s.udpTokens.modify token fun t => (t.1, t.2.1, env.now) } ch

namespace Settled

variable {o : HashOrder SocketAddr}

/-- Saying hello again from the same address registers nothing new. -/
theorem again (hs : Settled token tcp udp ch o s) :
    s.registerUdpByToken env token udp = (true, refreshed env s token ch) := by
  obtain ⟨created, ht⟩ := tokenFor_eq_some.1 hs.token
  obtain ⟨c, hl, hc⟩ := Option.bind_eq_some_iff.1 hs.client
  have hclient : s.clients.insert tcp { c with udpAddr := some udp } = s.clients := by
    rw [← hc]
    exact insert_of_lookup hl
  have hchannel : s.channels.modify ch (rebindAddr (some udp) udp) = s.channels := by
    unfold Table.modify
    split
    · rename_i ps hps
      have hin : udp ∈ ps := by
        rw [← participants_of_lookup hps]
        exact hs.participant (Finmap.mem_of_lookup_eq_some hps)
      have hsame : rebindAddr (some udp) udp ps = ps := by
        simp only [rebindAddr, ne_eq, not_true_eq_false, if_false]
        exact Finset.insert_eq_of_mem hin
      rw [hsame]
      exact insert_of_lookup hps
    · rfl
  simp only [registerUdpByToken, ht, hs.ip, ne_eq, not_true_eq_false, if_false, hl, hc, hclient,
    hchannel, refreshed]

theorem refreshed (hs : Settled token tcp udp ch o s) :
    Settled token tcp udp ch env.addrOrder (refreshed env s token ch) where
  token := (tokenFor_renewed rfl).trans hs.token
  ip := hs.ip
  client := hs.client
  participant := hs.participant
  cached := by
    rw [Server.refreshed, lookup_peerCache_updateChannelPeers, if_pos rfl]
    rfl

theorem sameButAge (hs : Settled token tcp udp ch o s) :
    SameButAge token s (Server.refreshed env s token ch) where
  inner := rfl
  tokens t ht := by
    show (s.udpTokens.modify _ _).lookup t = _
    rw [lookup_modify, if_neg ht]
  owner := tokenFor_renewed rfl
  cache x := by
    rw [Server.refreshed, lookup_peerCache_updateChannelPeers]
    split
    · rename_i hx
      rw [hx, hs.cached, Option.map_some, Option.map_some]
      exact congrArg some ((env.addrOrder.coe_toList _).trans (o.coe_toList _).symm)
    · rfl

/-- A set that is traversed in the same order as before gives the same list. -/
theorem peerCache_refreshed (hs : Settled token tcp udp ch o s) (ho : env.addrOrder = o) :
    (Server.refreshed env s token ch).peerCache = s.peerCache := by
  refine Finmap.ext_lookup fun x => ?_
  rw [Server.refreshed, lookup_peerCache_updateChannelPeers]
  split
  · rename_i hx
    rw [hx, hs.cached, ho]
    rfl
  · rfl

end Settled

/-- A hello said again and again: the answers, and the state after the last. -/
def helloAgain (token : UInt64) (udp : SocketAddr) (s : ServerState) :
    List Env → List Bool × ServerState
  | [] => ([], s)
  | env :: envs =>
    let r := s.registerUdpByToken env token udp
    let rest := helloAgain token udp r.2 envs
    (r.1 :: rest.1, rest.2)

/-- Repeated hellos are all accepted, and leave everything as the first one did. -/
theorem Settled.helloAgain {o : HashOrder SocketAddr} (hs : Settled token tcp udp ch o s)
    (envs : List Env) :
    (∀ b ∈ (helloAgain token udp s envs).1, b = true) ∧
      SameButAge token s (helloAgain token udp s envs).2 ∧
      ((∀ env ∈ envs, env.addrOrder = o) →
        (helloAgain token udp s envs).2.peerCache = s.peerCache) := by
  induction envs generalizing s o with
  | nil => exact ⟨fun b hb => absurd hb List.not_mem_nil, .refl _ _, fun _ => rfl⟩
  | cons env envs ih =>
    obtain ⟨hall, hsame, hcache⟩ := ih (@hs.refreshed env)
    simp only [Server.helloAgain, hs.again]
    refine ⟨fun b hb => ?_, hs.sameButAge.trans hsame, fun ho => ?_⟩
    · rcases List.mem_cons.1 hb with rfl | hb
      · rfl
      · exact hall b hb
    · have henv : env.addrOrder = o := ho env List.mem_cons_self
      have hrest : ∀ env' ∈ envs, env'.addrOrder = env.addrOrder := fun env' h =>
        (ho env' (List.mem_cons_of_mem _ h)).trans henv.symm
      exact (hcache hrest).trans (hs.peerCache_refreshed henv)

/-! ## Reachable states -/

/-- **UDP hellos.**  In every state a run of operations reaches, a hello is accepted exactly
when its token is known, its owner registered and the two IP addresses are the same in
canonical form; a refused one leaves registry and cache as they were, and the token good for
a later hello from the right address; and after an accepted one the same hello is accepted
any number of times and changes nothing but the age of its token (a cached list is read off
its set again, which gives the same list wherever the set is traversed as before). -/
theorem hello_reachable (limits : Limits) (s : ServerState)
    (h : Reachable step (fun _ _ => True) (.new limits) s) (env : Env) (token : UInt64)
    (udp : SocketAddr) :
    ((s.registerUdpByToken env token udp).1 = true ↔ Accepts s token udp) ∧
      ((s.registerUdpByToken env token udp).1 = false →
        (s.registerUdpByToken env token udp).2 = s ∧
          ∀ env' udp', Accepts s token udp' →
            ((s.registerUdpByToken env token udp).2.registerUdpByToken env' token udp').1 =
              true) ∧
      ((s.registerUdpByToken env token udp).1 = true → ∀ envs,
        let s₁ := (s.registerUdpByToken env token udp).2
        (∀ b ∈ (helloAgain token udp s₁ envs).1, b = true) ∧
          SameButAge token s₁ (helloAgain token udp s₁ envs).2 ∧
          ((∀ env' ∈ envs, env'.addrOrder = env.addrOrder) →
            (helloAgain token udp s₁ envs).2.peerCache = s₁.peerCache)) := by
  have ho : TokensOwned s :=
    h.induct TokensOwned (tokensOwned_new limits) fun _ _ _ ho _ hs => ho.change (exec_change hs)
  refine ⟨registerUdpByToken_iff, fun hr => ?_, fun hr envs => ?_⟩
  · rw [ho.refused hr]
    exact ⟨rfl, fun env' udp' hacc => registerUdpByToken_iff.2 hacc⟩
  · obtain ⟨hr', -, -⟩ | ⟨_, _, _, -, -, hr', -⟩ | ⟨tcp, ch, created, c, ht, hip, -, -, heq⟩ :=
      registerUdpByToken_cases (Prod.mk.eta (p := s.registerUdpByToken env token udp)).symm
    · rw [hr'] at hr
      exact absurd hr (by simp)
    · rw [hr'] at hr
      exact absurd hr (by simp)
    · simp only [heq]
      exact (settled_greeted ht hip).helloAgain envs

/-- A member of `pub-x` says hello from behind its own IP address; one from elsewhere is
refused, and does not use the token up. -/
theorem hello_reachable_member : ∃ s : ServerState,
    ((s.registerUdpByToken (.sample 7 1) 5 (.v4 1 11)).1 = true ↔
        Accepts s 5 (.v4 1 11)) ∧ Accepts s 5 (.v4 1 11) ∧
      (s.registerUdpByToken (.sample 7 1) 5 (.v4 9 9)).2 = s := by
  let es : List Call := [(.sample 7 1, .registerClient (.v4 1 1)),
    (.sample 7 1, .createChannel (some "x")), (.sample 7 5, .joinChannel (.v4 1 1) "pub-x")]
  obtain ⟨s, hrun, hok, hno⟩ : ∃ s, runFrom step (.new ⟨0, 0⟩) es = some s ∧
      (s.registerUdpByToken (.sample 7 1) 5 (.v4 1 11)).1 = true ∧
      (s.registerUdpByToken (.sample 7 1) 5 (.v4 9 9)).1 = false := ⟨_, rfl, by decide, by decide⟩
  have hreach : Reachable step (fun _ _ => True) (.new ⟨0, 0⟩) s :=
    ⟨es, eachStep_true _ _, hrun⟩
  have hhello := hello_reachable ⟨0, 0⟩ s hreach (.sample 7 1) 5
  exact ⟨s, (hhello (.v4 1 11)).1, (hhello (.v4 1 11)).1.1 hok, ((hhello (.v4 9 9)).2.1 hno).1⟩

end Server
end TcVoice
